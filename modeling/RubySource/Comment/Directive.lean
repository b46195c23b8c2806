import RubySource.Comment.Basic
import RubySource.Text.Blank

/-!
# Directives

The comments at the top of a file may speak to tools rather than to readers: a shebang line, a magic
comment, and a comment that names the encoding, in this order.  At most one of each is passed over,
and each may be absent: the first comment that is left is tried for every kind that is still due.

## What is here

* `isShebang`, `isMagic`, `namesEncoding` — the three kinds, told by the text alone.
* `dropDirectives` — a sequence of comments without those at its front;
  `dropDirectives_eq_drop` says that at most three go.
-/

set_option autoImplicit false

namespace RubySource
namespace Directive

/-- Whether a text starts with a word. -/
def startsWith (word : String) (cs : List Char) : Bool :=
  word.toList.isPrefixOf cs

/-- A line that tells which program runs the file. -/
def isShebang (text : String) : Bool :=
  startsWith "#!" text.toList

/-- The words that make a comment a magic one. -/
def magicWords : List String :=
  ["-*-", "frozen_string_literal", "warn_indent", "warn_past_scope", "shareable_constant_value"]

/-- A comment whose first word is a magic one. -/
def isMagic (text : String) : Bool :=
  match text.toList with
  | '#' :: cs => magicWords.any fun word => startsWith word (Text.trimLeft cs)
  | _ => false

/-- Whether a character may stand in the name of an encoding. -/
def isNameChar (c : Char) : Bool :=
  c.isAlphanum || c == '_' || c == '-'

/-- Whether a name follows, after blanks. -/
def nameFollows (cs : List Char) : Bool :=
  match Text.trimLeft cs with
  | c :: _ => isNameChar c
  | [] => false

/-- Whether a colon or an equals sign and a name follow, with blanks around the sign. -/
def valueFollows (cs : List Char) : Bool :=
  match Text.trimLeft cs with
  | c :: rest => (c == ':' || c == '=') && nameFollows rest
  | [] => false

/-- Whether the word for an encoding, long or short, and its value follow. -/
def encodingFollows (cs : List Char) : Bool :=
  (startsWith "encoding" cs && valueFollows (cs.drop 8))
    || (startsWith "coding" cs && valueFollows (cs.drop 6))

/-- Whether an encoding is named anywhere, behind a blank or a number sign. -/
def namesEncodingIn : List Char → Bool
  | [] => false
  | c :: cs => ((Text.isBlank c || c == '#') && encodingFollows cs) || namesEncodingIn cs

/-- A comment that names the encoding of the file. -/
def namesEncoding (text : String) : Bool :=
  namesEncodingIn text.toList

/-- Drop the first comment if it is of a kind. -/
def dropIf (kind : String → Bool) : List Comment → List Comment
  | [] => []
  | c :: cs => if kind c.text then cs else c :: cs

/-- The comments without the directives at their front. -/
def dropDirectives (cs : List Comment) : List Comment :=
  dropIf namesEncoding (dropIf isMagic (dropIf isShebang cs))

theorem dropIf_eq_drop (kind : String → Bool) (cs : List Comment) :
    ∃ d, d ≤ 1 ∧ d ≤ cs.length ∧ dropIf kind cs = cs.drop d := by
  cases cs with
  | nil => exact ⟨0, by simp [dropIf]⟩
  | cons c cs =>
    by_cases h : kind c.text = true
    · exact ⟨1, by simp [dropIf, h]⟩
    · exact ⟨0, by simp [dropIf, h]⟩

/-- At most three comments go, all from the front. -/
theorem dropDirectives_eq_drop (cs : List Comment) :
    ∃ d, d ≤ 3 ∧ d ≤ cs.length ∧ dropDirectives cs = cs.drop d := by
  obtain ⟨d₁, h₁, l₁, e₁⟩ := dropIf_eq_drop isShebang cs
  obtain ⟨d₂, h₂, l₂, e₂⟩ := dropIf_eq_drop isMagic (cs.drop d₁)
  obtain ⟨d₃, h₃, l₃, e₃⟩ := dropIf_eq_drop namesEncoding ((cs.drop d₁).drop d₂)
  refine ⟨d₁ + d₂ + d₃, by omega, ?_, ?_⟩
  · simp only [List.length_drop] at l₂ l₃; omega
  · rw [dropDirectives, e₁, e₂, e₃, List.drop_drop, List.drop_drop, Nat.add_assoc]

end Directive
end RubySource
