/-!
# Blanks

Two different sets of blanks are in use.  In a *text*, a blank is a character with the Unicode
white-space property or one of the four separators U+001C to U+001F.  In raw *bytes* only the six
ASCII blanks count, because a byte beyond them may be a part of some character.

## What is here

* `isBlank`, `trim`, `trimLeft` — blanks of a text.
* `isBlankByte`, `allBlank` — blanks of raw bytes.
* `trim_eq_nil_iff` — trimming leaves nothing exactly when there are only blanks.
* `head_trim_not_blank` — what trimming leaves does not start with a blank.
-/

set_option autoImplicit false

namespace RubySource
namespace Text

/-- Whether a character of a text is a blank. -/
def isBlank (c : Char) : Bool :=
  let n := c.toNat
  (9 ≤ n && n ≤ 13) || (0x1c ≤ n && n ≤ 0x20) || n == 0x85 || n == 0xa0 || n == 0x1680
    || (0x2000 ≤ n && n ≤ 0x200a) || n == 0x2028 || n == 0x2029 || n == 0x202f || n == 0x205f
    || n == 0x3000

/-- Drop the blanks at the start. -/
def trimLeft (cs : List Char) : List Char :=
  cs.dropWhile isBlank

/-- Drop the blanks at the end. -/
def trimRight : List Char → List Char
  | [] => []
  | c :: cs =>
    match trimRight cs with
    | [] => if isBlank c then [] else [c]
    | d :: ds => c :: d :: ds

/-- Drop the blanks at both ends. -/
def trim (cs : List Char) : List Char :=
  trimRight (trimLeft cs)

/-- Whether a raw byte is one of the six ASCII blanks. -/
def isBlankByte (b : UInt8) : Bool :=
  b == 0x20 || (9 ≤ b && b ≤ 13)

/-- Whether there is nothing but ASCII blanks. -/
def allBlank (bytes : List UInt8) : Bool :=
  bytes.all isBlankByte

theorem trimRight_cons_of_not_blank {c : Char} (cs : List Char) (h : isBlank c = false) :
    ∃ ds, trimRight (c :: cs) = c :: ds := by
  rw [trimRight]
  split
  · exact ⟨[], by simp [h]⟩
  · exact ⟨_, rfl⟩

/-- Trimming leaves nothing exactly when there are only blanks. -/
theorem trim_eq_nil_iff (cs : List Char) : trim cs = [] ↔ ∀ c ∈ cs, isBlank c = true := by
  induction cs with
  | nil => simp [trim, trimLeft, trimRight]
  | cons c cs ih =>
    by_cases h : isBlank c = true
    · have : trim (c :: cs) = trim cs := by simp [trim, trimLeft, List.dropWhile, h]
      rw [this, ih]
      simp [h]
    · have hf : isBlank c = false := by simpa using h
      obtain ⟨ds, hds⟩ := trimRight_cons_of_not_blank cs hf
      have : trim (c :: cs) = c :: ds := by
        rw [← hds]; simp [trim, trimLeft, List.dropWhile, hf]
      simp [this, hf]

/-- What trimming leaves does not start with a blank. -/
theorem head_trim_not_blank {cs ds : List Char} {d : Char} (h : trim cs = d :: ds) :
    isBlank d = false := by
  induction cs with
  | nil => simp [trim, trimLeft, trimRight] at h
  | cons c cs ih =>
    by_cases hc : isBlank c = true
    · exact ih (by rw [← h]; simp [trim, trimLeft, List.dropWhile, hc])
    · have hf : isBlank c = false := by simpa using hc
      obtain ⟨es, hes⟩ := trimRight_cons_of_not_blank cs hf
      have : trim (c :: cs) = c :: es := by
        rw [← hes]; simp [trim, trimLeft, List.dropWhile, hf]
      rw [this] at h
      injection h with h1 _
      rw [← h1]; exact hf

end Text
end RubySource
