/-!
# Lines

Lines of a text end at a line feed, a carriage return, the pair of them, a vertical tab, a form
feed, the separators U+001C to U+001E, U+0085, U+2028 or U+2029.  Files opened as text know a
narrower rule: there only the line feed, the carriage return and their pair end a line, and each is
read as one line feed.

## What is here

* `isLineBreak`, `lines` — the lines of a text, without what ends them; a break at the very end
  opens no further line.
* `unifyNewlines` — the reading of a text file.
* `splitAfterNewline` — raw bytes cut after each line feed.
* `flatten_splitAfterNewline` — no byte is lost by that cut.
-/

set_option autoImplicit false

namespace RubySource
namespace Text

/-- Whether a character ends a line. -/
def isLineBreak (c : Char) : Bool :=
  let n := c.toNat
  (10 ≤ n && n ≤ 13) || (0x1c ≤ n && n ≤ 0x1e) || n == 0x85 || n == 0x2028 || n == 0x2029

/-- The line in front, `line` being the part of it already read, backwards. -/
def linesFrom (line : List Char) : List Char → List (List Char)
  | [] => if line.isEmpty then [] else [line.reverse]
  | '\r' :: '\n' :: cs => line.reverse :: linesFrom [] cs
  | c :: cs => if isLineBreak c then line.reverse :: linesFrom [] cs else linesFrom (c :: line) cs

/-- The lines of a text, without the breaks that end them. -/
def lines (cs : List Char) : List (List Char) :=
  linesFrom [] cs

/-- Read a carriage return, alone or before a line feed, as a line feed. -/
def unifyNewlines : List Char → List Char
  | [] => []
  | '\r' :: '\n' :: cs => '\n' :: unifyNewlines cs
  | c :: cs => (if c = '\r' then '\n' else c) :: unifyNewlines cs

/-- Raw bytes cut after each line feed; the last piece may lack one. -/
def splitAfterNewline : List UInt8 → List (List UInt8)
  | [] => []
  | b :: bs =>
    if b = 10 then [b] :: splitAfterNewline bs
    else
      match splitAfterNewline bs with
      | [] => [[b]]
      | line :: rest => (b :: line) :: rest

/-- No byte is lost or moved by cutting after line feeds. -/
theorem flatten_splitAfterNewline (bs : List UInt8) : (splitAfterNewline bs).flatten = bs := by
  induction bs with
  | nil => rfl
  | cons b bs ih =>
    rw [splitAfterNewline]
    split
    · simp [ih]
    · split
      next h => rw [h] at ih; simp [← ih]
      next line rest h => rw [h] at ih; simp [← ih]

end Text
end RubySource
