import RubySource.Text.Hex
import RubySource.Text.Printable

/-!
# Quoted texts

A text is quoted between single quotes, or between double quotes when it holds a single quote and no
double one.  Inside, the backslash and the chosen quote are escaped by a backslash, three control
characters have letters of their own, every other character that is not printable is written by its
code point in hexadecimal (two, four or eight digits), and all else stands for itself.

## What is here

* `quoteMark` — the choice of the quote.
* `escape` — one character inside a quoted text.
* `quoted` — the whole text, quotes included; `String.quoted` for strings.
* `quotedBytes` — the same for raw bytes, marked by a `b` in front.
-/

set_option autoImplicit false

namespace RubySource
namespace Text

/-- The quote used around a text. -/
def quoteMark (cs : List Char) : Char :=
  if cs.contains '\'' && !cs.contains '"' then '"' else '\''

/-- How a character is written between the given quotes. -/
def escape (mark c : Char) : List Char :=
  if c = mark ∨ c = '\\' then ['\\', c]
  else if c = '\n' then ['\\', 'n']
  else if c = '\r' then ['\\', 'r']
  else if c = '\t' then ['\\', 't']
  else if isPrintable c then [c]
  else if c.toNat < 0x100 then '\\' :: 'x' :: hexDigits 2 c.toNat
  else if c.toNat < 0x10000 then '\\' :: 'u' :: hexDigits 4 c.toNat
  else '\\' :: 'U' :: hexDigits 8 c.toNat

/-- A text between quotes. -/
def quoted (cs : List Char) : List Char :=
  quoteMark cs :: cs.flatMap (escape (quoteMark cs)) ++ [quoteMark cs]

/-- Raw bytes between quotes, behind a `b`; a byte beyond ASCII is written by its number. -/
def quotedBytes (bytes : List UInt8) : List Char :=
  let cs := bytes.map fun b => Char.ofNat b.toNat
  let mark := quoteMark cs
  let write (c : Char) : List Char :=
    if c.toNat < 0x80 then escape mark c else '\\' :: 'x' :: hexDigits 2 c.toNat
  'b' :: mark :: cs.flatMap write ++ [mark]

end Text

/-- A string between quotes. -/
def quoted (s : String) : String :=
  String.ofList (Text.quoted s.toList)

end RubySource
