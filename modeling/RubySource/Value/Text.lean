import RubySource.Decimal.Layout
import RubySource.Text.Quoted
import RubySource.Value.Basic

/-!
# The text of a value

Values are written into messages: texts in quotes, the others by their words and digits, lists and
tables item by item.  Where a sequence of fixed length is meant, its items stand in parentheses,
with a comma after a single one.

## What is here

* `Value.written` — the text of a value.
* `Value.shown` — the same, except that a text stands for itself.
* `tupleText` — the text of a sequence of fixed length.
-/

set_option autoImplicit false

namespace RubySource

/-- Texts joined by a comma and a space. -/
def commaJoined : List String → String
  | [] => ""
  | [s] => s
  | s :: rest => s ++ ", " ++ commaJoined rest

/-- The text of a sequence of fixed length, from the texts of its items. -/
def tupleText : List String → String
  | [s] => "(" ++ s ++ ",)"
  | items => "(" ++ commaJoined items ++ ")"

/-- The text of a list, from the texts of its items. -/
def listText (items : List String) : String :=
  "[" ++ commaJoined items ++ "]"

namespace Value

section

variable {τ : Type} [Wording τ]

mutual

/-- The text of a value; `sequence` writes the lists in it. -/
def write (sequence : List String → String) : Value τ → String
  | .null => "None"
  | .bool true => "True"
  | .bool false => "False"
  | .int n => toString n
  | .real x => Decimal.floatText x
  | .text s => Wording.quoted s
  | .list items => sequence (writeItems sequence items)
  | .table entries => "\x7b" ++ commaJoined (writeEntries sequence entries) ++ "\x7d"

/-- The texts of several values. -/
def writeItems (sequence : List String → String) : List (Value τ) → List String
  | [] => []
  | v :: vs => write sequence v :: writeItems sequence vs

/-- The texts of the entries of a table. -/
def writeEntries (sequence : List String → String) : List (τ × Value τ) → List String
  | [] => []
  | (k, v) :: rest => (Wording.quoted k ++ ": " ++ write sequence v) :: writeEntries sequence rest

end

/-- The text of a value. -/
def written (v : Value τ) : String := v.write listText

/-- The text of a value whose lists are sequences of fixed length. -/
def writtenFixed (v : Value τ) : String := v.write tupleText

end

/-- The text of a value as a message of its own: a text stands for itself. -/
def shown : Value String → String
  | .text s => s
  | v => v.writtenFixed

end Value
end RubySource
