import RubySource.Value.Text

/-!
# Reports of malformed text

Who refuses a text says why and, as far as it is known, where: the file, the line, the place in the
line and the line itself.  The check of Ruby trees knows all of these.  A grammar of any other
making says what it likes, in plain values, and leaves out what it does not know.

## What is here

* `SyntaxReport` — the report of the check of Ruby trees.
* `RawReport`, `RawReport.ofDetails` — the report of a grammar of any making, and how such a grammar
  has to put its details.
* `SyntaxReport.headline`, `RawReport.headline` — the message followed by the last part of the
  file's name and the line.
-/

set_option autoImplicit false

namespace RubySource

/-- The last part of a path. -/
def FilePath.baseName (path : String) : String :=
  String.ofList (path.toList.reverse.takeWhile (· ≠ '/')).reverse

/-- Why and where the check of Ruby trees refuses a text. -/
structure SyntaxReport where
  message : String
  file : String
  line : Nat
  column : Nat
  /-- The line that the report is about. -/
  text : String
  deriving DecidableEq, Repr

/-- A message, and in parentheses what is known of the place. -/
def headlineText (message : String) (file line : Option String) : String :=
  match file.map FilePath.baseName, line with
  | none, none => message
  | some file, none => message ++ " (" ++ file ++ ")"
  | none, some line => message ++ " (line " ++ line ++ ")"
  | some file, some line => message ++ " (" ++ file ++ ", line " ++ line ++ ")"

/-- The message, and in parentheses the place. -/
def SyntaxReport.headline (r : SyntaxReport) : String :=
  headlineText r.message (some r.file) (some (toString r.line))

/-- The rule that a text breaks. -/
inductive RawReport.Rule
  | general
  | indentation
  | tabs
  deriving DecidableEq, Repr

/-- Why and where a grammar of any making refuses a text; what is not known is no value. -/
structure RawReport where
  rule : RawReport.Rule
  message : Value String
  file : Value String
  line : Value String
  offset : Value String
  text : Value String

namespace RawReport

/-- A line number as it is written: one that does not fit a machine word is lost. -/
def lineText (n : Int) : String :=
  if -(Int.pow 2 63) ≤ n ∧ n < Int.pow 2 63 then toString n else "-1"

/-- The message, and in parentheses what is known of the place.  Only a text is a file, and only a
whole number is a line. -/
def headline (r : RawReport) : String :=
  let file := match r.file with
    | .text s => some s
    | _ => none
  let line := match r.line with
    | .int n => some (lineText n)
    | _ => none
  headlineText r.message.shown file line

/-- The details of a place: the items of a list, the characters of a text, or the keys of a
table. -/
def placeDetails : Value String → Except String (List (Value String))
  | .list items => .ok items
  | .text s => .ok (s.toList.map fun c => .text (String.singleton c))
  | .table entries => .ok (entries.map fun e => .text e.1)
  | v => .error ("'" ++ v.fixedTypeName ++ "' object is not iterable")

/-- A report with a place: file, line, offset and text, and nothing or both ends of a range. -/
def withPlace (r : RawReport) : List (Value String) → Except String RawReport
  | [file, line, offset, text] | [file, line, offset, text, _, _] =>
    .ok { r with file := file, line := line, offset := offset, text := text }
  | [_, _, _, _, _] => .error "end_offset must be provided when end_lineno is provided"
  | details =>
    .error ("function takes at " ++ (if details.length < 4 then "least 4" else "most 6")
      ++ " arguments (" ++ toString details.length ++ " given)")

/-- A report from a message and, if there are two details, a place; an error if these are no
place. -/
def ofDetails (rule : Rule) : List (Value String) → Except String RawReport
  | [message, place] =>
    match placeDetails place with
    | .ok details => withPlace ⟨rule, message, .null, .null, .null, .null⟩ details
    | .error e => .error e
  | message :: _ => .ok ⟨rule, message, .null, .null, .null, .null⟩
  | [] => .ok ⟨rule, .null, .null, .null, .null, .null⟩

end RawReport
end RubySource
