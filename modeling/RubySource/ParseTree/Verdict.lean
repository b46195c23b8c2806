import RubySource.Comment.Basic
import RubySource.SyntaxReport
import RubySource.Text.Blank
import RubySource.Text.Line
import RubySource.Text.Quoted

/-!
# Accepting or refusing a parse tree

A grammar that recovers from errors answers every text with a tree and marks in it what went wrong.
A tree is refused if it bears such a mark, and then the first node that is a problem is reported.  A
tree without marks can still be wrong: a surplus keyword may have been read as a plain identifier.
Such a stray keyword is a problem too, unless it stands where a method's name does.

A tree that is accepted comes with all of its comments, and with its root if it holds any code.

## What is here

* `firstProblem?`, `strayKeyword?` — the two searches; `problem?` chooses between them.
* `reservedWords`, `methodNameField?` — the words, and the places where they are names.
* `quotedLine`, `unexpectedToken`, `complaint`, `refusal` — the report on a problem.
* `verdict` — refuse with a report, or accept.
-/

set_option autoImplicit false

namespace RubySource
namespace ParseTree

/-! ## Problems -/

mutual

/-- The first problem node at or below a node.  Only children marked as faulty are looked into, and
one that holds no problem node is passed over. -/
def firstProblem? : ParseTree → Option ParseTree
  | .node label children =>
    if label.isProblem then some (.node label children) else firstProblemIn? children

/-- The first problem node at or below several trees. -/
def firstProblemIn? : List ParseTree → Option ParseTree
  | [] => none
  | t :: ts => (if t.hasError then firstProblem? t else none).orElse fun _ => firstProblemIn? ts

end

/-- The words that are never read as a variable or as a bare call. -/
def reservedWords : List String :=
  ["BEGIN", "END", "alias", "and", "begin", "break", "case", "class", "def", "do", "else", "elsif",
   "end", "ensure", "for", "if", "in", "module", "next", "not", "or", "redo", "rescue", "retry",
   "return", "then", "undef", "unless", "until", "when", "while"]

/-- The field in which a node of a type holds a method's name. -/
def methodNameField? (type : String) : Option String :=
  [("call", "method"), ("method", "name"), ("singleton_method", "name")].lookup type

/-- The identity of the child that is a method's name. -/
def methodName? (t : ParseTree) : Option Nat :=
  (methodNameField? t.type).bind fun field => (t.childInField? field).map id

mutual

/-- The first stray keyword at or below a node.  `name` is the identity of the node that is a
method's name under the parent. -/
def strayKeyword? (source : Bytes) (name : Option Nat) : ParseTree → Option ParseTree
  | .node label children =>
    let t := ParseTree.node label children
    if label.type == "identifier" then
      if reservedWords.contains (t.sourceText source) && name != some label.id then some t else none
    else strayKeywordIn? source t.methodName? children

/-- The first stray keyword at or below the named ones of several trees. -/
def strayKeywordIn? (source : Bytes) (name : Option Nat) : List ParseTree → Option ParseTree
  | [] => none
  | t :: ts =>
    (if t.label.named then strayKeyword? source name t else none).orElse fun _ =>
      strayKeywordIn? source name ts

end

/-- The node to report: the first problem of a marked tree, or its root, and a stray keyword of a
tree without marks. -/
def problem? (source : Bytes) (root : ParseTree) : Option ParseTree :=
  if root.hasError then some (root.firstProblem?.getD root)
  else root.strayKeyword? source none

/-! ## The report -/

/-- The line of a text at a row; nothing if there is no such line. -/
def quotedLine (text : List Char) (row : Nat) : List Char :=
  (Text.lines text)[row]?.getD []

/-- The first line of what a node covers, blanks at its ends left out. -/
def unexpectedToken (source : Bytes) (t : ParseTree) : List Char :=
  ((Text.lines (Text.trim (Utf8.decodeLossy (t.text source)))).head?).getD []

/-- What is wrong at a problem node. -/
def complaint (source : Bytes) (t : ParseTree) : String :=
  if t.label.isMissing then "missing " ++ quoted t.type
  else if (t.unexpectedToken source).isEmpty then "unexpected end of input"
  else "unexpected " ++ String.ofList (Text.quoted (t.unexpectedToken source))

/-- The report on a problem node of a text. -/
def refusal (text origin : String) (t : ParseTree) : SyntaxReport :=
  let row := t.span.start.row
  let column := t.span.start.column
  let place := " at line " ++ toString (row + 1) ++ ", column " ++ toString (column + 1)
  { message := t.complaint (Utf8.ofString text) ++ place
    file := origin
    line := row + 1
    column := column + 1
    text := String.ofList (quotedLine text.toList row) }

/-! ## The verdict -/

/-- Whether a tree holds any code. -/
def hasCode (root : ParseTree) : Bool :=
  root.children.any isCode

/-- What is handed on of an accepted tree. -/
structure Accepted where
  /-- The tree, unless it holds no code. -/
  root : Option ParseTree
  comments : List Comment

/-- Refuse the tree of a text with a report, or hand on its comments and what code it holds. -/
def verdict (text origin : String) (root : ParseTree) : Except SyntaxReport Accepted :=
  let source := Utf8.ofString text
  match root.problem? source with
  | some t => .error (t.refusal text origin)
  | none => .ok ⟨if root.hasCode then some root else none, root.comments source⟩

end ParseTree
end RubySource
