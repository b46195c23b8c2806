import RubySource.Ast.Basic
import RubySource.Comment.Placement
import RubySource.ParseTree.Verdict

/-!
# The commented tree of a parse tree

The commented tree keeps the code nodes of a parse tree, each with its text and with the comments
that a comment map places on it.  A field keeps its value if the first child in that field is among
those that are kept.

## What is here

* `ParseTree.fieldSteps` — the fields of a node that keep their value.
* `ParseTree.toAst` — the commented tree.
* `ParseTree.Accepted.toAst?` — the commented tree of an accepted parse tree, its comments placed.
-/

set_option autoImplicit false

namespace RubySource
namespace ParseTree

/-- The step to the kept child that is the value of a field. -/
def fieldStep? (t : ParseTree) (field : String) : Option Ast.Step :=
  (t.childInField? field).bind fun value =>
    (t.codeChildren.findIdx? (·.id == value.id)).map .child

/-- The fields of a node that keep their value, with the steps to it. -/
def fieldSteps (t : ParseTree) : List (String × Ast.Step) :=
  (Ast.Kind.ofType t.type).fieldNames.filterMap fun field =>
    (t.fieldStep? field).map fun step => (field, step)

/-- What a node says of itself in the commented tree. -/
def toInfo (source : Bytes) (comments : CommentMap) (t : ParseTree) : Ast.Info where
  kind := Ast.Kind.ofType t.type
  type := t.type
  source := t.sourceText source
  start := t.span.start
  stop := t.span.stop
  comments := comments.get t.id
  fields := t.fieldSteps

mutual

/-- The commented tree of a parse tree. -/
def toAst (source : Bytes) (comments : CommentMap) : ParseTree → Ast
  | .node label children =>
    .node (toInfo source comments (.node label children)) (toAstIn source comments children) []

/-- The commented trees of the code nodes among several parse trees. -/
def toAstIn (source : Bytes) (comments : CommentMap) : List ParseTree → List Ast
  | [] => []
  | t :: ts =>
    (if t.isCode then [toAst source comments t] else []) ++ toAstIn source comments ts

end

/-- The commented tree of an accepted parse tree, if it holds code. -/
def Accepted.toAst? (source : Bytes) (accepted : Accepted) : Option Ast :=
  accepted.root.map fun root =>
    root.toAst source (associate source none root accepted.comments)

end ParseTree
end RubySource
