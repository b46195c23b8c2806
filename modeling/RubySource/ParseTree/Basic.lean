import RubySource.Text.Utf8

/-!
# Concrete parse trees

A grammar answers a text with a tree that covers every token: named nodes, which the grammar gives a
type worth knowing, and anonymous ones, which are the tokens in between.  A node carries an identity
that no other node of its tree has, the field under which its parent holds it, and its place in the
source.  Places are taken as they are given: nothing here asks them to agree with the text or with
one another.

Trees may be as deep as they like.  A program that walks them by calling itself runs out of stack
on a tree that is deep enough; the walks here do not.  The greatest depth of a text of settings is
another matter, and is told in `Json.document`.

A *code node* is a named node that is not a comment.  All that reads a tree for its meaning — the
placing of comments, the commented tree — walks from a code node to the code nodes among its
children; `codeNodes` is that walk.

## What is here

* `Point`, `Span` — places in a source.
* `ParseTree.Label`, `ParseTree` — nodes and trees.
* `text`, `sourceText` — the bytes and the text that a node covers.
* `hasError` — whether a node or something below it is marked as faulty.
* `nodes`, `codeNodes` — all nodes, and those reached through code nodes only, in preorder.
* `codeChildren`, `childInField?` — the children by role.
-/

set_option autoImplicit false

namespace RubySource

/-- A row and a column, both counted from zero; columns count bytes. -/
structure Point where
  row : Nat
  column : Nat
  deriving DecidableEq, Repr, Inhabited

/-- The stretch of a source from one place to another. -/
structure Span where
  startByte : Nat
  stopByte : Nat
  start : Point
  stop : Point
  deriving DecidableEq, Repr, Inhabited

/-- What a node of a parse tree says of itself. -/
structure ParseTree.Label where
  /-- The identity of the node within its tree. -/
  id : Nat
  type : String
  named : Bool
  /-- The grammar could not make sense of the tokens here. -/
  isError : Bool
  /-- The grammar put this token in because it was needed. -/
  isMissing : Bool
  /-- The grammar says that something is wrong below, whether or not a node shows it. -/
  faultyBelow : Bool
  /-- The role of the node under its parent. -/
  field : Option String
  span : Span
  deriving DecidableEq, Repr, Inhabited

/-- A concrete parse tree. -/
inductive ParseTree
  | node (label : ParseTree.Label) (children : List ParseTree)
  deriving Repr, Inhabited

namespace ParseTree

def label : ParseTree → Label
  | .node label _ => label

def children : ParseTree → List ParseTree
  | .node _ children => children

def id (t : ParseTree) : Nat := t.label.id

def type (t : ParseTree) : String := t.label.type

def span (t : ParseTree) : Span := t.label.span

def startByte (t : ParseTree) : Nat := t.span.startByte

def stopByte (t : ParseTree) : Nat := t.span.stopByte

/-- The bytes of the source that a node covers. -/
def text (source : Bytes) (t : ParseTree) : Bytes :=
  Bytes.slice source t.startByte t.stopByte

/-- The text that a node covers, read over what is no UTF-8. -/
def sourceText (source : Bytes) (t : ParseTree) : String :=
  String.ofList (Utf8.decodeLossy (t.text source))

/-! ## Faults -/

/-- Whether the node itself is a place of trouble. -/
def Label.isProblem (l : Label) : Bool :=
  l.isError || l.isMissing

mutual

/-- Whether a node or something below it is marked as faulty. -/
def hasError : ParseTree → Bool
  | .node label children => label.isProblem || label.faultyBelow || anyHasError children

/-- Whether one of several trees is marked as faulty. -/
def anyHasError : List ParseTree → Bool
  | [] => false
  | t :: ts => hasError t || anyHasError ts

end

/-! ## Nodes by role -/

/-- Whether a node is a comment. -/
def isComment (t : ParseTree) : Bool := t.type == "comment"

/-- Whether a node is a part of the code: named, and not a comment. -/
def isCode (t : ParseTree) : Bool := t.label.named && !t.isComment

/-- The children that are parts of the code. -/
def codeChildren (t : ParseTree) : List ParseTree := t.children.filter isCode

/-- The first child in a field, whatever it is. -/
def childInField? (t : ParseTree) (field : String) : Option ParseTree :=
  t.children.find? (·.label.field == some field)

/-- Whether a node only wraps a sequence of statements. -/
def isWrapper (t : ParseTree) : Bool :=
  t.type == "program" || t.type == "body_statement"

/-- Whether a node is a definition, which owns the comments beside its header. -/
def isDefinition (t : ParseTree) : Bool :=
  t.type == "class" || t.type == "module" || t.type == "method" || t.type == "singleton_method"

mutual

/-- All nodes of a tree, in preorder. -/
def nodes : ParseTree → List ParseTree
  | .node label children => .node label children :: nodesIn children

/-- All nodes of several trees, in preorder. -/
def nodesIn : List ParseTree → List ParseTree
  | [] => []
  | t :: ts => nodes t ++ nodesIn ts

end

mutual

/-- The nodes reached from a node through code nodes only, itself included, in preorder. -/
def codeNodes : ParseTree → List ParseTree
  | .node label children => .node label children :: codeNodesIn children

/-- The nodes reached from the code nodes among several trees. -/
def codeNodesIn : List ParseTree → List ParseTree
  | [] => []
  | t :: ts => (if t.isCode then codeNodes t else []) ++ codeNodesIn ts

end

/-- The node with an identity. -/
def findById? (t : ParseTree) (id : Nat) : Option ParseTree :=
  t.nodes.find? (·.id == id)

/-- The parent of the node at the end of a path of child positions, and that node. -/
def descend? (parent : Option ParseTree) (t : ParseTree) :
    List Nat → Option (Option ParseTree × ParseTree)
  | [] => some (parent, t)
  | i :: path =>
    match t.children[i]? with
    | some child => descend? (some t) child path
    | none => none

end ParseTree
end RubySource
