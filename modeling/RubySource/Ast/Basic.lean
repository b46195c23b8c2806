import RubySource.Comment.Basic
import RubySource.Text.Quoted

/-!
# Commented trees

A commented tree is what detectors of bad style work on: the named nodes of the source, each with
the text it covers and the comments that document it.  Nodes of a few kinds know their parts by
name; a part is a *field*, and its value is normally one of the node's own children.  A tree that is
put together by hand may name other nodes as well; these are kept beside the children as *annexed*
nodes.

Every node that can be reached from the root has an address, the steps that lead to it.  Nodes are
told apart by their addresses alone.

As with parse trees, no depth is too great for a walk: the limit that a stack of calls sets to walks
and to the writing of expressions is left out.

## What is here

* `Ast.Kind`, `Ast.Kind.ofType`, `Ast.Kind.fieldNames` — the kinds of nodes and their fields.
* `Ast.Info`, `Ast` — nodes and trees.
* `Ast.Step`, `Ast.Address`, `Ast.at?` — addresses; `at?_append` splits them.
* `Ast.size` — the number of nodes, annexed ones left out.
* `Ast.write` — the tree as a bracketed expression with the quoted texts of its leaves.
* `fullComment`, `leadingComment` — the comments of a node as text.
-/

set_option autoImplicit false

namespace RubySource

/-- A kind of node. -/
inductive Ast.Kind
  | plain
  | moduleDef
  | classDef
  | methodDef
  /-- A method that is defined on one object. -/
  | singletonDef
  | call
  deriving DecidableEq, Repr, Inhabited

namespace Ast.Kind

/-- The kind of the nodes of a type. -/
def ofType (type : String) : Kind :=
  ([("module", moduleDef), ("class", classDef), ("method", methodDef),
    ("singleton_method", singletonDef), ("call", call)].lookup type).getD plain

/-- The fields of a kind. -/
def fieldNames : Kind → List String
  | plain => []
  | moduleDef => ["name", "body"]
  | classDef => ["name", "superclass", "body"]
  | methodDef => ["name", "parameters", "body"]
  | singletonDef => ["object", "name", "parameters", "body"]
  | call => ["receiver", "method", "arguments"]

/-- The word for a kind. -/
def label : Kind → String
  | plain => "Node"
  | moduleDef => "ModuleNode"
  | classDef => "ClassNode"
  | methodDef => "MethodNode"
  | singletonDef => "SingletonMethodNode"
  | call => "CallNode"

/-- The kind that a word stands for. -/
def ofLabel? (word : String) : Option Kind :=
  [plain, moduleDef, classDef, methodDef, singletonDef, call].find? (·.label == word)

/-- Whether a kind holds definitions in a scope of its own. -/
def isScope : Kind → Bool
  | moduleDef | classDef => true
  | _ => false

/-- Whether a kind defines a method. -/
def isMethod : Kind → Bool
  | methodDef | singletonDef => true
  | _ => false

end Ast.Kind

/-- A step from a node to another: to a child or to an annexed node, by position. -/
inductive Ast.Step
  | child (i : Nat)
  | annexed (i : Nat)
  deriving DecidableEq, Repr

/-- The steps that lead to a node. -/
abbrev Ast.Address := List Ast.Step

/-- What a node says of itself. -/
structure Ast.Info where
  kind : Ast.Kind
  type : String
  /-- The text that the node covers. -/
  source : String
  start : Point
  stop : Point
  comments : List Comment
  /-- The values of the fields that have one. -/
  fields : List (String × Ast.Step)
  deriving DecidableEq, Repr, Inhabited

/-- A tree of named nodes with their comments. -/
inductive Ast
  | node (info : Ast.Info) (children annexed : List Ast)
  deriving Inhabited

namespace Ast

def info : Ast → Info
  | .node info _ _ => info

def children : Ast → List Ast
  | .node _ children _ => children

def annexed : Ast → List Ast
  | .node _ _ annexed => annexed

def kind (a : Ast) : Kind := a.info.kind

def type (a : Ast) : String := a.info.type

def source (a : Ast) : String := a.info.source

def comments (a : Ast) : List Comment := a.info.comments

/-! ## Addresses -/

/-- The node one step away. -/
def step? (a : Ast) : Step → Option Ast
  | .child i => a.children[i]?
  | .annexed i => a.annexed[i]?

/-- The node at an address. -/
def at? (a : Ast) : Address → Option Ast
  | [] => some a
  | s :: rest => (a.step? s).bind fun next => next.at? rest

theorem at?_append (a : Ast) (p q : Address) : a.at? (p ++ q) = (a.at? p).bind (·.at? q) := by
  induction p generalizing a with
  | nil => rfl
  | cons s p ih =>
    cases h : a.step? s with
    | none => simp [at?, h]
    | some next => simp [at?, h, ih]

/-- The step to the value of a field, if the field has one. -/
def fieldStep? (a : Ast) (name : String) : Option Step :=
  a.info.fields.lookup name

/-- The value of a field. -/
def field? (a : Ast) (name : String) : Option Ast :=
  (a.fieldStep? name).bind a.step?

/-! ## Places -/

/-- The first line of a node, counted from one. -/
def line (a : Ast) : Nat := a.info.start.row + 1

/-- The last line of a node, counted from one. -/
def lastLine (a : Ast) : Nat := a.info.stop.row + 1

/-- The first column of a node, counted from one. -/
def column (a : Ast) : Nat := a.info.start.column + 1

/-! ## Size and text -/

mutual

/-- The number of nodes of a tree. -/
def size : Ast → Nat
  | .node _ children _ => 1 + sizeIn children

/-- The number of nodes of several trees. -/
def sizeIn : List Ast → Nat
  | [] => 0
  | a :: rest => size a + sizeIn rest

end

mutual

/-- A tree as an expression: the type, then the children, or the quoted text of a leaf. -/
def write : Ast → List Char
  | .node info [] _ =>
    '(' :: info.type.toList ++ ' ' :: Text.quoted info.source.toList ++ [')']
  | .node info (a :: rest) _ => '(' :: info.type.toList ++ writeIn (a :: rest) ++ [')']

/-- Several trees as expressions, with a space in front of each. -/
def writeIn : List Ast → List Char
  | [] => []
  | a :: rest => ' ' :: write a ++ writeIn rest

end

/-- A tree as an expression. -/
def text (a : Ast) : String := String.ofList a.write

/-! ## Comments -/

/-- Texts as lines of one text. -/
def joinLines (texts : List String) : String :=
  "\n".intercalate texts

/-- All comments of a node, one to a line. -/
def fullComment (a : Ast) : String :=
  joinLines (a.comments.map (·.text))

/-- The comments of a node that start on an earlier line, one to a line. -/
def leadingComment (a : Ast) : String :=
  joinLines ((a.comments.filter (·.line < a.line)).map (·.text))

end Ast
end RubySource
