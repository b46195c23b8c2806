import RubySource.Ast.Definition

/-!
# Properties

A node is asked for its properties by name.  Every node has some of them; the others belong to the
kinds that the property makes sense for, and asking another kind is an error.

## What is here

* `Ast.Answer` — what a property may be.
* `Ast.property` — the property of a name, if the kind of the node has it.
* `Ast.NoProperty` — the error otherwise, and its wording.
-/

set_option autoImplicit false

namespace RubySource
namespace Ast

/-- What a property of a node may be. -/
inductive Answer
  | text (s : String)
  | noText
  | number (n : Nat)
  | flag (b : Bool)
  | point (p : Point)
  | texts (ss : List String)
  | comments (cs : List Comment)
  | node (f : Found)
  | noNode
  | nodes (fs : List Found)

/-- A node or its absence as an answer. -/
def Answer.ofNode? : Option Found → Answer
  | some f => .node f
  | none => .noNode

/-- A text or its absence as an answer. -/
def Answer.ofText? : Option String → Answer
  | some s => .text s
  | none => .noText

/-- A property that the kind of a node lacks. -/
structure NoProperty where
  kind : Kind
  name : String
  deriving DecidableEq, Repr

/-- The wording of the error. -/
def NoProperty.message (e : NoProperty) : String :=
  "'" ++ e.kind.label ++ "' object has no attribute '" ++ e.name ++ "'"

/-- The children of a node, found from it. -/
def childrenFound (a : Ast) : List Found :=
  Found.children ⟨[], a⟩

/-- The properties of every node. -/
def commonProperty? (a : Ast) : String → Option Answer
  | "type" => some (.text a.type)
  | "source" => some (.text a.source)
  | "children" => some (.nodes a.childrenFound)
  | "comments" => some (.comments a.comments)
  | "start_point" => some (.point a.info.start)
  | "end_point" => some (.point a.info.stop)
  | "line" => some (.number a.line)
  | "last_line" => some (.number a.lastLine)
  | "column" => some (.number a.column)
  | "length" => some (.number a.size)
  | "full_comment" => some (.text a.fullComment)
  | "leading_comment" => some (.text a.leadingComment)
  | _ => none

/-- The properties of modules and classes. -/
def scopeProperty? (a : Ast) : String → Option Answer
  | "name" => some (.text (a.fieldText "name"))
  | "simple_name" => some (.text (simpleName (a.fieldText "name")))
  | "defined_methods" => some (.nodes a.definedMethods)
  | _ => none

/-- The properties of methods. -/
def methodProperty? (a : Ast) : String → Option Answer
  | "name" => some (.text (a.fieldText "name"))
  | "parameter_names" => some (.texts a.parameterNames)
  | _ => none

/-- The properties of calls. -/
def callProperty? (a : Ast) : String → Option Answer
  | "name" => some (.text (a.fieldText "method"))
  | "receiver" => some (.ofNode? (a.fieldFound? "receiver"))
  | "arguments" => some (.nodes a.argumentsFound)
  | _ => none

/-- The properties that a node has beyond the common ones. -/
def kindProperty? (a : Ast) (name : String) : Option Answer :=
  match a.kind with
  | .plain => none
  | .moduleDef => a.scopeProperty? name
  | .classDef =>
    if name == "superclass_name" then some (.ofText? a.superclassName?) else a.scopeProperty? name
  | .methodDef => a.methodProperty? name
  | .singletonDef =>
    if name == "receiver" then some (.ofNode? (a.fieldFound? "object"))
    else a.methodProperty? name
  | .call => a.callProperty? name

/-- The property of a name. -/
def property (a : Ast) (name : String) : Except NoProperty Answer :=
  match a.commonProperty? name <|> a.kindProperty? name with
  | some answer => .ok answer
  | none => .error ⟨a.kind, name⟩

/-- The name of a module or class within an outer scope. -/
def qualifiedName (a : Ast) (outer : String) : Except NoProperty String :=
  if a.kind.isScope then .ok (fullName outer (a.fieldText "name"))
  else .error ⟨a.kind, "full_name"⟩

end Ast
end RubySource
