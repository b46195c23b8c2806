import RubySource.Ast.Search
import RubySource.Text.Blank

/-!
# What definitions and calls say

Modules, classes, methods and calls are read through their fields: a name is the text of the field
that holds it, and nothing where the field has no value.

## What is here

* `Ast.fieldText` — the text of a field.
* `simpleName`, `fullName` — the parts of a scoped name.
* `Ast.definedMethods` — the methods that belong to a module itself.
* `Ast.superclassName?`, `Ast.parameterNames`, `Ast.argumentsFound`.
-/

set_option autoImplicit false

namespace RubySource
namespace Ast

/-- The text of the value of a field; empty where there is none. -/
def fieldText (a : Ast) (field : String) : String :=
  ((a.field? field).map source).getD ""

/-! ## Names -/

/-- The part of a scoped name behind its last pair of colons; `kept` is what is read of it so far,
backwards. -/
def lastPart (kept : List Char) : List Char → List Char
  | ':' :: ':' :: cs => lastPart [] cs
  | c :: cs => lastPart (c :: kept) cs
  | [] => kept.reverse

/-- A scoped name without its scope. -/
def simpleName (name : String) : String :=
  String.ofList (lastPart [] name.toList)

/-- A name within an outer scope. -/
def fullName (outer name : String) : String :=
  if outer.isEmpty then name else outer ++ "::" ++ name

/-! ## Modules and classes -/

/-- The methods of a module: those in its body, but not those of modules and classes nested in
it. -/
def definedMethods (a : Ast) : List Found :=
  match a.fieldStep? "body", a.field? "body" with
  | some step, some body =>
    ((body.eachNode (fun t => t == "method" || t == "singleton_method")
        fun t => t == "class" || t == "module").filter (·.node.kind.isMethod)).map
      fun f => ⟨step :: f.address, f.node⟩
  | _, _ => []

/-- The name of a class's superclass: the first part of the clause that names it. -/
def superclassName? (a : Ast) : Option String :=
  (a.field? "superclass").map fun clause =>
    match clause.children with
    | first :: _ => first.source
    | [] => String.ofList (Text.trim (clause.source.toList.dropWhile (· == '<')))

/-! ## Methods and calls -/

/-- The name that a parameter brings in: its own text, or that of the first identifier in it. -/
def parameterName? (a : Ast) : Option String :=
  if a.type == "identifier" then some a.source
  else (a.children.find? (·.type == "identifier")).map source

/-- The names of a method's parameters; a parameter without one is left out. -/
def parameterNames (a : Ast) : List String :=
  match a.field? "parameters" with
  | some parameters => parameters.children.filterMap parameterName?
  | none => []

/-- The value of a field, found from the node. -/
def fieldFound? (a : Ast) (field : String) : Option Found :=
  match a.fieldStep? field, a.field? field with
  | some step, some value => some ⟨[step], value⟩
  | _, _ => none

/-- The arguments of a call. -/
def argumentsFound (a : Ast) : List Found :=
  match a.fieldFound? "arguments" with
  | some f => f.children
  | none => []

end Ast
end RubySource
