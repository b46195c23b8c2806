/-!
# The family of loggers

Loggers go by names, and a logger is made when it is first asked for.  Its parent is the logger of
the nearest *scope* of its name, or the root of all loggers if no scope has one.  A scope is what
stands in front of a dot.  Scopes are looked for from the end of the name, and after each of them
the search goes on in front of its last character, so that a dot at the end of a scope is not a
boundary.

A scope that has no logger keeps a list of the loggers that asked for it.  When its logger is made,
it adopts those whose parent lies outside of it.

## What is here

* `LoggerFamily.scopes` — the scopes of a name, the nearest first.
* `LoggerFamily`, `LoggerFamily.make` — the loggers that were made, and the making of another.
* `LoggerFamily.isWithin` — whether a logger is another one or descends from it.
-/

set_option autoImplicit false

namespace RubySource

/-- What is known of a name. -/
inductive LoggerFamily.Slot
  /-- Its logger was made; without a parent it is a child of the root. -/
  | made (parent : Option String)
  /-- It is the scope of some loggers, but has none itself. -/
  | awaited (children : List String)
  deriving DecidableEq, Repr

/-- The loggers that were made, and the scopes they wait for. -/
structure LoggerFamily where
  slots : List (String × LoggerFamily.Slot)
  deriving DecidableEq, Repr

namespace LoggerFamily

/-- The name of the root of all loggers. -/
def rootName : String := "root"

/-- The name that a logger goes by; the empty name is that of the root. -/
def properName (name : String) : String :=
  if name.isEmpty then rootName else name

/-! ## Scopes -/

/-- The scopes in a name that is read backwards, themselves read backwards; `inScope` tells that the
next character is the last one of a scope. -/
def scopesFrom (inScope : Bool) : List Char → List (List Char)
  | [] => []
  | c :: cs =>
    if inScope then scopesFrom false cs
    else if c = '.' then (if cs.isEmpty then [] else cs :: scopesFrom true cs)
    else scopesFrom false cs

/-- The scopes of a name, the nearest first. -/
def scopes (name : String) : List String :=
  (scopesFrom false name.toList.reverse).map fun cs => String.ofList cs.reverse

/-! ## Making loggers -/

/-- The family that knows of no names. -/
def empty : LoggerFamily := ⟨[]⟩

/-- What is known of a name. -/
def slot? (f : LoggerFamily) (name : String) : Option Slot :=
  f.slots.lookup name

/-- Set what is known of a name. -/
def put (f : LoggerFamily) (name : String) (slot : Slot) : LoggerFamily :=
  ⟨(name, slot) :: f.slots.filter (·.1 != name)⟩

/-- Find a parent among scopes, and ask those before it, which have no logger, to be adopted. -/
def findParent (f : LoggerFamily) (name : String) : List String → LoggerFamily × Option String
  | [] => (f, none)
  | scope :: rest =>
    match f.slot? scope with
    | some (.made _) => (f, some scope)
    | some (.awaited children) =>
      (f.put scope (.awaited (children ++ [name]))).findParent name rest
    | none => (f.put scope (.awaited [name])).findParent name rest

/-- Put in a logger with its parent. -/
def join (f : LoggerFamily) (name : String) : LoggerFamily :=
  let found := f.findParent name (scopes name)
  found.1.put name (.made found.2)

/-- Let a logger adopt another, unless the name of its parent starts with the adopter's. -/
def adopt (name : String) (f : LoggerFamily) (child : String) : LoggerFamily :=
  match f.slot? child with
  | some (.made parent) =>
    if name.toList.isPrefixOf (parent.getD rootName).toList then f
    else f.put child (.made (some name))
  | _ => f

/-- The family with the logger of a name. -/
def make (f : LoggerFamily) (name : String) : LoggerFamily :=
  if name = rootName then f
  else
    match f.slot? name with
    | some (.made _) => f
    | some (.awaited children) => (children.foldl (adopt name) f).join name
    | none => f.join name

/-! ## Descent -/

/-- Whether a logger is another one or descends from it in some number of generations. -/
def descends (f : LoggerFamily) (top : String) : (generations : Nat) → String → Bool
  | 0, name => name == top
  | n + 1, name =>
    name == top ||
      match f.slot? name with
      | some (.made (some parent)) => f.descends top n parent
      | _ => false

/-- Whether a logger is another one or descends from it.  A parent's name is shorter than its
child's. -/
def isWithin (f : LoggerFamily) (top name : String) : Bool :=
  f.descends top name.length name

end LoggerFamily
end RubySource
