import RubySource.Ast.OfParseTree
import RubySource.Failure.Fault

/-!
# Code units

A code unit is a piece of source with its origin, and a commented tree that is built when it is
first asked for.  While the grammar is at work on the tree the unit is being built; a tree that has
been built is kept for good, and a failure leaves the unit as it was.

The grammar may ask the unit for its tree while it is building that very tree.  Such a request is
always refused.

## What is here

* `CodeUnit.Phase` — the stages of a unit's life.
* `Built` — a tree together with the build that made it; the build tells apart trees that look
  alike.
* `CodeUnit`, `CodeUnit.description` — units, and how they are shown.
* `RequestError` — why a request for the tree is not met.
* `CodeUnit.settled?` — the answer to a request that needs no build.
-/

set_option autoImplicit false

namespace RubySource

/-- The tree of a unit, absent if there is no code, and the number of the build that made it. -/
structure Built where
  build : Nat
  tree : Option Ast
  deriving Inhabited

/-- A stage in the life of a unit. -/
inductive CodeUnit.Phase
  | untouched
  | building
  | done (built : Built)
  deriving Inhabited

/-- The word for a stage. -/
def CodeUnit.Phase.label : CodeUnit.Phase → String
  | .untouched => "uninitialized"
  | .building => "parsing"
  | .done _ => "cached"

/-- A piece of source and its tree. -/
structure CodeUnit where
  code : String
  origin : String
  phase : CodeUnit.Phase

/-- Why a request for a tree is not met. -/
inductive RequestError
  /-- The grammar refused the text. -/
  | unprocessable (origin : String) (cause : Fault)
  /-- The tree is being built. -/
  | busy (origin : String)
  /-- The grammar failed for a reason of its own. -/
  | failure (failure : Failure)

/-- The wording of an error. -/
def RequestError.message : RequestError → String
  | .unprocessable origin cause =>
    "Source '" ++ origin ++ "' cannot be processed due to a syntax error: " ++ cause.detail
  | .busy origin => "Syntax tree for " ++ origin ++ " requested while it is being built"
  | .failure f => f.text

namespace CodeUnit

/-- A unit of which nothing has been asked. -/
def ofText (code origin : String) : CodeUnit :=
  ⟨code, origin, .untouched⟩

/-- How a unit is shown, by its origin as it is written and its stage. -/
def describe (origin : String) (phase : Phase) : String :=
  "SourceCode(origin=" ++ origin ++ ", state=" ++ phase.label ++ ")"

/-- A unit as it is shown: where it is from, and its stage. -/
def description (u : CodeUnit) : String :=
  describe (quoted u.origin) u.phase

/-- The answer to a request that needs no build. -/
def settled? (u : CodeUnit) : Option (Except RequestError Built) :=
  match u.phase with
  | .untouched => none
  | .building => some (.error (.busy u.origin))
  | .done built => some (.ok built)

end CodeUnit
end RubySource
