import RubySource.CodeUnit.Basic

/-!
# Requests to a code unit

A session is a unit together with what can be told of its past: how often the grammar was called,
what was noted for the log, and what the grammar heard when it asked the unit itself.

## What is here

* `Response` — what the grammar may do when it is called.
* `Session.opening`, `Session.consult`, `Session.closing` — the parts of a build: the call of the
  grammar, what comes of it, and what the unit keeps of it.
* `Session`, `Session.request` — a request for the tree, against a grammar that is given by its
  response to each call.
* `Session.request_of_done`, `Session.request_of_building` — requests that change nothing.
* `Session.request_phase` — a request does not leave the unit in the middle of a build.
-/

set_option autoImplicit false

namespace RubySource

/-- What the grammar does when it is called. -/
inductive Response
  /-- It hands over a tree of some source, or comments alone. -/
  | accepts (source : Bytes) (accepted : ParseTree.Accepted)
  | fails (fault : Fault)
  /-- It asks the unit for its tree, and passes on what it is told. -/
  | asks
  /-- It asks the unit for its tree, puts up with being refused, and goes on. -/
  | persists (next : Response)

/-- The response of a grammar that asks the unit for its tree, and either puts up with the refusal
and finds no code, or passes the refusal on. -/
def Response.asksBack (putsUp : Bool) : Response :=
  if putsUp then .persists (.accepts [] ⟨none, []⟩) else .asks

/-- The response to a text whose parse tree is known. -/
def Response.ofTree (text origin : String) (root : ParseTree) : Response :=
  match root.verdict text origin with
  | .ok accepted => .accepts (Utf8.ofString text) accepted
  | .error report => .fails (.refused report)

/-- A unit and its past. -/
structure Session where
  unit : CodeUnit
  /-- How often the grammar was called. -/
  calls : Nat
  /-- What was noted for the log. -/
  notes : List String
  /-- What the grammar heard last when it asked the unit: the error, and how the unit was shown. -/
  overheard : Option (RequestError × String)

namespace Session

/-- The session of a unit of which nothing has been asked. -/
def start (unit : CodeUnit) : Session :=
  ⟨unit, 0, [], none⟩

/-- A session whose unit is at a stage. -/
def atPhase (s : Session) (phase : CodeUnit.Phase) : Session :=
  { s with unit := { s.unit with phase := phase } }

/-- A session with one more note. -/
def noting (s : Session) (note : String) : Session :=
  { s with notes := s.notes ++ [note] }

/-- What is noted when the grammar is called. -/
def callNote (origin : String) : String :=
  "Parsing " ++ origin

/-- What is noted when the grammar refuses the text and says why. -/
def faultNote (origin why : String) : String :=
  "Syntax error in " ++ origin ++ ": " ++ why

/-- A session in which the grammar has been refused, and has not passed the refusal on. -/
def hearing (s : Session) (e : RequestError) : Session :=
  { s with overheard := some (e, s.unit.description) }

/-- What comes of a fault: a failure of the grammar's own is passed on, and any other fault is noted
and told with the origin of the text. -/
def failing (s : Session) : Fault → RequestError × Session
  | .failure f => (.failure f, s)
  | fault =>
    (.unprocessable s.unit.origin fault, s.noting (faultNote s.unit.origin fault.text))

/-- The call of the grammar: it is noted and counted, and the unit is being built. -/
def opening (s : Session) : Session :=
  { (s.noting (callNote s.unit.origin)).atPhase .building with calls := s.calls + 1 }

/-- Let the grammar's response take effect on a unit that is being built. -/
def consult (s : Session) : Response → Except RequestError (Option Ast) × Session
  | .accepts source accepted => (.ok (accepted.toAst? source), s)
  | .fails fault => (.error (s.failing fault).1, (s.failing fault).2)
  | .asks =>
    match s.unit.settled? with
    | some answer => (answer.map Built.tree, s)
    | none => (.ok none, s)
  | .persists next =>
    match s.unit.settled? with
    | some (.error e) => (s.hearing e).consult next
    | _ => s.consult next

/-- A session whose unit is no longer being built; a tree that is there is kept. -/
def released (s : Session) : Session :=
  match s.unit.phase with
  | .done _ => s
  | _ => s.atPhase .untouched

/-- What the unit keeps of a call of the grammar: a tree for good, and nothing of an error. -/
def closing (s : Session) (build : Nat) :
    Except RequestError (Option Ast) → Except RequestError Built × Session
  | .ok tree => (.ok ⟨build, tree⟩, s.atPhase (.done ⟨build, tree⟩))
  | .error e => (.error e, s.released)

/-- Build the tree with one call of the grammar. -/
def build (s : Session) (grammar : Nat → Response) : Except RequestError Built × Session :=
  (s.opening.consult (grammar s.calls)).2.closing s.calls
    (s.opening.consult (grammar s.calls)).1

/-- Ask the unit for its tree. -/
def request (s : Session) (grammar : Nat → Response) : Except RequestError Built × Session :=
  match s.unit.settled? with
  | some answer => (answer, s)
  | none => s.build grammar

/-- A tree that is there is handed over as it is. -/
theorem request_of_done (s : Session) (grammar : Nat → Response) (built : Built)
    (h : s.unit.phase = .done built) : s.request grammar = (.ok built, s) := by
  simp [request, CodeUnit.settled?, h]

/-- A request in the middle of a build is refused. -/
theorem request_of_building (s : Session) (grammar : Nat → Response)
    (h : s.unit.phase = .building) :
    s.request grammar = (.error (.busy s.unit.origin), s) := by
  simp [request, CodeUnit.settled?, h]

/-- A request to an untouched unit is a build. -/
theorem request_of_untouched (s : Session) (grammar : Nat → Response)
    (h : s.unit.phase = .untouched) : s.request grammar = s.build grammar := by
  simp [request, CodeUnit.settled?, h]

/-- A build ends with a tree or leaves the unit untouched. -/
theorem closing_phase (s : Session) (build : Nat) (outcome : Except RequestError (Option Ast)) :
    (s.closing build outcome).2.unit.phase ≠ .building := by
  cases outcome with
  | ok tree => simp [closing, atPhase]
  | error e =>
    simp only [closing, released]
    split
    · next h => simp [h]
    · simp [atPhase]

/-- A request does not leave the unit in the middle of a build, unless it found it there. -/
theorem request_phase (s : Session) (grammar : Nat → Response) (h : s.unit.phase ≠ .building) :
    (s.request grammar).2.unit.phase ≠ .building := by
  unfold request
  split
  · exact h
  · exact closing_phase _ _ _

end Session
end RubySource
