import Mathlib.Logic.Function.Iterate
import RubySource.Proofs.CodeUnit.Requests

/-!
# Calls within calls

`Session.request` takes a request to its end in one go.  What the grammar is told when it asks the
unit in the course of a build is settled there at once, because a build that is under way leaves
nothing to be built inside it.

This file shows that nothing is lost by this.  `Machine` goes through the same requests one small
step after the other.  It has a stack of calls, and whoever asks the unit, be it the outside or a
call of the grammar, asks in the same way: an untouched unit has a new call opened for it, on top of
those that are there already.  That the stack never holds more than one call is then not assumed but
proved.

## What is here

* `Activity`, `Call`, `Machine`, `Machine.step` — the calls of the grammar that are under way, and
  the machine that carries them on.
* `Machine.step_asks`, `Machine.step_persists` — a call that asks a unit that is being built is told
  that the unit is busy, and nothing is opened for it.
* `Machine.InStep` — the machine is at the end of a run of requests, or part of the way through the
  next one; `Machine.InStep.step` for one step, `Machine.inStep_iterate` for any number of them.
* `Machine.exists_idle` — the machine gets to the end of every run.
* `Machine.Orderly` — the stage of the unit fits the calls under way, and calls are not nested.
* `Machine.orderly_and_kept` — **a unit builds its tree until a request is met, and keeps that
  tree**, whatever the grammar does.
-/

set_option autoImplicit false

namespace RubySource

/-! ## The machine -/

/-- What a call of the grammar is about. -/
inductive Activity
  | doing (response : Response)
  /-- It has asked the unit.  With the answer it goes on in some way, or else ends. -/
  | waiting (next : Option Response)
  | ending (outcome : Except RequestError (Option Ast))

/-- What is still to come of a call that is carried on in a session: the outcome, and the session
then. -/
def Activity.rest (s : Session) : Activity → Option (Except RequestError (Option Ast) × Session)
  | .doing response => some (s.consult response)
  | .waiting _ => none
  | .ending outcome => some (outcome, s)

/-- A call of the grammar that is under way, with its number. -/
structure Call where
  build : Nat
  activity : Activity

/-- A session, the calls of the grammar that are under way, the innermost first, and the answers to
the requests from outside. -/
structure Machine where
  session : Session
  calls : List Call
  answers : List (Except RequestError Built)

namespace Machine

/-- The machine before the first request. -/
def start (unit : CodeUnit) : Machine :=
  ⟨Session.start unit, [], []⟩

/-- Hand an answer to whoever asked for it. -/
def hand (m : Machine) (answer : Except RequestError Built) : Machine :=
  match m.calls with
  | [] => { m with answers := m.answers ++ [answer] }
  | ⟨build, .waiting (some next)⟩ :: outer =>
    let heard := match answer with
      | .error e => m.session.hearing e
      | .ok _ => m.session
    ⟨heard, ⟨build, .doing next⟩ :: outer, m.answers⟩
  | ⟨build, _⟩ :: outer =>
    { m with calls := ⟨build, .ending (answer.map Built.tree)⟩ :: outer }

/-- Ask the unit for its tree.  If the unit has no answer to give, the grammar is called. -/
def ask (grammar : Nat → Response) (m : Machine) : Machine :=
  match m.session.unit.settled? with
  | some answer => m.hand answer
  | none =>
    ⟨m.session.opening, ⟨m.session.calls, .doing (grammar m.session.calls)⟩ :: m.calls, m.answers⟩

/-- Carry the innermost call on; if no call is under way, make the next request from outside. -/
def step (grammar : Nat → Response) (m : Machine) : Machine :=
  match m.calls with
  | [] => m.ask grammar
  | ⟨build, .doing (.accepts source accepted)⟩ :: outer =>
    { m with calls := ⟨build, .ending (.ok (accepted.toAst? source))⟩ :: outer }
  | ⟨build, .doing (.fails fault)⟩ :: outer =>
    ⟨(m.session.failing fault).2, ⟨build, .ending (.error (m.session.failing fault).1)⟩ :: outer,
      m.answers⟩
  | ⟨build, .doing .asks⟩ :: outer =>
    ask grammar { m with calls := ⟨build, .waiting none⟩ :: outer }
  | ⟨build, .doing (.persists next)⟩ :: outer =>
    ask grammar { m with calls := ⟨build, .waiting (some next)⟩ :: outer }
  | ⟨_, .waiting _⟩ :: _ => m
  | ⟨build, .ending outcome⟩ :: outer =>
    hand ⟨(m.session.closing build outcome).2, outer, m.answers⟩
      (m.session.closing build outcome).1

section

variable (grammar : Nat → Response) {s : Session}

/-! ## The refusal -/

/-- **A call that asks a unit that is being built is refused**, and ends with the refusal. -/
theorem step_asks (h : s.unit.phase = .building) (build : Nat) (outer : List Call)
    (answers : List (Except RequestError Built)) :
    step grammar ⟨s, ⟨build, .doing .asks⟩ :: outer, answers⟩ =
      ⟨s, ⟨build, .ending (.error (.busy s.unit.origin))⟩ :: outer, answers⟩ := by
  simp only [step, ask, Session.settled?_of_building h]
  rfl

/-- **A call that puts up with the refusal goes on** as it would have without asking. -/
theorem step_persists (h : s.unit.phase = .building) (build : Nat) (next : Response)
    (outer : List Call) (answers : List (Except RequestError Built)) :
    step grammar ⟨s, ⟨build, .doing (.persists next)⟩ :: outer, answers⟩ =
      ⟨s.hearing (.busy s.unit.origin), ⟨build, .doing next⟩ :: outer, answers⟩ := by
  simp only [step, ask, Session.settled?_of_building h]
  rfl

/-- A fault does not touch the unit. -/
theorem failing_unit (s : Session) (fault : Fault) : (s.failing fault).2.unit = s.unit := by
  cases fault <;> rfl

/-! ## Runs of the machine -/

variable (first : Session)

/-- The machine after a number of whole requests. -/
def idle (n : Nat) : Machine :=
  ⟨(Session.requests grammar first n).2, [], (Session.requests grammar first n).1⟩

/-- The machine is at the end of a run of requests, or on its way through the next one: then there
is one call, and what is still to come of it is what the request has to come to. -/
inductive InStep : Machine → Prop
  | idle (n : Nat) : InStep (idle grammar first n)
  | busy (n : Nat) (s : Session) (activity : Activity)
      (huntouched : (idle grammar first n).session.unit.phase = .untouched)
      (hphase : s.unit.phase = .building)
      (hrest : activity.rest s = some ((idle grammar first n).session.opening.consult
        (grammar (idle grammar first n).session.calls))) :
      InStep ⟨s, [⟨(idle grammar first n).session.calls, activity⟩],
        (idle grammar first n).answers⟩

variable {first}

/-- Between requests the unit is not being built. -/
theorem idle_phase (hfirst : first.unit.phase ≠ .building) (n : Nat) :
    (idle grammar first n).session.unit.phase ≠ .building := by
  induction n with
  | zero => exact hfirst
  | succ n ih => exact Session.request_phase _ grammar ih

/-- A request to a unit whose tree is there is over at once. -/
theorem step_idle_of_done {n : Nat} {built : Built}
    (h : (idle grammar first n).session.unit.phase = .done built) :
    step grammar (idle grammar first n) = idle grammar first (n + 1) := by
  have hrequest := Session.request_of_done _ grammar built h
  have hsettled : (idle grammar first n).session.unit.settled? = some (.ok built) := by
    simp [CodeUnit.settled?, h]
  have hnext : idle grammar first (n + 1) =
      ⟨(idle grammar first n).session, [], (idle grammar first n).answers ++ [.ok built]⟩ := by
    show Machine.mk ((idle grammar first n).session.request grammar).2 []
      ((idle grammar first n).answers ++ [((idle grammar first n).session.request grammar).1]) = _
    rw [hrequest]
  rw [hnext]
  show ask grammar (idle grammar first n) = _
  rw [ask, hsettled]
  rfl

/-- A request to an untouched unit opens a call. -/
theorem step_idle_of_untouched {n : Nat}
    (h : (idle grammar first n).session.unit.phase = .untouched) :
    step grammar (idle grammar first n) =
      ⟨(idle grammar first n).session.opening,
        [⟨(idle grammar first n).session.calls,
          .doing (grammar (idle grammar first n).session.calls)⟩],
        (idle grammar first n).answers⟩ := by
  have hsettled : (idle grammar first n).session.unit.settled? = none := by
    simp [CodeUnit.settled?, h]
  show ask grammar (idle grammar first n) = _
  rw [ask, hsettled]
  rfl

/-- When a call ends that has come to what the request has to come to, the request is over. -/
theorem step_ending {n : Nat} {outcome : Except RequestError (Option Ast)}
    (huntouched : (idle grammar first n).session.unit.phase = .untouched)
    (h : (outcome, s) = (idle grammar first n).session.opening.consult
      (grammar (idle grammar first n).session.calls)) :
    step grammar ⟨s, [⟨(idle grammar first n).session.calls, .ending outcome⟩],
        (idle grammar first n).answers⟩ = idle grammar first (n + 1) := by
  have hrequest : (idle grammar first n).session.request grammar =
      s.closing (idle grammar first n).session.calls outcome := by
    rw [Session.request_of_untouched _ grammar huntouched, Session.build, ← h]
  show Machine.mk _ [] _ = Machine.mk ((idle grammar first n).session.request grammar).2 []
    ((idle grammar first n).answers ++ [((idle grammar first n).session.request grammar).1])
  rw [hrequest]

/-- **A step keeps the machine in step with the requests.** -/
theorem InStep.step (hfirst : first.unit.phase ≠ .building) {m : Machine}
    (h : InStep grammar first m) : InStep grammar first (m.step grammar) := by
  cases h with
  | idle n =>
    cases hphase : (Machine.idle grammar first n).session.unit.phase with
    | untouched =>
      rw [step_idle_of_untouched grammar hphase]
      exact .busy n _ _ hphase rfl rfl
    | building => exact absurd hphase (idle_phase grammar hfirst n)
    | done built =>
      rw [step_idle_of_done grammar hphase]
      exact .idle (n + 1)
  | busy n s activity huntouched hphase hrest =>
    cases activity with
    | doing response =>
      cases response with
      | accepts source accepted => exact .busy n s _ huntouched hphase hrest
      | fails fault =>
        refine .busy n _ _ huntouched ?_ hrest
        rw [failing_unit]
        exact hphase
      | asks =>
        rw [step_asks grammar hphase]
        refine .busy n s _ huntouched hphase ?_
        rw [← hrest, Activity.rest, Activity.rest, Session.consult_asks hphase]
      | persists next =>
        rw [step_persists grammar hphase]
        refine .busy n _ _ huntouched hphase ?_
        rw [← hrest, Activity.rest, Activity.rest, Session.consult_persists hphase]
    | waiting next => exact nomatch hrest
    | ending outcome =>
      rw [step_ending grammar huntouched (Option.some.inj hrest)]
      exact .idle (n + 1)

/-- **The machine is in step with the requests throughout.** -/
theorem inStep_iterate (hfirst : first.unit.phase ≠ .building) (k : Nat) :
    InStep grammar first ((step grammar)^[k] (idle grammar first 0)) := by
  induction k with
  | zero => exact .idle 0
  | succ k ih =>
    rw [Function.iterate_succ_apply']
    exact ih.step grammar hfirst

/-- A call that is under way comes to its end, whatever the grammar does. -/
theorem exists_iterate_ending (response : Response) (s : Session)
    (h : s.unit.phase = .building) (build : Nat) (answers : List (Except RequestError Built)) :
    ∃ k, (step grammar)^[k] ⟨s, [⟨build, .doing response⟩], answers⟩ =
      ⟨(s.consult response).2, [⟨build, .ending (s.consult response).1⟩], answers⟩ := by
  induction response generalizing s with
  | accepts source accepted => exact ⟨1, rfl⟩
  | fails fault => exact ⟨1, rfl⟩
  | asks =>
    refine ⟨1, ?_⟩
    rw [Session.consult_asks h]
    exact step_asks grammar h build [] answers
  | persists next ih =>
    obtain ⟨k, hk⟩ := ih (s.hearing (.busy s.unit.origin)) h
    refine ⟨k + 1, ?_⟩
    rw [Function.iterate_succ_apply, step_persists grammar h, hk, Session.consult_persists h]

/-- **The machine gets to the end of every run.** -/
theorem exists_idle (hfirst : first.unit.phase ≠ .building) (n : Nat) :
    ∃ k, (step grammar)^[k] (idle grammar first 0) = idle grammar first n := by
  induction n with
  | zero => exact ⟨0, rfl⟩
  | succ n ih =>
    obtain ⟨k, hk⟩ := ih
    cases hphase : (idle grammar first n).session.unit.phase with
    | untouched =>
      obtain ⟨j, hj⟩ := exists_iterate_ending grammar
        (grammar (idle grammar first n).session.calls) (idle grammar first n).session.opening rfl
        (idle grammar first n).session.calls (idle grammar first n).answers
      -- One step opens the call, `j` steps carry it on, and one step closes it.
      refine ⟨(j + 1 + 1) + k, ?_⟩
      rw [Function.iterate_add_apply, hk, Function.iterate_succ_apply,
        step_idle_of_untouched grammar hphase, Function.iterate_succ_apply', hj]
      exact step_ending grammar hphase rfl
    | building => exact absurd hphase (idle_phase grammar hfirst n)
    | done built =>
      refine ⟨k + 1, ?_⟩
      rw [Function.iterate_succ_apply', hk]
      exact step_idle_of_done grammar hphase

/-! ## The stage of the unit and the calls under way -/

variable (first)

/-- The stage of the unit fits the calls under way, and the requests are what they would be if each
of them were taken to its end in one go. -/
structure Orderly (m : Machine) : Prop where
  /-- Between requests the unit is not being built. -/
  idle : m.calls = [] →
    m.session.unit.phase ≠ .building ∧ m = idle grammar first m.answers.length
  /-- While a call is under way the unit is being built. -/
  busy : m.calls ≠ [] → m.session.unit.phase = .building
  /-- No call is opened inside another. -/
  single : m.calls.length ≤ 1
  /-- A call that asks the unit ends with the refusal, and nothing else changes. -/
  asks : ∀ build, m.calls = [⟨build, .doing .asks⟩] →
    m.step grammar =
      ⟨m.session, [⟨build, .ending (.error (.busy m.session.unit.origin))⟩], m.answers⟩
  /-- A call that puts up with the refusal goes on, and nothing changes but what was overheard. -/
  persists : ∀ build next, m.calls = [⟨build, .doing (.persists next)⟩] →
    m.step grammar =
      ⟨m.session.hearing (.busy m.session.unit.origin), [⟨build, .doing next⟩], m.answers⟩

variable {first}

/-- A run answers each of its requests. -/
theorem length_idle_answers (n : Nat) : (Machine.idle grammar first n).answers.length = n := by
  induction n with
  | zero => rfl
  | succ n ih =>
    show ((Machine.idle grammar first n).answers ++ [_]).length = n + 1
    rw [List.length_append, ih]
    rfl

/-- A machine that is in step with the requests is in order. -/
theorem InStep.orderly (hfirst : first.unit.phase ≠ .building) {m : Machine}
    (h : InStep grammar first m) : Orderly grammar first m := by
  cases h with
  | idle n =>
    refine ⟨fun _ => ⟨idle_phase grammar hfirst n, ?_⟩, fun hcalls => absurd rfl hcalls,
      Nat.zero_le 1, nofun, nofun⟩
    rw [length_idle_answers]
  | busy n s activity huntouched hphase hrest =>
    refine ⟨nofun, fun _ => hphase, Nat.le_refl 1, ?_, ?_⟩
    · intro build hcalls
      obtain ⟨rfl, rfl⟩ := Call.mk.inj (List.cons.inj hcalls).1
      exact step_asks grammar hphase _ [] _
    · intro build next hcalls
      obtain ⟨rfl, rfl⟩ := Call.mk.inj (List.cons.inj hcalls).1
      exact step_persists grammar hphase _ next [] _

end

/-- **A unit builds its tree until a request is met, and keeps that tree.**  Requests follow one
another to a unit that nothing has been asked of, and the grammar may do anything at each of its
calls: hand something over, fail, or ask the unit itself, any number of times, and pass the refusal
on or put up with it.

At every step of that, the unit is being built exactly while a call of the grammar is under way, a
call that asks the unit is refused and nothing else comes of it, and no call is opened inside
another.  Every number of requests comes to an end, and the account of them is that of `Kept`: the
grammar was called, and that was noted, once for each request up to the first that was met; until
then the unit is untouched, and from then on the tree of that request is the answer, by the same
build. -/
theorem orderly_and_kept (grammar : Nat → Response) (code origin : String) :
    let first := Session.start (CodeUnit.ofText code origin)
    (∀ k, Orderly grammar first ((step grammar)^[k] (start (CodeUnit.ofText code origin)))) ∧
      (∀ n, ∃ k, (step grammar)^[k] (start (CodeUnit.ofText code origin)) =
        idle grammar first n) ∧
      ∀ n, (Session.requests grammar first n).1.length = n ∧
        Session.Kept grammar origin (Session.requests grammar first n).1
          (Session.requests grammar first n).2 := by
  intro first
  have hfirst : first.unit.phase ≠ .building := nofun
  refine ⟨fun k => ?_, fun n => ?_, fun n => ⟨?_, ?_⟩⟩
  · exact (inStep_iterate grammar hfirst k).orderly grammar hfirst
  · exact exists_idle grammar hfirst n
  · exact length_idle_answers grammar n
  · exact (Session.standing_requests grammar code origin n).kept

end Machine
end RubySource
