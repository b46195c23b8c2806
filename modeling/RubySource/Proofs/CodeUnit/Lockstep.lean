import RubySource.Proofs.CodeUnit.Machine

/-!
# Runs behind other runs

A unit that has only failed is untouched again, but its session is not what it was: calls have been
counted and noted, and something may have been overheard.  Here a session, or a machine with all its
calls, is put behind a past: the counts and the notes go on from those of the past, and everything
else is as it would have been without one.

This is no more than a change of numbers, and every step respects it.  So what happens behind a past
and what happens without one go on in lockstep.

## What is here

* `Built.behind`, `Session.behind`, `Machine.behind` — builds, sessions and machines behind a past.
* `Session.consult_behind`, `Session.closing_behind`, `Session.request_behind` — the parts of a
  request behind a past.
* `Session.requests_behind` — **a run behind a past is the run without one**, moved behind it.
* `Machine.step_behind`, `Machine.iterate_step_behind` — the same, step by step.
-/

set_option autoImplicit false

namespace RubySource

/-- A tree whose build comes behind a number of others.  The tree itself stays the same. -/
def Built.behind (built : Built) (k : Nat) : Built := { built with build := k + built.build }

/-- A stage of a unit behind a number of builds. -/
def CodeUnit.Phase.behind (phase : CodeUnit.Phase) (k : Nat) : CodeUnit.Phase :=
  match phase with
  | .untouched => .untouched
  | .building => .building
  | .done built => .done (built.behind k)

namespace Session

/-! ## Sessions -/

/-- A session behind a past. -/
def behind (s past : Session) : Session where
  unit := { s.unit with phase := s.unit.phase.behind past.calls }
  calls := past.calls + s.calls
  notes := past.notes ++ s.notes
  overheard := s.overheard.or past.overheard

section

variable (s past : Session)

/-- A session of which nothing has been asked is not seen behind a past that left no tree. -/
theorem start_behind (h : past.unit.phase = .untouched) : (start past.unit).behind past = past := by
  obtain ⟨⟨code, origin, phase⟩, calls, notes, overheard⟩ := past
  obtain rfl : phase = .untouched := h
  simp [start, behind, CodeUnit.Phase.behind]

/-- A unit is shown as it would be without a past. -/
theorem description_behind : (s.behind past).unit.description = s.unit.description := by
  obtain ⟨⟨code, origin, phase⟩, calls, notes, overheard⟩ := s
  cases phase <;> rfl

theorem settled?_behind :
    (s.behind past).unit.settled? =
      s.unit.settled?.map fun answer => answer.map fun built => built.behind past.calls := by
  obtain ⟨⟨code, origin, phase⟩, calls, notes, overheard⟩ := s
  cases phase <;> rfl

theorem noting_behind (note : String) :
    (s.behind past).noting note = (s.noting note).behind past := by
  simp [noting, behind]

theorem hearing_behind (e : RequestError) :
    (s.behind past).hearing e = (s.hearing e).behind past := by
  rw [hearing, description_behind]
  rfl

theorem opening_behind : (s.behind past).opening = s.opening.behind past := by
  simp [opening, noting, atPhase, behind, CodeUnit.Phase.behind, Nat.add_assoc]

theorem failing_behind (fault : Fault) :
    (s.behind past).failing fault = ((s.failing fault).1, (s.failing fault).2.behind past) := by
  cases fault with
  | failure f => rfl
  | refused report => simp only [failing, ← noting_behind]; rfl
  | malformed report => simp only [failing, ← noting_behind]; rfl

/-- What the grammar does takes effect as it would without a past. -/
theorem consult_behind (r : Response) :
    (s.behind past).consult r = ((s.consult r).1, (s.consult r).2.behind past) := by
  induction r generalizing s with
  | accepts source accepted => rfl
  | fails fault => simp only [consult, failing_behind]
  | asks =>
    simp only [consult, settled?_behind]
    cases s.unit.settled? with
    | none => rfl
    | some answer => cases answer <;> rfl
  | persists next ih =>
    simp only [consult, settled?_behind]
    cases s.unit.settled? with
    | none => exact ih s
    | some answer =>
      cases answer with
      | error e =>
        have hheard := hearing_behind s past e
        simp only [Option.map_some, Except.map, hheard]
        exact ih (s.hearing e)
      | ok built => exact ih s

/-- A unit keeps what it would keep without a past. -/
theorem closing_behind (build : Nat) (outcome : Except RequestError (Option Ast)) :
    (s.behind past).closing (past.calls + build) outcome =
      ((s.closing build outcome).1.map fun built => built.behind past.calls,
        (s.closing build outcome).2.behind past) := by
  obtain ⟨⟨code, origin, phase⟩, calls, notes, overheard⟩ := s
  cases outcome with
  | ok tree => rfl
  | error e => cases phase <;> rfl

variable {grammar fresh : Nat → Response} (h : ∀ i, grammar (past.calls + i) = fresh i)
include h

/-- **A request behind a past is met as it would be without one.** -/
theorem request_behind :
    (s.behind past).request grammar =
      ((s.request fresh).1.map fun built => built.behind past.calls,
        (s.request fresh).2.behind past) := by
  rw [request, settled?_behind, request]
  cases s.unit.settled? with
  | some answer => rfl
  | none =>
    have hcalls : grammar (s.behind past).calls = fresh s.calls := h s.calls
    show (s.behind past).build grammar = _
    rw [build, opening_behind, hcalls, consult_behind]
    exact closing_behind _ past s.calls _

/-- **A run behind a past is the run without one**, moved behind it. -/
theorem requests_behind (n : Nat) :
    requests grammar (s.behind past) n =
      ((requests fresh s n).1.map fun answer => answer.map fun built => built.behind past.calls,
        (requests fresh s n).2.behind past) := by
  induction n with
  | zero => rfl
  | succ n ih =>
    simp only [requests, ih, request_behind _ past h, List.map_append, List.map_cons, List.map_nil]

end

/-- A run may be continued by another one. -/
theorem requests_add (grammar : Nat → Response) (s : Session) (m n : Nat) :
    requests grammar s (m + n) =
      ((requests grammar s m).1 ++ (requests grammar (requests grammar s m).2 n).1,
        (requests grammar (requests grammar s m).2 n).2) := by
  induction n with
  | zero => simp [requests]
  | succ n ih =>
    rw [← Nat.add_assoc]
    simp only [requests, ih, List.append_assoc]

end Session

/-! ## Machines -/

/-- A call behind a number of others. -/
def Call.behind (call : Call) (k : Nat) : Call := { call with build := k + call.build }

namespace Machine

/-- A machine behind what another one has done. -/
def behind (m past : Machine) : Machine where
  session := m.session.behind past.session
  calls := m.calls.map fun call => call.behind past.session.calls
  answers := past.answers ++
    m.answers.map fun answer => answer.map fun built => built.behind past.session.calls

variable (m past : Machine)

/-- An answer is handed on as it would be without a past. -/
theorem hand_behind (answer : Except RequestError Built) :
    (m.behind past).hand (answer.map fun built => built.behind past.session.calls) =
      (m.hand answer).behind past := by
  obtain ⟨s, calls, answers⟩ := m
  match calls with
  | [] => simp [hand, behind]
  | ⟨build, .waiting (some next)⟩ :: outer =>
    cases answer with
    | ok built => rfl
    | error e =>
      have hheard := Session.hearing_behind s past.session e
      simp [hand, behind, Call.behind, Except.map, hheard]
  | ⟨build, .waiting none⟩ :: outer => cases answer <;> rfl
  | ⟨build, .doing response⟩ :: outer => cases answer <;> rfl
  | ⟨build, .ending outcome⟩ :: outer => cases answer <;> rfl

variable {grammar fresh : Nat → Response} (h : ∀ i, grammar (past.session.calls + i) = fresh i)
include h

/-- The unit is asked as it would be without a past. -/
theorem ask_behind : (m.behind past).ask grammar = (m.ask fresh).behind past := by
  rw [ask, ask, show (m.behind past).session = m.session.behind past.session from rfl,
    Session.settled?_behind]
  cases m.session.unit.settled? with
  | some answer => exact hand_behind m past answer
  | none =>
    have hcalls : grammar (m.session.behind past.session).calls = fresh m.session.calls :=
      h m.session.calls
    have hopening := Session.opening_behind m.session past.session
    simp only [Option.map_none, behind, hcalls, hopening]
    rfl

/-- **A step behind a past is the step without one.** -/
theorem step_behind : (m.behind past).step grammar = (m.step fresh).behind past := by
  obtain ⟨s, calls, answers⟩ := m
  match calls with
  | [] => exact ask_behind ⟨s, [], answers⟩ past h
  | ⟨build, .doing (.accepts source accepted)⟩ :: outer => rfl
  | ⟨build, .doing (.fails fault)⟩ :: outer =>
    have hfailing := Session.failing_behind s past.session fault
    simp [step, behind, Call.behind, hfailing]
  | ⟨build, .doing .asks⟩ :: outer =>
    exact ask_behind ⟨s, ⟨build, .waiting none⟩ :: outer, answers⟩ past h
  | ⟨build, .doing (.persists next)⟩ :: outer =>
    exact ask_behind ⟨s, ⟨build, .waiting (some next)⟩ :: outer, answers⟩ past h
  | ⟨build, .waiting next⟩ :: outer => rfl
  | ⟨build, .ending outcome⟩ :: outer =>
    have hclosing := Session.closing_behind s past.session build outcome
    show hand ⟨((s.behind past.session).closing (past.session.calls + build) outcome).2, _, _⟩
      ((s.behind past.session).closing (past.session.calls + build) outcome).1 = _
    rw [hclosing]
    exact hand_behind ⟨(s.closing build outcome).2, outer, answers⟩ past _

/-- **Behind a past and without one a machine goes on in lockstep.** -/
theorem iterate_step_behind (k : Nat) :
    (step grammar)^[k] (m.behind past) = ((step fresh)^[k] m).behind past := by
  induction k with
  | zero => rfl
  | succ k ih =>
    rw [Function.iterate_succ_apply', Function.iterate_succ_apply', ih, step_behind _ past h]

end Machine
end RubySource
