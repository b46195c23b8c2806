import RubySource.Proofs.CodeUnit.Lockstep

/-!
# Failures leave nothing behind

A call of the grammar that hands nothing over ends with something raised: a fault, or the refusal
that the grammar was told when it asked the unit, and has passed on.  Among the faults are those by
which a text is refused.  These, and only these, are told to whoever asked for the tree as a text
that cannot be processed; everything else that is raised is passed on as it is.

Nothing of a failure stays with the unit.  What happens after any number of failures is what would
have happened if the unit had not been asked before.

## What is here

* `Fault.isRefusal` — the faults by which a text is refused, by how they were made;
  `Fault.isRefusal_of_ofDetails` tells those that are made from a name and details by the name.
* `Raised`, `Response.raised?` — what a call of the grammar ends with if it hands nothing over.
* `Told` — what is told of what was raised.
* `Response.exists_raised_of_outcome` — a call that is met with an error has raised something, and
  the error is what is told of it.
* `Machine.unit_of_failed` — a unit that has only failed is as it was.
* `Machine.failures_leave_nothing` — **failures are told as they should be, and leave nothing
  behind**; `Machine.failures_wayward` is a case of it.
-/

set_option autoImplicit false

namespace RubySource

/-! ## What is raised -/

/-- Whether a fault is one by which a text is refused. -/
def Fault.isRefusal : Fault → Bool
  | .refused _ => true
  | .malformed _ => true
  | .failure _ => false

theorem Fault.name_ne_empty_of_isRefusal {fault : Fault} (h : fault.isRefusal = true) :
    fault.name ≠ "" := by
  cases fault with
  | refused report => exact (by decide : "RubySyntaxError" ≠ "")
  | malformed report =>
    simp only [name]
    split <;> decide
  | failure f => cases h

/-- The names of the refusals that can be made from a name and details: the general one, and its two
special sorts.  The refusal by the check of Ruby trees is none of them, because only the check makes
it, with a report of its own. -/
def Fault.refusalNames : List String := ["SyntaxError", "IndentationError", "TabError"]

/-- What is looked up is found exactly if it is a key. -/
theorem isSome_lookup_iff {β : Type} (entries : List (String × β)) (key : String) :
    (entries.lookup key).isSome = true ↔ key ∈ entries.map Prod.fst := by
  induction entries with
  | nil => simp
  | cons entry entries ih =>
    rw [List.lookup_cons, List.map_cons, List.mem_cons]
    by_cases h : key = entry.1
    · simp [h]
    · rw [beq_eq_false_iff_ne.2 h, ih]
      simp [h]

/-- A fault that is made from a name refuses the text exactly if the name is one of a refusal. -/
theorem Fault.isRefusal_of_ofDetails {name : String} {details : List (Value String)} {fault : Fault}
    (h : ofDetails name details = .ok fault) :
    fault.isRefusal = true ↔ name ∈ refusalNames := by
  have hrule : (ruleOfName? name).isSome = true ↔ name ∈ refusalNames :=
    isSome_lookup_iff _ name
  rw [← hrule]
  unfold ofDetails at h
  cases hr : ruleOfName? name with
  | some rule =>
    rw [hr] at h
    cases hreport : RawReport.ofDetails rule details with
    | ok report =>
      simp only [hreport] at h
      obtain rfl := Except.ok.inj h
      exact ⟨fun _ => rfl, fun _ => rfl⟩
    | error e =>
      simp only [hreport] at h
      cases h
  | none =>
    rw [hr] at h
    cases hfailure : Failure.ofDetails name details with
    | ok failure =>
      simp only [hfailure] at h
      obtain rfl := Except.ok.inj h
      exact ⟨nofun, nofun⟩
    | error e =>
      simp only [hfailure] at h
      cases h

/-- What a call of the grammar ends with if it hands nothing over. -/
inductive Raised
  | fault (fault : Fault)
  /-- The refusal of a unit that is being built, passed on by the grammar. -/
  | busy

/-- What the grammar raises in the end, if it does. -/
def Response.raised? : Response → Option Raised
  | .accepts _ _ => none
  | .fails fault => some (.fault fault)
  | .asks => some .busy
  | .persists next => next.raised?

/-- What is told of something raised. -/
structure Told (origin : String) (raised : Raised) (e : RequestError) : Prop where
  /-- Only a refusal of the text is told as a text that cannot be processed. -/
  translated : (∃ origin' cause, e = .unprocessable origin' cause) ↔
    ∃ fault, raised = .fault fault ∧ fault.isRefusal = true
  /-- It is told with the origin and with itself as the cause, and in words that name the origin and
  say something more. -/
  refusal : ∀ fault, raised = .fault fault → fault.isRefusal = true →
    e = .unprocessable origin fault ∧ fault.detail ≠ "" ∧
      e.message = "Source '" ++ origin ++ "' cannot be processed due to a syntax error: "
        ++ fault.detail
  /-- Any other failure of the grammar is passed on. -/
  failure : ∀ failure, raised = .fault (.failure failure) → e = .failure failure
  /-- So is the refusal of a unit that is being built. -/
  busy : raised = .busy → e = .busy origin

theorem Told.of_refusal (origin : String) {fault : Fault} (h : fault.isRefusal = true) :
    Told origin (.fault fault) (.unprocessable origin fault) where
  translated := ⟨fun _ => ⟨fault, rfl, h⟩, fun _ => ⟨origin, fault, rfl⟩⟩
  refusal := by
    rintro fault' ⟨⟩ -
    exact ⟨rfl, Fault.detail_ne_empty (Fault.name_ne_empty_of_isRefusal h), rfl⟩
  failure := by
    rintro f ⟨⟩
    cases h
  busy := nofun

theorem Told.of_failure (origin : String) (f : Failure) :
    Told origin (.fault (.failure f)) (.failure f) where
  translated := ⟨nofun, by rintro ⟨_, ⟨⟩, ⟨⟩⟩⟩
  refusal := by rintro _ ⟨⟩ ⟨⟩
  failure := by
    rintro f' ⟨⟩
    rfl
  busy := nofun

theorem Told.of_busy (origin : String) : Told origin .busy (.busy origin) where
  translated := ⟨nofun, nofun⟩
  refusal := nofun
  failure := nofun
  busy _ := rfl

/-- A call that is met with an error has raised something, and the error is what is told of it. -/
theorem Response.exists_raised_of_outcome {origin : String} {r : Response} {e : RequestError}
    (h : r.outcome origin = .error e) :
    ∃ raised, r.raised? = some raised ∧ Told origin raised e := by
  induction r with
  | accepts source accepted => cases h
  | fails fault =>
    refine ⟨.fault fault, rfl, ?_⟩
    cases fault with
    | failure f =>
      obtain rfl := Except.error.inj h
      exact .of_failure origin f
    | refused report =>
      obtain rfl := Except.error.inj h
      exact .of_refusal origin rfl
    | malformed report =>
      obtain rfl := Except.error.inj h
      exact .of_refusal origin rfl
  | asks =>
    obtain rfl := Except.error.inj h
    exact ⟨.busy, rfl, .of_busy origin⟩
  | persists next ih => exact ih h

/-! ## After failures -/

namespace Session

/-- A request changes nothing of the unit but its stage. -/
theorem request_unit (s : Session) (grammar : Nat → Response) :
    (s.request grammar).2.unit =
      { s.unit with phase := (s.request grammar).2.unit.phase } := by
  cases h : s.unit.phase with
  | untouched =>
    rw [request_of_untouched s grammar h]
    obtain ⟨-, hunit, -, -⟩ := build_spec s grammar
    rw [hunit]
  | building => rw [request_of_building s grammar h]
  | done built => rw [request_of_done s grammar built h]

theorem requests_unit (grammar : Nat → Response) (s : Session) (n : Nat) :
    (requests grammar s n).2.unit =
      { s.unit with phase := (requests grammar s n).2.unit.phase } := by
  induction n with
  | zero => rfl
  | succ n ih =>
    simp only [requests]
    rw [request_unit, ih]

end Session

namespace Machine

section

variable {grammar : Nat → Response} {code origin : String} {n : Nat}
variable (hfail : ∀ a ∈ (Session.requests grammar (.start (.ofText code origin)) n).1,
  a.isOk = false)
include hfail

/-- A run of failures has called the grammar for each of its requests. -/
theorem calls_of_failed :
    (Session.requests grammar (.start (.ofText code origin)) n).2.calls = n := by
  have huntil := Session.untilMet_append_of_errors _ [] hfail
  rw [List.append_nil] at huntil
  rw [(Session.standing_requests grammar code origin n).calls_eq, huntil]
  exact length_idle_answers grammar n

/-- A unit that has only failed is as it was. -/
theorem unit_of_failed :
    (Session.requests grammar (.start (.ofText code origin)) n).2.unit = .ofText code origin := by
  have hkept := (Session.standing_requests grammar code origin n).kept
  rw [Session.requests_unit, hkept.untouched hfail]
  rfl

/-- Each request of a run of failures is told what its call of the grammar raised. -/
theorem told_of_failed {i : Nat} (hi : i < n) :
    ∃ raised e, (grammar i).raised? = some raised ∧
      (Session.requests grammar (.start (.ofText code origin)) n).1[i]? = some (.error e) ∧
        Told origin raised e := by
  have hstanding := Session.standing_requests grammar code origin n
  have hanswer := hstanding.getElem?_of_lt_calls (by rw [calls_of_failed hfail]; exact hi)
  have herror := hfail _ (List.mem_of_getElem? hanswer)
  rw [Session.fate] at hanswer herror
  cases houtcome : (grammar i).outcome origin with
  | ok tree =>
    rw [houtcome] at herror
    cases herror
  | error e =>
    obtain ⟨raised, hraised, htold⟩ := Response.exists_raised_of_outcome houtcome
    rw [houtcome] at hanswer
    exact ⟨raised, e, hraised, hanswer, htold⟩

end

/-- **Failures are told as they should be, and leave nothing behind.**  Take any number of requests
to a unit that nothing has been asked of, all of them met with errors, whatever the grammar did.

Each of them called the grammar once, and is told what that call raised: a refusal of the text, by
the check of Ruby trees or by a grammar of any other making, as a text that cannot be processed,
with its origin and its cause; anything else as it is.  Where a fault is made from a name and
details, its name alone says whether it is a refusal.  The unit is then as it was, untouched and
without a tree.

From there everything goes on as if the unit were new and the grammar did at its first call what it
does at the next one: every further run has the same answers and leaves the unit in the same stage,
and so does every step on the way.  Only the numbers of the builds and the notes go on from those of
the failures. -/
theorem failures_leave_nothing (grammar : Nat → Response) (code origin : String) (n : Nat)
    (hfail : ∀ a ∈ (Session.requests grammar (.start (.ofText code origin)) n).1,
      a.isOk = false) :
    let first := Session.start (.ofText code origin)
    let fresh := fun i => grammar (n + i)
    (∀ i < n, ∃ raised e, (grammar i).raised? = some raised ∧
      (Session.requests grammar first n).1[i]? = some (.error e) ∧ Told origin raised e) ∧
    (∀ name details fault, Fault.ofDetails name details = .ok fault →
      (fault.isRefusal = true ↔ name ∈ Fault.refusalNames)) ∧
    (Session.requests grammar first n).2.unit = .ofText code origin ∧
    (∀ m, Session.requests grammar first (n + m) =
      ((Session.requests grammar first n).1 ++
          (Session.requests fresh first m).1.map fun answer =>
            answer.map fun built => built.behind n,
        (Session.requests fresh first m).2.behind (Session.requests grammar first n).2)) ∧
    ∀ k, (step grammar)^[k] (idle grammar first n) =
      ((step fresh)^[k] (start (.ofText code origin))).behind (idle grammar first n) := by
  intro first fresh
  have hcalls : (Session.requests grammar first n).2.calls = n := calls_of_failed hfail
  have hunit : (Session.requests grammar first n).2.unit = .ofText code origin :=
    unit_of_failed hfail
  have hfresh : ∀ i, grammar ((Session.requests grammar first n).2.calls + i) = fresh i := by
    intro i
    rw [hcalls]
  have hstart : first.behind (Session.requests grammar first n).2 =
      (Session.requests grammar first n).2 := by
    have h := Session.start_behind (Session.requests grammar first n).2 (by rw [hunit]; rfl)
    rwa [hunit] at h
  refine ⟨fun i hi => told_of_failed hfail hi,
    fun _ _ _ h => Fault.isRefusal_of_ofDetails h, hunit, fun m => ?_, fun k => ?_⟩
  · have hrun := Session.requests_behind first _ hfresh m
    rw [hstart, hcalls] at hrun
    rw [Session.requests_add, hrun]
  · have hidle : (start (.ofText code origin)).behind (idle grammar first n) =
        idle grammar first n := by
      show Machine.mk (first.behind (Session.requests grammar first n).2) [] _ = _
      rw [hstart]
      exact congrArg (Machine.mk _ []) (List.append_nil _)
    have hsteps := iterate_step_behind (start (.ofText code origin)) (idle grammar first n)
      hfresh k
    rwa [hidle] at hsteps

/-- A grammar that refuses the text, then asks the unit itself, then puts up with being refused and
fails for a reason of its own, and finds no code from then on. -/
def wayward : Nat → Response
  | 0 => .fails (.refused ⟨"missing 'end'", "string", 1, 1, ""⟩)
  | 1 => .asks
  | 2 => .persists (.fails (.failure ⟨"RubysmellError", ""⟩))
  | _ => .accepts [] ⟨none, []⟩

/-- Three requests to a unit with this grammar fail, the unit is then as it was, and the next one is
met. -/
theorem failures_wayward :
    (∀ a ∈ (Session.requests wayward (.start (.ofText "" "string")) 3).1, a.isOk = false) ∧
      (Session.requests wayward (.start (.ofText "" "string")) 3).2.unit = .ofText "" "string" ∧
      (Session.requests wayward (.start (.ofText "" "string")) 4).1[3]? = some (.ok ⟨3, none⟩) := by
  have hfail : ∀ a ∈ (Session.requests wayward (.start (.ofText "" "string")) 3).1,
      a.isOk = false := by decide
  obtain ⟨-, -, hunit, hrun, -⟩ := failures_leave_nothing wayward "" "string" 3 hfail
  refine ⟨hfail, hunit, ?_⟩
  rw [hrun 1]
  rfl

end Machine
end RubySource
