import RubySource.CodeUnit.Session

/-!
# Runs of requests

A run is any number of requests that follow one another, against a grammar that may do something
else at every call.  A unit that starts untouched is, after any run, in one of two situations: every
request so far was met with an error, and each of them called the grammar once; or there is a first
request that was met with a tree, and since then the grammar has not been called.

## What is here

* `Response.returned?`, `Response.outcome` — what a call of the grammar comes to, said without the
  unit and its stages.
* `Session.consult_of_building` — a grammar that is consulted comes to its outcome, and all that it
  changes in the session is what was overheard and noted.
* `Session.requests` — the answers of a run, and the session after it.
* `Session.Standing` — the two situations, with `Session.Standing.request` for one request and
  `Session.standing_requests` for a run.
* `Session.untilMet` — how many requests there are up to and including the first that is met.
* `Session.Kept`, `Session.Standing.kept` — the account of a run: how often the grammar was called,
  what is answered once a request was met, and where the tree is from.
-/

set_option autoImplicit false

namespace RubySource

/-! ## What a call of the grammar comes to

The grammar asks the unit only while the unit is being built, so all it can be told is that the unit
is busy. -/

/-- What the grammar hands over in the end, if it does. -/
def Response.returned? : Response → Option (Bytes × ParseTree.Accepted)
  | .accepts source accepted => some (source, accepted)
  | .fails _ => none
  | .asks => none
  | .persists next => next.returned?

/-- The outcome of a call, for a unit that is busy whenever it is asked. -/
def Response.outcome (origin : String) : Response → Except RequestError (Option Ast)
  | .accepts source accepted => .ok (accepted.toAst? source)
  | .fails (.failure f) => .error (.failure f)
  | .fails fault => .error (.unprocessable origin fault)
  | .asks => .error (.busy origin)
  | .persists next => next.outcome origin

/-- A call has a tree for its outcome exactly if the grammar hands something over, and then it is
the commented tree of that. -/
theorem Response.outcome_eq_ok_iff (origin : String) (r : Response) (tree : Option Ast) :
    r.outcome origin = .ok tree ↔
      ∃ source accepted, r.returned? = some (source, accepted) ∧ tree = accepted.toAst? source := by
  induction r with
  | accepts source accepted =>
    constructor
    · intro h
      exact ⟨source, accepted, rfl, (Except.ok.inj h).symm⟩
    · rintro ⟨source', accepted', h, rfl⟩
      obtain ⟨rfl, rfl⟩ := Prod.mk.inj (Option.some.inj h)
      rfl
  | fails fault => cases fault <;> simp [outcome, returned?]
  | asks => simp [outcome, returned?]
  | persists next ih => exact ih

namespace Session

/-! ## One build -/

/-- A fault is never noted as a call is. -/
theorem faultNote_ne_callNote (origin origin' why : String) :
    faultNote origin why ≠ callNote origin' := by
  unfold faultNote callNote
  intro h
  have := congrArg String.toList h
  simp [String.toList_append] at this

/-- A unit that is being built answers that it is busy. -/
theorem settled?_of_building {s : Session} (h : s.unit.phase = .building) :
    s.unit.settled? = some (.error (.busy s.unit.origin)) := by
  simp [CodeUnit.settled?, h]

theorem consult_asks {s : Session} (h : s.unit.phase = .building) :
    s.consult .asks = (.error (.busy s.unit.origin), s) := by
  simp only [consult, settled?_of_building h]
  rfl

theorem consult_persists {s : Session} (h : s.unit.phase = .building) (next : Response) :
    s.consult (.persists next) = (s.hearing (.busy s.unit.origin)).consult next := by
  simp only [consult, settled?_of_building h]

/-- **A grammar that is consulted comes to its outcome.**  It leaves the unit and the number of
calls as they are, and does not note another call. -/
theorem consult_of_building (r : Response) (s : Session) (h : s.unit.phase = .building) :
    (s.consult r).1 = r.outcome s.unit.origin ∧ (s.consult r).2.unit = s.unit ∧
      (s.consult r).2.calls = s.calls ∧
      ∀ origin,
        (s.consult r).2.notes.count (callNote origin) = s.notes.count (callNote origin) := by
  induction r generalizing s with
  | accepts source accepted => exact ⟨rfl, rfl, rfl, fun _ => rfl⟩
  | fails fault =>
    cases fault with
    | failure f => exact ⟨rfl, rfl, rfl, fun _ => rfl⟩
    | refused report =>
      refine ⟨rfl, rfl, rfl, fun origin => ?_⟩
      simp [consult, failing, noting, faultNote_ne_callNote]
    | malformed report =>
      refine ⟨rfl, rfl, rfl, fun origin => ?_⟩
      simp [consult, failing, noting, faultNote_ne_callNote]
  | asks =>
    rw [consult_asks h]
    exact ⟨rfl, rfl, rfl, fun _ => rfl⟩
  | persists next ih =>
    rw [consult_persists h]
    exact ih (s.hearing (.busy s.unit.origin)) h

/-- The answer to a request whose build is the call of a number. -/
def fate (grammar : Nat → Response) (origin : String) (i : Nat) : Except RequestError Built :=
  ((grammar i).outcome origin).map (Built.mk i)

/-- The stage in which an answer leaves the unit that was built for it. -/
def stageOf : Except RequestError Built → CodeUnit.Phase
  | .ok built => .done built
  | .error _ => .untouched

/-- A build is answered by its fate, calls the grammar once and notes that, and leaves the unit in
the stage that goes with the answer. -/
theorem build_spec (s : Session) (grammar : Nat → Response) :
    (s.build grammar).1 = fate grammar s.unit.origin s.calls ∧
      (s.build grammar).2.unit =
        { s.unit with phase := stageOf (fate grammar s.unit.origin s.calls) } ∧
      (s.build grammar).2.calls = s.calls + 1 ∧
      (s.build grammar).2.notes.count (callNote s.unit.origin) =
        s.notes.count (callNote s.unit.origin) + 1 := by
  obtain ⟨houtcome, hunit, hcalls, hnotes⟩ :=
    consult_of_building (grammar s.calls) s.opening rfl
  have horigin : s.opening.unit.origin = s.unit.origin := rfl
  have hphase : (s.opening.consult (grammar s.calls)).2.unit.phase = .building := by
    rw [hunit]
    rfl
  have hcount : s.opening.notes.count (callNote s.unit.origin) =
      s.notes.count (callNote s.unit.origin) + 1 := by
    simp [opening, noting, atPhase]
  rw [horigin] at houtcome
  have hnote := (hnotes s.unit.origin).trans hcount
  rw [build, fate, houtcome]
  cases (grammar s.calls).outcome s.unit.origin with
  | ok tree =>
    refine ⟨rfl, ?_, hcalls, hnote⟩
    simp only [closing, atPhase, hunit]
    rfl
  | error e =>
    simp only [closing, released, hphase]
    refine ⟨rfl, ?_, hcalls, hnote⟩
    simp only [atPhase, hunit]
    rfl

/-- A call is answered with a tree exactly if the grammar hands something over, and then the tree is
made of that and has the number of the call. -/
theorem fate_eq_ok_iff (grammar : Nat → Response) (origin : String) (i : Nat) (built : Built) :
    fate grammar origin i = .ok built ↔
      built.build = i ∧ ∃ source accepted,
        (grammar i).returned? = some (source, accepted) ∧ built.tree = accepted.toAst? source := by
  rw [← Response.outcome_eq_ok_iff origin]
  obtain ⟨build, tree⟩ := built
  rw [fate]
  cases (grammar i).outcome origin with
  | error e => simp [Except.map]
  | ok tree' => simp [Except.map, eq_comm]

/-! ## Runs -/

/-- The answers to a number of requests in a row, and the session after them. -/
def requests (grammar : Nat → Response) (s : Session) :
    Nat → List (Except RequestError Built) × Session
  | 0 => ([], s)
  | n + 1 =>
    let (answers, after) := requests grammar s n
    (answers ++ [(after.request grammar).1], (after.request grammar).2)

/-- Once the tree is there, a run is answered by it throughout and changes nothing. -/
theorem requests_of_done {grammar : Nat → Response} {s : Session} {built : Built}
    (h : s.unit.phase = .done built) (n : Nat) :
    requests grammar s n = (List.replicate n (.ok built), s) := by
  induction n with
  | zero => rfl
  | succ n ih =>
    simp only [requests, ih]
    rw [request_of_done s grammar built h, List.replicate_succ']

/-- Where a run can stand: nothing but errors so far, each of them from a call of its own, or a
first tree, which is the answer to every request since. -/
inductive Standing (grammar : Nat → Response) (origin : String)
    (answers : List (Except RequestError Built)) (s : Session) : Prop
  | unmet (horigin : s.unit.origin = origin) (hphase : s.unit.phase = .untouched)
      (hanswers : answers = (List.range s.calls).map (fate grammar origin))
      (hnotes : s.notes.count (callNote origin) = s.calls)
      (hfate : ∀ i < s.calls, (fate grammar origin i).isOk = false)
  | met (first more : Nat) (built : Built) (hphase : s.unit.phase = .done built)
      (hanswers : answers = (List.range first).map (fate grammar origin) ++
        List.replicate (more + 1) (.ok built))
      (hcalls : s.calls = first + 1)
      (hnotes : s.notes.count (callNote origin) = s.calls)
      (hfate : ∀ i < first, (fate grammar origin i).isOk = false)
      (hmet : fate grammar origin first = .ok built)

theorem Standing.start (grammar : Nat → Response) (code origin : String) :
    Standing grammar origin [] (Session.start (CodeUnit.ofText code origin)) :=
  .unmet rfl rfl rfl rfl fun _ h => absurd h (Nat.not_lt_zero _)

/-- **One request keeps to the two situations.** -/
theorem Standing.request {grammar : Nat → Response} {origin : String}
    {answers : List (Except RequestError Built)} {s : Session}
    (h : Standing grammar origin answers s) :
    Standing grammar origin (answers ++ [(s.request grammar).1]) (s.request grammar).2 := by
  cases h with
  | unmet horigin hphase hanswers hnotes hfate =>
    rw [request_of_untouched s grammar hphase]
    obtain ⟨hanswer, hunit, hcalls, hnote⟩ := build_spec s grammar
    rw [horigin] at hanswer hunit hnote
    rw [hnotes, ← hcalls] at hnote
    have hext : answers ++ [(s.build grammar).1] =
        (List.range s.calls).map (fate grammar origin) ++ [fate grammar origin s.calls] := by
      rw [hanswer, hanswers]
    cases hf : fate grammar origin s.calls with
    | ok built =>
      refine .met s.calls 0 built ?_ ?_ hcalls hnote hfate hf
      · rw [hunit, hf]
        rfl
      · rw [hext, hf]
        rfl
    | error e =>
      refine .unmet ?_ ?_ ?_ hnote ?_
      · rw [hunit]
        exact horigin
      · rw [hunit, hf]
        rfl
      · rw [hext, hcalls, List.range_succ, List.map_append]
        rfl
      · intro i hi
        rw [hcalls] at hi
        rcases Nat.lt_succ_iff_lt_or_eq.1 hi with hi | rfl
        · exact hfate i hi
        · rw [hf]
          rfl
  | met first more built hphase hanswers hcalls hnotes hfate hmet =>
    rw [request_of_done s grammar built hphase]
    refine .met first (more + 1) built hphase ?_ hcalls hnotes hfate hmet
    rw [hanswers, List.append_assoc, ← List.replicate_succ']

/-- A run from an untouched unit keeps to the two situations. -/
theorem standing_requests (grammar : Nat → Response) (code origin : String) (n : Nat) :
    Standing grammar origin (requests grammar (start (CodeUnit.ofText code origin)) n).1
      (requests grammar (start (CodeUnit.ofText code origin)) n).2 := by
  induction n with
  | zero => exact .start grammar code origin
  | succ n ih => exact ih.request

/-- Three requests call a grammar twice that first passes the refusal on and then puts up with
it. -/
example :
    (requests (fun i => .asksBack (i != 0)) (start (CodeUnit.ofText "" "string")) 3).2.calls
      = 2 := rfl

/-! ## The account of a run -/

/-- How many requests there are up to and including the first that is met; all of them, if none
is. -/
def untilMet : List (Except RequestError Built) → Nat
  | [] => 0
  | .ok _ :: _ => 1
  | .error _ :: rest => untilMet rest + 1

theorem untilMet_append_of_errors (errors answers : List (Except RequestError Built))
    (h : ∀ a ∈ errors, a.isOk = false) :
    untilMet (errors ++ answers) = errors.length + untilMet answers := by
  induction errors with
  | nil => simp
  | cons a errors ih =>
    cases a with
    | ok built => exact nomatch h _ List.mem_cons_self
    | error e =>
      rw [List.cons_append, untilMet, ih fun a ha => h a (List.mem_cons_of_mem _ ha),
        List.length_cons]
      omega

/-- What is to be said of a run by its answers and the session after it. -/
structure Kept (grammar : Nat → Response) (origin : String)
    (answers : List (Except RequestError Built)) (s : Session) : Prop where
  /-- The grammar is called by every request up to the first that is met, and by no other. -/
  calls : s.calls = untilMet answers
  /-- Every call is noted. -/
  noted : s.notes.count (callNote origin) = untilMet answers
  /-- While no request was met the unit is untouched. -/
  untouched : (∀ a ∈ answers, a.isOk = false) → s.unit.phase = .untouched
  /-- A tree that was an answer is there for good: it is the answer from then on, by the same build,
  which was the last call, and any number of further requests are answered by it and change
  nothing. -/
  done : ∀ (i : Nat) (built : Built), answers[i]? = some (.ok built) →
    s.unit.phase = .done built ∧ s.calls = built.build + 1 ∧
      (∀ j, i ≤ j → j < answers.length → answers[j]? = some (.ok built)) ∧
      ∀ more, requests grammar s more = (List.replicate more (.ok built), s)
  /-- A tree that was an answer is the commented tree of what the grammar handed over in its build,
  and no tree if that holds no code. -/
  tree : ∀ built, .ok built ∈ answers → ∃ source accepted,
    (grammar built.build).returned? = some (source, accepted) ∧
      built.tree = accepted.toAst? source
  /-- A request that calls the grammar is met exactly if the grammar hands something over. -/
  verdict : ∀ i < s.calls,
    (∃ built, answers[i]? = some (.ok built)) ↔ (grammar i).returned?.isSome

section

variable {grammar : Nat → Response} {origin : String}
variable {answers : List (Except RequestError Built)} {s : Session}

/-- The requests that called the grammar were answered by the fates of these calls. -/
theorem Standing.getElem?_of_lt_calls (h : Standing grammar origin answers s) {i : Nat}
    (hi : i < s.calls) : answers[i]? = some (fate grammar origin i) := by
  cases h with
  | unmet _ _ hanswers _ _ => simp [hanswers, hi]
  | met first more built _ hanswers hcalls _ _ hmet =>
    rw [hanswers]
    rcases Nat.lt_succ_iff_lt_or_eq.1 (hcalls ▸ hi) with hlt | rfl
    · rw [List.getElem?_append_left (by simpa using hlt)]
      simp [hlt]
    · rw [List.getElem?_append_right (by simp), hmet]
      simp

/-- A tree that was an answer is the tree of the unit; it was made by the last call, and has been
the answer ever since. -/
theorem Standing.of_ok (h : Standing grammar origin answers s) {i : Nat} {built : Built}
    (hi : answers[i]? = some (.ok built)) :
    s.unit.phase = .done built ∧ s.calls = built.build + 1 ∧
      fate grammar origin built.build = .ok built ∧
      ∀ j, i ≤ j → j < answers.length → answers[j]? = some (.ok built) := by
  have hlt : i < answers.length := (List.getElem?_eq_some_iff.1 hi).1
  have hfate_i : i < s.calls → fate grammar origin i = .ok built := fun hcalls =>
    Option.some.inj ((h.getElem?_of_lt_calls hcalls).symm.trans hi)
  cases h with
  | unmet _ _ hanswers _ hfate =>
    have hcalls : i < s.calls := by simpa [hanswers] using hlt
    have hfail := hfate i hcalls
    rw [hfate_i hcalls] at hfail
    exact nomatch hfail
  | met first more built' hphase hanswers hcalls _ hfate hmet =>
    have hfirst : first ≤ i := by
      rcases Nat.lt_or_ge i first with hbefore | hfirst
      · have hfail := hfate i hbefore
        rw [hfate_i (by omega)] at hfail
        exact nomatch hfail
      · exact hfirst
    have hsince : ∀ j, first ≤ j → j < answers.length → answers[j]? = some (.ok built') := by
      intro j hj hjlt
      rw [hanswers] at hjlt ⊢
      rw [List.getElem?_append_right (by simpa using hj)]
      simp only [List.length_append, List.length_map, List.length_range,
        List.length_replicate] at hjlt
      simp only [List.length_map, List.length_range, List.getElem?_replicate]
      rw [if_pos (by omega)]
    obtain rfl : built' = built :=
      Except.ok.inj (Option.some.inj ((hsince i hfirst hlt).symm.trans hi))
    obtain ⟨hbuild, -⟩ := (fate_eq_ok_iff grammar origin first built').1 hmet
    refine ⟨hphase, ?_, ?_, fun j hj => hsince j (Nat.le_trans hfirst hj)⟩
    · rw [hbuild, hcalls]
    · rw [hbuild, hmet]

/-- How often the grammar was called can be told from the answers. -/
theorem Standing.calls_eq (h : Standing grammar origin answers s) : s.calls = untilMet answers := by
  cases h with
  | unmet _ _ hanswers _ hfate =>
    have herrors : ∀ a ∈ answers, a.isOk = false := by
      simpa [hanswers] using hfate
    have hlength := untilMet_append_of_errors answers [] herrors
    rw [List.append_nil] at hlength
    rw [hlength, hanswers]
    simp [untilMet]
  | met first more built _ hanswers hcalls _ hfate _ =>
    rw [hanswers, untilMet_append_of_errors _ _ (by simpa using hfate), List.replicate_succ,
      untilMet, hcalls]
    simp

/-- **The account of a run holds in either situation.** -/
theorem Standing.kept (h : Standing grammar origin answers s) : Kept grammar origin answers s where
  calls := h.calls_eq
  noted := by
    rw [← h.calls_eq]
    cases h with
    | unmet _ _ _ hnotes _ => exact hnotes
    | met _ _ _ _ _ _ hnotes _ _ => exact hnotes
  untouched := by
    intro herrors
    cases h with
    | unmet _ hphase _ _ _ => exact hphase
    | met first more built _ hanswers _ _ _ _ =>
      have hmem : Except.ok built ∈ answers := by simp [hanswers]
      exact nomatch herrors _ hmem
  done := by
    intro i built hi
    obtain ⟨hphase, hcalls, -, hsince⟩ := h.of_ok hi
    exact ⟨hphase, hcalls, hsince, requests_of_done hphase⟩
  tree := by
    intro built hmem
    obtain ⟨i, hi⟩ := List.mem_iff_getElem?.1 hmem
    obtain ⟨-, -, hfate, -⟩ := h.of_ok hi
    exact ((fate_eq_ok_iff grammar origin built.build built).1 hfate).2
  verdict := by
    intro i hi
    rw [h.getElem?_of_lt_calls hi, Option.isSome_iff_exists]
    constructor
    · rintro ⟨built, hb⟩
      obtain ⟨-, source, accepted, hret, -⟩ :=
        (fate_eq_ok_iff grammar origin i built).1 (Option.some.inj hb)
      exact ⟨_, hret⟩
    · rintro ⟨⟨source, accepted⟩, hret⟩
      refine ⟨⟨i, accepted.toAst? source⟩, congrArg some ?_⟩
      exact (fate_eq_ok_iff grammar origin i _).2 ⟨rfl, source, accepted, hret, rfl⟩

end

end Session
end RubySource
