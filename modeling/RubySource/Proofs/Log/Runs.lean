import RubySource.Proofs.Log.SetUp

/-!
# The log over many set-ups

A program may set its log up as often as it likes, and every call may stop midway.  Two rules hold
over all of them, and they look in opposite directions: the level is that of the last call that knew
one, and the destinations are those of the first.

## What is here

* `Log.Call`, `Log.Call.Own` — a call, and the level that is its own; `Call.Own.unique`.
* `Log.IsLayout` — **the three ways** in which destinations stand.
* `Log.Step`, `Log.Run` — calls one after another, with anything in between that leaves level and
  destinations alone; `run_steps` says that any calls can be made in a row.
* `Log.Step.after_destinations`, `Log.Step.isLayout_after`, `Log.Step.of_ok` — what one call does.
* `Log.levels_last_destinations_first` — the payoff: **destinations, once there, stay for good, and
  behind a call that returns the level is the call's own**.
-/

set_option autoImplicit false

namespace RubySource
namespace Log

/-! ## Calls -/

/-- What a set-up is called with. -/
structure Call where
  time : String
  depth : Nat
  userFile : Config.Found
  config : Option ConfigValue
  verbose : Bool
  quiet : Bool

/-- What a call makes of a log. -/
def Call.outcome (call : Call) (log : Log) : Except LogError Unit × Log :=
  log.setUpFor call.time call.depth call.userFile call.config call.verbose call.quiet

/-- The level that is a call's own: by its switches, or else by the settings that it finds. -/
def Call.Own (call : Call) (level : Nat) : Prop :=
  ∃ settings, Finds call.depth call.userFile call.config settings ∧
    Asks settings call.verbose call.quiet level

theorem Finds.unique {depth : Nat} {userFile : Config.Found} {config : Option ConfigValue}
    {settings settings' : ConfigValue} (h : Finds depth userFile config settings)
    (h' : Finds depth userFile config settings') :
    settings = settings' := by
  cases h with
  | given hsection =>
    cases h' with
    | given hsection' => exact Except.ok.inj (hsection.symm.trans hsection')
  | loaded hload hsection =>
    cases h' with
    | loaded hload' hsection' =>
      obtain rfl := Except.ok.inj (hload.symm.trans hload')
      exact Except.ok.inj (hsection.symm.trans hsection')

/-- No call has two levels, whatever log it meets. -/
theorem Call.Own.unique {call : Call} {level level' : Nat} (h : call.Own level)
    (h' : call.Own level') : level = level' := by
  obtain ⟨settings, hfinds, hasks⟩ := h
  obtain ⟨settings', hfinds', hasks'⟩ := h'
  obtain rfl := hfinds.unique hfinds'
  rw [← wantedLevel_eq_ok_iff] at hasks hasks'
  exact Except.ok.inj (hasks.symm.trans hasks')

/-! ## One call -/

/-- The ways in which destinations stand: none, the console, or the console and a file. -/
def IsLayout (ds : List Destination) : Prop :=
  ds = [] ∨ ds = [.console] ∨ ∃ place, ds = [.console, .file place]

/-- A call and the log that it meets. -/
structure Step where
  call : Call
  before : Log

namespace Step

/-- Whether the call returned, or the error that it raised. -/
def result (s : Step) : Except LogError Unit := (s.call.outcome s.before).1

/-- The log behind the call. -/
def after (s : Step) : Log := (s.call.outcome s.before).2

/-- A call stops before it has done anything, or sets its own level. -/
theorem stops_or_own (s : Step) :
    ((∃ e, s.result = .error e) ∧ s.after = s.before) ∨
      ∃ settings, Finds s.call.depth s.call.userFile s.call.config settings ∧
        Asks settings s.call.verbose s.call.quiet s.after.level := by
  rcases setUpFor_stops_or_asks s.call.time s.before s.call.depth s.call.userFile s.call.config
    s.call.verbose s.call.quiet with ⟨e, hstops⟩ | ⟨settings, level, hfinds, hasks⟩
  · exact .inl ⟨⟨e, congrArg Prod.fst hstops⟩, congrArg Prod.snd hstops⟩
  · obtain ⟨hlevel, -⟩ := setUpFor_of_asks s.call.time s.before hfinds hasks
    obtain rfl : s.after.level = level := hlevel
    exact .inr ⟨settings, hfinds, hasks⟩

/-- Destinations that are there stay. -/
theorem after_destinations {s : Step} (h : s.before.destinations ≠ []) :
    s.after.destinations = s.before.destinations := by
  rcases s.stops_or_own with ⟨-, hsame⟩ | ⟨settings, hfinds, hasks⟩
  · rw [hsame]
  · have hagain : s.call.outcome s.before = (.ok (), s.before.setLevel s.after.level) :=
      setUpFor_again hfinds hasks h
    rw [after, hagain]
    rfl

/-- Where there are none, a call that knows its level adds the console, and perhaps a file. -/
theorem after_destinations_of_first {s : Step} (h : s.before.destinations = []) :
    ((∃ e, s.result = .error e) ∧ s.after = s.before) ∨ s.after.destinations = [.console] ∨
      ∃ place, s.after.destinations = [.console, .file place] := by
  rcases s.stops_or_own with hstops | ⟨settings, hfinds, hasks⟩
  · exact .inl hstops
  · have hfirst : s.call.outcome s.before = addFile s.call.time settings
        { s.before.setLevel s.after.level with destinations := [.console] } :=
      setUpFor_first hfinds hasks h
    right
    rw [after, hfirst]
    rcases addFile_cases s.call.time settings with hsame | ⟨-, place, hplace⟩
    · exact .inl hsame.destinations
    · exact .inr ⟨place, hplace⟩

theorem isLayout_after {s : Step} (h : IsLayout s.before.destinations) :
    IsLayout s.after.destinations := by
  by_cases hempty : s.before.destinations = []
  · rcases after_destinations_of_first hempty with ⟨-, hsame⟩ | hlayout
    · rwa [hsame]
    · exact .inr hlayout
  · rwa [after_destinations hempty]

/-- A call that returns leaves its own level, and the log with a destination. -/
theorem of_ok {s : Step} (h : s.result = .ok ()) :
    s.call.Own s.after.level ∧ s.after.destinations ≠ [] := by
  constructor
  · rcases s.stops_or_own with ⟨⟨e, he⟩, -⟩ | howns
    · rw [h] at he
      cases he
    · exact howns
  · by_cases hempty : s.before.destinations = []
    · rcases after_destinations_of_first hempty with ⟨⟨e, he⟩, -⟩ | hconsole | ⟨place, hplace⟩
      · rw [h] at he
        cases he
      · rw [hconsole]
        exact List.cons_ne_nil _ _
      · rw [hplace]
        exact List.cons_ne_nil _ _
    · rwa [after_destinations hempty]

end Step

/-! ## Many calls -/

/-- Calls one after another, from a log on.  In between anything may happen to the files and records
may be made, but nobody else touches the level or the destinations. -/
inductive Run : Log → List Step → Prop
  | done (log : Log) : Run log []
  | call {log : Log} {step : Step} {later : List Step} (h : log.IsSetAs step.before)
      (hlater : Run step.after later) : Run log (step :: later)

/-- The calls that are made in a row, with nothing in between. -/
def steps (log : Log) : List Call → List Step
  | [] => []
  | call :: rest => ⟨call, log⟩ :: steps (call.outcome log).2 rest

theorem run_steps (log : Log) (calls : List Call) : Run log (log.steps calls) := by
  induction calls generalizing log with
  | nil => exact .done log
  | cons call rest ih => exact .call (.refl log) (ih _)

section

variable {start : Log} {run : List Step}

/-- Over a run the destinations stand in one of the three ways. -/
theorem Run.isLayout (h : Run start run) (hstart : IsLayout start.destinations) :
    ∀ s ∈ run, IsLayout s.after.destinations := by
  induction h with
  | done => exact fun s hs => absurd hs List.not_mem_nil
  | call hbefore _ ih =>
    have hafter := Step.isLayout_after (hbefore.destinations ▸ hstart)
    exact List.forall_mem_cons.2 ⟨hafter, ih hafter⟩

/-- Destinations that are there at the start are there over the whole run, and no others. -/
theorem Run.destinations_eq (h : Run start run) (hstart : start.destinations ≠ []) :
    ∀ s ∈ run, s.after.destinations = start.destinations := by
  induction h with
  | done => exact fun s hs => absurd hs List.not_mem_nil
  | @call log step later hbefore _ ih =>
    have hafter : step.after.destinations = log.destinations := by
      rw [← hbefore.destinations] at hstart ⊢
      exact Step.after_destinations hstart
    rw [hafter] at ih
    exact List.forall_mem_cons.2 ⟨hafter, ih hstart⟩

/-- Of two calls, the earlier one decides on the destinations, if it leaves any. -/
theorem Run.pairwise_destinations (h : Run start run) :
    run.Pairwise fun s t =>
      s.after.destinations ≠ [] → t.after.destinations = s.after.destinations := by
  induction h with
  | done => exact .nil
  | call _ hlater ih =>
    exact .cons (fun t ht hset => hlater.destinations_eq hset t ht) ih

/-- **The last call decides on the level, the first one on the destinations.**  Over any run of
calls that starts without destinations, whether they return or raise, there are no destinations, or
the console, or the console and a file.  Once there are any, they stay for good.  And behind every
call that returns, the level is the call's own, which no log plays a part in, and the console is
there. -/
theorem levels_last_destinations_first (h : Run start run) (hstart : start.destinations = []) :
    (∀ s ∈ run, IsLayout s.after.destinations) ∧
    (run.Pairwise fun s t =>
      s.after.destinations ≠ [] → t.after.destinations = s.after.destinations) ∧
    ∀ s ∈ run, s.result = .ok () →
      (∀ level, s.call.Own level ↔ level = s.after.level) ∧ s.after.destinations ≠ [] := by
  refine ⟨h.isLayout (.inl hstart), h.pairwise_destinations, fun s _ hok => ?_⟩
  obtain ⟨howns, hset⟩ := Step.of_ok hok
  refine ⟨fun level => ⟨fun hlevel => hlevel.unique howns, ?_⟩, hset⟩
  rintro rfl
  exact howns

end

namespace Sample

/-- A call whose word for the level stops it. -/
def stopped : Call := ⟨"", 100, .ok none, some (wordConfig "basic_format"), false, false⟩

/-- A call whose log file is named by a number. -/
def misnamed : Call :=
  ⟨"", 100, .ok none, some (.table [("logging", .table [("file", .int 5)])]), true, false⟩

/-- A call that names a log file properly. -/
def proper : Call :=
  ⟨"", 100, .ok none, some (.table [("logging", .table [("file", .text "app.log")])]), false, true⟩

/-- The three calls in a row, on a log that is not set up. -/
def steps : List Step := (start .empty).steps [stopped, misnamed, proper]

end Sample

/-- The second call stops behind the console.  The third one sets its own level, but its log file
comes too late. -/
theorem levels_last_sample :
    Run (start .empty) Sample.steps ∧ (start .empty).destinations = [] ∧
      Sample.steps.map (fun s => s.after.destinations) = [[], [.console], [.console]] ∧
      ∃ s ∈ Sample.steps, s.call = Sample.proper ∧ s.result = .ok () ∧
        s.after.level = LogLevel.error := by
  have hrun : Run (start .empty) Sample.steps := run_steps _ _
  obtain ⟨-, hpairwise, hreturned⟩ := levels_last_destinations_first hrun rfl
  have hset : Sample.steps[1].after.destinations = [.console] := rfl
  have hkept : Sample.steps[2].after.destinations = Sample.steps[1].after.destinations :=
    List.pairwise_iff_getElem.1 hpairwise 1 2 (by decide) (by decide) (by decide)
      (hset ▸ List.cons_ne_nil _ _)
  have hok : Sample.steps[2].result = .ok () := rfl
  have hown : Sample.steps[2].call.Own LogLevel.error := ⟨_, .given rfl, .quiet⟩
  have hmem : Sample.steps[2] ∈ Sample.steps := List.getElem_mem _
  refine ⟨hrun, rfl, ?_, _, hmem, rfl, hok, (((hreturned _ hmem hok).1 _).1 hown).symm⟩
  show [Sample.steps[0].after.destinations, Sample.steps[1].after.destinations,
    Sample.steps[2].after.destinations] = _
  rw [hkept, hset]
  rfl

end Log
end RubySource
