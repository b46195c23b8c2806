import Mathlib.Data.List.Nodup
import RubySource.Log.Setup

/-!
# What a set-up of the log does

A set-up looks for the settings, then for the level that they ask for, and then, if it is the first
one, for the log file.  Where it stops, what it has done by then stays.

Any text may stand in the settings as a level.  It is looked up by its upper-case form, and a word
that is not known is no error: the level of warnings takes its place.  But the words that are known
are more than the names of levels, and the others stop the set-up.

## What is here

* `LogLevel.Means` — **the specification**: the level that a word stands for;
  `named_eq_level_iff`, `named_eq_other_iff` say that the look-up keeps to it.
* `FileSystem.openLog_eq_nul_iff`, `FileSystem.openLog_eq_strayHalves_iff` — the names that no file
  can have.
* `Log.Finds`, `Log.Asks` — the settings that a set-up finds, and the level that they and the two
  switches ask for; `wantedLevel_eq_ok_iff`.
* `Log.IsSetAs`, `Log.isSetAs_emit` — records leave level and destinations as they are.
* `Log.setUpFor_stops_or_asks`, `Log.setUpFor_first`, `Log.setUpFor_again` — all that a set-up can
  do.
* `Log.Misnames` — what settings may name as a log file that is no name of a file;
  `Log.addFile_spec` says all that adding the log file can do.
* `Log.settled_by_word` — the payoff: **no word for a level stops a set-up but two**, and all that
  are not known stand for warnings.  `Log.stopped_by_word` is one of the two.
-/

set_option autoImplicit false

namespace RubySource

/-! ## Words -/

section

variable {β : Type} {entries : List (LooseText × β)} {key : LooseText}

/-- Among entries with keys of their own, what is looked up is what is there. -/
theorem lookup_eq_some_iff_mem (h : (entries.map Prod.fst).Nodup) {value : β} :
    entries.lookup key = some value ↔ (key, value) ∈ entries := by
  constructor
  · intro hlookup
    obtain ⟨before, after, rfl, -⟩ := List.lookup_eq_some_iff.1 hlookup
    exact List.mem_append_right before List.mem_cons_self
  · intro hmem
    obtain ⟨before, after, rfl⟩ := List.append_of_mem hmem
    refine List.lookup_eq_some_iff.2 ⟨before, after, rfl, fun entry hentry => bne_iff_ne.2 ?_⟩
    rintro rfl
    rw [List.map_append, List.nodup_append] at h
    exact h.2.2 _ (List.mem_map_of_mem hentry) _ List.mem_cons_self rfl

theorem lookup_eq_none_iff_not_mem :
    entries.lookup key = none ↔ ∀ value, (key, value) ∉ entries := by
  rw [List.lookup_eq_none_iff]
  constructor
  · intro h value hmem
    simpa using h _ hmem
  · rintro h ⟨other, value⟩ hmem
    rw [bne_iff_ne]
    rintro rfl
    exact h value hmem

end

namespace LogLevel

/-- The level that a word stands for: the one that its upper case names, and where that is not known
at all, the level of warnings. -/
inductive Means (word : LooseText) : Nat → Prop
  | name {level : Nat} (h : (word.upper, level) ∈ names) : Means word level
  | unknown (hname : ∀ level, (word.upper, level) ∉ names)
      (hother : ∀ what, (word.upper, what) ∉ others) : Means word warning

theorem nodup_names : (names.map Prod.fst).Nodup := by decide

theorem nodup_others : (others.map Prod.fst).Nodup := by decide

/-- No name of a level stands for anything else. -/
theorem not_mem_others_of_mem_names {word : LooseText} {level : Nat} (h : (word, level) ∈ names)
    (what : Other) : (word, what) ∉ others := by
  have hapart : ∀ name ∈ names.map Prod.fst, name ∉ others.map Prod.fst := by decide
  exact fun hother => hapart word (List.mem_map_of_mem h) (List.mem_map_of_mem hother)

theorem exists_mem_others_iff {word : LooseText} :
    (∃ what, (word, what) ∈ others) ↔ word = "BASIC_FORMAT" ∨ word = "_STYLES" := by
  simp [others, exists_or]

variable {word : LooseText}

theorem named_eq_other_iff {what : Other} :
    named word = .other what ↔ (word.upper, what) ∈ others := by
  rw [← lookup_eq_some_iff_mem nodup_others, named]
  cases others.lookup word.upper <;> simp

theorem named_of_not_mem_others (h : ∀ what, (word.upper, what) ∉ others) :
    named word = .level ((names.lookup word.upper).getD warning) := by
  rw [named, lookup_eq_none_iff_not_mem.2 h]

theorem named_eq_level_iff {level : Nat} : named word = .level level ↔ Means word level := by
  constructor
  · intro h
    have hother : ∀ what, (word.upper, what) ∉ others := by
      intro what hwhat
      rw [named_eq_other_iff.2 hwhat] at h
      cases h
    rw [named_of_not_mem_others hother, Named.level.injEq] at h
    cases hlookup : names.lookup word.upper with
    | none =>
      rw [hlookup] at h
      obtain rfl : warning = level := h
      exact .unknown (lookup_eq_none_iff_not_mem.1 hlookup) hother
    | some found =>
      rw [hlookup] at h
      obtain rfl : found = level := h
      exact .name ((lookup_eq_some_iff_mem nodup_names).1 hlookup)
  · intro h
    cases h with
    | name hlevel =>
      rw [named_of_not_mem_others (not_mem_others_of_mem_names hlevel),
        (lookup_eq_some_iff_mem nodup_names).2 hlevel, Option.getD_some]
    | unknown hname hother =>
      rw [named_of_not_mem_others hother, lookup_eq_none_iff_not_mem.2 hname, Option.getD_none]

/-- No word stands for two levels. -/
theorem Means.unique {level level' : Nat} (h : Means word level) (h' : Means word level') :
    level = level' := by
  rw [← named_eq_level_iff] at h h'
  exact Named.level.inj (h.symm.trans h')

end LogLevel

/-! ## Names that are none -/

/-- A problem that lies in a name alone, whatever stands there. -/
def FileProblem.IsOfName : FileProblem → Prop
  | .nul => True
  | .strayHalves _ => True
  | _ => False

namespace FileSystem

open FilePath

variable {fs : FileSystem} {place : Place} {problem : FileProblem}

/-- What is found on the way to a file is no problem of the name alone. -/
theorem not_isOfName_of_follow {entry : FileEntry} {parts : List LooseText}
    (h : fs.follow place entry parts = .error problem) : ¬ problem.IsOfName := by
  induction parts generalizing place entry with
  | nil => cases h
  | cons part rest ih =>
    cases entry with
    | file bytes =>
      cases h
      exact id
    | folder =>
      rw [follow] at h
      split at h
      · cases h
        exact id
      · split at h
        · exact ih h
        · cases h
          exact id

theorem not_isOfName_of_locate (h : fs.locate place = .error problem) : ¬ problem.IsOfName := by
  rw [locate] at h
  split at h
  · cases h
    exact id
  · exact not_isOfName_of_follow h

theorem not_isOfName_of_openAt (h : fs.openAt place = .error problem) : ¬ problem.IsOfName := by
  rw [openAt] at h
  split at h
  · cases h
    exact id
  · cases h
  · split at h
    · cases h
    · cases h
      exact id
  next e _ he =>
    cases h
    exact not_isOfName_of_locate he

/-- A log file is refused for the halves in its name before anything else. -/
theorem openLog_eq_strayHalves_iff {name : LooseText} {e : EncodeError} :
    fs.openLog name = .error (.strayHalves e) ↔
      LooseText.strayHalvesFrom? (fun h => h.byte?.isNone) 0 (fs.logName name) = some e := by
  rw [openLog]
  cases LooseText.strayHalvesFrom? (fun h => h.byte?.isNone) 0 (fs.logName name) with
  | some found => simp
  | none =>
    refine iff_of_false (fun h => ?_) nofun
    dsimp only at h
    repeat' split at h
    · cases h
    · cases h
    · exact not_isOfName_of_openAt h trivial

/-- It is refused for a NUL only where all halves in its name stand for bytes. -/
theorem openLog_eq_nul_iff {name : LooseText} :
    fs.openLog name = .error .nul ↔
      (∀ half, .half half ∈ fs.logName name → half.byte?.isSome = true) ∧
        .char '\x00' ∈ fs.logName name := by
  have hbytes : (∀ half, .half half ∈ fs.logName name → half.byte?.isSome = true) ↔
      LooseText.strayHalvesFrom? (fun h => h.byte?.isNone) 0 (fs.logName name) = none := by
    simp only [LooseText.strayHalvesFrom?_eq_none_iff, Option.isNone_eq_false_iff]
  rw [hbytes, openLog]
  cases LooseText.strayHalvesFrom? (fun h => h.byte?.isNone) 0 (fs.logName name) with
  | some found => simp
  | none =>
    rw [eq_self, true_and]
    by_cases hnul : .char '\x00' ∈ fs.logName name
    · simp [hnul]
    · refine iff_of_false (fun h => ?_) hnul
      simp only [List.contains_iff_mem, hnul, if_false] at h
      split at h
      · cases h
      · exact not_isOfName_of_openAt h trivial

end FileSystem

namespace Log

/-! ## Settings -/

/-- The settings of the log that a set-up finds: in the configuration that it is given, or else in
that of the user. -/
inductive Finds (depth : Nat) (userFile : Config.Found) : Option ConfigValue → ConfigValue → Prop
  | given {config settings : ConfigValue} (h : Config.sectionOf config "logging" = .ok settings) :
      Finds depth userFile (some config) settings
  | loaded {config settings : ConfigValue} (hload : Config.loadGlobal depth userFile = .ok config)
      (h : Config.sectionOf config "logging" = .ok settings) : Finds depth userFile none settings

/-- The level that two switches and the settings ask for.  The settings count only if neither switch
is set, and a setting that does not count as given asks for the level of warnings. -/
inductive Asks (settings : ConfigValue) : (verbose quiet : Bool) → Nat → Prop
  | verbose (quiet : Bool) : Asks settings true quiet LogLevel.debug
  | quiet : Asks settings false true LogLevel.error
  | standard {v : ConfigValue} (h : Config.get settings "level" = .ok v) (hv : v.isTruthy = false) :
      Asks settings false false LogLevel.warning
  | word {t : LooseText} {level : Nat} (h : Config.get settings "level" = .ok (.text t))
      (hlevel : LogLevel.Means t level) : Asks settings false false level

variable {settings : ConfigValue} {verbose quiet : Bool} {level : Nat}

/-- A text asks for the level that it stands for, even the empty one. -/
theorem wantedLevel_of_text {t : LooseText} (h : Config.get settings "level" = .ok (.text t)) :
    wantedLevel settings false false =
      match LogLevel.named t with
      | .level level => .ok level
      | .other what => .error (.unknownLevel what) := by
  by_cases ht : t = ""
  · subst ht
    simp only [wantedLevel, h, Bool.false_eq_true, if_false]
    rfl
  · have htruthy := Value.isTruthy_text_iff.2 ht
    cases hnamed : LogLevel.named t <;>
      simp only [wantedLevel, h, Bool.false_eq_true, if_false, Value.orElse, if_pos htruthy, hnamed]

theorem wantedLevel_of_not_isTruthy {v : ConfigValue} (h : Config.get settings "level" = .ok v)
    (hv : v.isTruthy = false) : wantedLevel settings false false = .ok LogLevel.warning := by
  simp only [wantedLevel, h, Bool.false_eq_true, if_false]
  rw [Value.orElse, hv, if_neg Bool.false_ne_true]
  rfl

/-- A level that the settings alone give is one that they ask for. -/
theorem asks_of_wantedLevel (h : wantedLevel settings false false = .ok level) :
    Asks settings false false level := by
  cases hget : Config.get settings "level" with
  | error e => simp [wantedLevel, hget] at h
  | ok v =>
    cases htruthy : v.isTruthy with
    | false =>
      rw [wantedLevel_of_not_isTruthy hget htruthy] at h
      cases h
      exact .standard hget htruthy
    | true =>
      cases v with
      | text t =>
        rw [wantedLevel_of_text hget] at h
        cases hnamed : LogLevel.named t with
        | level found =>
          rw [hnamed] at h
          cases h
          exact .word hget (LogLevel.named_eq_level_iff.1 hnamed)
        | other what =>
          rw [hnamed] at h
          cases h
      | _ => simp [wantedLevel, hget, Value.orElse, htruthy] at h

/-- A set-up asks for the level that its switches and settings ask for, or for none. -/
theorem wantedLevel_eq_ok_iff :
    wantedLevel settings verbose quiet = .ok level ↔ Asks settings verbose quiet level := by
  constructor
  · intro h
    match verbose, quiet with
    | true, quiet =>
      cases h
      exact .verbose quiet
    | false, true =>
      cases h
      exact .quiet
    | false, false => exact asks_of_wantedLevel h
  · intro h
    cases h with
    | verbose quiet => rfl
    | quiet => rfl
    | standard hget hv => exact wantedLevel_of_not_isTruthy hget hv
    | word hget hlevel => rw [wantedLevel_of_text hget, LogLevel.named_eq_level_iff.2 hlevel]

/-! ## Records -/

/-- A log has the level and the destinations of another one. -/
structure IsSetAs (log log' : Log) : Prop where
  level : log'.level = log.level
  destinations : log'.destinations = log.destinations

theorem IsSetAs.refl (log : Log) : log.IsSetAs log := ⟨rfl, rfl⟩

theorem IsSetAs.trans {a b c : Log} (h : a.IsSetAs b) (h' : b.IsSetAs c) : a.IsSetAs c :=
  ⟨h'.level.trans h.level, h'.destinations.trans h.destinations⟩

theorem isSetAs_write (line : String) (log : Log) (d : Destination) :
    log.IsSetAs (write line log d) := by
  cases d <;> exact ⟨rfl, rfl⟩

theorem isSetAs_foldl_write (line : String) (log : Log) (ds : List Destination) :
    log.IsSetAs (ds.foldl (write line) log) := by
  induction ds generalizing log with
  | nil => exact .refl log
  | cons d ds ih => exact (isSetAs_write line log d).trans (ih _)

theorem isSetAs_deliver (time : String) (log : Log) (r : Record) :
    log.IsSetAs (deliver time log r) := by
  rw [deliver]
  split
  · exact isSetAs_foldl_write ..
  · split
    · exact isSetAs_write ..
    · exact .refl log

theorem isSetAs_noting (log : Log) (r : Record) : log.IsSetAs (log.noting r) := by
  rw [noting]
  split
  · exact ⟨rfl, rfl⟩
  · exact .refl log

/-- Making a record leaves the set-up as it is. -/
theorem isSetAs_emit (time : String) (log : Log) (r : Record) :
    log.IsSetAs (log.emit time r) := by
  have hdecided : log.IsSetAs
      ({ log with family := log.family.make r.logger }.deciding r.logger r.level) := ⟨rfl, rfl⟩
  rw [emit]
  split
  · exact hdecided.trans ((isSetAs_noting _ r).trans (isSetAs_deliver time _ r))
  · exact hdecided

/-! ## The set-up -/

variable {depth : Nat} {userFile : Config.Found} {config : Option ConfigValue} (time : String)
  (log : Log)

/-- Where settings are found, there is a configuration that they are in. -/
theorem Finds.exists_config (h : Finds depth userFile config settings) :
    ∃ found, Config.sectionOf found "logging" = .ok settings ∧
      log.setUpFor time depth userFile config verbose quiet
        = log.setUp time found verbose quiet := by
  cases h with
  | @given found settings hsection => exact ⟨found, hsection, rfl⟩
  | @loaded found settings hload hsection =>
    refine ⟨found, hsection, ?_⟩
    simp only [setUpFor, hload]

/-- What a set-up does behind its settings: it finds no level, or sets it; and where nothing takes
records, it adds what does. -/
theorem setUpFor_of_finds (h : Finds depth userFile config settings) :
    log.setUpFor time depth userFile config verbose quiet =
      match wantedLevel settings verbose quiet with
      | .error e => (.error e, log)
      | .ok level =>
        if log.destinations = [] then
          addFile time settings { log.setLevel level with destinations := [.console] }
        else (.ok (), log.setLevel level) := by
  obtain ⟨found, hsection, hsetUp⟩ := h.exists_config time log
  rw [hsetUp]
  cases hlevel : wantedLevel settings verbose quiet <;>
    simp only [setUp, hsection, hlevel, setLevel, List.isEmpty_iff]

/-- A set-up that finds no settings stops there. -/
theorem setUpFor_of_not_finds (h : ∀ settings, ¬ Finds depth userFile config settings) :
    ∃ e, log.setUpFor time depth userFile config verbose quiet = (.error e, log) := by
  have hstops : ∀ config, (∀ settings, Config.sectionOf config "logging" ≠ .ok settings) →
      ∃ e, log.setUp time config verbose quiet = (.error e, log) := by
    intro config hsection
    cases hget : Config.sectionOf config "logging" with
    | error e => exact ⟨.config e, by simp only [setUp, hget]⟩
    | ok settings => exact absurd hget (hsection settings)
  cases config with
  | some config => exact hstops config fun settings hsection => h settings (.given hsection)
  | none =>
    cases hload : Config.loadGlobal depth userFile with
    | error e => exact ⟨.config e, by simp only [setUpFor, hload]⟩
    | ok config =>
      simp only [setUpFor, hload]
      exact hstops config fun settings hsection => h settings (.loaded hload hsection)

section

variable {time log} (hsettings : Finds depth userFile config settings)
  (hasks : Asks settings verbose quiet level)
include hsettings hasks

/-- The first set-up that knows its level adds the console, and goes on to the log file. -/
theorem setUpFor_first (hempty : log.destinations = []) :
    log.setUpFor time depth userFile config verbose quiet
      = addFile time settings { log.setLevel level with destinations := [.console] } := by
  rw [setUpFor_of_finds time log hsettings, wantedLevel_eq_ok_iff.2 hasks]
  exact if_pos hempty

/-- A later one sets the level, and that is all. -/
theorem setUpFor_again (hset : log.destinations ≠ []) :
    log.setUpFor time depth userFile config verbose quiet = (.ok (), log.setLevel level) := by
  rw [setUpFor_of_finds time log hsettings, wantedLevel_eq_ok_iff.2 hasks]
  exact if_neg hset

end

/-- A set-up stops before it has done anything, or knows its level. -/
theorem setUpFor_stops_or_asks (depth : Nat) (userFile : Config.Found)
    (config : Option ConfigValue) (verbose quiet : Bool) :
    (∃ e, log.setUpFor time depth userFile config verbose quiet = (.error e, log)) ∨
      ∃ settings level, Finds depth userFile config settings ∧
        Asks settings verbose quiet level := by
  by_cases hfinds : ∃ settings, Finds depth userFile config settings
  · obtain ⟨settings, hfinds⟩ := hfinds
    cases hwanted : wantedLevel settings verbose quiet with
    | error e =>
      refine .inl ⟨e, ?_⟩
      rw [setUpFor_of_finds time log hfinds, hwanted]
    | ok level => exact .inr ⟨settings, level, hfinds, wantedLevel_eq_ok_iff.1 hwanted⟩
  · exact .inl (setUpFor_of_not_finds time log fun settings h => hfinds ⟨settings, h⟩)

/-! ## The name of the log file -/

/-- The settings name as a log file what is no name of a file, and the error for it.  A name is
settled before it is looked at, so that what stands in front of two dots does not count. -/
inductive Misnames (files : FileSystem) (settings : ConfigValue) : LogError → Prop
  /-- There are no settings to name it. -/
  | noSettings {e : ConfigError} (h : Config.get settings "file" = .error e) :
      Misnames files settings (.config e)
  | noText {v : ConfigValue} (h : Config.get settings "file" = .ok v) (hv : v.isTruthy = true)
      (htext : ∀ name, v ≠ .text name) : Misnames files settings (.noFileName v.typeName)
  | strayHalves {name : LooseText} {e : EncodeError}
      (h : Config.get settings "file" = .ok (.text name)) (hname : name ≠ "")
      (he : LooseText.strayHalvesFrom? (fun h => h.byte?.isNone) 0 (files.logName name) = some e) :
      Misnames files settings (.strayHalves e)
  | nul {name : LooseText} (h : Config.get settings "file" = .ok (.text name)) (hname : name ≠ "")
      (hbytes : ∀ half, .half half ∈ files.logName name → half.byte?.isSome = true)
      (hnul : .char '\x00' ∈ files.logName name) : Misnames files settings .nul

/-- All that adding the log file can do: fail over its name and leave the log alone, or leave level
and destinations as they are, or add the file to the destinations. -/
theorem addFile_spec (settings : ConfigValue) :
    (∃ e, Misnames log.files settings e ∧ addFile time settings log = (.error e, log)) ∨
      ∃ log', addFile time settings log = (.ok (), log') ∧ (log.IsSetAs log' ∨
        log'.level = log.level ∧
          ∃ place, log'.destinations = log.destinations ++ [.file place]) := by
  cases hget : Config.get settings "file" with
  | error e =>
    simp only [addFile, hget]
    exact .inl ⟨_, .noSettings hget, rfl⟩
  | ok v =>
    cases htruthy : v.isTruthy with
    | false =>
      simp only [addFile, hget, htruthy, Bool.false_eq_true, if_false]
      exact .inr ⟨log, rfl, .inl (.refl log)⟩
    | true =>
      cases v with
      | text name =>
        have hname := Value.isTruthy_text_iff.1 htruthy
        simp only [addFile, hget, htruthy, if_true]
        cases hopen : log.files.openLog name with
        | ok opened => exact .inr ⟨_, rfl, .inr ⟨rfl, opened.1, rfl⟩⟩
        | error problem =>
          cases problem with
          | nul =>
            obtain ⟨hbytes, hnul⟩ := FileSystem.openLog_eq_nul_iff.1 hopen
            exact .inl ⟨_, .nul hget hname hbytes hnul, rfl⟩
          | strayHalves e =>
            have he := FileSystem.openLog_eq_strayHalves_iff.1 hopen
            exact .inl ⟨_, .strayHalves hget hname he, rfl⟩
          | _ => exact .inr ⟨_, rfl, .inl (isSetAs_emit ..)⟩
      | _ =>
        simp only [addFile, hget, htruthy, if_true]
        exact .inl ⟨_, .noText hget htruthy nofun, rfl⟩

variable {log}

/-- Adding the log file fails exactly if what names it is no name of a file. -/
theorem addFile_eq_error_iff {e : LogError} :
    (addFile time settings log).1 = .error e ↔ Misnames log.files settings e := by
  constructor
  · intro h
    obtain ⟨e', hmisnames, hadd⟩ | ⟨log', hadd, -⟩ := addFile_spec time log settings <;>
      rw [hadd] at h <;> cases h
    exact hmisnames
  · intro h
    cases h with
    | noSettings hget => simp only [addFile, hget]
    | noText hget hv htext => simp only [addFile, hget, hv, if_true]
    | strayHalves hget hname he =>
      simp only [addFile, hget, Value.isTruthy_text_iff.2 hname, if_true,
        FileSystem.openLog_eq_strayHalves_iff.2 he]
    | nul hget hname hbytes hnul =>
      simp only [addFile, hget, Value.isTruthy_text_iff.2 hname, if_true,
        FileSystem.openLog_eq_nul_iff.2 ⟨hbytes, hnul⟩]

/-- Adding the log file leaves the level as it is, and the destinations too, unless the file is
added to them. -/
theorem addFile_cases (settings : ConfigValue) :
    log.IsSetAs (addFile time settings log).2 ∨
      (addFile time settings log).2.level = log.level ∧
        ∃ place, (addFile time settings log).2.destinations
          = log.destinations ++ [.file place] := by
  obtain ⟨e, -, hadd⟩ | ⟨log', hadd, hcases⟩ := addFile_spec time log settings
  · rw [hadd]
    exact .inl (.refl log)
  · rw [hadd]
    exact hcases

/-! ## The payoff -/

variable (log)

/-- A set-up that knows the level has set it, whether or not it fails afterwards; and it fails only
where it is the first one and what names the log file is no name of a file. -/
theorem setUpFor_of_asks (hsettings : Finds depth userFile config settings)
    (hasks : Asks settings verbose quiet level) :
    (log.setUpFor time depth userFile config verbose quiet).2.level = level ∧
      ∀ e, (log.setUpFor time depth userFile config verbose quiet).1 = .error e ↔
        log.destinations = [] ∧ Misnames log.files settings e := by
  by_cases hempty : log.destinations = []
  · rw [setUpFor_first hsettings hasks hempty]
    refine ⟨?_, fun e => (addFile_eq_error_iff time).trans (and_iff_right hempty).symm⟩
    rcases addFile_cases time settings with hsame | ⟨hlevel, -⟩
    · exact hsame.level
    · exact hlevel
  · rw [setUpFor_again hsettings hasks hempty]
    exact ⟨rfl, fun e => by simp [hempty]⟩

/-- **No word for a level stops a set-up but two.**  Take a set-up with neither switch set that
finds a text as the level.  It stops for the text exactly if its upper case is one of two words that
are known and name no level, and then nothing has happened.  Otherwise the log has the level that
the upper case names, or that of warnings if it names none; and the set-up fails only where it is
the first one and what names the log file is no name of a file. -/
theorem settled_by_word {t : LooseText} (hsettings : Finds depth userFile config settings)
    (hword : Config.get settings "level" = .ok (.text t)) :
    ((∃ what, (log.setUpFor time depth userFile config false false).1
        = .error (.unknownLevel what)) ↔
      t.upper = "BASIC_FORMAT" ∨ t.upper = "_STYLES") ∧
    (t.upper = "BASIC_FORMAT" ∨ t.upper = "_STYLES" →
      (log.setUpFor time depth userFile config false false).2 = log) ∧
    (¬ (t.upper = "BASIC_FORMAT" ∨ t.upper = "_STYLES") →
      (∀ level, (t.upper, level) ∈ LogLevel.names →
        (log.setUpFor time depth userFile config false false).2.level = level) ∧
      ((∀ level, (t.upper, level) ∉ LogLevel.names) →
        (log.setUpFor time depth userFile config false false).2.level = LogLevel.warning) ∧
      ∀ e, (log.setUpFor time depth userFile config false false).1 = .error e ↔
        log.destinations = [] ∧ Misnames log.files settings e) := by
  rw [← LogLevel.exists_mem_others_iff]
  cases hnamed : LogLevel.named t with
  | other what =>
    have hother := LogLevel.named_eq_other_iff.1 hnamed
    have hstops : log.setUpFor time depth userFile config false false
        = (.error (.unknownLevel what), log) := by
      rw [setUpFor_of_finds time log hsettings, wantedLevel_of_text hword, hnamed]
    rw [hstops]
    exact ⟨⟨fun _ => ⟨what, hother⟩, fun _ => ⟨what, rfl⟩⟩, fun _ => rfl,
      fun hnone => absurd ⟨what, hother⟩ hnone⟩
  | level level =>
    have hmeans := LogLevel.named_eq_level_iff.1 hnamed
    have hnone : ¬ ∃ what, (t.upper, what) ∈ LogLevel.others := by
      rintro ⟨what, hwhat⟩
      rw [LogLevel.named_eq_other_iff.2 hwhat] at hnamed
      cases hnamed
    obtain ⟨hlevel, hfails⟩ := setUpFor_of_asks time log hsettings (.word hword hmeans)
    refine ⟨⟨?_, fun hsome => absurd hsome hnone⟩, fun hsome => absurd hsome hnone, fun _ =>
      ⟨fun named hname => ?_, fun hname => ?_, hfails⟩⟩
    · rintro ⟨what, hwhat⟩
      cases ((hfails _).1 hwhat).2
    · rw [hlevel]
      exact hmeans.unique (.name hname)
    · rw [hlevel]
      exact hmeans.unique (.unknown hname (not_exists.1 hnone))

/-- A configuration that says nothing but a word for the level. -/
def wordConfig (word : LooseText) : ConfigValue :=
  .table [("logging", .table [("level", .text word)])]

/-- A letter that is no ASCII letter may have an ASCII letter as its upper case. -/
theorem settled_by_dotless_word :
    Finds 100 (.ok none) (some (wordConfig "\u0131nfo"))
        (.table [("level", .text "\u0131nfo")]) ∧
      ((start .empty).setUpFor "" 100 (.ok none) (some (wordConfig "\u0131nfo")) false
        false).2.level = LogLevel.info := by
  have hfinds : Finds 100 (.ok none) (some (wordConfig "\u0131nfo"))
      (.table [("level", .text "\u0131nfo")]) := .given rfl
  have hupper : LooseText.upper "\u0131nfo" = "INFO" := rfl
  obtain ⟨-, -, hlevel⟩ := settled_by_word "" (start .empty) hfinds rfl
  rw [hupper] at hlevel
  exact ⟨hfinds, (hlevel (by decide)).1 _ (by decide)⟩

/-- A half has no upper case, and no word with one is known. -/
example : LogLevel.named ⟨"info", [(⟨0⟩, "")]⟩ = .level LogLevel.warning := rfl

/-- A word that is known and names no level stops the set-up, however it is written. -/
theorem stopped_by_word :
    (start .empty).setUpFor "" 100 (.ok none) (some (wordConfig "basic_format")) false false
        = (.error (.unknownLevel (.text LogLevel.basicFormat)), start .empty) ∧
      ∀ level, (LooseText.upper "basic_format", level) ∉ LogLevel.names := by
  have hupper : LooseText.upper "basic_format" = "BASIC_FORMAT" := rfl
  refine ⟨?_, ?_⟩
  · rfl
  · rw [hupper]
    simp [LogLevel.names]

end Log
end RubySource
