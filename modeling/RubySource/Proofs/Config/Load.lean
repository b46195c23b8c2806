import RubySource.Config.Load
import RubySource.Proofs.File.Place
import RubySource.Proofs.Text.Utf8

/-!
# Which files stop a configuration from being loaded

A configuration is loaded from two files that anyone may edit.  What stands in a file is told apart
here without the code that loads it: a file that says something, a file that says nothing, and a
file that stops the loading.  The bytes of a file come first, as the encoding of a text or of none;
then the text, as the JSON of a value, as no JSON, or as going beyond a limit.

Before that, a file has to be asked for.  The user's file comes with the answer to that.  The
project's file is asked for by a name that is made here, and its folder may have a name that cannot
be used.

## What is here

* `Config.Says` — what a file says, and that it says nothing where there is none, no JSON or no
  table.
* `Config.Stops` — a file that stops the loading, with the error.
* `Config.layer_eq_ok_iff`, `Config.layer_eq_error_iff` — the layer that a file makes, by these two.
* `Config.says_projectFile_iff` — what the file of a project says, by its place.
* `Config.Makes`, `Config.loadFor_eq_ok_iff` — the configuration that the files make is the one that
  is loaded.
* `Config.loaded_exactly` — the payoff: **a configuration is loaded exactly where neither file
  stops it, and a file that says nothing counts as missing**.
* `Config.stopped_by_no_text` — a file that is no text is not among those that count as missing.
-/

set_option autoImplicit false

namespace RubySource
namespace Config

/-! ## The contents of a file -/

/-- What a file says to a configuration; `depth` is the greatest depth of the values in it. -/
inductive Says (depth : Nat) : Found → Option Entries → Prop
  | absent : Says depth (.ok none) none
  | noJson {cs : List Char}
      (h : Json.document depth (Text.unifyNewlines cs) = .error .malformed) :
      Says depth (.ok (some (Utf8.encode cs))) none
  | noTable {cs : List Char} {v : ConfigValue}
      (h : Json.document depth (Text.unifyNewlines cs) = .ok v)
      (hv : ∀ entries, v ≠ .table entries) :
      Says depth (.ok (some (Utf8.encode cs))) none
  | table {cs : List Char} {entries : Entries}
      (h : Json.document depth (Text.unifyNewlines cs) = .ok (.table entries)) :
      Says depth (.ok (some (Utf8.encode cs))) (some entries)

/-- A file that stops the loading, and the error. -/
inductive Stops (depth : Nat) : Found → ConfigError → Prop
  /-- The file cannot be asked for. -/
  | noAnswer (e : FileError) : Stops depth (.error e) (.file e)
  /-- The bytes encode no text. -/
  | noText {bytes : Bytes} {e : DecodeError} (h : ∀ cs, bytes ≠ Utf8.encode cs)
      (he : decodeUtf8 bytes = .error e) :
      Stops depth (.ok (some bytes)) (.undecodable e)
  | beyondLimit {cs : List Char} {e : JsonError}
      (h : Json.document depth (Text.unifyNewlines cs) = .error e) (he : e ≠ .malformed) :
      Stops depth (.ok (some (Utf8.encode cs))) (.beyondLimit e)

section

variable {depth : Nat}

theorem layer_encode (depth : Nat) (cs : List Char) :
    layer depth (.ok (some (Utf8.encode cs))) = layerOfText depth (Text.unifyNewlines cs) := by
  rw [layer, decodeUtf8_eq_ok_iff.2 rfl]

theorem layer_eq_ok {file : Found} {said : Option Entries} (h : Says depth file said) :
    layer depth file = .ok said := by
  cases h with
  | absent => rfl
  | noJson h => rw [layer_encode, layerOfText, h]
  | @noTable cs v h hv =>
    rw [layer_encode, layerOfText, h]
    cases v with
    | table entries => exact absurd rfl (hv entries)
    | _ => rfl
  | table h => rw [layer_encode, layerOfText, h]

theorem layer_eq_error {file : Found} {e : ConfigError} (h : Stops depth file e) :
    layer depth file = .error e := by
  cases h with
  | noAnswer e => rfl
  | noText h he => rw [layer, he]
  | @beyondLimit cs e h he =>
    rw [layer_encode, layerOfText, h]
    cases e with
    | malformed => exact absurd rfl he
    | _ => rfl

/-- A file either says something, if only nothing, or stops the loading. -/
theorem exists_says_or_stops (depth : Nat) (file : Found) :
    (∃ said, Says depth file said) ∨ ∃ e, Stops depth file e := by
  match file with
  | .error e => exact .inr ⟨_, .noAnswer e⟩
  | .ok none => exact .inl ⟨none, .absent⟩
  | .ok (some bytes) =>
    cases hcs : decodeUtf8 bytes with
    | error e =>
      refine .inr ⟨_, .noText (fun cs h => ?_) hcs⟩
      rw [decodeUtf8_eq_ok_iff.2 h] at hcs
      cases hcs
    | ok cs =>
      obtain rfl := decodeUtf8_eq_ok_iff.1 hcs
      cases hv : Json.document depth (Text.unifyNewlines cs) with
      | ok v =>
        by_cases ht : ∃ entries, v = .table entries
        · obtain ⟨entries, rfl⟩ := ht
          exact .inl ⟨some entries, .table hv⟩
        · exact .inl ⟨none, .noTable hv fun entries h => ht ⟨entries, h⟩⟩
      | error e =>
        by_cases he : e = .malformed
        · subst he
          exact .inl ⟨none, .noJson hv⟩
        · exact .inr ⟨_, .beyondLimit hv he⟩

theorem layer_eq_ok_iff {file : Found} {said : Option Entries} :
    layer depth file = .ok said ↔ Says depth file said := by
  refine ⟨fun h => ?_, layer_eq_ok⟩
  obtain ⟨said', hs⟩ | ⟨e, he⟩ := exists_says_or_stops depth file
  · rw [layer_eq_ok hs] at h
    cases h
    exact hs
  · rw [layer_eq_error he] at h
    cases h

theorem layer_eq_error_iff {file : Found} {e : ConfigError} :
    layer depth file = .error e ↔ Stops depth file e := by
  refine ⟨fun h => ?_, layer_eq_error⟩
  obtain ⟨said, hs⟩ | ⟨e', he⟩ := exists_says_or_stops depth file
  · rw [layer_eq_ok hs] at h
    cases h
  · rw [layer_eq_error he] at h
    cases h
    exact he

theorem not_stops_iff {file : Found} :
    (∀ e, ¬ Stops depth file e) ↔ ∃ said, Says depth file said := by
  simp only [← layer_eq_error_iff, ← layer_eq_ok_iff]
  cases layer depth file <;> simp

end

/-! ## The file of a project -/

section

variable (fs : FileSystem) (root : String)

theorem settingsPlace_eq :
    settingsPlace fs root
      = ⟨(FilePath.settle fs.working root).parts ++ ([folderName, fileName] : List LooseText)⟩ :=
  FilePath.Place.follow_of_isPlain <|
    List.forall_mem_cons.2 ⟨by decide, List.forall_mem_singleton.2 (by decide)⟩

theorem isPlain_settingsPlace : (settingsPlace fs root).IsPlain :=
  (FilePath.isPlain_settle fs.working root).follow _

/-- What every system has holds no settings. -/
theorem lookup_systemEntries_settingsPlace :
    FileSystem.systemEntries.lookup (settingsPlace fs root) = none := by
  have hlast : ∀ entry ∈ FileSystem.systemEntries,
      entry.1.parts.getLast? ≠ some (fileName : LooseText) := by
    decide
  rw [List.lookup_eq_none_iff]
  intro entry hentry
  rw [bne_iff_ne]
  intro heq
  refine hlast entry hentry ?_
  rw [← heq, settingsPlace_eq]
  simp

variable {fs root}

theorem projectFile_of_nul (h : '\x00' ∈ root.toList) :
    projectFile fs root = .error ⟨.nul, quoted root⟩ :=
  if_pos (List.contains_iff_mem.2 h)

theorem projectFile_of_overlong (hroot : '\x00' ∉ root.toList)
    (h : fs.Overlong (settingsPlace fs root)) :
    projectFile fs root = .error ⟨.tooLong, (settingsPlace fs root).name.quoted⟩ := by
  rw [projectFile, if_neg (by simpa using hroot), FileSystem.locate_eq_tooLong_iff.2 h]

theorem projectFile_of_not_overlong (hroot : '\x00' ∉ root.toList)
    (h : ¬ fs.Overlong (settingsPlace fs root)) :
    projectFile fs root = .ok (fs.contentsAt (settingsPlace fs root)) := by
  rw [← FileSystem.locate_eq_tooLong_iff] at h
  rw [projectFile, if_neg (by simpa using hroot), FileSystem.contentsAt]
  cases hlocate : fs.locate (settingsPlace fs root) with
  | ok entry => cases entry <;> rfl
  | error problem =>
    cases problem with
    | tooLong => exact absurd hlocate h
    | _ => rfl

/-- The file of a project says something only where its name can be used, and then it is what stands
at its place that speaks. -/
theorem says_projectFile_iff {depth : Nat} {said : Option Entries} :
    Says depth (projectFile fs root) said ↔
      '\x00' ∉ root.toList ∧ ¬ fs.Overlong (settingsPlace fs root) ∧
        Says depth (.ok (fs.contentsAt (settingsPlace fs root))) said := by
  by_cases hroot : '\x00' ∈ root.toList
  · rw [projectFile_of_nul hroot]
    exact iff_of_false nofun fun h => h.1 hroot
  · by_cases hlong : fs.Overlong (settingsPlace fs root)
    · rw [projectFile_of_overlong hroot hlong]
      exact iff_of_false nofun fun h => h.2.1 hlong
    · rw [projectFile_of_not_overlong hroot hlong, and_iff_right hroot, and_iff_right hlong]

theorem settingsPlace_without (place : FilePath.Place) :
    settingsPlace (fs.without place) root = settingsPlace fs root :=
  rfl

/-- A file that says nothing may be taken away. -/
theorem layer_projectFile_without {depth : Nat}
    (h : Says depth (.ok (fs.contentsAt (settingsPlace fs root))) none) :
    layer depth (projectFile (fs.without (settingsPlace fs root)) root)
      = layer depth (projectFile fs root) := by
  have hplain := isPlain_settingsPlace fs root
  have hlongIff : (fs.without (settingsPlace fs root)).Overlong (settingsPlace fs root) ↔
      fs.Overlong (settingsPlace fs root) := FileSystem.overlong_without_iff hplain
  by_cases hroot : '\x00' ∈ root.toList
  · rw [projectFile_of_nul hroot, projectFile_of_nul hroot]
  · by_cases hlong : fs.Overlong (settingsPlace fs root)
    · rw [projectFile_of_overlong hroot hlong, projectFile_of_overlong hroot (hlongIff.2 hlong),
        settingsPlace_without]
    · rw [projectFile_of_not_overlong hroot hlong,
        projectFile_of_not_overlong hroot (mt hlongIff.1 hlong), settingsPlace_without,
        FileSystem.contentsAt_without hplain (lookup_systemEntries_settingsPlace fs root),
        layer_eq_ok h]
      rfl

end

/-! ## Loading -/

section

variable {depths : Depths} {fs : FileSystem} {user : Found} {root : Option String}

theorem loadFor_none (depths : Depths) (fs : FileSystem) (user : Found) :
    loadFor depths fs user none
      = (layer depths.user user).bind fun said => .ok (.table (withLayer standardEntries said)) :=
  rfl

/-- Loading goes through both files, the user's first. -/
theorem loadFor_some (depths : Depths) (fs : FileSystem) (user : Found) (root : String) :
    loadFor depths fs user (some root)
      = (layer depths.user user).bind fun said =>
          (layer depths.project (projectFile fs root)).bind fun more =>
            .ok (.table (withLayer (withLayer standardEntries said) more)) :=
  rfl

/-- The configuration that the files make: the standard settings, with what the files say laid over
them in turn. -/
inductive Makes (depths : Depths) (fs : FileSystem) (user : Found) :
    Option String → ConfigValue → Prop
  | ofUser {said : Option Entries} (hu : Says depths.user user said) :
      Makes depths fs user none (.table (withLayer standardEntries said))
  | ofProject {root : String} {said more : Option Entries} (hu : Says depths.user user said)
      (hroot : '\x00' ∉ root.toList) (hlong : ¬ fs.Overlong (settingsPlace fs root))
      (hp : Says depths.project (.ok (fs.contentsAt (settingsPlace fs root))) more) :
      Makes depths fs user (some root) (.table (withLayer (withLayer standardEntries said) more))

theorem loadFor_eq_ok_iff {config : ConfigValue} :
    loadFor depths fs user root = .ok config ↔ Makes depths fs user root config := by
  constructor
  · intro h
    cases root with
    | none =>
      rw [loadFor_none] at h
      cases hu : layer depths.user user with
      | error e => rw [hu] at h; cases h
      | ok said =>
        rw [hu] at h
        obtain rfl := Except.ok.inj h
        exact .ofUser (layer_eq_ok_iff.1 hu)
    | some r =>
      rw [loadFor_some] at h
      cases hu : layer depths.user user with
      | error e => rw [hu] at h; cases h
      | ok said =>
        cases hp : layer depths.project (projectFile fs r) with
        | error e => rw [hu, hp] at h; cases h
        | ok more =>
          rw [hu, hp] at h
          obtain rfl := Except.ok.inj h
          obtain ⟨hroot, hlong, hp⟩ := says_projectFile_iff.1 (layer_eq_ok_iff.1 hp)
          exact .ofProject (layer_eq_ok_iff.1 hu) hroot hlong hp
  · intro h
    cases h with
    | ofUser hu => rw [loadFor_none, layer_eq_ok_iff.2 hu]; rfl
    | ofProject hu hroot hlong hp =>
      rw [loadFor_some, layer_eq_ok_iff.2 hu,
        layer_eq_ok_iff.2 (says_projectFile_iff.2 ⟨hroot, hlong, hp⟩)]
      rfl

/-- Files make a configuration exactly if neither stops the loading. -/
theorem exists_makes_iff :
    (∃ config, Makes depths fs user root config) ↔
      (∀ e, ¬ Stops depths.user user e) ∧
        ∀ r, root = some r → '\x00' ∉ r.toList ∧ ¬ fs.Overlong (settingsPlace fs r) ∧
          ∀ e, ¬ Stops depths.project (.ok (fs.contentsAt (settingsPlace fs r))) e := by
  simp only [not_stops_iff]
  constructor
  · rintro ⟨_, ⟨hu⟩ | ⟨hu, hroot, hlong, hp⟩⟩
    · exact ⟨⟨_, hu⟩, nofun⟩
    · refine ⟨⟨_, hu⟩, ?_⟩
      rintro r ⟨⟩
      exact ⟨hroot, hlong, _, hp⟩
  · rintro ⟨⟨said, hu⟩, hr⟩
    cases root with
    | none => exact ⟨_, .ofUser hu⟩
    | some r =>
      obtain ⟨hroot, hlong, more, hp⟩ := hr r rfl
      exact ⟨_, .ofProject hu hroot hlong hp⟩

end

/-- **A configuration is loaded exactly where neither file stops it.**  A file stops it if its name
cannot be used, if it is no text, or if it goes beyond a limit, whatever depth the caller leaves for
each file.  Otherwise the configuration is the one that the files make, and a file that says nothing
counts as missing, be it the user's or the project's. -/
theorem loaded_exactly (depths : Depths) (fs : FileSystem) (user : Found) (root : Option String) :
    ((∃ config, loadFor depths fs user root = .ok config) ↔
      (∀ e, ¬ Stops depths.user user e) ∧
        ∀ r, root = some r → '\x00' ∉ r.toList ∧ ¬ fs.Overlong (settingsPlace fs r) ∧
          ∀ e, ¬ Stops depths.project (.ok (fs.contentsAt (settingsPlace fs r))) e)
    ∧ (∀ config, loadFor depths fs user root = .ok config ↔ Makes depths fs user root config)
    ∧ (Says depths.user user none →
        loadFor depths fs user root = loadFor depths fs (.ok none) root)
    ∧ (∀ r, root = some r → Says depths.project (.ok (fs.contentsAt (settingsPlace fs r))) none →
        loadFor depths fs user root
          = loadFor depths (fs.without (settingsPlace fs r)) user root) := by
  refine ⟨?_, fun config => loadFor_eq_ok_iff, fun hu => ?_, ?_⟩
  · rw [← exists_makes_iff]
    simp only [loadFor_eq_ok_iff]
  · have hlayer : layer depths.user user = layer depths.user (.ok none) := layer_eq_ok_iff.2 hu
    cases root with
    | none => rw [loadFor_none, loadFor_none, hlayer]
    | some r => rw [loadFor_some, loadFor_some, hlayer]
  · rintro r rfl hr
    rw [loadFor_some, loadFor_some, layer_projectFile_without hr]

/-- A byte order mark in front makes a text no JSON, so that the file counts as missing. -/
example : loadFor ⟨100, 100⟩ .empty (.ok (some [0xEF, 0xBB, 0xBF, 0x7B, 0x7D])) none
    = .ok standard := by
  rfl

/-- A file that is no text stops the loading, where a missing one would leave the standard
settings. -/
theorem stopped_by_no_text :
    loadFor ⟨100, 100⟩ .empty (.ok (some [0xFF])) none
        = .error (.undecodable ⟨"utf-8", 0, 1, 0xFF, "invalid start byte"⟩)
      ∧ loadFor ⟨100, 100⟩ .empty (.ok none) none = .ok standard :=
  ⟨rfl, rfl⟩

end Config
end RubySource
