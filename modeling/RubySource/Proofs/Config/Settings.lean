import RubySource.Proofs.Config.Layers
import RubySource.Proofs.Config.Load

/-!
# The settings of a loaded configuration

A configuration that is loaded is asked for two settings, and the files may have put anything in
the place of the sections they are in.  A section that does not count as given is read as an empty
one, so that the setting falls back.  A section that counts as given and is no table cannot be asked
for a setting.  Which of these it is, is up to the last file that speaks on the section.

## What is here

* `Config.Gives`, `Config.loadFor_eq_ok_iff_gives` — the layers that the files give, and that the
  configuration is the standard settings with them laid over.
* `Config.setting_of_usable`, `Config.setting_of_blocked` — a setting by the path of its keys.
* `Config.Blocks` — the last layer on a section has something there that counts as given and is no
  table.
* `Config.Answers` — what a setting is answered with, by the layers.
* `Config.loaded_settings` — the payoff: **both settings are answered exactly if their section is
  not blocked**, and then by the last layer that speaks on them or by what is standard.
* `Config.blocked_by_number` — a file with a number for a section.
-/

set_option autoImplicit false

namespace RubySource
namespace Config

/-! ## The layers of the files -/

variable {depths : Depths} {fs : FileSystem} {user : Found} {root : Option String}

/-- The layers that the files give, the user's first. -/
inductive Gives (depths : Depths) (fs : FileSystem) (user : Found) :
    Option String → List Entries → Prop
  | ofUser {said : Option Entries} (hu : Says depths.user user said) :
      Gives depths fs user none said.toList
  | ofProject {root : String} {said more : Option Entries} (hu : Says depths.user user said)
      (hroot : '\x00' ∉ root.toList) (hlong : ¬ fs.Overlong (settingsPlace fs root))
      (hp : Says depths.project (.ok (fs.contentsAt (settingsPlace fs root))) more) :
      Gives depths fs user (some root) (said.toList ++ more.toList)

theorem withLayer_eq (base : Entries) (said : Option Entries) :
    withLayer base said = overlaid base said.toList := by
  cases said <;> rfl

theorem overlaid_append (base : Entries) (below above : List Entries) :
    overlaid base (below ++ above) = overlaid (overlaid base below) above :=
  List.foldl_append

theorem loadFor_eq_ok_iff_gives {config : ConfigValue} :
    loadFor depths fs user root = .ok config ↔
      ∃ layers, Gives depths fs user root layers ∧
        config = .table (overlaid standardEntries layers) := by
  rw [loadFor_eq_ok_iff]
  constructor
  · rintro (⟨hu⟩ | ⟨hu, hroot, hlong, hp⟩)
    · exact ⟨_, .ofUser hu, by rw [withLayer_eq]⟩
    · exact ⟨_, .ofProject hu hroot hlong hp, by rw [withLayer_eq, withLayer_eq, overlaid_append]⟩
  · rintro ⟨_, ⟨hu⟩ | ⟨hu, hroot, hlong, hp⟩, rfl⟩
    · rw [← withLayer_eq]
      exact .ofUser hu
    · rw [overlaid_append, ← withLayer_eq, ← withLayer_eq]
      exact .ofProject hu hroot hlong hp

theorem keysOnce_of_says {depth : Nat} {file : Found} {said : Option Entries}
    (h : Says depth file said) {entries : Entries} (he : entries ∈ said.toList) :
    (Value.table entries).KeysOnce := by
  cases h with
  | absent => cases he
  | noJson => cases he
  | noTable => cases he
  | table h =>
    obtain rfl := List.mem_singleton.1 he
    exact Json.keysOnce_of_document h

/-- A file gives a layer with each key once. -/
theorem Gives.keysOnce {layers : List Entries} (h : Gives depths fs user root layers) :
    ∀ layer ∈ layers, (Value.table layer).KeysOnce := by
  intro layer hlayer
  cases h with
  | ofUser hu => exact keysOnce_of_says hu hlayer
  | ofProject hu _ _ hp =>
    obtain hlayer | hlayer := List.mem_append.1 hlayer
    · exact keysOnce_of_says hu hlayer
    · exact keysOnce_of_says hp hlayer

/-! ## A setting by its path -/

section Setting

variable {entries : Entries} {sectionName name : String} {fallback : ConfigValue}

theorem valueAt?_singleton (key : LooseText) :
    valueAt? (.table entries) [key] = entries.find? key :=
  Option.bind_fun_some _

theorem orElse_table (settings : Entries) :
    (Value.table settings).orElse (.table []) = .table settings := by
  cases settings <;> rfl

/-- A section that counts as given and is no table cannot be asked. -/
theorem setting_of_blocked {v : ConfigValue} (h : valueAt? (.table entries) [sectionName] = some v)
    (hv : ¬ v.IsTable) (htruthy : v.isTruthy) :
    setting (.table entries) sectionName name fallback = .error (.lacks v.typeName "get") := by
  rw [valueAt?_singleton] at h
  simp only [setting, sectionOf, get, Value.getKey, h, Option.getD_some, Value.orElse, htruthy,
    if_true, bind, Except.bind]
  cases v with
  | table settings => exact absurd ⟨settings, rfl⟩ hv
  | _ => rfl

/-- Any other section is asked for what stands at the path, and a setting that does not count as
given falls back. -/
theorem setting_of_usable
    (h : ∀ v, valueAt? (.table entries) [sectionName] = some v → v.IsTable ∨ v.isTruthy = false) :
    setting (.table entries) sectionName name fallback
      = .ok (((valueAt? (.table entries) [sectionName, name]).getD .null).orElse fallback) := by
  rw [valueAt?_singleton] at h
  simp only [setting, sectionOf, get, Value.getKey, valueAt?_table, bind, Except.bind]
  cases hsection : entries.find? sectionName with
  | none => rfl
  | some v =>
    by_cases htable : v.IsTable
    · obtain ⟨settings, rfl⟩ := htable
      rw [Option.getD_some, orElse_table, Option.bind_some, valueAt?_singleton]
    · have hempty : v.orElse (.table []) = .table [] :=
        if_neg (Bool.not_eq_true _ ▸ (h v hsection).resolve_left htable)
      rw [Option.getD_some, hempty, Option.bind_some, valueAt?_of_not_isTable htable]
      rfl

/-- What stands below a section stands in a table. -/
theorem isTable_of_below {v w : ConfigValue}
    (hbelow : valueAt? (.table entries) [sectionName, name] = some v)
    (hsection : valueAt? (.table entries) [sectionName] = some w) : w.IsTable := by
  by_contra hw
  have hpath := valueAt?_append (.table entries) [sectionName] [name]
  rw [hsection, Option.bind_some, valueAt?_of_not_isTable hw] at hpath
  cases hbelow.symm.trans hpath

theorem setting_of_given {v : ConfigValue}
    (h : valueAt? (.table entries) [sectionName, name] = some v) :
    setting (.table entries) sectionName name fallback = .ok (v.orElse fallback) := by
  rw [setting_of_usable fun w hw => .inl (isTable_of_below h hw), h]
  rfl

end Setting

/-! ## The settings of the files -/

/-- The last layer on a section has something there that counts as given and is no table. -/
def Blocks (layers : List Entries) (sectionName : String) (v : ConfigValue) : Prop :=
  LastSays layers [sectionName] v ∧ ¬ v.IsTable ∧ v.isTruthy

/-- What a setting of a configuration is answered with, by the layers that make it. -/
structure Answers (layers : List Entries) (config : ConfigValue) (sectionName name : String)
    (fallback : ConfigValue) (answer : Except ConfigError ConfigValue) : Prop where
  /-- There is an answer exactly if the section is not blocked. -/
  returned_iff : (∃ v, answer = .ok v) ↔ ¬ ∃ v, Blocks layers sectionName v
  blocked : ∀ v, Blocks layers sectionName v → answer = .error (.lacks v.typeName "get")
  /-- What counts as given is the answer. -/
  given : ∀ v, valueAt? config [sectionName, name] = some v → v.isTruthy → answer = .ok v
  /-- Where nothing counts as given the answer falls back. -/
  fallsBack : (¬ ∃ v, Blocks layers sectionName v) →
    (∀ v, valueAt? config [sectionName, name] = some v → v.isTruthy = false) →
    answer = .ok fallback
  /-- The last layer that speaks on the setting decides. -/
  said : ∀ v, LastSays layers [sectionName, name] v → ¬ v.IsTable →
    answer = .ok (v.orElse fallback)

/-- A setting of entries in which the last layer decides. -/
theorem answers_setting {layers : List Entries} {entries : Entries}
    (hlast : ∀ path v, ¬ v.IsTable →
      (valueAt? (.table entries) path = some v ↔ LastSays layers path v))
    (sectionName name : String) (fallback : ConfigValue) :
    Answers layers (.table entries) sectionName name fallback
      (setting (.table entries) sectionName name fallback) := by
  have hblocked (v : ConfigValue) (h : Blocks layers sectionName v) :
      setting (.table entries) sectionName name fallback = .error (.lacks v.typeName "get") := by
    obtain ⟨hsaid, hv, htruthy⟩ := h
    exact setting_of_blocked ((hlast _ v hv).2 hsaid) hv htruthy
  have husable (h : ¬ ∃ v, Blocks layers sectionName v) :
      setting (.table entries) sectionName name fallback
        = .ok (((valueAt? (.table entries) [sectionName, name]).getD .null).orElse fallback) := by
    refine setting_of_usable fun v hv => ?_
    by_contra hboth
    obtain ⟨htable, htruthy⟩ := not_or.1 hboth
    exact h ⟨v, (hlast _ v htable).1 hv, htable, Bool.not_eq_false _ ▸ htruthy⟩
  refine ⟨⟨?_, fun h => ⟨_, husable h⟩⟩, hblocked, ?_, ?_, ?_⟩
  · rintro ⟨v, hv⟩ ⟨w, hw⟩
    rw [hblocked w hw] at hv
    cases hv
  · intro v hv htruthy
    rw [setting_of_given hv, Value.orElse, if_pos htruthy]
  · intro hnone hfalse
    cases hv : valueAt? (.table entries) [sectionName, name] with
    | none =>
      rw [husable hnone, hv]
      rfl
    | some v => rw [setting_of_given hv, Value.orElse, hfalse v hv, if_neg Bool.false_ne_true]
  · intro v hsaid hv
    exact setting_of_given ((hlast _ v hv).2 hsaid)

/-- **Both settings of a loaded configuration are answered exactly if their section is not
blocked.**  Then the last layer that speaks on the setting decides, and where nothing counts as
given the answer is what is standard. -/
theorem loaded_settings {layers : List Entries} (h : Gives depths fs user root layers) :
    ∃ config, loadFor depths fs user root = .ok config
      ∧ Answers (standardEntries :: layers) config "source" "encoding" (.text "utf-8")
          (sourceEncoding config)
      ∧ Answers (standardEntries :: layers) config "parser" "grammar" (.text "ruby")
          (grammarKey config) := by
  have hlast : ∀ path v, ¬ v.IsTable →
      (valueAt? (.table (overlaid standardEntries layers)) path = some v ↔
        LastSays (standardEntries :: layers) path v) :=
    fun _ _ hv => valueAt?_overlaid_iff h.keysOnce hv
  exact ⟨_, loadFor_eq_ok_iff_gives.2 ⟨layers, h, rfl⟩,
    answers_setting hlast "source" "encoding" (.text "utf-8"),
    answers_setting hlast "parser" "grammar" (.text "ruby")⟩

namespace Sample

/-- A project whose settings say nothing of an encoding. -/
def project : FileSystem :=
  FileSystem.empty.put ⟨["work", ".rubysmell", "config.json"]⟩
    (Utf8.encode "\x7b\"parser\": null\x7d".toList)

theorem contentsAt_project :
    project.contentsAt (settingsPlace project ".")
      = some (Utf8.encode "\x7b\"parser\": null\x7d".toList) := by
  rfl

theorem not_overlong_project : ¬ project.Overlong (settingsPlace project ".") := by
  rw [← FileSystem.locate_eq_tooLong_iff]
  have hfile := FileSystem.contentsAt_eq_some_iff_locate.1 contentsAt_project
  rw [hfile]
  exact nofun

theorem says_project :
    Says 100 (.ok (project.contentsAt (settingsPlace project "."))) (some grammarlessLayer) := by
  have hread : Json.document 100 (Text.unifyNewlines "\x7b\"parser\": null\x7d".toList)
      = .ok (.table grammarlessLayer) := by
    simp only [String.reduceToList]
    rfl
  rw [contentsAt_project]
  exact .table hread

/-- A user's settings of an encoding. -/
def userFile : Bytes :=
  Utf8.encode "\x7b\"source\": \x7b\"encoding\": \"latin-1\"\x7d\x7d".toList

theorem says_userFile : Says 100 (.ok (some userFile)) (some encodingLayer) := by
  have hread : Json.document 100 (Text.unifyNewlines
      "\x7b\"source\": \x7b\"encoding\": \"latin-1\"\x7d\x7d".toList)
      = .ok (.table encodingLayer) := by
    simp only [String.reduceToList]
    rfl
  exact .table hread

/-- A user's settings with a number for a section. -/
def numberFile : Bytes :=
  Utf8.encode "\x7b\"source\": 5\x7d".toList

theorem says_numberFile : Says 100 (.ok (some numberFile)) (some [("source", .int 5)]) := by
  have hread : Json.document 100 (Text.unifyNewlines "\x7b\"source\": 5\x7d".toList)
      = .ok (.table [("source", .int 5)]) := by
    simp only [String.reduceToList]
    rfl
  exact .table hread

/-- The project gives its layer over what the user's file says. -/
theorem gives_project {user : Found} {said : Entries} (h : Says 100 user (some said)) :
    Gives ⟨100, 100⟩ project user (some ".") [said, grammarlessLayer] := by
  have hgives := @Gives.ofProject ⟨100, 100⟩ project user "." (some said) (some grammarlessLayer)
    h (by decide) not_overlong_project says_project
  exact hgives

end Sample

/-- The project's file takes the grammar's section away and leaves the user's encoding. -/
theorem loaded_settings_sample :
    Gives ⟨100, 100⟩ Sample.project (.ok (some Sample.userFile)) (some ".")
        [Sample.encodingLayer, Sample.grammarlessLayer] ∧
      ∃ config,
        loadFor ⟨100, 100⟩ Sample.project (.ok (some Sample.userFile)) (some ".") = .ok config
          ∧ sourceEncoding config = .ok (.text "latin-1") := by
  have hgives := Sample.gives_project Sample.says_userFile
  obtain ⟨config, hconfig, hencoding, -⟩ := loaded_settings hgives
  exact ⟨hgives, config, hconfig,
    hencoding.said (.text "latin-1") Sample.lastSays_encoding nofun⟩

/-- A file with a number for a section is loaded, and then there is no answer, not even a standard
one. -/
theorem blocked_by_number :
    Gives ⟨100, 100⟩ Sample.project (.ok (some Sample.numberFile)) (some ".")
        [[("source", .int 5)], Sample.grammarlessLayer] ∧
      ∃ config,
        loadFor ⟨100, 100⟩ Sample.project (.ok (some Sample.numberFile)) (some ".") = .ok config
          ∧ sourceEncoding config = .error (.lacks "int" "get") := by
  have hgives := Sample.gives_project Sample.says_numberFile
  exact ⟨hgives, _, loadFor_eq_ok_iff_gives.2 ⟨_, hgives, rfl⟩, rfl⟩

end Config
end RubySource
