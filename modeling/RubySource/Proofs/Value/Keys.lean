import Mathlib.Data.List.Nodup
import RubySource.Value.Json

/-!
# Tables with each key once

The entries of a table are a list, and a list may name a key twice.  A table never does: setting a
key that is there replaces its value.  So the tables that are read from JSON have each key once, at
every depth, whatever the text repeats.

## What is here

* `Value.IsTable` — a value is a table.
* `Entries.find?_eq_none_iff`, `Entries.find?_of_mem`, `Entries.put_eq_self` — what is looked up in
  entries with each key once, and what is set to no effect.
* `Value.KeysOnce` — every table in a value that is reached through tables has each key once.
* `Value.KeysOnce.put` — setting a key keeps this.
* `Json.keysOnce_of_document` — the payoff: **what is read from JSON has each key once**.
-/

set_option autoImplicit false

namespace RubySource

/-! ## Keys of entries -/

namespace Entries

theorem find?_eq_none_iff {entries : Entries} {key : LooseText} :
    find? entries key = none ↔ key ∉ entries.map Prod.fst := by
  induction entries with
  | nil => simp [find?]
  | cons e rest ih =>
    obtain ⟨k, v⟩ := e
    by_cases hk : k = key
    · simp [find?, hk]
    · simp [find?, hk, ih, Ne.symm hk]

theorem mem_of_find? {entries : Entries} {key : LooseText} {v : ConfigValue}
    (h : find? entries key = some v) : (key, v) ∈ entries := by
  induction entries with
  | nil => cases h
  | cons e rest ih =>
    obtain ⟨k, w⟩ := e
    by_cases hk : k = key
    · simp only [find?, hk, if_true, Option.some.injEq] at h
      simp [hk, h]
    · simp only [find?, hk, if_false] at h
      exact List.mem_cons_of_mem _ (ih h)

theorem find?_of_mem {entries : Entries} (hkeys : (entries.map Prod.fst).Nodup)
    {e : LooseText × ConfigValue} (he : e ∈ entries) : find? entries e.1 = some e.2 := by
  induction entries with
  | nil => cases he
  | cons first rest ih =>
    obtain ⟨hfirst, hrest⟩ := List.nodup_cons.1 hkeys
    obtain rfl | he := List.mem_cons.1 he
    · simp [find?]
    · have hne : first.1 ≠ e.1 := fun h => hfirst (h ▸ List.mem_map_of_mem he)
      rw [find?, if_neg hne]
      exact ih hrest he

/-- A key that is set to the value it has stays as it is. -/
theorem put_eq_self {entries : Entries} {key : LooseText} {v : ConfigValue}
    (h : find? entries key = some v) : put key v entries = entries := by
  induction entries with
  | nil => cases h
  | cons e rest ih =>
    obtain ⟨k, w⟩ := e
    by_cases hk : k = key
    · simp only [find?, hk, if_true, Option.some.injEq] at h
      simp [put, hk, h]
    · simp only [find?, hk, if_false] at h
      simp [put, hk, ih h]

/-- The keys after a key is set. -/
theorem mem_keys_put {entries : Entries} {key other : LooseText} {v : ConfigValue} :
    other ∈ (put key v entries).map Prod.fst ↔ other = key ∨ other ∈ entries.map Prod.fst := by
  rw [← not_iff_not, not_or, ← find?_eq_none_iff, ← find?_eq_none_iff, find?_put]
  by_cases hk : key = other
  · simp [hk]
  · simp [hk, Ne.symm hk]

theorem nodup_keys_put {entries : Entries} (h : (entries.map Prod.fst).Nodup) (key : LooseText)
    (v : ConfigValue) : ((put key v entries).map Prod.fst).Nodup := by
  induction entries with
  | nil => simp [put]
  | cons e rest ih =>
    obtain ⟨k, w⟩ := e
    obtain ⟨hfirst, hrest⟩ := List.nodup_cons.1 h
    by_cases hk : k = key
    · rw [put, if_pos hk]
      exact h
    · rw [put, if_neg hk, List.map_cons, List.nodup_cons, mem_keys_put]
      exact ⟨not_or.2 ⟨hk, hfirst⟩, ih hrest⟩

end Entries

/-! ## Each key once -/

namespace Value

/-- The value is a table. -/
def IsTable (v : ConfigValue) : Prop :=
  ∃ entries, v = .table entries

/-- Every table that is reached through tables has each key once. -/
inductive KeysOnce : ConfigValue → Prop
  | table {entries : Entries} (hkeys : (entries.map Prod.fst).Nodup)
      (hinner : ∀ e ∈ entries, KeysOnce e.2) : KeysOnce (.table entries)
  | other {v : ConfigValue} (hv : ¬ v.IsTable) : KeysOnce v

namespace KeysOnce

theorem keys {entries : Entries} (h : KeysOnce (.table entries)) :
    (entries.map Prod.fst).Nodup := by
  cases h with
  | table hkeys => exact hkeys
  | other hv => exact absurd ⟨entries, rfl⟩ hv

theorem inner {entries : Entries} (h : KeysOnce (.table entries)) {e : LooseText × ConfigValue}
    (he : e ∈ entries) : e.2.KeysOnce := by
  cases h with
  | table _ hinner => exact hinner e he
  | other hv => exact absurd ⟨entries, rfl⟩ hv

theorem empty : KeysOnce (.table []) :=
  .table List.nodup_nil nofun

/-- A key may be set again. -/
theorem put {entries : Entries} (h : KeysOnce (.table entries)) (key : LooseText)
    {v : ConfigValue} (hv : v.KeysOnce) : KeysOnce (.table (entries.put key v)) := by
  have hkeys := Entries.nodup_keys_put h.keys key v
  refine .table hkeys fun e he => ?_
  have hfind := Entries.find?_of_mem hkeys he
  rw [Entries.find?_put] at hfind
  split at hfind
  · obtain rfl := Option.some.inj hfind
    exact hv
  · exact h.inner (Entries.mem_of_find? hfind)

end KeysOnce
end Value

/-! ## What is read from JSON -/

namespace Json

open Value

theorem exists_of_map_eq_ok {ε α β : Type} {f : α → β} {x : Except ε α} {b : β}
    (h : x.map f = .ok b) : ∃ a, x = .ok a ∧ f a = b := by
  cases x with
  | error e => cases h
  | ok a => exact ⟨a, rfl, Except.ok.inj h⟩

theorem keysOnce_of_word {text : String} {v w : ConfigValue} {cs rest : List Char}
    (h : word text v cs = .ok (w, rest)) (hv : ¬ v.IsTable) : w.KeysOnce := by
  obtain ⟨after, -, hafter⟩ := exists_of_map_eq_ok h
  cases hafter
  exact .other hv

theorem keysOnce_of_unsigned {negative : Bool} {w : ConfigValue} {cs rest : List Char}
    (h : unsigned negative cs = .ok (w, rest)) : w.KeysOnce := by
  refine .other ?_
  rintro ⟨entries, rfl⟩
  rw [unsigned] at h
  split at h
  · cases h
  · dsimp only at h
    split at h
    · split at h <;> cases h
    · cases h

theorem keysOnce_of_number {w : ConfigValue} {cs rest : List Char} (h : number cs = .ok (w, rest)) :
    w.KeysOnce := by
  rw [number.eq_def] at h
  split at h
  · split at h
    · cases h
      exact .other nofun
    · exact keysOnce_of_unsigned h
  · exact keysOnce_of_unsigned h

/-- A value is read with its keys once if the entries of tables are. -/
theorem keysOnce_of_value {fuel depth : Nat} {cs rest : List Char} {v : ConfigValue}
    (hentries : ∀ depth found cs v rest, KeysOnce (.table found) →
      entries fuel depth found cs = .ok (v, rest) → v.KeysOnce)
    (h : value (fuel + 1) depth cs = .ok (v, rest)) : v.KeysOnce := by
  rw [value.eq_def] at h
  dsimp only at h
  split at h
  · obtain ⟨found, -, hfound⟩ := exists_of_map_eq_ok h
    cases hfound
    exact .other nofun
  · split at h
    · cases h
    · split at h
      · cases h
        exact .empty
      · exact hentries _ _ _ _ _ .empty h
  · split at h
    · cases h
    · split at h
      · cases h
        exact .other nofun
      · obtain ⟨found, -, hfound⟩ := exists_of_map_eq_ok h
        cases hfound
        exact .other nofun
  · exact keysOnce_of_word h nofun
  · exact keysOnce_of_word h nofun
  · exact keysOnce_of_word h nofun
  · exact keysOnce_of_word h nofun
  · exact keysOnce_of_word h nofun
  · exact keysOnce_of_number h

/-- Of equal keys the last one decides, so that none is left twice. -/
theorem keysOnce_of_entries {fuel depth : Nat} {found : Entries} {cs rest : List Char}
    {v : ConfigValue}
    (hvalue : ∀ depth cs v rest, value fuel depth cs = .ok (v, rest) → v.KeysOnce)
    (hentries : ∀ depth found cs v rest, KeysOnce (.table found) →
      entries fuel depth found cs = .ok (v, rest) → v.KeysOnce)
    (hfound : KeysOnce (.table found))
    (h : entries (fuel + 1) depth found cs = .ok (v, rest)) : v.KeysOnce := by
  rw [entries.eq_def] at h
  split at h
  · cases h
  · rename_i hfuel
    obtain rfl := Nat.succ.inj hfuel
    split at h
    · cases h
    · split at h
      · cases h
      · have hput (name : LooseText) := hfound.put name (hvalue _ _ _ _ ‹_›)
        split at h
        · cases h
          exact hput _
        · exact hentries _ _ _ _ _ (hput _) h
        · cases h
  · cases h

theorem keysOnce_of_read (fuel : Nat) :
    (∀ depth cs v rest, value fuel depth cs = .ok (v, rest) → v.KeysOnce)
    ∧ (∀ depth found cs v rest, KeysOnce (.table found) →
        entries fuel depth found cs = .ok (v, rest) → v.KeysOnce) := by
  induction fuel with
  | zero => exact ⟨nofun, nofun⟩
  | succ fuel ih =>
    obtain ⟨hvalue, hentries⟩ := ih
    exact ⟨fun _ _ _ _ h => keysOnce_of_value hentries h,
      fun _ _ _ _ _ hfound h => keysOnce_of_entries hvalue hentries hfound h⟩

theorem keysOnce_of_document {depth : Nat} {text : List Char} {v : ConfigValue}
    (h : document depth text = .ok v) : v.KeysOnce := by
  rw [document] at h
  split at h
  · split at h
    · cases h
      exact (keysOnce_of_read _).1 _ _ _ _ ‹_›
    · cases h
  · cases h

/-- Keys that differ in a half are two keys. -/
example :
    document 1 "\x7b\"\\ud800\": 1, \"\\ud801\": 2, \"\\ud800\": 3\x7d".toList
      = .ok (.table [(⟨"", [(⟨0⟩, "")]⟩, .int 3), (⟨"", [(⟨1⟩, "")]⟩, .int 2)]) := by
  cbv

end Json
end RubySource
