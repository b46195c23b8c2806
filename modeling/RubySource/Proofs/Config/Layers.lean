import Mathlib.Data.List.Induction
import RubySource.Config.Merge
import RubySource.Proofs.Value.Keys

/-!
# The last layer that speaks

A layer speaks on a path of keys if it says what stands there, or that there is no table on the way.
Layers laid over one another say, at every path, what the last layer that speaks on it says.  This
is not so for tables: what stands at a path that is a table collects the keys of all layers that
hold a table there.

## What is here

* `Config.Speaks`, `Config.LastSays` — the layers that speak on a path, and what the last of them
  has there.
* `Config.find?_overlayEntries` — what a key holds after entries are laid over others.
* `Config.valueAt?_overlay_of_speaks`, `Config.valueAt?_overlay_of_not_speaks` — one layer over a
  value, at a path that it speaks on and at one that it does not.
* `Config.overlaid` — layers laid over entries in turn, with `valueAt?_overlaid_iff`.
* `Config.overlay_overlay` — a value that is laid over twice does the same as once.
* `Config.last_layer_wins` — the payoff: **at every path the last layer that speaks decides**, what
  no layer speaks on stays, and the last layer may be laid over again.
-/

set_option autoImplicit false

namespace RubySource
namespace Config

/-! ## Speaking on a path -/

/-- A value speaks on a path if it holds anything there, or no table on the way there. -/
def Speaks (layer : ConfigValue) (path : List LooseText) : Prop :=
  (∃ v, valueAt? layer path = some v) ∨
    ∃ front v, front <+: path ∧ front ≠ path ∧ valueAt? layer front = some v ∧ ¬ v.IsTable

/-- The last of some layers that speaks on a path has a value there. -/
def LastSays (layers : List Entries) (path : List LooseText) (v : ConfigValue) : Prop :=
  ∃ before layer after, layers = before ++ layer :: after
    ∧ valueAt? (.table layer) path = some v
    ∧ ∀ later ∈ after, ¬ Speaks (.table later) path

theorem valueAt?_of_not_isTable {v : ConfigValue} (hv : ¬ v.IsTable) (key : LooseText)
    (path : List LooseText) : valueAt? v (key :: path) = none := by
  cases v with
  | table entries => exact absurd ⟨entries, rfl⟩ hv
  | _ => rfl

theorem valueAt?_table (entries : Entries) (key : LooseText) (path : List LooseText) :
    valueAt? (.table entries) (key :: path)
      = (entries.find? key).bind fun next => valueAt? next path :=
  rfl

/-- A path is followed step by step. -/
theorem valueAt?_append (v : ConfigValue) (front rest : List LooseText) :
    valueAt? v (front ++ rest) = (valueAt? v front).bind fun next => valueAt? next rest := by
  induction front generalizing v with
  | nil => rfl
  | cons key front ih =>
    by_cases hv : v.IsTable
    · obtain ⟨entries, rfl⟩ := hv
      rw [List.cons_append, valueAt?_table, valueAt?_table, Option.bind_assoc]
      simp only [ih]
    · rw [List.cons_append, valueAt?_of_not_isTable hv, valueAt?_of_not_isTable hv]
      rfl

theorem speaks_of_valueAt? {layer v : ConfigValue} {path : List LooseText}
    (h : valueAt? layer path = some v) : Speaks layer path :=
  .inl ⟨v, h⟩

theorem speaks_of_not_isTable {v : ConfigValue} (hv : ¬ v.IsTable) (path : List LooseText) :
    Speaks v path := by
  cases path with
  | nil => exact speaks_of_valueAt? rfl
  | cons key path => exact .inr ⟨[], v, List.nil_prefix, nofun, rfl, hv⟩

/-- A table speaks on a path if the value of the first key speaks on the rest of it. -/
theorem speaks_table_iff {entries : Entries} {key : LooseText} {path : List LooseText} :
    Speaks (.table entries) (key :: path) ↔
      ∃ next, entries.find? key = some next ∧ Speaks next path := by
  constructor
  · rintro (⟨v, hv⟩ | ⟨front, v, hfront, hne, hv, htable⟩)
    · obtain ⟨next, hnext, hv⟩ := Option.bind_eq_some_iff.1 hv
      exact ⟨next, hnext, speaks_of_valueAt? hv⟩
    · cases front with
      | nil =>
        cases hv
        exact absurd ⟨entries, rfl⟩ htable
      | cons k front =>
        obtain ⟨rfl, hrest⟩ := List.cons_prefix_cons.1 hfront
        obtain ⟨next, hnext, hv⟩ := Option.bind_eq_some_iff.1 hv
        exact ⟨next, hnext, .inr ⟨front, v, hrest, fun h => hne (h ▸ rfl), hv, htable⟩⟩
  · rintro ⟨next, hnext, ⟨v, hv⟩ | ⟨front, v, hfront, hne, hv, htable⟩⟩
    · exact speaks_of_valueAt? (Option.bind_eq_some_iff.2 ⟨next, hnext, hv⟩)
    · refine .inr ⟨key :: front, v, List.cons_prefix_cons.2 ⟨rfl, hfront⟩, ?_,
        Option.bind_eq_some_iff.2 ⟨next, hnext, hv⟩, htable⟩
      exact fun h => hne (List.cons.inj h).2

theorem not_speaks_of_find?_eq_none {entries : Entries} {key : LooseText}
    (h : entries.find? key = none) (path : List LooseText) :
    ¬ Speaks (.table entries) (key :: path) := by
  rw [speaks_table_iff, h]
  rintro ⟨next, hnext, -⟩
  cases hnext

/-! ## One layer over a value -/

theorem overlay_of_not_isTable {v : ConfigValue} (hv : ¬ v.IsTable) (old : Option ConfigValue) :
    overlay old v = v := by
  cases v with
  | table entries => exact absurd ⟨entries, rfl⟩ hv
  | _ => rfl

theorem overlay_none (v : ConfigValue) : overlay none v = v := by
  cases v <;> rfl

/-- A table is laid over the entries of a table, and replaces anything else. -/
theorem overlay_table_cases (old : Option ConfigValue) (upper : Entries) :
    (∃ base, old = some (.table base)
        ∧ overlay old (.table upper) = .table (overlayEntries base upper))
      ∨ (∀ v, old = some v → ¬ v.IsTable) ∧ overlay old (.table upper) = .table upper := by
  match old with
  | some (.table base) => exact .inl ⟨base, rfl, rfl⟩
  | none => exact .inr ⟨nofun, rfl⟩
  | some .null | some (.bool _) | some (.int _) | some (.real _) | some (.text _)
  | some (.list _) =>
    refine .inr ⟨?_, rfl⟩
    rintro v ⟨rfl⟩
    exact nofun

theorem isTable_overlay_table (old : Option ConfigValue) (upper : Entries) :
    (overlay old (.table upper)).IsTable := by
  obtain ⟨base, -, h⟩ | ⟨-, h⟩ := overlay_table_cases old upper
  · exact ⟨_, h⟩
  · exact ⟨_, h⟩

/-- What a key holds after entries are laid over others. -/
theorem find?_overlayEntries {upper : Entries} (hkeys : (upper.map Prod.fst).Nodup)
    (base : Entries) (key : LooseText) :
    Entries.find? (overlayEntries base upper) key
      = match Entries.find? upper key with
        | some v => some (overlay (base.find? key) v)
        | none => base.find? key := by
  induction upper generalizing base with
  | nil => rfl
  | cons e rest ih =>
    obtain ⟨k, v⟩ := e
    obtain ⟨hfirst, hrest⟩ := List.nodup_cons.1 hkeys
    rw [overlayEntries, ih hrest, Entries.find?_put]
    by_cases hk : k = key
    · subst hk
      simp [Entries.find?, Entries.find?_eq_none_iff.2 hfirst]
    · simp [Entries.find?, hk]

/-- What stands below a key after a table is laid over a value. -/
theorem valueAt?_overlay_table {upper : Entries} (hkeys : (upper.map Prod.fst).Nodup)
    (old : Option ConfigValue) (key : LooseText) (path : List LooseText) :
    valueAt? (overlay old (.table upper)) (key :: path)
      = match upper.find? key with
        | some next => valueAt? (overlay (old.bind fun v => valueAt? v [key]) next) path
        | none => old.bind fun v => valueAt? v (key :: path) := by
  obtain ⟨base, rfl, hover⟩ | ⟨hold, hover⟩ := overlay_table_cases old upper
  · rw [hover, valueAt?_table, find?_overlayEntries hkeys]
    cases upper.find? key with
    | none => rfl
    | some next => simp [valueAt?]
  · have hnone (rest : List LooseText) : (old.bind fun v => valueAt? v (key :: rest)) = none :=
      Option.bind_eq_none_iff.2 fun v hv => valueAt?_of_not_isTable (hold v hv) key rest
    rw [hover, valueAt?_table, hnone, hnone]
    cases upper.find? key with
    | none => rfl
    | some next => simp [overlay_none]

/-- Where a layer speaks it decides, unless it says no more than that there is a table. -/
theorem valueAt?_overlay_of_speaks {upper : ConfigValue} (honce : upper.KeysOnce)
    {path : List LooseText} (hspeaks : Speaks upper path) (old : Option ConfigValue)
    {v : ConfigValue} (hv : ¬ v.IsTable) :
    valueAt? (overlay old upper) path = some v ↔ valueAt? upper path = some v := by
  induction path generalizing old upper with
  | nil =>
    by_cases hupper : upper.IsTable
    · obtain ⟨entries, rfl⟩ := hupper
      refine iff_of_false ?_ ?_
      · intro h
        exact hv (Option.some.inj h ▸ isTable_overlay_table old entries)
      · intro h
        exact hv (Option.some.inj h ▸ ⟨entries, rfl⟩)
    · rw [overlay_of_not_isTable hupper]
  | cons key path ih =>
    by_cases hupper : upper.IsTable
    · obtain ⟨entries, rfl⟩ := hupper
      obtain ⟨next, hnext, hspeaks⟩ := speaks_table_iff.1 hspeaks
      rw [valueAt?_overlay_table honce.keys, valueAt?_table, hnext]
      exact ih (honce.inner (Entries.mem_of_find? hnext)) hspeaks _
    · rw [overlay_of_not_isTable hupper]

/-- Where a layer does not speak all stays. -/
theorem valueAt?_overlay_of_not_speaks {upper : ConfigValue} (honce : upper.KeysOnce)
    {path : List LooseText} (hspeaks : ¬ Speaks upper path) (old : Option ConfigValue) :
    valueAt? (overlay old upper) path = old.bind fun v => valueAt? v path := by
  induction path generalizing old upper with
  | nil => exact absurd (speaks_of_valueAt? rfl) hspeaks
  | cons key path ih =>
    by_cases hupper : upper.IsTable
    · obtain ⟨entries, rfl⟩ := hupper
      rw [valueAt?_overlay_table honce.keys]
      cases hnext : Entries.find? entries key with
      | none => rfl
      | some next =>
        have hbelow : ¬ Speaks next path := fun h => hspeaks (speaks_table_iff.2 ⟨next, hnext, h⟩)
        have hinner := honce.inner (Entries.mem_of_find? hnext)
        calc valueAt? (overlay (old.bind fun v => valueAt? v [key]) next) path
            = (old.bind fun v => valueAt? v [key]).bind fun v => valueAt? v path :=
              ih hinner hbelow _
          _ = old.bind fun v => valueAt? v (key :: path) := by
              rw [Option.bind_assoc]
              simp only [← valueAt?_append]
              rfl
    · exact absurd (speaks_of_not_isTable hupper _) hspeaks

/-! ## Layers over entries -/

/-- Layers laid over entries, one after the other. -/
def overlaid (base : Entries) (layers : List Entries) : Entries :=
  layers.foldl overlayEntries base

theorem foldlM_merge (base : Entries) (layers : List Entries) :
    (layers.map Value.table).foldlM merge (.table base)
      = .ok (.table (overlaid base layers)) := by
  induction layers generalizing base with
  | nil => rfl
  | cons upper layers ih =>
    rw [List.map_cons, List.foldlM_cons]
    exact ih (overlayEntries base upper)

/-- The layer on top says what is said last, unless it does not speak. -/
theorem lastSays_concat_iff {layers : List Entries} {upper : Entries} {path : List LooseText}
    {v : ConfigValue} :
    LastSays (layers ++ [upper]) path v ↔
      valueAt? (.table upper) path = some v
        ∨ ¬ Speaks (.table upper) path ∧ LastSays layers path v := by
  constructor
  · rintro ⟨before, layer, after, heq, hv, hafter⟩
    obtain rfl | ⟨after, last, rfl⟩ := List.eq_nil_or_concat after
    · obtain ⟨-, hlayer⟩ := List.append_inj' heq rfl
      obtain rfl := List.singleton_inj.1 hlayer
      exact .inl hv
    · rw [List.concat_eq_append] at heq hafter
      rw [← List.cons_append, ← List.append_assoc] at heq
      obtain ⟨rfl, hlast⟩ := List.append_inj' heq rfl
      obtain rfl := List.singleton_inj.1 hlast
      have hsilent := hafter upper List.mem_concat_self
      exact .inr ⟨hsilent, before, layer, after, rfl, hv,
        fun later hlater => hafter later (List.mem_append_left _ hlater)⟩
  · rintro (hv | ⟨hsilent, before, layer, after, rfl, hv, hafter⟩)
    · exact ⟨layers, upper, [], rfl, hv, nofun⟩
    · refine ⟨before, layer, after ++ [upper], by simp, hv, fun later hlater => ?_⟩
      obtain hlater | hlater := List.mem_append.1 hlater
      · exact hafter later hlater
      · exact List.mem_singleton.1 hlater ▸ hsilent

theorem lastSays_singleton_iff {base : Entries} {path : List LooseText} {v : ConfigValue} :
    LastSays [base] path v ↔ valueAt? (.table base) path = some v := by
  have hnone : ¬ LastSays [] path v := by
    rintro ⟨before, layer, after, heq, -, -⟩
    exact List.append_ne_nil_of_right_ne_nil before (List.cons_ne_nil layer after) heq.symm
  rw [← List.nil_append [base], lastSays_concat_iff]
  simp [hnone]

theorem overlaid_concat (base : Entries) (layers : List Entries) (upper : Entries) :
    overlaid base (layers ++ [upper]) = overlayEntries (overlaid base layers) upper := by
  rw [overlaid, List.foldl_append]
  rfl

/-- What stands at a path is what the last layer that speaks on it says. -/
theorem valueAt?_overlaid_iff {base : Entries} {layers : List Entries}
    (honce : ∀ upper ∈ layers, (Value.table upper).KeysOnce) {path : List LooseText}
    {v : ConfigValue} (hv : ¬ v.IsTable) :
    valueAt? (.table (overlaid base layers)) path = some v ↔ LastSays (base :: layers) path v := by
  induction layers using List.reverseRecOn with
  | nil => exact lastSays_singleton_iff.symm
  | append_singleton layers upper ih =>
    have hupper := honce upper List.mem_concat_self
    have ih := ih fun layer hlayer => honce layer (List.mem_append_left _ hlayer)
    have hover : Value.table (overlaid base (layers ++ [upper]))
        = overlay (some (.table (overlaid base layers))) (.table upper) := by
      rw [overlaid_concat, overlay]
    rw [hover, ← List.cons_append, lastSays_concat_iff]
    by_cases hspeaks : Speaks (.table upper) path
    · rw [valueAt?_overlay_of_speaks hupper hspeaks _ hv]
      simp [hspeaks]
    · have hnone : valueAt? (.table upper) path ≠ some v := fun h =>
        hspeaks (speaks_of_valueAt? h)
      rw [valueAt?_overlay_of_not_speaks hupper hspeaks, Option.bind_some, ih]
      simp [hspeaks, hnone]

/-- A layer that takes a section away has the last word on its settings, also where a later layer
brings the section back. -/
example :
    valueAt? (.table (overlaid standardEntries [[("source", .null)], [("source", .table [])]]))
      ["source", "encoding"] = none := by
  rfl

theorem valueAt?_overlaid_of_not_speaks {base : Entries} {layers : List Entries}
    (honce : ∀ upper ∈ layers, (Value.table upper).KeysOnce) {path : List LooseText}
    (hsilent : ∀ upper ∈ layers, ¬ Speaks (.table upper) path) :
    valueAt? (.table (overlaid base layers)) path = valueAt? (.table base) path := by
  induction layers generalizing base with
  | nil => rfl
  | cons upper layers ih =>
    obtain ⟨hupper, hlayers⟩ := List.forall_mem_cons.1 honce
    obtain ⟨hfirst, hrest⟩ := List.forall_mem_cons.1 hsilent
    calc valueAt? (.table (overlaid (overlayEntries base upper) layers)) path
        = valueAt? (.table (overlayEntries base upper)) path := ih hlayers hrest
      _ = valueAt? (.table base) path :=
          valueAt?_overlay_of_not_speaks hupper hfirst (some (.table base))

/-! ## The same layer again -/

/-- Entries that change no key they are laid over change nothing. -/
theorem overlayEntries_eq_self {base upper : Entries}
    (h : ∀ e ∈ upper, base.find? e.1 = some (overlay (base.find? e.1) e.2)) :
    overlayEntries base upper = base := by
  induction upper with
  | nil => rfl
  | cons e rest ih =>
    obtain ⟨hfirst, hrest⟩ := List.forall_mem_cons.1 h
    obtain ⟨key, v⟩ := e
    rw [overlayEntries, Entries.put_eq_self hfirst]
    exact ih hrest

/-- A value that is laid over twice does the same as once. -/
theorem overlay_overlay {v : ConfigValue} (honce : v.KeysOnce) (old : Option ConfigValue) :
    overlay (some (overlay old v)) v = overlay old v := by
  induction honce generalizing old with
  | other hv => rw [overlay_of_not_isTable hv, overlay_of_not_isTable hv]
  | @table upper hkeys hinner ih =>
    obtain ⟨base, -, hover⟩ | ⟨-, hover⟩ := overlay_table_cases old upper
    · rw [hover, overlay, overlayEntries_eq_self]
      intro e he
      rw [find?_overlayEntries hkeys, Entries.find?_of_mem hkeys he]
      exact congrArg some (ih e he _).symm
    · -- a table that replaced what was there is laid over itself
      rw [hover, overlay, overlayEntries_eq_self]
      intro e he
      have hsame := ih e he none
      rw [overlay_none] at hsame
      rw [Entries.find?_of_mem hkeys he, hsame]

/-- **At every path the last layer that speaks decides.**  What no layer speaks on stays as it is in
the base, and the last layer may be laid over again. -/
theorem last_layer_wins (base : Entries) (overrides : List Entries)
    (honce : ∀ upper ∈ overrides, (Value.table upper).KeysOnce) :
    ∃ result, (overrides.map Value.table).foldlM merge (.table base) = .ok (.table result)
      ∧ (∀ path v, ¬ v.IsTable →
          (valueAt? (.table result) path = some v ↔ LastSays (base :: overrides) path v))
      ∧ (∀ path, (∀ upper ∈ overrides, ¬ Speaks (.table upper) path) →
          valueAt? (.table result) path = valueAt? (.table base) path)
      ∧ (∀ upper, overrides.getLast? = some upper →
          merge (.table result) (.table upper) = .ok (.table result)) := by
  refine ⟨overlaid base overrides, foldlM_merge base overrides, ?_, ?_, ?_⟩
  · intro path v hv
    exact valueAt?_overlaid_iff honce hv
  · intro path hsilent
    exact valueAt?_overlaid_of_not_speaks honce hsilent
  · intro upper hlast
    obtain ⟨layers, rfl⟩ := List.getLast?_eq_some_iff.1 hlast
    have hupper := honce upper List.mem_concat_self
    have hagain := overlay_overlay hupper (some (.table (overlaid base layers)))
    rw [overlay, overlay] at hagain
    rw [overlaid_concat, merge]
    exact congrArg Except.ok hagain

namespace Sample

/-- A layer that says an encoding. -/
def encodingLayer : Entries := [("source", .table [("encoding", .text "latin-1")])]

/-- A layer that takes the section of the grammar away. -/
def grammarlessLayer : Entries := [("parser", .null)]

theorem keysOnce_layers :
    ∀ upper ∈ [encodingLayer, grammarlessLayer], (Value.table upper).KeysOnce := by
  have hnull : Value.KeysOnce (.table grammarlessLayer) :=
    .table (by decide) (List.forall_mem_singleton.2 (.other nofun))
  have htext : Value.KeysOnce (.table [("encoding", .text "latin-1")]) :=
    .table (by decide) (List.forall_mem_singleton.2 (.other nofun))
  exact List.forall_mem_cons.2 ⟨.table (by decide) (List.forall_mem_singleton.2 htext),
    List.forall_mem_singleton.2 hnull⟩

theorem lastSays_encoding :
    LastSays [standardEntries, encodingLayer, grammarlessLayer] ["source", "encoding"]
      (.text "latin-1") := by
  have hsilent : ¬ Speaks (.table grammarlessLayer) ["source", "encoding"] :=
    not_speaks_of_find?_eq_none rfl _
  exact ⟨[standardEntries], encodingLayer, [grammarlessLayer], rfl, rfl,
    List.forall_mem_singleton.2 hsilent⟩

end Sample

/-- A section that the user's layer speaks on and the project's layer does not. -/
theorem last_layer_wins_sample :
    (∀ upper ∈ [Sample.encodingLayer, Sample.grammarlessLayer], (Value.table upper).KeysOnce) ∧
      ∃ result,
        ([Sample.encodingLayer, Sample.grammarlessLayer].map Value.table).foldlM merge standard
            = .ok (.table result) ∧
          valueAt? (.table result) ["source", "encoding"] = some (.text "latin-1") := by
  obtain ⟨result, hresult, hlast, -, -⟩ := last_layer_wins standardEntries
    [Sample.encodingLayer, Sample.grammarlessLayer] Sample.keysOnce_layers
  exact ⟨Sample.keysOnce_layers, result, hresult,
    (hlast _ (.text "latin-1") nofun).2 Sample.lastSays_encoding⟩

end Config
end RubySource
