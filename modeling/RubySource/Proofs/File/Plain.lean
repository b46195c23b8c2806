import Mathlib.Data.String.Basic
import RubySource.File.System

/-!
# The plain form of a name

The plain form of a name leaves out what says nothing about the place: empty parts and single dots.
A name may still lead nowhere where its plain form leads to a file, because a part that says nothing
has to follow a folder.  The other way round there is no difference.

## What is here

* `FilePath.parts_eq`, `FilePath.parts_joinParts` — the parts of a name are what stands between its
  slashes.
* `FilePath.exists_root` — a name is its root and what follows it.
* `FilePath.plain_eq`, `FilePath.plain_spec` — what a plain form is made of: its characters, its
  parts and where it starts.
* `FileSystem.follow_filter_isSolid` — parts that say nothing may be left out on the way.
* `FileSystem.read_plain` — **the plain form of a file's name is a name of the same file**.
-/

set_option autoImplicit false

namespace RubySource

/-! ## The parts of a name -/

namespace FilePath

theorem partsFrom_eq {α : Type} (isSlash : α → Bool) (part cs : List α) :
    partsFrom isSlash part cs = cs.splitOnPPrepend isSlash part := by
  induction cs generalizing part with
  | nil => rfl
  | cons c cs ih =>
    rw [partsFrom, List.splitOnPPrepend_cons_eq_if, ih, ih, List.splitOnPPrepend_nil_right]

theorem partsFrom_map {α β : Type} (f : α → β) (isSlash : β → Bool) (part cs : List α) :
    partsFrom isSlash (part.map f) (cs.map f)
      = (partsFrom (isSlash ∘ f) part cs).map (List.map f) := by
  induction cs generalizing part with
  | nil => simp [partsFrom]
  | cons c cs ih =>
    rw [List.map_cons, partsFrom, partsFrom, Function.comp_apply]
    by_cases h : isSlash (f c) = true
    · rw [if_pos h, if_pos h, List.map_cons, List.map_reverse]
      exact congrArg _ (ih [])
    · rw [if_neg h, if_neg h]
      exact ih (c :: part)

/-- The parts of a string are those of the loose text that it is. -/
theorem looseParts_coe (name : String) :
    looseParts name = (parts name).map fun part : String => (part : LooseText) := by
  have hslash : (fun p : LooseText.Point => p == .char '/') ∘ .char = fun c => c == '/' := by
    funext c
    by_cases h : c = '/' <;> simp [h]
  rw [looseParts, LooseText.points_coe, ← List.map_nil (f := LooseText.Point.char), partsFrom_map,
    hslash, parts, List.map_map, List.map_map]
  exact List.map_congr_left fun cs _ => LooseText.ofPoints_chars cs

/-- The texts between the slashes of a text. -/
def between (cs : List Char) : List String := (cs.splitOn '/').map String.ofList

theorem parts_eq (name : String) : parts name = between name.toList := by
  rw [parts, partsFrom_eq, between, List.splitOn_eq_splitOnP, List.splitOnPPrepend_nil_right]

theorem not_slash_of_mem_splitOn {cs part : List Char} (h : part ∈ cs.splitOn '/') :
    '/' ∉ part := by
  induction cs generalizing part with
  | nil =>
    obtain rfl : part = [] := by simpa using h
    exact List.not_mem_nil
  | cons c cs ih =>
    obtain ⟨q, qs, hsplit⟩ := List.exists_cons_of_ne_nil (List.splitOn_ne_nil '/' cs)
    rw [List.splitOn_cons_eq_if_modifyHead] at h
    split at h
    · rcases List.mem_cons.1 h with rfl | h
      · exact List.not_mem_nil
      · exact ih h
    next hc =>
      rw [hsplit, List.modifyHead_cons] at h
      rw [hsplit] at ih
      rcases List.mem_cons.1 h with rfl | h
      · intro hmem
        rcases List.mem_cons.1 hmem with hslash | hq
        · exact hc (beq_iff_eq.2 hslash.symm)
        · exact ih (List.mem_cons_self ..) hq
      · exact ih (List.mem_cons_of_mem q h)

theorem not_slash_of_mem_between {cs : List Char} {part : String} (h : part ∈ between cs) :
    '/' ∉ part.toList := by
  obtain ⟨q, hq, rfl⟩ := List.mem_map.1 h
  rw [String.toList_ofList]
  exact not_slash_of_mem_splitOn hq

theorem between_slash (cs : List Char) : between ('/' :: cs) = "" :: between cs := by
  rw [between, List.splitOn_cons_eq_if_modifyHead, if_pos (beq_self_eq_true '/')]
  rfl

theorem between_replicate (k : Nat) (cs : List Char) :
    between (List.replicate k '/' ++ cs) = List.replicate k "" ++ between cs := by
  induction k with
  | zero => rfl
  | succ k ih =>
    rw [List.replicate_succ, List.cons_append, between_slash, ih]
    rfl

/-- Parts without slashes are found again when they are put together. -/
theorem between_joinParts {ps : List String} (h : ∀ p ∈ ps, '/' ∉ p.toList) (hne : ps ≠ []) :
    between (joinParts ps).toList = ps := by
  rw [between, joinParts, String.toList_intercalate]
  show ((['/'].intercalate (ps.map String.toList)).splitOn '/').map String.ofList = ps
  rw [List.splitOn_intercalate '/' (by simpa using h) (by simpa using hne), List.map_map]
  simp

/-- A text is its parts with slashes between them. -/
theorem intercalate_between (cs : List Char) :
    ['/'].intercalate ((between cs).map String.toList) = cs := by
  rw [between, List.map_map]
  simp [Function.comp_def, List.intercalate_splitOn]

/-! ## The root -/

/-- A name is its root, made of slashes, and what follows.  Without a root it does not start with a
slash. -/
theorem exists_root (name : String) :
    ∃ k rest, (root name).toList = List.replicate k '/' ∧
      name.toList = List.replicate k '/' ++ rest ∧ (k = 0 → rest.head? ≠ some '/') := by
  rw [root]
  split
  next cs h => exact ⟨1, '/' :: '/' :: cs, rfl, h, nofun⟩
  next cs _ h => exact ⟨2, cs, rfl, h, nofun⟩
  next cs _ _ h => exact ⟨1, cs, rfl, h, nofun⟩
  next h =>
    refine ⟨0, name.toList, rfl, rfl, fun _ hhead => ?_⟩
    obtain ⟨cs, hcs⟩ := List.head?_eq_some_iff.1 hhead
    exact h cs hcs

theorem isAbsolute_iff (name : String) : isAbsolute name = true ↔ name.toList.head? = some '/' := by
  obtain ⟨k, rest, hroot, hname, hzero⟩ := exists_root name
  have hempty : root name = "" ↔ k = 0 := by
    rw [← String.toList_inj, hroot]
    simp
  rw [isAbsolute, bne_iff_ne, Ne, hempty, hname]
  cases k with
  | zero => simpa using hzero rfl
  | succ k => simp [List.replicate_succ]

/-! ## The plain form -/

/-- Fewer parts make a text with fewer characters. -/
theorem intercalate_sublist {ps qs : List (List Char)} (h : ps.Sublist qs) :
    (['/'].intercalate ps).Sublist (['/'].intercalate qs) := by
  induction h with
  | slnil => exact List.Sublist.refl _
  | @cons ps qs q h ih =>
    cases qs with
    | nil =>
      obtain rfl := List.sublist_nil.1 h
      exact List.nil_sublist _
    | cons q' qs =>
      rw [List.intercalate_cons_cons]
      exact ih.trans (List.sublist_append_right _ _)
  | @cons_cons ps qs q h ih =>
    cases qs with
    | nil =>
      obtain rfl := List.sublist_nil.1 h
      exact List.Sublist.refl _
    | cons q' qs =>
      rw [List.intercalate_cons_cons]
      cases ps with
      | nil =>
        rw [List.intercalate_singleton, List.append_assoc]
        exact List.sublist_append_left _ _
      | cons p ps =>
        rw [List.intercalate_cons_cons]
        exact ih.append_left _

/-- Parts put together start as the first one does. -/
theorem head?_joinParts {p : String} (ps : List String) (hp : p ≠ "") :
    (joinParts (p :: ps)).toList.head? = p.toList.head? := by
  have hne : p.toList ≠ [] := by simpa using hp
  rw [joinParts, String.toList_intercalate, List.map_cons]
  cases ps.map String.toList with
  | nil => rw [List.intercalate_singleton]
  | cons q qs =>
    rw [List.intercalate_cons_cons, List.append_assoc, List.head?_append_of_ne_nil _ hne]

section Plain

variable {name : String} (hsolid : solidParts name ≠ [])
include hsolid

theorem head?_joinParts_solidParts :
    ∃ c, (joinParts (solidParts name)).toList.head? = some c ∧ c ≠ '/' := by
  obtain ⟨p, ps, hps⟩ := List.exists_cons_of_ne_nil hsolid
  have hp : p ∈ (parts name).filter fun part : String => isSolid part := by
    rw [← solidParts, hps]
    exact List.mem_cons_self ..
  have hne : p ≠ "" := by
    rintro rfl
    exact absurd (List.mem_filter.1 hp).2 (by decide)
  have hpart : p ∈ between name.toList := by
    rw [← parts_eq]
    exact List.mem_of_mem_filter hp
  rw [hps, head?_joinParts ps hne]
  cases hchars : p.toList with
  | nil => exact absurd (String.toList_eq_nil_iff.1 hchars) hne
  | cons c cs =>
    refine ⟨c, rfl, ?_⟩
    rintro rfl
    exact not_slash_of_mem_between hpart (hchars ▸ List.mem_cons_self ..)

theorem plain_eq : plain name = root name ++ joinParts (solidParts name) := by
  obtain ⟨c, hc, -⟩ := head?_joinParts_solidParts hsolid
  refine if_neg fun hempty => ?_
  rw [String.isEmpty_iff, ← String.toList_inj, String.toList_append] at hempty
  rw [(List.append_eq_nil_iff.1 hempty).2] at hc
  cases hc

omit hsolid in
theorem plain_ne_empty (name : String) : plain name ≠ "" := by
  rw [plain]
  split
  · decide
  next hwritten => exact fun hempty => hwritten (String.isEmpty_iff.2 hempty)

/-- A plain form keeps some of the characters of a name, its root, and the parts that say
something. -/
theorem plain_spec :
    (plain name).toList.Sublist name.toList ∧
      (∃ k, parts (plain name) = List.replicate k "" ++ solidParts name) ∧
      isAbsolute (plain name) = isAbsolute name := by
  obtain ⟨k, rest, hroot, hname, hzero⟩ := exists_root name
  obtain ⟨c, hc, hslash⟩ := head?_joinParts_solidParts hsolid
  have hplain : (plain name).toList
      = List.replicate k '/' ++ (joinParts (solidParts name)).toList := by
    rw [plain_eq hsolid, String.toList_append, hroot]
  have hparts : solidParts name = (between rest).filter fun part : String => isSolid part := by
    have hlead : ((List.replicate k "").filter fun part : String => isSolid part) = [] := by
      rw [List.filter_eq_nil_iff]
      intro p hp
      rw [List.eq_of_mem_replicate hp]
      decide
    rw [solidParts, parts_eq, hname, between_replicate, List.filter_append, hlead,
      List.nil_append]
  refine ⟨?_, ⟨k, ?_⟩, ?_⟩
  · rw [hplain, hname, joinParts, String.toList_intercalate, hparts]
    refine List.Sublist.append_left ?_ _
    conv_rhs => rw [← intercalate_between rest]
    exact intercalate_sublist (List.filter_sublist.map _)
  · have hnoSlash : ∀ p ∈ solidParts name, '/' ∉ p.toList := by
      intro p hp
      rw [hparts] at hp
      exact not_slash_of_mem_between (List.mem_of_mem_filter hp)
    rw [parts_eq, hplain, between_replicate, between_joinParts hnoSlash hsolid]
  · rw [Bool.eq_iff_iff, isAbsolute_iff, isAbsolute_iff, hplain, hname]
    cases k with
    | zero => simpa [hc, hslash] using hzero rfl
    | succ k => simp [List.replicate_succ]

end Plain

end FilePath

/-! ## On the way to a file -/

namespace FileSystem

variable {fs : FileSystem} {place : FilePath.Place}

theorem next_of_not_solid {part : LooseText} (h : FilePath.isSolid part = false) :
    place.next part = place := by
  have hup : part ≠ ".." := by
    rintro rfl
    exact absurd h (by decide)
  rw [FilePath.Place.next, if_neg hup, if_neg (by rw [h]; exact Bool.false_ne_true)]

/-- A way that leads somewhere leads there without the parts that say nothing. -/
theorem follow_filter_isSolid {entry found : FileEntry} {parts : List LooseText}
    (hplace : fs.lookup? place = some entry) (h : fs.follow place entry parts = .ok found) :
    fs.follow place entry (parts.filter FilePath.isSolid) = .ok found := by
  induction parts generalizing place entry with
  | nil => exact h
  | cons part rest ih =>
    cases entry with
    | file bytes => cases h
    | folder =>
      rw [follow] at h
      split at h
      next => cases h
      next hsize =>
        by_cases hpart : FilePath.isSolid part = true
        · rw [List.filter_cons_of_pos hpart, follow, if_neg hsize]
          cases hnext : fs.lookup? (place.next part) with
          | none => rw [hnext] at h; cases h
          | some next =>
            rw [hnext] at h
            exact ih hnext h
        · have hfalse : FilePath.isSolid part = false := Bool.eq_false_iff.2 hpart
          rw [next_of_not_solid hfalse, hplace] at h
          rw [List.filter_cons_of_neg hpart]
          exact ih hplace h

/-- Empty parts lead nowhere else. -/
theorem follow_replicate (k : Nat) (parts : List LooseText)
    (hplace : fs.lookup? place = some .folder) :
    fs.follow place .folder (List.replicate k ("" : LooseText) ++ parts)
      = fs.follow place .folder parts := by
  induction k with
  | zero => rfl
  | succ k ih =>
    have hnext : place.next "" = place := next_of_not_solid (by decide)
    rw [List.replicate_succ, List.cons_append, follow, hnext, hplace]
    exact ih

/-- The root and all folders down to the working folder are there. -/
theorem lookup?_of_prefix {parts : List LooseText} (h : parts <+: fs.working.parts) :
    fs.lookup? ⟨parts⟩ = some .folder :=
  if_pos (List.isPrefixOf_iff_prefix.2 h)

theorem lookup?_start (fs : FileSystem) (name : String) :
    fs.lookup? (fs.start name) = some .folder := by
  rw [start]
  split
  · exact lookup?_of_prefix List.nil_prefix
  · exact lookup?_of_prefix List.prefix_rfl

theorem read_eq_ok_iff {name : String} {bytes : Bytes} :
    fs.read name = .ok bytes ↔ fs.find name = .ok (.file bytes) := by
  rw [read]
  cases fs.find name with
  | error e => simp
  | ok entry => cases entry <;> simp

/-- A name that leads somewhere holds no NUL, is neither empty nor too long, and can be followed. -/
theorem find_eq_ok_iff {name : String} {entry : FileEntry} :
    fs.find name = .ok entry ↔
      '\x00' ∉ name.toList ∧ name ≠ "" ∧ name.utf8ByteSize ≤ nameLimit ∧
        fs.follow (fs.start name) .folder (FilePath.looseParts name) = .ok entry := by
  rw [find]
  split
  next hnul => simpa using fun hnot => absurd (List.contains_iff_mem.1 hnul) hnot
  next hnul =>
    have hnot : '\x00' ∉ name.toList := fun hmem => hnul (List.contains_iff_mem.2 hmem)
    split
    next hempty => simp [String.isEmpty_iff.1 hempty]
    next hempty =>
      have hne : name ≠ "" := fun h => hempty (String.isEmpty_iff.2 h)
      split
      next hlong => simp [Nat.not_le.2 hlong]
      next hlong => simp [hnot, hne, Nat.not_lt.1 hlong]

/-- **The plain form of a file's name is a name of the same file.** -/
theorem read_plain {name : String} {bytes : Bytes} (h : fs.read name = .ok bytes) :
    fs.read (FilePath.plain name) = .ok bytes := by
  obtain ⟨hnul, hne, hlong, hway⟩ := find_eq_ok_iff.1 (read_eq_ok_iff.1 h)
  have hsolidWay : fs.follow (fs.start name) .folder
      ((FilePath.solidParts name).map fun part : String => (part : LooseText))
        = .ok (.file bytes) := by
    rw [FilePath.looseParts_coe] at hway
    have hfiltered := follow_filter_isSolid (lookup?_start fs name) hway
    rwa [List.filter_map] at hfiltered
  have hsolid : FilePath.solidParts name ≠ [] := by
    intro hnil
    rw [hnil] at hsolidWay
    cases hsolidWay
  obtain ⟨hsub, ⟨k, hparts⟩, habsolute⟩ := FilePath.plain_spec hsolid
  have hstart : fs.start (FilePath.plain name) = fs.start name := by
    rw [start, start, habsolute]
  have hsize := String.utf8Len_le_of_sublist hsub
  rw [← String.utf8ByteSize_ofList, ← String.utf8ByteSize_ofList, String.ofList_toList,
    String.ofList_toList] at hsize
  have hplainNul : '\x00' ∉ (FilePath.plain name).toList := fun hmem => hnul (hsub.mem hmem)
  have hplainWay : fs.follow (fs.start (FilePath.plain name)) .folder
      (FilePath.looseParts (FilePath.plain name)) = .ok (.file bytes) := by
    rw [hstart, FilePath.looseParts_coe, hparts, List.map_append, List.map_replicate,
      follow_replicate k _ (lookup?_start fs name)]
    exact hsolidWay
  exact read_eq_ok_iff.2 (find_eq_ok_iff.2
    ⟨hplainNul, FilePath.plain_ne_empty name, hsize.trans hlong, hplainWay⟩)

end FileSystem
end RubySource
