import Mathlib.Data.List.Basic
import RubySource.File.System

/-!
# What stands at a place

A place is asked for by its name from the root on, and the system follows the name part by part.
What is found at the place, and whether the name can be asked for at all, is told here without the
code that follows it: by the folders on the way and by the lengths of the parts.

## What is here

* `FilePath.Place.IsPlain` — no part of a place says nothing or leads up; settled names lead to
  plain places (`FilePath.isPlain_settle`).
* `FileSystem.IsWay` — parts that lead from folder to folder.
* `FileSystem.Overlong`, `FileSystem.locate_eq_tooLong_iff` — a name is too long, or a part of it
  is, with nothing but folders in front.
* `FileSystem.contentsAt`, `FileSystem.contentsAt_eq_some_iff` — the contents of the file at a
  place.
* `FileSystem.without` — the files but the one at a place; `contentsAt_without`,
  `overlong_without_iff`.
-/

set_option autoImplicit false

namespace RubySource

/-! ## Plain places -/

namespace FilePath
namespace Place

/-- Every part says something about the place, and none leads up. -/
def IsPlain (p : Place) : Prop := ∀ part ∈ p.parts, isSolid part = true ∧ part ≠ ".."

theorem isPlain_root : IsPlain root := fun _ h => absurd h List.not_mem_nil

theorem IsPlain.next {p : Place} (h : p.IsPlain) (part : LooseText) : (p.next part).IsPlain := by
  rw [Place.next]
  split
  · exact fun q hq => h q (List.dropLast_subset _ hq)
  next hup =>
    split
    next hsolid =>
      intro q hq
      obtain hq | hq := List.mem_append.1 hq
      · exact h q hq
      · obtain rfl := List.mem_singleton.1 hq
        exact ⟨hsolid, hup⟩
    next => exact h

theorem IsPlain.follow {p : Place} (h : p.IsPlain) (parts : List LooseText) :
    (p.follow parts).IsPlain := by
  induction parts generalizing p with
  | nil => exact h
  | cons part rest ih => exact ih (h.next part)

/-- Plain parts lead down, one after the other. -/
theorem follow_of_isPlain {front parts : List LooseText} (h : IsPlain ⟨parts⟩) :
    follow ⟨front⟩ parts = ⟨front ++ parts⟩ := by
  induction parts generalizing front with
  | nil => rw [List.append_nil]; rfl
  | cons part rest ih =>
    obtain ⟨⟨hsolid, hup⟩, hrest⟩ := List.forall_mem_cons.1 h
    have hnext : next ⟨front⟩ part = ⟨front ++ [part]⟩ := by
      rw [next, if_neg hup, if_pos hsolid]
    rw [follow, List.foldl_cons, hnext, ← follow, ih hrest, List.append_assoc]
    rfl

end Place

/-- A settled name leads to a plain place. -/
theorem isPlain_settle (working : Place) (name : LooseText) : (settle working name).IsPlain :=
  Place.isPlain_root.follow _

end FilePath

/-! ## Following a name -/

namespace FileSystem

open FilePath

section

variable (fs : FileSystem)

/-- Parts that lead from folder to folder; none of them is too long. -/
def IsWay (place : Place) : List LooseText → Prop
  | [] => True
  | part :: rest =>
    part.size ≤ partLimit ∧ fs.lookup? (place.next part) = some .folder ∧
      IsWay (place.next part) rest

/-- The name of a place is too long, or it leads from folder to folder up to a part that is. -/
def Overlong (place : Place) : Prop :=
  nameLimit < place.name.size ∨
    ∃ way part after, place.parts = way ++ part :: after ∧ fs.IsWay .root way ∧
      partLimit < part.size

/-- The contents of the file at a place, if there is one. -/
def contentsAt (place : Place) : Option Bytes :=
  match fs.locate place with
  | .ok (.file bytes) => some bytes
  | _ => none

/-- The files but the one at a place. -/
def without (place : Place) : FileSystem :=
  { fs with files := fs.files.filter fun f => f.1 != place }

end

variable {fs : FileSystem} {place : Place}

section Way

variable {part : LooseText} {rest : List LooseText}

/-- What holds of a part behind a way holds of the first part, or behind a way that starts with
it. -/
theorem exists_isWay_cons_iff {P : Place → LooseText → List LooseText → Prop} :
    (∃ way q after, part :: rest = way ++ q :: after ∧ fs.IsWay place way ∧
        P (place.follow way) q after) ↔
      P place part rest ∨
        part.size ≤ partLimit ∧ fs.lookup? (place.next part) = some .folder ∧
          ∃ way q after, rest = way ++ q :: after ∧ fs.IsWay (place.next part) way ∧
            P ((place.next part).follow way) q after := by
  constructor
  · rintro ⟨way, q, after, heq, hway, hP⟩
    cases way with
    | nil =>
      obtain ⟨rfl, rfl⟩ := List.cons.inj heq
      exact .inl hP
    | cons first way =>
      obtain ⟨rfl, rfl⟩ := List.cons.inj heq
      obtain ⟨hsize, hnext, hway⟩ := hway
      exact .inr ⟨hsize, hnext, way, q, after, rfl, hway, hP⟩
  · rintro (hP | ⟨hsize, hnext, way, q, after, rfl, hway, hP⟩)
    · exact ⟨[], part, rest, rfl, trivial, hP⟩
    · exact ⟨part :: way, q, after, rfl, ⟨hsize, hnext, hway⟩, hP⟩

theorem follow_of_long (h : partLimit < part.size) :
    fs.follow place .folder (part :: rest) = .error .tooLong :=
  if_pos h

theorem follow_of_short (h : part.size ≤ partLimit) :
    fs.follow place .folder (part :: rest) =
      match fs.lookup? (place.next part) with
      | some next => fs.follow (place.next part) next rest
      | none => .error .missing :=
  if_neg (Nat.not_lt.2 h)

theorem follow_file (bytes : Bytes) (parts : List LooseText) :
    fs.follow place (.file bytes) parts
      = if parts = [] then .ok (.file bytes) else .error .notFolder := by
  cases parts <;> rfl

end Way

/-- A name is refused for a part behind nothing but folders. -/
theorem follow_eq_tooLong_iff {parts : List LooseText} :
    fs.follow place .folder parts = .error .tooLong ↔
      ∃ way part after, parts = way ++ part :: after ∧ fs.IsWay place way ∧
        partLimit < part.size := by
  induction parts generalizing place with
  | nil => simp [follow]
  | cons part rest ih =>
    rw [exists_isWay_cons_iff (P := fun _ q _ => partLimit < q.size)]
    obtain hlong | (hshort : part.size ≤ partLimit) := Nat.lt_or_ge partLimit part.size
    · exact iff_of_true (follow_of_long hlong) (.inl hlong)
    · rw [follow_of_short hshort, or_iff_right (Nat.not_lt.2 hshort), and_iff_right hshort]
      cases fs.lookup? (place.next part) with
      | none => simp
      | some next =>
        cases next with
        | file bytes =>
          simp only [follow_file]
          split <;> simp
        | folder => simp [ih]

/-- A name leads to a file behind nothing but folders. -/
theorem follow_eq_file_iff {parts : List LooseText} {bytes : Bytes} :
    fs.follow place .folder parts = .ok (.file bytes) ↔
      ∃ way part after, parts = way ++ part :: after ∧ fs.IsWay place way ∧
        after = [] ∧ part.size ≤ partLimit ∧
          fs.lookup? ((place.follow way).next part) = some (.file bytes) := by
  induction parts generalizing place with
  | nil => simp [follow]
  | cons part rest ih =>
    rw [exists_isWay_cons_iff (P := fun here q after => after = [] ∧ q.size ≤ partLimit ∧
      fs.lookup? (here.next q) = some (.file bytes))]
    obtain hlong | (hshort : part.size ≤ partLimit) := Nat.lt_or_ge partLimit part.size
    · simp [follow_of_long hlong, Nat.not_le.2 hlong]
    · rw [follow_of_short hshort, and_iff_right hshort]
      cases fs.lookup? (place.next part) with
      | none => simp
      | some next =>
        cases next with
        | file found =>
          simp only [follow_file]
          split <;> simp_all
        | folder => simp [ih, hshort]

theorem locate_eq_tooLong_iff : fs.locate place = .error .tooLong ↔ fs.Overlong place := by
  rw [locate, Overlong]
  split
  next hlong => simp [hlong]
  next hshort => rw [follow_eq_tooLong_iff, or_iff_right hshort]

theorem contentsAt_eq_some_iff_locate {bytes : Bytes} :
    fs.contentsAt place = some bytes ↔ fs.locate place = .ok (.file bytes) := by
  rw [contentsAt]
  cases fs.locate place with
  | error e => simp
  | ok entry => cases entry <;> simp

/-- The file at a plain place has a way to it, and neither its name nor a part of it is too long. -/
theorem contentsAt_eq_some_iff (hplain : place.IsPlain) {bytes : Bytes} :
    fs.contentsAt place = some bytes ↔
      place.name.size ≤ nameLimit ∧
        (∃ way part, place.parts = way ++ [part] ∧ fs.IsWay .root way ∧ part.size ≤ partLimit) ∧
        fs.lookup? place = some (.file bytes) := by
  have hplace {way : List LooseText} {part : LooseText} (h : place.parts = way ++ [part]) :
      (Place.root.follow way).next part = place := by
    have hall : Place.root.follow place.parts = place := Place.follow_of_isPlain hplain
    rw [h, Place.follow, List.foldl_append] at hall
    exact hall
  rw [contentsAt_eq_some_iff_locate, locate]
  split
  next hlong => simp [Nat.not_le.2 hlong]
  next hshort =>
    rw [follow_eq_file_iff, and_iff_right (Nat.not_lt.1 hshort)]
    constructor
    · rintro ⟨way, part, _, heq, hway, rfl, hsize, hfile⟩
      rw [hplace heq] at hfile
      exact ⟨⟨way, part, heq, hway, hsize⟩, hfile⟩
    · rintro ⟨⟨way, part, heq, hway, hsize⟩, hfile⟩
      exact ⟨way, part, [], heq, hway, rfl, hsize, (hplace heq).symm ▸ hfile⟩

/-! ## Without a file -/

/-- Where other things stand nothing changes. -/
theorem lookup?_without {other : Place} (h : other ≠ place) :
    (fs.without place).lookup? other = fs.lookup? other := by
  have hfiles : (fs.files.filter fun f => f.1 != place).lookup other = fs.files.lookup other := by
    induction fs.files with
    | nil => rfl
    | cons f files ih =>
      by_cases hf : f.1 = place
      · rw [List.filter_cons_of_neg (by simp [hf]), ih, List.lookup_cons,
          beq_false_of_ne (fun heq => h (heq.trans hf))]
      · rw [List.filter_cons_of_pos (by simp [hf]), List.lookup_cons, List.lookup_cons, ih]
  rw [lookup?, lookup?, without, hfiles]

theorem lookup?_without_self (fs : FileSystem) (hsystem : systemEntries.lookup place = none)
    (bytes : Bytes) : (fs.without place).lookup? place ≠ some (.file bytes) := by
  have hgone : (fs.files.filter fun f => f.1 != place).lookup place = none := by
    rw [List.lookup_eq_none_iff]
    intro f hf
    have hne : f.1 ≠ place := by simpa using (List.mem_filter.1 hf).2
    simpa using hne.symm
  rw [lookup?, without]
  split
  · simp
  · simp only [hsystem, hgone]
    split <;> simp

/-- A way stays one if what stands along it stays. -/
theorem isWay_congr {fs' : FileSystem} {way : List LooseText}
    (h : ∀ front, front <+: way →
      fs'.lookup? (place.follow front) = fs.lookup? (place.follow front)) :
    fs'.IsWay place way ↔ fs.IsWay place way := by
  induction way generalizing place with
  | nil => exact Iff.rfl
  | cons part rest ih =>
    have hnext : fs'.lookup? (place.next part) = fs.lookup? (place.next part) :=
      h [part] (List.prefix_append [part] rest)
    have hrest : fs'.IsWay (place.next part) rest ↔ fs.IsWay (place.next part) rest :=
      ih fun front hfront => h (part :: front) (List.cons_prefix_cons.2 ⟨rfl, hfront⟩)
    rw [IsWay, IsWay, hnext, hrest]

/-- Taking a file away makes no difference to the ways in front of it. -/
theorem isWay_without_iff (hplain : place.IsPlain) {way after : List LooseText} {part : LooseText}
    (hparts : place.parts = way ++ part :: after) :
    (fs.without place).IsWay .root way ↔ fs.IsWay .root way := by
  refine isWay_congr fun front hfront => lookup?_without fun heq => ?_
  obtain ⟨more, rfl⟩ := hfront
  have hfrontPlain : Place.IsPlain ⟨front⟩ := fun q hq =>
    hplain q (by rw [hparts]; simp [hq])
  have hlength := congrArg (fun p : Place => p.parts.length) heq
  rw [Place.root, Place.follow_of_isPlain hfrontPlain, hparts] at hlength
  simp at hlength

/-- A name that is too long stays so. -/
theorem overlong_without_iff (hplain : place.IsPlain) :
    (fs.without place).Overlong place ↔ fs.Overlong place := by
  have hway : ∀ way part after, (place.parts = way ++ part :: after ∧
        (fs.without place).IsWay .root way ∧ partLimit < part.size) ↔
      place.parts = way ++ part :: after ∧ fs.IsWay .root way ∧ partLimit < part.size :=
    fun way part after => and_congr_right fun hparts =>
      and_congr_left' (isWay_without_iff hplain hparts)
  simp only [Overlong, hway]

/-- A file that is taken away is missing. -/
theorem contentsAt_without (hplain : place.IsPlain) (hsystem : systemEntries.lookup place = none) :
    (fs.without place).contentsAt place = none := by
  rw [Option.eq_none_iff_forall_ne_some]
  intro bytes h
  exact lookup?_without_self fs hsystem bytes ((contentsAt_eq_some_iff hplain).1 h).2.2

end FileSystem
end RubySource
