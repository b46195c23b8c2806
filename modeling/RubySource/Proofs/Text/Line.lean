import Mathlib.Data.List.Chain
import RubySource.Text.Line

/-!
# The lines of bytes that are made of items

Bytes are cut behind each line feed without regard to what they are made of: characters, or whatever
else is written as a few bytes.  Such a cut falls between items exactly where no item holds a line
feed before its last byte, and then it is the cut behind the items that end with one.

## What is here

* `putInFront` — items put in front of the first line.
* `splitAfterNewline_append`, `splitAfterNewline_append_newline` — the lines of bytes with others in
  front.
* `newline_not_mem_dropLast` — a line holds a line feed at its end only.
* `cutLines` — items cut behind each one whose bytes end with a line feed.
* `splitAfterNewline_flatMap`, `newline_not_mem_of_lines` — **the lines of the bytes are the bytes
  of lines exactly where no item holds a line feed before its end**.
* `forall_mem_tail_cutLines_iff` — what stands at the start of the lines but the first one.
-/

set_option autoImplicit false

namespace RubySource
namespace Text

/-- Items put in front of the first line. -/
def putInFront {α : Type} (front : List α) : List (List α) → List (List α)
  | [] => [front]
  | line :: rest => (front ++ line) :: rest

/-! ## The lines of bytes -/

theorem splitAfterNewline_cons {b : UInt8} (h : b ≠ 10) (bs : List UInt8) :
    splitAfterNewline (b :: bs) = putInFront [b] (splitAfterNewline bs) := by
  rw [splitAfterNewline, if_neg h]
  cases splitAfterNewline bs <;> rfl

theorem putInFront_cons {α : Type} (a : α) (front : List α) (lines : List (List α)) :
    putInFront (a :: front) lines = putInFront [a] (putInFront front lines) := by
  cases lines <;> rfl

/-- Bytes without a line feed are put in front of the first line. -/
theorem splitAfterNewline_append {front : List UInt8} (hne : front ≠ []) (h : 10 ∉ front)
    (bs : List UInt8) :
    splitAfterNewline (front ++ bs) = putInFront front (splitAfterNewline bs) := by
  induction front with
  | nil => exact absurd rfl hne
  | cons b front ih =>
    rw [List.mem_cons, not_or] at h
    rw [List.cons_append, splitAfterNewline_cons (Ne.symm h.1)]
    by_cases hfront : front = []
    · rw [hfront, List.nil_append]
    · rw [ih hfront h.2, ← putInFront_cons]

/-- Bytes up to a line feed are a line. -/
theorem splitAfterNewline_append_newline {front : List UInt8} (h : 10 ∉ front)
    (bs : List UInt8) :
    splitAfterNewline (front ++ 10 :: bs) = (front ++ [10]) :: splitAfterNewline bs := by
  have hnewline : splitAfterNewline (10 :: bs) = [10] :: splitAfterNewline bs := if_pos rfl
  by_cases hne : front = []
  · rw [hne]
    exact hnewline
  · rw [splitAfterNewline_append hne h, hnewline]
    rfl

theorem mem_dropLast_append {α : Type} {a : α} {middle : List α} (h : a ∈ middle.dropLast)
    (front back : List α) : a ∈ (front ++ (middle ++ back)).dropLast := by
  have hmiddle : middle ++ back ≠ [] := by
    rintro hnil
    rw [(List.append_eq_nil_iff.1 hnil).1] at h
    cases h
  rw [List.dropLast_append_of_ne_nil hmiddle]
  refine List.mem_append_right front ?_
  by_cases hback : back = []
  · rwa [hback, List.append_nil]
  · rw [List.dropLast_append_of_ne_nil hback]
    exact List.mem_append_left _ (List.dropLast_subset middle h)

/-- A line holds a line feed at its end only. -/
theorem newline_not_mem_dropLast {bs line : List UInt8} (h : line ∈ splitAfterNewline bs) :
    10 ∉ line.dropLast := by
  induction bs generalizing line with
  | nil => cases h
  | cons b bs ih =>
    by_cases hb : b = 10
    · rw [splitAfterNewline, if_pos hb, List.mem_cons] at h
      obtain rfl | h := h
      · simp
      · exact ih h
    · rw [splitAfterNewline_cons hb] at h
      cases hlines : splitAfterNewline bs with
      | nil =>
        rw [hlines, putInFront, List.mem_singleton] at h
        simp [h]
      | cons first rest =>
        rw [hlines] at h ih
        obtain rfl | h := List.mem_cons.1 h
        · have hfirst := ih List.mem_cons_self
          by_cases hnil : first = []
          · simp [hnil]
          · rw [List.dropLast_append_of_ne_nil hnil, List.singleton_append, List.mem_cons, not_or]
            exact ⟨Ne.symm hb, hfirst⟩
        · exact ih (List.mem_cons_of_mem _ h)

/-! ## The lines of items -/

section Items

variable {α : Type} (f : α → List UInt8)

/-- Items cut behind each one whose bytes end with a line feed. -/
def cutLines : List α → List (List α)
  | [] => []
  | a :: as =>
    if (f a).getLast? = some 10 then [a] :: cutLines as else putInFront [a] (cutLines as)

variable {f} {as : List α}

theorem flatten_putInFront (front : List α) (lines : List (List α)) :
    (putInFront front lines).flatten = front ++ lines.flatten := by
  cases lines <;> simp [putInFront]

theorem flatten_cutLines : (cutLines f as).flatten = as := by
  induction as with
  | nil => rfl
  | cons a as ih =>
    rw [cutLines]
    split
    · rw [List.flatten_cons, ih, List.singleton_append]
    · rw [flatten_putInFront, ih, List.singleton_append]

theorem map_flatMap_putInFront (front : List α) (lines : List (List α)) :
    (putInFront front lines).map (List.flatMap f)
      = putInFront (front.flatMap f) (lines.map (List.flatMap f)) := by
  cases lines <;> simp [putInFront]

/-- **Where no item holds a line feed before its end, the lines of the bytes are the bytes of
lines.** -/
theorem splitAfterNewline_flatMap (hne : ∀ a ∈ as, f a ≠ [])
    (h : ∀ a ∈ as, 10 ∉ (f a).dropLast) :
    splitAfterNewline (as.flatMap f) = (cutLines f as).map (List.flatMap f) := by
  induction as with
  | nil => rfl
  | cons a as ih =>
    rw [List.forall_mem_cons] at hne h
    obtain ⟨front, b, hbytes⟩ := (List.eq_nil_or_concat' (f a)).resolve_left hne.1
    have hfront : 10 ∉ front := by simpa [hbytes] using h.1
    have hlast : (f a).getLast? = some b := by simp [hbytes]
    rw [List.flatMap_cons, cutLines, hlast]
    by_cases hb : b = 10
    · rw [if_pos (congrArg some hb), hbytes, hb, List.append_assoc, List.singleton_append,
        splitAfterNewline_append_newline hfront, ih hne.2 h.2]
      simp [hbytes, hb]
    · have hall : 10 ∉ f a := by
        rw [hbytes, List.mem_append, List.mem_singleton, not_or]
        exact ⟨hfront, Ne.symm hb⟩
      rw [if_neg (fun heq => hb (Option.some.inj heq)), splitAfterNewline_append hne.1 hall,
        ih hne.2 h.2, map_flatMap_putInFront]
      simp

/-- And only there. -/
theorem newline_not_mem_of_lines {lines : List (List α)}
    (h : splitAfterNewline (lines.flatten.flatMap f) = lines.map (List.flatMap f)) {a : α}
    (ha : a ∈ lines.flatten) : 10 ∉ (f a).dropLast := by
  obtain ⟨line, hline, hmem⟩ := List.mem_flatten.1 ha
  obtain ⟨before, after, rfl⟩ := List.append_of_mem hmem
  have hcut : (before ++ a :: after).flatMap f ∈ splitAfterNewline (lines.flatten.flatMap f) := by
    rw [h]
    exact List.mem_map_of_mem hline
  intro hnewline
  refine newline_not_mem_dropLast hcut ?_
  rw [List.flatMap_append, List.flatMap_cons]
  exact mem_dropLast_append hnewline _ _

/-! ## What stands at the start of a line -/

theorem cutLines_cons (a : α) (as : List α) :
    cutLines f (a :: as)
      = if (f a).getLast? = some 10 then [a] :: cutLines f as
        else putInFront [a] (cutLines f as) :=
  rfl

theorem exists_cutLines_cons (a : α) (as : List α) :
    ∃ line rest, cutLines f (a :: as) = (a :: line) :: rest := by
  rw [cutLines_cons]
  split
  · exact ⟨[], _, rfl⟩
  · cases cutLines f as with
    | nil => exact ⟨[], [], rfl⟩
    | cons line rest => exact ⟨line, rest, rfl⟩

/-- The lines but the first one start with the items behind those that end with a line feed. -/
theorem forall_mem_tail_cutLines_iff {P : α → Prop} :
    (∀ line ∈ (cutLines f as).tail, ∀ a ∈ line.head?, P a) ↔
      as.IsChain fun a b => (f a).getLast? = some 10 → P b := by
  induction as with
  | nil => simp [cutLines]
  | cons a as ih =>
    cases as with
    | nil =>
      have htail : (cutLines f [a]).tail = [] := by
        rw [cutLines_cons]
        split <;> rfl
      simp [htail]
    | cons b as =>
      obtain ⟨line, rest, hcut⟩ := exists_cutLines_cons (f := f) b as
      rw [hcut, List.tail_cons] at ih
      rw [List.isChain_cons_cons, ← ih, cutLines_cons, hcut]
      split
      next hnewline => simp [hnewline]
      next hother => simp [hother, putInFront]

end Items

end Text
end RubySource
