import Mathlib.Data.List.Induction
import RubySource.Proofs.Text.Utf8
import RubySource.Text.Line

/-!
# UTF-8 that is cut

Bytes are often read in parts: line by line, or in blocks of some number of bytes.  Where they are
cut behind a line feed, no character is cut, since a line feed is never a part of a longer
character, flawed or not.  Where they are cut anywhere, at most one character is, and what has been
read of it is at the end of the part.

## What is here

* `Begun.IsLong`, `isSound_step` — the next byte of a character that is begun lies beyond ASCII.
* `step_newline` — behind a line feed the machine is between characters.
* `pieces_eq_flatMap_lines` — **the pieces of bytes are those of their lines**, whatever the bytes
  are; `exists_lines_encode` says it of texts.
* `openEnd`, `run_open` — the bytes at the end of a part that have been read of a character that is
  not at its end, and that the machine reads nothing else from them.
-/

set_option autoImplicit false

namespace RubySource
namespace Utf8

/-! ## Behind a line feed -/

/-- A character that is begun goes on beyond ASCII. -/
def Begun.IsLong (p : Begun) : Prop := 128 ≤ p.low.toNat

theorem isLong_of_begin? {b : UInt8} {p : Begun} (h : begin? b = some p) : p.IsLong := by
  obtain ⟨x, -, -, -, rfl⟩ | ⟨x, -, -, rfl⟩ | ⟨x, -, -, rfl⟩ := begin?_cases h
  · exact Nat.le_refl _
  · show 128 ≤ (if x = 0 then (0xA0 : UInt8) else 0x80).toNat
    split <;> decide
  · show 128 ≤ (if x = 0 then (0x90 : UInt8) else 0x80).toNat
    split <;> decide

/-- Whether the machine stands between characters, or in one that goes on beyond ASCII. -/
def IsSound (st : Option Begun) : Prop := ∀ p, st = some p → p.IsLong

theorem isSound_none : IsSound none := nofun

theorem isSound_fresh (b : UInt8) : IsSound (fresh b).2 := by
  intro p hp
  rw [fresh] at hp
  split at hp
  · cases hp
  · split at hp
    next begun hbegin =>
      cases hp
      exact isLong_of_begin? hbegin
    next => cases hp

/-- Every step leaves the machine sound. -/
theorem isSound_step (st : Option Begun) (b : UInt8) : IsSound (step st b).2 := by
  cases st with
  | none => exact isSound_fresh b
  | some p =>
    rw [step]
    split
    · split
      · exact isSound_none
      · intro q hq
        obtain rfl := Option.some.inj hq
        show 128 ≤ (0x80 : UInt8).toNat
        decide
    · exact isSound_fresh b

/-- Behind a line feed the machine is between characters. -/
theorem step_newline {st : Option Begun} (h : IsSound st) : (step st 10).2 = none := by
  cases st with
  | none => rfl
  | some p =>
    have hlow : 128 ≤ p.low.toNat := h p rfl
    have hnot : ¬ (p.low ≤ 10 ∧ 10 ≤ p.high) := by
      rintro ⟨hle, -⟩
      have hten : p.low.toNat ≤ 10 := UInt8.le_iff_toNat_le.1 hle
      omega
    rw [step, if_neg hnot]
    rfl

/-- What the machine makes of bytes to their end. -/
def piecesFrom (st : Option Begun) (bytes : Bytes) : List Piece :=
  (run st bytes).1 ++ finish (run st bytes).2

theorem piecesFrom_cons (st : Option Begun) (b : UInt8) (bs : Bytes) :
    piecesFrom st (b :: bs) = (step st b).1 ++ piecesFrom (step st b).2 bs := by
  simp [piecesFrom, run]

/-- From any sound state the first line is read on from there, and the others from the start. -/
theorem piecesFrom_eq_lines {st : Option Begun} (h : IsSound st) (bytes : Bytes) :
    piecesFrom st bytes
      = match Text.splitAfterNewline bytes with
        | [] => finish st
        | line :: rest => piecesFrom st line ++ rest.flatMap pieces := by
  induction bytes generalizing st with
  | nil => rfl
  | cons b bs ih =>
    by_cases hb : b = 10
    · subst hb
      have hrest : pieces bs = (Text.splitAfterNewline bs).flatMap pieces := by
        rw [pieces, ← piecesFrom, ih isSound_none]
        cases Text.splitAfterNewline bs <;> rfl
      rw [Text.splitAfterNewline, if_pos rfl]
      show _ = piecesFrom st [10] ++ (Text.splitAfterNewline bs).flatMap pieces
      rw [piecesFrom_cons, piecesFrom_cons, step_newline h, List.append_assoc, ← hrest]
      rfl
    · rw [Text.splitAfterNewline, if_neg hb, piecesFrom_cons, ih (isSound_step st b)]
      cases Text.splitAfterNewline bs with
      | nil => simp [piecesFrom, run]
      | cons line rest => simp only [piecesFrom_cons, List.append_assoc]

/-- **The pieces of bytes are those of their lines**, whatever the bytes are. -/
theorem pieces_eq_flatMap_lines (bytes : Bytes) :
    pieces bytes = (Text.splitAfterNewline bytes).flatMap pieces := by
  show piecesFrom none bytes = _
  rw [piecesFrom_eq_lines isSound_none]
  cases Text.splitAfterNewline bytes <;> rfl

/-- Where several runs of bytes are a text together, and all characters are whole in them, each of
them is a text. -/
theorem exists_texts_of_flatMap {lines : List Bytes} {cs : List Char}
    (h : lines.flatMap pieces = cs.map .char) :
    ∃ texts : List (List Char), texts.flatten = cs ∧ lines = texts.map encode := by
  induction lines generalizing cs with
  | nil =>
    obtain rfl : cs = [] := List.map_eq_nil_iff.1 h.symm
    exact ⟨[], rfl, rfl⟩
  | cons line lines ih =>
    rw [List.flatMap_cons] at h
    obtain ⟨front, back, rfl, hfront, hback⟩ := List.map_eq_append_iff.1 h.symm
    obtain ⟨texts, rfl, rfl⟩ := ih hback.symm
    exact ⟨front :: texts, rfl, by rw [List.map_cons, ← pieces_eq_map_iff.1 hfront.symm]⟩

/-- **The lines of a text's bytes are the bytes of texts** that are the whole text together. -/
theorem exists_lines_encode (cs : List Char) :
    ∃ texts : List (List Char), texts.flatten = cs ∧
      Text.splitAfterNewline (encode cs) = texts.map encode := by
  refine exists_texts_of_flatMap ?_
  rw [← pieces_eq_flatMap_lines]
  exact pieces_eq_map_iff.2 rfl

/-! ## Between blocks -/

/-- How many bytes have been read of a character that is begun. -/
def openBytes (st : Option Begun) : Nat := (st.map Begun.read).getD 0

/-- The bytes at the end of a part that have been read of a character that is not at its end. -/
def openEnd (bytes : Bytes) : Bytes :=
  bytes.drop (bytes.length - openBytes (run none bytes).2)

theorem run_snoc (bytes : Bytes) (b : UInt8) :
    run none (bytes ++ [b])
      = ((run none bytes).1 ++ (step (run none bytes).2 b).1, (step (run none bytes).2 b).2) := by
  simp [run_append, run]

/-- A byte between characters is all that has been read of the character it begins. -/
theorem open_fresh (b : UInt8) :
    openBytes (fresh b).2 ≤ 1 ∧
      run none ([b].drop (1 - openBytes (fresh b).2)) = ([], (fresh b).2) := by
  rw [fresh]
  split
  · exact ⟨Nat.zero_le _, rfl⟩
  next hascii =>
    split
    next begun hbegin =>
      have hread : begun.read = 1 := by
        obtain ⟨x, -, -, -, rfl⟩ | ⟨x, -, -, rfl⟩ | ⟨x, -, -, rfl⟩ := begin?_cases hbegin <;> rfl
      have hopen : openBytes (some begun) = 1 := hread
      rw [hopen]
      exact ⟨Nat.le_refl 1, by simp [run, step, fresh, hascii, hbegin]⟩
    next => exact ⟨Nat.zero_le _, rfl⟩

/-- A byte that does not go on with a character is looked at as between characters. -/
theorem open_anew (bs : Bytes) (b : UInt8) :
    openBytes (fresh b).2 ≤ bs.length + 1 ∧
      run none ((bs ++ [b]).drop (bs.length + 1 - openBytes (fresh b).2)) = ([], (fresh b).2) := by
  obtain ⟨hle, hrun⟩ := open_fresh b
  have hdrop : bs.length + 1 - openBytes (fresh b).2
      = bs.length + (1 - openBytes (fresh b).2) := by
    omega
  refine ⟨Nat.le_trans hle (Nat.le_add_left 1 _), ?_⟩
  rw [hdrop, List.drop_length_add_append]
  exact hrun

/-- A byte that goes on with a character, but does not end it, is kept with it. -/
theorem open_goes_on {bs : Bytes} {b : UInt8} {p q : Begun} (hp : p.read ≤ bs.length)
    (hrun : run none (bs.drop (bs.length - p.read)) = ([], some p))
    (hstep : step (some p) b = ([], some q)) (hread : q.read = p.read + 1) :
    q.read ≤ bs.length + 1 ∧
      run none ((bs ++ [b]).drop (bs.length + 1 - q.read)) = ([], some q) := by
  rw [hread, Nat.add_sub_add_right, List.drop_append_of_le_length (Nat.sub_le _ _), run_append,
    hrun]
  refine ⟨Nat.succ_le_succ hp, ?_⟩
  simp [run, hstep]

/-- **A part is read on from its end.**  Where the bytes stop in a character, what has been read of
it is at their end, and the machine gets from there to where it stands. -/
theorem run_open (bytes : Bytes) :
    openBytes (run none bytes).2 ≤ bytes.length ∧
      run none (openEnd bytes) = ([], (run none bytes).2) := by
  induction bytes using List.reverseRecOn with
  | nil => exact ⟨Nat.zero_le _, rfl⟩
  | append_singleton bs b ih =>
    rw [openEnd, run_snoc, List.length_append, List.length_singleton]
    cases hst : (run none bs).2 with
    | none => exact open_anew bs b
    | some p =>
      by_cases hgoes : p.low ≤ b ∧ b ≤ p.high
      · by_cases hlast : p.missing ≤ 1
        · -- the character is at its end, so that nothing is open
          have hstep : (step (some p) b).2 = none := by simp [step, hgoes, hlast]
          rw [hstep]
          refine ⟨Nat.zero_le _, ?_⟩
          rw [show openBytes none = 0 from rfl, Nat.sub_zero, List.drop_eq_nil_of_le (by simp)]
          rfl
        · have hstep : step (some p) b = ([], some ⟨p.value * 64 + (b.toNat - 0x80), p.read + 1,
              p.missing - 1, 0x80, 0xBF⟩) := by
            simp [step, hgoes, hlast]
          rw [openEnd, hst] at ih
          rw [hstep]
          exact open_goes_on ih.1 ih.2 hstep rfl
      · have hstep : (step (some p) b).2 = (fresh b).2 := by rw [step, if_neg hgoes]
        rw [hstep]
        exact open_anew bs b

end Utf8
end RubySource
