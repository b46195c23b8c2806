import RubySource.Input.TextStream
import RubySource.Proofs.Text.Cut

/-!
# A text file is one text

A text file is decoded in one go or in blocks, and what a block stops in is kept for the next one.
Both ways give the same text where the file is UTF-8.

## What is here

* `TextStream.Holds` — what is decoded and what is not yet are a text together.
* `TextStream.decodeBlock_of_text` — a block of a text gives its front, and keeps back what begins
  the rest.
* `TextStream.Holds.exists_fetch` — **a fetched block leaves the text as it is**, and behind the
  last one all of it is decoded.
* `TextStream.Holds.readAll_eq`, `TextStream.Holds.readLines_eq` — what is read of the text in one
  go and in lines.
-/

set_option autoImplicit false

namespace RubySource
namespace TextStream

/-- What is decoded of a file, and what is not yet, are a text together. -/
def Holds (s : TextStream) (cs : List Char) : Prop :=
  ∃ ds, s.tail ++ s.rest = Utf8.encode ds ∧ s.decoded ++ ds = cs

theorem holds_ofBytes (cs : List Char) : (ofBytes (Utf8.encode cs)).Holds cs :=
  ⟨cs, rfl, rfl⟩

theorem skip_zero (bytes : Bytes) : (ofBytes bytes).skip 0 = .ok (ofBytes bytes) := by
  rw [skip, fetchUntil, if_pos (Nat.zero_le _)]
  simp [ofBytes]

/-! ## One block -/

/-- A block of a text gives its front, and what it stops in begins the rest. -/
theorem decodeBlock_of_text {block later : Bytes} {cs : List Char}
    (h : block ++ later = Utf8.encode cs) :
    ∃ front back, cs = front ++ back ∧
      decodeBlock block = .ok (front, Utf8.openEnd block) ∧
      Utf8.openEnd block ++ later = Utf8.encode back := by
  have hpieces := Utf8.pieces_eq_map_iff.2 h
  rw [Utf8.pieces_append] at hpieces
  obtain ⟨front, back, rfl, hfront, hback⟩ := List.map_eq_append_iff.1 hpieces.symm
  refine ⟨front, back, rfl, ?_, ?_⟩
  · have hcollect : Utf8.collect 0 (Utf8.run none block).1 = .ok front :=
      Utf8.collect_eq_ok_iff.2 hfront.symm
    simp only [decodeBlock, hcollect]
    rfl
  · rw [← Utf8.pieces_eq_map_iff, Utf8.pieces_append, (Utf8.run_open block).2, hback]
    rfl

theorem exists_measured (before after : TextStream) :
    ∃ density, before.measured after = { after with density := density } := by
  rw [measured]
  split
  · exact ⟨after.density, rfl⟩
  · exact ⟨_, rfl⟩

/-- **A fetched block leaves the text as it is**, and behind the last one all of it is decoded. -/
theorem Holds.exists_fetch {s : TextStream} {cs : List Char} (h : s.Holds cs) (size : Nat) :
    ∃ next, s.fetch size = .ok next ∧ next.Holds cs ∧ next.skipped = s.skipped ∧
      next.rest = s.rest.drop size ∧ (s.rest = [] → next.decoded = cs) := by
  obtain ⟨ds, hbytes, rfl⟩ := h
  rw [fetch]
  split
  next hrest =>
    have hnil : s.rest = [] := List.isEmpty_iff.1 hrest
    rw [hnil, List.append_nil] at hbytes
    rw [decodeUtf8_eq_ok_iff.2 hbytes]
    refine ⟨_, rfl, ⟨[], ?_, List.append_nil _⟩, rfl, ?_, fun _ => rfl⟩
    · exact hnil
    · show s.rest = s.rest.drop size
      rw [hnil, List.drop_nil]
  next hrest =>
    rw [← List.take_append_drop size s.rest, ← List.append_assoc] at hbytes
    obtain ⟨front, back, rfl, hblock, hback⟩ := decodeBlock_of_text hbytes
    rw [hblock]
    obtain ⟨density, hmeasured⟩ := exists_measured s { s with
      decoded := s.decoded ++ front
      tail := Utf8.openEnd (s.tail ++ s.rest.take size)
      rest := s.rest.drop size }
    refine ⟨_, congrArg Except.ok hmeasured, ⟨back, hback, List.append_assoc ..⟩, rfl, rfl, ?_⟩
    exact fun hnil => absurd (List.isEmpty_iff.2 hnil) hrest

/-! ## The whole file -/

/-- The induction is on the fuel, which outlasts the bytes that are left. -/
theorem Holds.exists_fetchAll {cs : List Char} {fuel : Nat} {s : TextStream} (h : s.Holds cs)
    (hfuel : s.rest.length < fuel) :
    ∃ done, fetchAll fuel s = .ok done ∧ done.decoded = cs ∧ done.skipped = s.skipped := by
  induction fuel generalizing s with
  | zero => exact absurd hfuel (Nat.not_lt_zero _)
  | succ fuel ih =>
    obtain ⟨next, hfetch, hnext, hskipped, hrest, hlast⟩ := h.exists_fetch blockSize
    rw [fetchAll, hfetch]
    by_cases hnil : s.rest = []
    · exact ⟨next, if_pos (List.isEmpty_iff.2 hnil), hlast hnil, hskipped⟩
    · have hpos : 0 < s.rest.length := List.length_pos_iff.2 hnil
      have hshorter : next.rest.length < fuel := by
        rw [hrest, List.length_drop, blockSize]
        omega
      obtain ⟨done, hdone, hdecoded, hsame⟩ := ih hnext hshorter
      exact ⟨done, by simpa [hnil] using hdone, hdecoded, hsame.trans hskipped⟩

section Reading

variable {s : TextStream} {cs : List Char} (h : s.Holds cs)
include h

/-- What is read in one go. -/
theorem Holds.readAll_eq : s.readAll = .ok ((Text.unifyNewlines cs).drop s.skipped) := by
  obtain ⟨ds, hbytes, rfl⟩ := h
  rw [readAll, decodeUtf8_eq_ok_iff.2 hbytes]
  rfl

/-- What is read in lines. -/
theorem Holds.readLines_eq : s.readLines = .ok ((Text.unifyNewlines cs).drop s.skipped) := by
  obtain ⟨done, hdone, hdecoded, hskipped⟩ :=
    h.exists_fetchAll (Nat.lt_add_of_pos_right Nat.two_pos)
  rw [readLines, hdone]
  show Except.ok done.remaining = _
  rw [remaining, hdecoded, hskipped]

end Reading

end TextStream
end RubySource
