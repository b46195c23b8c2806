import Mathlib.Data.List.GetD
import RubySource.Proofs.Charset.Lines
import RubySource.Proofs.Text.Cut

/-!
# Where bytes stop being a text

A decoder that stops says where: what is in front of that place is a text, and the byte at the place
goes on with none.  A line that is decoded alone stops at the same place as all bytes do, but its
places are counted from its own start.

## What is here

* `Utf8.collect_eq_error_iff`, `decodeAscii_eq_error_iff` — the place at which the decoders stop, by
  the text in front of it.
* `DecodeError.behind` — an error with its place counted from further in front.
* `Charset.decode_of_line` — the payoff: **the first line that is no text stops the whole
  at the same place**.
-/

set_option autoImplicit false

namespace RubySource

/-! ## UTF-8 -/

namespace Utf8

theorem encode_cons (c : Char) (cs : List Char) :
    encode (c :: cs) = String.utf8EncodeChar c ++ encode cs :=
  rfl

/-- Where the pieces of a text stand in front, the bytes start with its encoding. -/
theorem exists_of_pieces_append {bs : Bytes} {cs : List Char} {ps : List Piece}
    (h : pieces bs = cs.map .char ++ ps) : ∃ ys, bs = encode cs ++ ys ∧ pieces ys = ps := by
  induction cs generalizing bs with
  | nil => exact ⟨bs, rfl, h⟩
  | cons c cs ih =>
    obtain ⟨more, rfl, hmore⟩ := exists_of_pieces h
    obtain ⟨ys, rfl, hys⟩ := ih hmore
    exact ⟨ys, (List.append_assoc _ _ _).symm, hys⟩

theorem collect_eq_error_iff {start : Nat} {ps : List Piece} {f : Fault} :
    collect start ps = .error f ↔
      ∃ cs rest, ps = cs.map .char ++ .flawed f.length f.flaw :: rest
        ∧ f.start = start + (encode cs).length := by
  have hencode (c : Char) (cs : List Char) :
      (encode (c :: cs)).length = c.utf8Size + (encode cs).length := by
    rw [encode_cons, List.length_append, String.length_utf8EncodeChar]
  constructor
  · intro h
    induction ps generalizing start with
    | nil => cases h
    | cons p ps ih =>
      cases p with
      | flawed length flaw =>
        obtain rfl := Except.error.inj h
        exact ⟨[], ps, rfl, rfl⟩
      | char c =>
        rw [collect] at h
        cases hps : collect (start + c.utf8Size) ps with
        | ok cs => rw [hps] at h; cases h
        | error f' =>
          rw [hps] at h
          obtain rfl := Except.error.inj h
          obtain ⟨cs, rest, rfl, hstart⟩ := ih hps
          refine ⟨c :: cs, rest, rfl, ?_⟩
          rw [hstart, hencode, Nat.add_assoc]
  · rintro ⟨cs, rest, rfl, hstart⟩
    induction cs generalizing start with
    | nil =>
      obtain ⟨start', length, flaw⟩ := f
      subst hstart
      rfl
    | cons c cs ih =>
      rw [hencode, ← Nat.add_assoc] at hstart
      rw [List.map_cons, List.cons_append, collect, ih hstart]

end Utf8

/-- The place of an error, counted from the start of bytes that are in front. -/
def DecodeError.behind (e : DecodeError) (front : Bytes) : DecodeError :=
  { e with start := front.length + e.start }

/-! ## ASCII -/

/-- The bytes are read up to the first that is beyond ASCII. -/
theorem decodeAscii_eq_error_iff {start : Nat} {bs : Bytes} {e : DecodeError} :
    decodeAscii start bs = .error e ↔
      ∃ front b rest, bs = front ++ b :: rest ∧ (∀ x ∈ front, x < 0x80) ∧ ¬ b < 0x80
        ∧ e = ⟨"ascii", start + front.length, 1, b, "ordinal not in range(128)"⟩ := by
  constructor
  · intro h
    induction bs generalizing start with
    | nil => cases h
    | cons b bs ih =>
      rw [decodeAscii] at h
      split at h
      next hb =>
        cases hbs : decodeAscii (start + 1) bs with
        | ok cs => rw [hbs] at h; cases h
        | error e' =>
          rw [hbs] at h
          obtain rfl := Except.error.inj h
          obtain ⟨front, x, rest, rfl, hfront, hx, rfl⟩ := ih hbs
          refine ⟨b :: front, x, rest, rfl, List.forall_mem_cons.2 ⟨hb, hfront⟩, hx, ?_⟩
          rw [List.length_cons, Nat.add_assoc, Nat.add_comm 1]
      next hb =>
        have hnone : ∀ x ∈ ([] : Bytes), x < 0x80 := fun x hx => absurd hx List.not_mem_nil
        exact ⟨[], b, bs, rfl, hnone, hb, (Except.error.inj h).symm⟩
  · rintro ⟨front, b, rest, rfl, hfront, hb, rfl⟩
    induction front generalizing start with
    | nil => rw [List.nil_append, decodeAscii, if_neg hb]; rfl
    | cons x front ih =>
      rw [List.forall_mem_cons] at hfront
      rw [List.cons_append, decodeAscii, if_pos hfront.1, ih hfront.2, List.length_cons,
        Nat.add_assoc, Nat.add_comm 1]

theorem lt_of_decodeAscii {start : Nat} {bs : Bytes} {cs : List Char}
    (h : decodeAscii start bs = .ok cs) : ∀ b ∈ bs, b < 0x80 := by
  intro b hb
  obtain ⟨rfl, hsmall⟩ := Charset.decodeAscii_eq_ok_iff.1 h
  have hnumber := hsmall _ (List.mem_map_of_mem hb)
  rw [Charset.toNat_ofNat_byte] at hnumber
  exact UInt8.lt_iff_toNat_lt.2 hnumber

/-! ## The first line that is no text -/

section Lines

variable {bs line : Bytes} {before after : List Bytes} {cs : List Char} {e : DecodeError}
  (hlines : Text.splitAfterNewline bs = before ++ line :: after)
include hlines

theorem eq_append_of_lines : bs = before.flatten ++ (line ++ after.flatten) := by
  rw [← Text.flatten_splitAfterNewline bs, hlines, List.flatten_append, List.flatten_cons]

theorem decodeAscii_of_line (hbefore : decodeAscii 0 before.flatten = .ok cs)
    (hline : decodeAscii 0 line = .error e) :
    decodeAscii 0 bs = .error (e.behind before.flatten) := by
  have hbytes := eq_append_of_lines hlines
  obtain ⟨front, b, rest, rfl, hfront, hb, rfl⟩ := decodeAscii_eq_error_iff.1 hline
  refine decodeAscii_eq_error_iff.2
    ⟨before.flatten ++ front, b, rest ++ after.flatten, ?_, ?_, hb, ?_⟩
  · rw [hbytes, List.append_assoc, List.append_assoc, List.cons_append]
  · intro x hx
    exact (List.mem_append.1 hx).elim (lt_of_decodeAscii hbefore x) (hfront x)
  · simp [DecodeError.behind]

theorem decodeUtf8_of_line {texts : List (List Char)} (hbefore : before = texts.map Utf8.encode)
    (hline : decodeUtf8 line = .error e) : decodeUtf8 bs = .error (e.behind before.flatten) := by
  cases hfault : Utf8.decode line with
  | ok ds => simp [decodeUtf8, hfault] at hline
  | error f =>
    obtain ⟨ds, rest, hpieces, hstart⟩ := Utf8.collect_eq_error_iff.1 hfault
    have hlt : f.start < line.length := by
      obtain ⟨ys, hds, hys⟩ := Utf8.exists_of_pieces_append hpieces
      have hne : ys ≠ [] := by
        rintro rfl
        cases hys
      rw [hstart, hds, List.length_append, Nat.zero_add]
      exact Nat.lt_add_of_pos_right (List.length_pos_iff.2 hne)
    have hencode : before.flatten = Utf8.encode texts.flatten := by
      rw [hbefore]
      exact (@Charset.textBytes_flatten .utf8 texts).symm
    have htexts : before.flatMap Utf8.pieces = texts.flatten.map .char := by
      have hpieces (text : List Char) : Utf8.pieces (Utf8.encode text) = text.map .char :=
        Utf8.pieces_eq_map_iff.2 rfl
      rw [hbefore, List.flatMap_map, List.map_flatten, List.flatMap_def]
      simp only [hpieces]
    -- all pieces up to the flaw are those of the lines in front and of the text in the line
    have hwhole : Utf8.decode bs = .error { f with start := before.flatten.length + f.start } := by
      refine Utf8.collect_eq_error_iff.2
        ⟨texts.flatten ++ ds, rest ++ after.flatMap Utf8.pieces, ?_, ?_⟩
      · rw [Utf8.pieces_eq_flatMap_lines, hlines, List.flatMap_append, List.flatMap_cons, htexts,
          hpieces]
        simp
      · rw [hstart, hencode]
        simp [Utf8.encode]
    have hbyte : bs.getD (before.flatten.length + f.start) 0 = line.getD f.start 0 := by
      rw [eq_append_of_lines hlines, List.getD_append_right _ _ _ _ (Nat.le_add_right _ _),
        Nat.add_sub_cancel_left, List.getD_append _ _ _ _ hlt]
    rw [decodeUtf8, hfault] at hline
    obtain rfl := Except.error.inj hline
    rw [decodeUtf8, hwhole]
    show Except.error (DecodeError.mk _ _ _ _ _) = _
    rw [hbyte]
    rfl

end Lines

/-- **The first line that is no text stops the whole at the same place.** -/
theorem Charset.decode_of_line {charset : Charset} (hset : charset ∈ [utf8, latin1, ascii])
    {bs line : Bytes} {before after : List Bytes} {texts : List (List Char)} {e : DecodeError}
    (hlines : Text.splitAfterNewline bs = before ++ line :: after)
    (hbefore : before.mapM charset.decode = .ok texts) (hline : charset.decode line = .error e) :
    charset.decode bs = .error (e.behind before.flatten) := by
  obtain ⟨htexts, hhas⟩ :=
    eq_map_of_forall₂ (mapM_eq_ok_iff.1 hbefore) fun line _ => markLength_of_mem hset line
  obtain rfl | rfl | rfl := cases_of_mem hset
  · exact decodeUtf8_of_line hlines htexts hline
  · cases hline
  · refine decodeAscii_of_line hlines ((decode_unmarked_iff rfl).2 ⟨hhas, ?_⟩) hline
    rw [htexts, textBytes_flatten]

end RubySource
