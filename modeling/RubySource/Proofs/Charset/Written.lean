import RubySource.Proofs.Charset.Utf16
import RubySource.Proofs.Text.Utf8

/-!
# What a text is written as in each character set

Every character set writes a text as the bytes of its characters, one after the other, and two of
them put a byte order mark in front.  Reading is the way back, with one exception to all of it: the
sets with a mark take the mark away wherever bytes start with one, also where it was written for a
character of the text.

## What is here

* `Charset.Has`, `Charset.charBytes`, `Charset.textBytes` — the characters of a set, and what they
  are written as.
* `Charset.mark`, `Charset.markLength` — the mark that is written, and how many bytes of a mark are
  taken away in reading.
* `Charset.encode?_eq_some_iff` — what a text is written as.
* `Charset.decode_unmarked_iff`, `Charset.decode_mark_iff` — **reading undoes writing, and reads
  nothing else**, behind a mark and where there is none.
* `Charset.length_of_decode` — reading loses the bytes of a mark and no others.
* `Charset.IsMark`, `Charset.markLength_textBytes_cons` — the characters that are written like a
  mark.
-/

set_option autoImplicit false

namespace RubySource
namespace Charset

/-! ## Writing -/

/-- The characters of a character set. -/
def Has : Charset → Char → Prop
  | .latin1, c => c.toNat < 0x100
  | .ascii, c => c.toNat < 0x80
  | _, _ => True

/-- The bytes of a character. -/
def charBytes : Charset → Char → Bytes
  | .utf8, c => String.utf8EncodeChar c
  | .utf8Marked, c => String.utf8EncodeChar c
  | .latin1, c => [UInt8.ofNat c.toNat]
  | .ascii, c => [UInt8.ofNat c.toNat]
  | .utf16, c => encodeUtf16Char .little c
  | .utf16le, c => encodeUtf16Char .little c
  | .utf16be, c => encodeUtf16Char .big c

/-- The bytes of the characters of a text. -/
def textBytes (charset : Charset) (cs : List Char) : Bytes :=
  cs.flatMap charset.charBytes

/-- The mark in front of a text. -/
def mark : Charset → Bytes
  | .utf8Marked => utf8Mark
  | .utf16 => [0xFF, 0xFE]
  | _ => []

theorem charBytes_ne_nil (charset : Charset) (c : Char) : charset.charBytes c ≠ [] := by
  have hutf8 : String.utf8EncodeChar c ≠ [] := by
    intro h
    have hspells := Utf8.spells_utf8EncodeChar c
    rw [h] at hspells
    cases hspells
  have hutf16 (order : ByteOrder) : encodeUtf16Char order c ≠ [] := by
    rw [encodeUtf16Char]
    split <;> cases order <;> simp [ByteOrder.bytes]
  cases charset <;> first | exact hutf8 | exact hutf16 _ | exact List.cons_ne_nil _ _

theorem encodeBelow?_eq_some_iff {limit : Nat} {cs : List Char} {bs : Bytes} :
    encodeBelow? limit cs = some bs ↔
      (∀ c ∈ cs, c.toNat < limit) ∧ bs = cs.map fun c => UInt8.ofNat c.toNat := by
  rw [encodeBelow?, Option.ite_none_right_eq_some, Option.some_inj]
  simp only [List.all_eq_true, decide_eq_true_eq]
  exact and_congr_right' eq_comm

/-- A text is written as the mark of the set and the bytes of its characters, if the set has all of
them. -/
theorem encode?_eq_some_iff {charset : Charset} {cs : List Char} {bs : Bytes} :
    charset.encode? cs = some bs ↔
      (∀ c ∈ cs, charset.Has c) ∧ bs = charset.mark ++ charset.textBytes cs := by
  have hsingle : cs.map (fun c => UInt8.ofNat c.toNat)
      = cs.flatMap fun c => [UInt8.ofNat c.toNat] := List.map_eq_flatMap
  cases charset with
  | latin1 => exact encodeBelow?_eq_some_iff.trans (and_congr_right' (by rw [hsingle]; rfl))
  | ascii => exact encodeBelow?_eq_some_iff.trans (and_congr_right' (by rw [hsingle]; rfl))
  | _ =>
    rw [encode?, Option.some_inj]
    exact ⟨fun h => ⟨fun _ _ => trivial, h.symm⟩, fun h => h.2.symm⟩

/-! ## Reading -/

theorem toNat_ofNat_byte (b : UInt8) : (Char.ofNat b.toNat).toNat = b.toNat :=
  toNat_ofNat_of_valid (.inl (Nat.lt_trans b.toNat_lt (by decide)))

theorem ofNat_toNat_char {c : Char} (h : c.toNat < 0x100) :
    Char.ofNat (UInt8.ofNat c.toNat).toNat = c := by
  rw [UInt8.toNat_ofNat_of_lt' h, Char.ofNat_toNat]

/-- In Latin-1 a byte and a character have the same number. -/
theorem decodeLatin1_eq_iff {bs : Bytes} {cs : List Char} :
    decodeLatin1 bs = cs ↔
      (∀ c ∈ cs, c.toNat < 0x100) ∧ bs = cs.map fun c => UInt8.ofNat c.toNat := by
  constructor
  · rintro rfl
    constructor
    · intro c hc
      obtain ⟨b, -, rfl⟩ := List.mem_map.1 hc
      rw [toNat_ofNat_byte]
      exact b.toNat_lt
    · rw [decodeLatin1, List.map_map]
      refine (List.map_id'' (fun b => ?_) bs).symm
      rw [Function.comp_apply, toNat_ofNat_byte, UInt8.ofNat_toNat]
  · rintro ⟨hsmall, rfl⟩
    rw [decodeLatin1, List.map_map]
    exact (List.map_congr_left fun c hc => ofNat_toNat_char (hsmall c hc)).trans (List.map_id cs)

/-- ASCII is the half of Latin-1 with the small numbers. -/
theorem decodeAscii_eq_ok_iff {start : Nat} {bs : Bytes} {cs : List Char} :
    decodeAscii start bs = .ok cs ↔ decodeLatin1 bs = cs ∧ ∀ c ∈ cs, c.toNat < 0x80 := by
  induction bs generalizing start cs with
  | nil => simp +contextual [decodeAscii, decodeLatin1, eq_comm]
  | cons b bs ih =>
    have hlatin1 : decodeLatin1 (b :: bs) = Char.ofNat b.toNat :: decodeLatin1 bs := rfl
    rw [decodeAscii, hlatin1]
    split
    next hb =>
      constructor
      · intro h
        cases hds : decodeAscii (start + 1) bs with
        | error e => rw [hds] at h; cases h
        | ok ds =>
          rw [hds] at h
          obtain rfl := Except.ok.inj h
          obtain ⟨rfl, hsmall⟩ := ih.1 hds
          refine ⟨rfl, List.forall_mem_cons.2 ⟨?_, hsmall⟩⟩
          rw [toNat_ofNat_byte]
          exact UInt8.lt_iff_toNat_lt.1 hb
      · rintro ⟨rfl, hsmall⟩
        rw [ih.2 ⟨rfl, (List.forall_mem_cons.1 hsmall).2⟩]
    next hb =>
      constructor
      · nofun
      · rintro ⟨rfl, hsmall⟩
        have hnumber := hsmall _ List.mem_cons_self
        rw [toNat_ofNat_byte] at hnumber
        exact absurd (UInt8.lt_iff_toNat_lt.2 hnumber) hb

/-- How many bytes of a mark are taken away at the start of bytes. -/
def markLength : Charset → Bytes → Nat
  | .utf8Marked, bs => if utf8Mark.isPrefixOf bs then 3 else 0
  | .utf16, bs => if (markedOrder? bs).isSome then 2 else 0
  | _, _ => 0

section Reading

variable {charset : Charset} {bs : Bytes} {cs : List Char}

/-- Where no mark is taken away, bytes are read as a text exactly where they are its characters. -/
theorem decode_unmarked_iff (h : charset.markLength bs = 0) :
    charset.decode bs = .ok cs ↔
      (∀ c ∈ cs, charset.Has c) ∧ bs = charset.textBytes cs := by
  have hall {P : Prop} : P ↔ (∀ c ∈ cs, True) ∧ P := by simp
  cases charset with
  | utf8 => exact decodeUtf8_eq_ok_iff.trans hall
  | utf8Marked =>
    have hnot : ¬ utf8Mark.isPrefixOf bs = true := by simpa [markLength] using h
    rw [decode, decodeMarkedUtf8, if_neg hnot]
    exact decodeUtf8_eq_ok_iff.trans hall
  | latin1 =>
    rw [decode, Except.ok.injEq, decodeLatin1_eq_iff, List.map_eq_flatMap]
    rfl
  | ascii =>
    rw [decode, decodeAscii_eq_ok_iff, decodeLatin1_eq_iff, List.map_eq_flatMap]
    constructor
    · rintro ⟨⟨-, hbytes⟩, hsmall⟩
      exact ⟨hsmall, hbytes⟩
    · rintro ⟨hsmall, hbytes⟩
      exact ⟨⟨fun c hc => Nat.lt_trans (hsmall c hc) (by decide), hbytes⟩, hsmall⟩
  | utf16 =>
    have hnone : markedOrder? bs = none := by simpa [markLength] using h
    rw [decode, decodeMarkedUtf16, hnone]
    exact decodeUtf16_eq_ok_iff.trans hall
  | utf16le => exact decodeUtf16_eq_ok_iff.trans hall
  | utf16be => exact decodeUtf16_eq_ok_iff.trans hall

/-- Behind the mark of the set, too. -/
theorem decode_mark_iff :
    charset.decode (charset.mark ++ bs) = .ok cs ↔
      (∀ c ∈ cs, charset.Has c) ∧ bs = charset.textBytes cs := by
  have hall {P : Prop} : P ↔ (∀ c ∈ cs, True) ∧ P := by simp
  cases charset with
  | utf8Marked => exact decodeUtf8_eq_ok_iff.trans hall
  | utf16 => exact decodeUtf16_eq_ok_iff.trans hall
  | _ => exact decode_unmarked_iff rfl

theorem length_encodeUtf16Char (order : ByteOrder) (c : Char) :
    (encodeUtf16Char order c).length = (encodeUtf16Char .little c).length := by
  simp only [encodeUtf16Char, apply_ite List.length, List.length_append, ByteOrder.length_bytes]

theorem length_encodeUtf16 (order : ByteOrder) (cs : List Char) :
    (encodeUtf16 order cs).length = (encodeUtf16 .little cs).length := by
  simp only [encodeUtf16, List.length_flatMap, length_encodeUtf16Char order]

theorem two_le_length_of_markedOrder? {order : ByteOrder} (h : markedOrder? bs = some order) :
    2 ≤ bs.length := by
  rw [markedOrder?.eq_def] at h
  split at h
  · simp
  · simp
  · cases h

/-- **Reading loses the bytes of a mark and no others.**  This holds also where the mark announces
the other byte order. -/
theorem length_of_decode (h : charset.decode bs = .ok cs) :
    bs.length = charset.markLength bs + (charset.textBytes cs).length := by
  by_cases hmark : charset.markLength bs = 0
  · rw [hmark, Nat.zero_add, ← ((decode_unmarked_iff hmark).1 h).2]
  cases charset with
  | utf8Marked =>
    have hprefix : utf8Mark.isPrefixOf bs = true := by simpa [markLength] using hmark
    rw [decode, decodeMarkedUtf8, if_pos hprefix, decodeUtf8_eq_ok_iff] at h
    have hlength : 3 ≤ bs.length := (List.isPrefixOf_iff_prefix.1 hprefix).length_le
    have hdrop : bs.length - 3 = (Utf8.encode cs).length := by rw [← h, List.length_drop]
    rw [markLength, if_pos hprefix]
    show bs.length = 3 + (Utf8.encode cs).length
    omega
  | utf16 =>
    cases horder : markedOrder? bs with
    | none => simp [markLength, horder] at hmark
    | some order =>
      rw [decode, decodeMarkedUtf16, horder] at h
      have hdrop : bs.length - 2 = (encodeUtf16 order cs).length := by
        rw [← decodeUtf16_eq_ok_iff.1 h, List.length_drop]
      have hlength := two_le_length_of_markedOrder? horder
      rw [markLength, horder]
      show bs.length = 2 + (encodeUtf16 .little cs).length
      rw [← length_encodeUtf16 order]
      omega
  | _ => exact absurd rfl hmark

end Reading

/-! ## Characters that are written like a mark -/

/-- Whether a character is written like a mark of the set, in either byte order. -/
def IsMark : Charset → Char → Prop
  | .utf8Marked, c => c = '\uFEFF'
  | .utf16, c => c = '\uFEFF' ∨ c = '\uFFFE'
  | _, _ => False

instance (charset : Charset) (c : Char) : Decidable (charset.IsMark c) := by
  cases charset <;> unfold IsMark <;> infer_instance

theorem utf8Mark_isPrefixOf_iff (c : Char) (bs : Bytes) :
    utf8Mark.isPrefixOf (String.utf8EncodeChar c ++ bs) = true ↔ c = '\uFEFF' := by
  have hmark : utf8Mark = String.utf8EncodeChar '\uFEFF' := by decide
  rw [List.isPrefixOf_iff_prefix, hmark]
  constructor
  · rintro ⟨rest, hrest⟩
    have hpieces := congrArg Utf8.pieces hrest
    rw [Utf8.pieces_utf8EncodeChar, Utf8.pieces_utf8EncodeChar, List.cons.injEq,
      Utf8.Piece.char.injEq] at hpieces
    exact hpieces.1.symm
  · rintro rfl
    exact List.prefix_append _ _

theorem markedOrder?_isSome_iff (a b : UInt8) (bs : Bytes) :
    (markedOrder? (a :: b :: bs)).isSome = true ↔
      ByteOrder.little.unit a b = 0xFEFF ∨ ByteOrder.little.unit a b = 0xFFFE := by
  have ha := a.toNat_lt
  have hb := b.toNat_lt
  have hbytes {x y : UInt8} (hx : a.toNat = x.toNat) (hy : b.toNat = y.toNat) : a = x ∧ b = y :=
    ⟨UInt8.toNat_inj.1 hx, UInt8.toNat_inj.1 hy⟩
  simp only [ByteOrder.unit]
  constructor
  · intro h
    rw [markedOrder?.eq_def] at h
    split at h
    next heq => simp only [List.cons.injEq] at heq; simp [heq]
    next heq => simp only [List.cons.injEq] at heq; simp [heq]
    next => cases h
  · rintro (h | h)
    · obtain ⟨rfl, rfl⟩ := hbytes (x := 0xFF) (y := 0xFE) (by simp; omega) (by simp; omega)
      rfl
    · obtain ⟨rfl, rfl⟩ := hbytes (x := 0xFE) (y := 0xFF) (by simp; omega) (by simp; omega)
      rfl

theorem markedOrder?_encodeUtf16Char_isSome_iff (c : Char) (bs : Bytes) :
    (markedOrder? (encodeUtf16Char .little c ++ bs)).isSome = true ↔
      c = '\uFEFF' ∨ c = '\uFFFE' := by
  have hchar {n : Nat} (h : n.isValidChar) : c = Char.ofNat n ↔ c.toNat = n := by
    rw [← Char.toNat_inj, toNat_ofNat_of_valid h]
  have hmarks : (c = '\uFEFF' ∨ c = '\uFFFE') ↔ c.toNat = 0xFEFF ∨ c.toNat = 0xFFFE :=
    or_congr (hchar (n := 0xFEFF) (by decide)) (hchar (n := 0xFFFE) (by decide))
  rw [hmarks, encodeUtf16Char]
  split
  next hsmall =>
    obtain ⟨a, b, hbytes, hunit⟩ := ByteOrder.little.unit_bytes hsmall
    rw [hbytes, ← hunit]
    exact markedOrder?_isSome_iff a b bs
  next hlarge =>
    -- the first half of a pair is no mark
    have hvalid : c.toNat < 55296 ∨ 57343 < c.toNat ∧ c.toNat < 1114112 := c.valid
    obtain ⟨a, b, hbytes, hunit⟩ := ByteOrder.little.unit_bytes
      (show 0xD800 + (c.toNat - 0x10000) / 0x400 < 65536 by omega)
    rw [hbytes, List.append_assoc]
    refine (markedOrder?_isSome_iff a b _).trans ?_
    rw [hunit]
    omega

/-- A mark is taken away from the bytes of a text exactly where its first character is written like
one. -/
theorem markLength_textBytes_cons {charset : Charset} {c : Char} {cs : List Char} :
    charset.markLength (charset.textBytes (c :: cs)) = 0 ↔ ¬ charset.IsMark c := by
  have hsplit {n : Nat} {P Q : Prop} [Decidable P] (hn : n ≠ 0) (h : P ↔ Q) :
      (if P then n else 0) = 0 ↔ ¬ Q := by
    rw [ite_eq_right_iff, ← h]
    exact ⟨fun hzero hp => hn (hzero hp), fun hp hpos => absurd hpos hp⟩
  cases charset with
  | utf8Marked => exact hsplit (by decide) (utf8Mark_isPrefixOf_iff c _)
  | utf16 => exact hsplit (by decide) (markedOrder?_encodeUtf16Char_isSome_iff c _)
  | _ => exact ⟨fun _ => not_false, fun _ => rfl⟩

end Charset
end RubySource
