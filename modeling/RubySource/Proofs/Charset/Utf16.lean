import RubySource.Charset.Encode

/-!
# Reading UTF-16 undoes writing it

A character is written as one unit or as a pair of them, and a unit as two bytes in either order.
The decoder looks at a unit at a time: the first unit of a pair asks for the second one, the second
one may not stand alone, and every other unit is a character.  So both sides take the same view of
a unit, and what is left is the arithmetic of pairs and of bytes.

## What is here

* `ByteOrder.bytes_unit`, `ByteOrder.unit_bytes` — two bytes are a unit, in either order.
* `encodeUtf16Char_ofNat`, `encodeUtf16Char_joinPair` — how the characters that the decoder makes of
  units are written; `exists_units` says that there are no others.
* `decodeUtf16_eq_ok_iff` — the payoff: **bytes are read as a text exactly where they are its
  encoding**, in either order.
-/

set_option autoImplicit false

namespace RubySource

/-! ## Units -/

namespace ByteOrder

/-- A unit is written as the bytes that it is read from. -/
theorem bytes_unit (order : ByteOrder) (a b : UInt8) : order.bytes (order.unit a b) = [a, b] := by
  have hhigh (x y : UInt8) : (x.toNat * 256 + y.toNat) / 256 = x.toNat := by
    have hy := y.toNat_lt
    omega
  have hlow (x y : UInt8) : (x.toNat * 256 + y.toNat) % 256 = y.toNat := by
    have hy := y.toNat_lt
    omega
  cases order <;> simp only [unit, bytes, hhigh, hlow, UInt8.ofNat_toNat]

theorem unit_lt (order : ByteOrder) (a b : UInt8) : order.unit a b < 65536 := by
  have ha := a.toNat_lt
  have hb := b.toNat_lt
  cases order <;> simp only [unit] <;> omega

theorem length_bytes (order : ByteOrder) (unit : Nat) : (order.bytes unit).length = 2 := by
  cases order <;> rfl

/-- A unit is read from the bytes that it is written as. -/
theorem unit_bytes (order : ByteOrder) {unit : Nat} (h : unit < 65536) :
    ∃ a b, order.bytes unit = [a, b] ∧ order.unit a b = unit := by
  have hhigh : (UInt8.ofNat (unit / 256)).toNat = unit / 256 :=
    UInt8.toNat_ofNat_of_lt' (show unit / 256 < 256 by omega)
  have hlow : (UInt8.ofNat (unit % 256)).toNat = unit % 256 :=
    UInt8.toNat_ofNat_of_lt' (Nat.mod_lt unit (by decide))
  cases order with
  | little => exact ⟨_, _, rfl, by simp only [ByteOrder.unit, hhigh, hlow]; omega⟩
  | big => exact ⟨_, _, rfl, by simp only [ByteOrder.unit, hhigh, hlow]; omega⟩

end ByteOrder

/-! ## Characters -/

theorem isLeading_iff {unit : Nat} : isLeading unit = true ↔ 0xD800 ≤ unit ∧ unit < 0xDC00 := by
  simp [isLeading]

theorem isTrailing_iff {unit : Nat} : isTrailing unit = true ↔ 0xDC00 ≤ unit ∧ unit < 0xE000 := by
  simp [isTrailing]

theorem toNat_ofNat_of_valid {n : Nat} (h : n.isValidChar) : (Char.ofNat n).toNat = n := by
  rw [Char.ofNat, dif_pos h]
  rfl

/-- The character of a unit that is no half of a pair is written as that unit. -/
theorem encodeUtf16Char_ofNat (order : ByteOrder) {unit : Nat} (h : unit < 65536)
    (hleading : ¬ isLeading unit = true) (htrailing : ¬ isTrailing unit = true) :
    encodeUtf16Char order (Char.ofNat unit) = order.bytes unit := by
  rw [isLeading_iff] at hleading
  rw [isTrailing_iff] at htrailing
  have hvalid : unit.isValidChar := by
    simp only [Nat.isValidChar]
    omega
  rw [encodeUtf16Char, toNat_ofNat_of_valid hvalid, if_pos h]

/-- The character of a pair is written as that pair. -/
theorem encodeUtf16Char_joinPair (order : ByteOrder) {leading trailing : Nat}
    (hleading : isLeading leading = true) (htrailing : isTrailing trailing = true) :
    encodeUtf16Char order (joinPair leading trailing)
      = order.bytes leading ++ order.bytes trailing := by
  rw [isLeading_iff] at hleading
  rw [isTrailing_iff] at htrailing
  have hvalid : (0x10000 + (leading - 0xD800) * 0x400 + (trailing - 0xDC00)).isValidChar := by
    simp only [Nat.isValidChar]
    omega
  have hfirst : 0xD800 + (0x10000 + (leading - 0xD800) * 0x400 + (trailing - 0xDC00) - 0x10000)
      / 0x400 = leading := by
    omega
  have hsecond : 0xDC00 + (0x10000 + (leading - 0xD800) * 0x400 + (trailing - 0xDC00) - 0x10000)
      % 0x400 = trailing := by
    omega
  rw [encodeUtf16Char, joinPair, toNat_ofNat_of_valid hvalid, if_neg (by omega), hfirst, hsecond]

/-- Every character is that of a unit that is no half of a pair, or that of a pair. -/
theorem exists_units (c : Char) :
    (∃ unit, unit < 65536 ∧ ¬ isLeading unit = true ∧ ¬ isTrailing unit = true
        ∧ c = Char.ofNat unit)
      ∨ ∃ leading trailing, isLeading leading = true ∧ isTrailing trailing = true
        ∧ c = joinPair leading trailing := by
  have hvalid : c.toNat < 55296 ∨ 57343 < c.toNat ∧ c.toNat < 1114112 := c.valid
  by_cases hsmall : c.toNat < 65536
  · refine .inl ⟨c.toNat, hsmall, ?_, ?_, (Char.ofNat_toNat c).symm⟩
    · rw [isLeading_iff]
      omega
    · rw [isTrailing_iff]
      omega
  · refine .inr ⟨0xD800 + (c.toNat - 0x10000) / 0x400, 0xDC00 + (c.toNat - 0x10000) % 0x400,
      isLeading_iff.2 (by omega), isTrailing_iff.2 (by omega), ?_⟩
    have hjoined : 0x10000 + (0xD800 + (c.toNat - 0x10000) / 0x400 - 0xD800) * 0x400
        + (0xDC00 + (c.toNat - 0x10000) % 0x400 - 0xDC00) = c.toNat := by
      omega
    rw [joinPair, hjoined, Char.ofNat_toNat]

/-! ## Texts -/

section Decoding

variable {order : ByteOrder} {a b : UInt8} (start : Nat)

/-- A unit that is no half of a pair is read as its character. -/
theorem decodeUtf16_unit (hleading : ¬ isLeading (order.unit a b) = true)
    (htrailing : ¬ isTrailing (order.unit a b) = true) (rest : Bytes) :
    decodeUtf16 order start (a :: b :: rest)
      = (decodeUtf16 order (start + 2) rest).map (Char.ofNat (order.unit a b) :: ·) := by
  rw [decodeUtf16.eq_def]
  simp only [hleading, htrailing, if_false, Bool.false_eq_true]
  cases decodeUtf16 order (start + 2) rest <;> rfl

/-- A pair of units is read as its character. -/
theorem decodeUtf16_pair {c d : UInt8} (hleading : isLeading (order.unit a b) = true)
    (htrailing : isTrailing (order.unit c d) = true) (rest : Bytes) :
    decodeUtf16 order start (a :: b :: c :: d :: rest)
      = (decodeUtf16 order (start + 4) rest).map
          (joinPair (order.unit a b) (order.unit c d) :: ·) := by
  rw [decodeUtf16.eq_def]
  simp only [hleading, htrailing, if_true]
  cases decodeUtf16 order (start + 4) rest <;> rfl

end Decoding

/-- The encoding of a character is read as that character, and reading goes on behind it. -/
theorem exists_decodeUtf16_append (order : ByteOrder) (start : Nat) (c : Char) (rest : Bytes) :
    ∃ later, decodeUtf16 order start (encodeUtf16Char order c ++ rest)
      = (decodeUtf16 order later rest).map (c :: ·) := by
  obtain ⟨unit, hunit, hleading, htrailing, hc⟩ | ⟨leading, trailing, hleading, htrailing, hc⟩ :=
    exists_units c
  · obtain ⟨a, b, hbytes, rfl⟩ := order.unit_bytes hunit
    refine ⟨start + 2, ?_⟩
    rw [hc, encodeUtf16Char_ofNat order hunit hleading htrailing, hbytes]
    exact decodeUtf16_unit start hleading htrailing rest
  · have hsmall : leading < 65536 := Nat.lt_trans (isLeading_iff.1 hleading).2 (by decide)
    have hlarge : trailing < 65536 := Nat.lt_trans (isTrailing_iff.1 htrailing).2 (by decide)
    obtain ⟨a, b, hbytes, rfl⟩ := order.unit_bytes hsmall
    obtain ⟨d, e, hbytes', rfl⟩ := order.unit_bytes hlarge
    refine ⟨start + 4, ?_⟩
    rw [hc, encodeUtf16Char_joinPair order hleading htrailing, hbytes, hbytes']
    exact decodeUtf16_pair start hleading htrailing rest

theorem encodeUtf16_cons (order : ByteOrder) (c : Char) (cs : List Char) :
    encodeUtf16 order (c :: cs) = encodeUtf16Char order c ++ encodeUtf16 order cs :=
  rfl

theorem decodeUtf16_encodeUtf16 (order : ByteOrder) (start : Nat) (cs : List Char) :
    decodeUtf16 order start (encodeUtf16 order cs) = .ok cs := by
  induction cs generalizing start with
  | nil => rfl
  | cons c cs ih =>
    obtain ⟨later, hlater⟩ := exists_decodeUtf16_append order start c (encodeUtf16 order cs)
    rw [encodeUtf16_cons, hlater, ih]
    rfl

/-- What is read as a text is the encoding of that text. -/
theorem eq_encodeUtf16_of_decodeUtf16 {order : ByteOrder} {start : Nat} {bs : Bytes}
    {cs : List Char} (h : decodeUtf16 order start bs = .ok cs) : bs = encodeUtf16 order cs := by
  fun_induction decodeUtf16 order start bs generalizing cs with
  | case1 =>
    obtain rfl := Except.ok.inj h
    rfl
  | case3 start a b unit hleading c d rest htrailing ds hds =>
    rename_i ih
    obtain rfl := Except.ok.inj h
    rw [encodeUtf16_cons, encodeUtf16Char_joinPair order hleading htrailing, order.bytes_unit,
      order.bytes_unit, ← ih hds]
    rfl
  | case8 start a b rest unit hleading htrailing ds hds =>
    rename_i ih
    obtain rfl := Except.ok.inj h
    rw [encodeUtf16_cons, encodeUtf16Char_ofNat order (order.unit_lt a b) hleading htrailing,
      order.bytes_unit, ← ih hds]
    rfl
  | _ => cases h

/-- **Reading undoes writing, and reads nothing else**, in either order. -/
theorem decodeUtf16_eq_ok_iff {order : ByteOrder} {start : Nat} {bs : Bytes} {cs : List Char} :
    decodeUtf16 order start bs = .ok cs ↔ bs = encodeUtf16 order cs := by
  refine ⟨eq_encodeUtf16_of_decodeUtf16, ?_⟩
  rintro rfl
  exact decodeUtf16_encodeUtf16 order start cs

end RubySource
