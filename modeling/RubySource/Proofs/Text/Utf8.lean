import RubySource.Charset.Decode

/-!
# Reading UTF-8 undoes writing it

The machine of `RubySource.Text.Utf8` looks at one byte at a time and knows nothing of whole
characters; the encoding of a character divides its number into groups of bits and knows nothing of
the machine.  Between the two stand the four forms that the bytes of a character have.  Both are
compared with the forms, and so with each other.

## What is here

* `begin?_two`, `begin?_three`, `begin?_four`, `begin?_cases` — the bytes that begin a character of
  two, three and four bytes, and that there are no others.
* `Completes` — the bytes that bring a character to its end; `run_of_completes` and
  `completes_of_run` say that the machine reads these and no others.
* `Spells` — the four forms.  They are what the machine reads (`spells_cons_iff`) and what the
  encoding writes (`spells_utf8EncodeChar`, `eq_utf8EncodeChar_of_spells`).
* `pieces_eq_map_iff` — the pieces of bytes are the characters of a text exactly where the bytes are
  its encoding.
* `decode_eq_ok_iff` — the payoff: **bytes are read as a text exactly where they are its encoding**.
  `decodeUtf8_eq_ok_iff` says it of the character set.
-/

set_option autoImplicit false

namespace RubySource
namespace Utf8

/-! ## The first byte

The three kinds of byte that begin a long character, by the bits they carry. -/

theorem begin?_two {x : Nat} (hx : x < 32) (hlo : 2 ≤ x) :
    begin? (UInt8.ofNat (x + 192)) = some ⟨x, 1, 1, 0x80, 0xBF⟩ := by
  decide +revert

theorem begin?_three {x : Nat} (hx : x < 16) :
    begin? (UInt8.ofNat (x + 224))
      = some ⟨x, 1, 2, if x = 0 then 0xA0 else 0x80, if x = 13 then 0x9F else 0xBF⟩ := by
  decide +revert

theorem begin?_four {x : Nat} (hx : x < 5) :
    begin? (UInt8.ofNat (x + 240))
      = some ⟨x, 1, 3, if x = 0 then 0x90 else 0x80, if x = 4 then 0x8F else 0xBF⟩ := by
  decide +revert

/-- No other byte begins a character. -/
theorem begin?_cases {b : UInt8} {p : Begun} (h : begin? b = some p) :
    (∃ x, 2 ≤ x ∧ x < 32 ∧ b = UInt8.ofNat (x + 192) ∧ p = ⟨x, 1, 1, 0x80, 0xBF⟩)
      ∨ (∃ x, x < 16 ∧ b = UInt8.ofNat (x + 224)
          ∧ p = ⟨x, 1, 2, if x = 0 then 0xA0 else 0x80, if x = 13 then 0x9F else 0xBF⟩)
      ∨ (∃ x, x < 5 ∧ b = UInt8.ofNat (x + 240)
          ∧ p = ⟨x, 1, 3, if x = 0 then 0x90 else 0x80, if x = 4 then 0x8F else 0xBF⟩) := by
  have hb := b.toNat_lt
  have hbits (k : Nat) (hk : k ≤ b.toNat) : b = UInt8.ofNat (b.toNat - k + k) := by
    rw [Nat.sub_add_cancel hk, UInt8.ofNat_toNat]
  by_cases hlow : b.toNat < 194
  · rw [begin?, if_pos (UInt8.lt_iff_toNat_lt.2 hlow)] at h
    cases h
  by_cases htwo : b.toNat < 224
  · have hx := hbits 192 (by omega)
    rw [hx, begin?_two (by omega) (by omega), Option.some_inj] at h
    exact .inl ⟨_, by omega, by omega, hx, h.symm⟩
  by_cases hthree : b.toNat < 240
  · have hx := hbits 224 (by omega)
    rw [hx, begin?_three (by omega), Option.some_inj] at h
    exact .inr (.inl ⟨_, by omega, hx, h.symm⟩)
  by_cases hfour : b.toNat < 245
  · have hx := hbits 240 (by omega)
    rw [hx, begin?_four (by omega), Option.some_inj] at h
    exact .inr (.inr ⟨_, by omega, hx, h.symm⟩)
  · simp only [begin?, UInt8.lt_iff_toNat_lt, ← UInt8.toNat_inj, UInt8.reduceToNat] at h
    rw [if_neg (by omega), if_neg (by omega), if_neg (by omega), if_neg (by omega),
      if_neg (by omega), if_neg (by omega), if_neg (by omega), if_neg (by omega)] at h
    cases h

theorem not_ascii_of_begin? {b : UInt8} {p : Begun} (h : begin? b = some p) : ¬ b < 0x80 := by
  intro hb
  have hlow : b < 0xC2 := UInt8.lt_trans hb (by decide)
  rw [begin?, if_pos hlow] at h
  cases h

/-! ## The bytes that follow it -/

/-- The bytes that bring a character that is begun to its end, and the number of the character. -/
inductive Completes : Begun → Bytes → Nat → Prop
  /-- The last byte. -/
  | last {p : Begun} {b : UInt8} (hlo : p.low ≤ b) (hhi : b ≤ p.high) (hm : p.missing ≤ 1) :
      Completes p [b] (p.value * 64 + (b.toNat - 0x80))
  /-- A byte with others behind it. -/
  | next {p : Begun} {b : UInt8} {bs : Bytes} {n : Nat} (hlo : p.low ≤ b) (hhi : b ≤ p.high)
      (hm : ¬ p.missing ≤ 1)
      (hbs : Completes ⟨p.value * 64 + (b.toNat - 0x80), p.read + 1, p.missing - 1, 0x80, 0xBF⟩
        bs n) :
      Completes p (b :: bs) n

/-- The machine reads a character that is begun to its end and goes on with what follows. -/
theorem run_of_completes {p : Begun} {xs : Bytes} {n : Nat} (h : Completes p xs n) (ys : Bytes) :
    run (some p) (xs ++ ys) = (.char (Char.ofNat n) :: (run none ys).1, (run none ys).2) := by
  induction h with
  | last hlo hhi hm => simp [run, step, hlo, hhi, hm]
  | next hlo hhi hm _ ih => simp [run, step, hlo, hhi, hm, ih]

/-- Where the machine brings a character to its end, it has read bytes that complete it. -/
theorem completes_of_run {p : Begun} {bs : Bytes} {c : Char} {rest : List Piece}
    (h : (run (some p) bs).1 ++ finish (run (some p) bs).2 = .char c :: rest) :
    ∃ xs ys n, bs = xs ++ ys ∧ Completes p xs n ∧ c = Char.ofNat n ∧ pieces ys = rest := by
  induction bs generalizing p with
  | nil => cases h
  | cons b bs ih =>
    by_cases hb : p.low ≤ b ∧ b ≤ p.high
    · by_cases hm : p.missing ≤ 1
      · simp only [run, step, hb, hm, and_self, if_true, List.cons_append, List.nil_append,
          List.cons.injEq, Piece.char.injEq] at h
        exact ⟨[b], bs, _, rfl, .last hb.1 hb.2 hm, h.1.symm, h.2⟩
      · simp only [run, step, hb, hm, and_self, if_true, if_false, List.nil_append] at h
        obtain ⟨xs, ys, n, rfl, hxs, hc, hys⟩ := ih h
        exact ⟨b :: xs, ys, n, rfl, .next hb.1 hb.2 hm hxs, hc, hys⟩
    · simp [run, step, hb] at h

/-- A byte of a range above ASCII, by the bits it carries. -/
theorem between_iff {b lo hi : UInt8} (h80 : 128 ≤ lo.toNat) :
    (lo ≤ b ∧ b ≤ hi) ↔
      ∃ y, b = UInt8.ofNat (y + 128) ∧ lo.toNat ≤ y + 128 ∧ y + 128 ≤ hi.toNat := by
  rw [UInt8.le_iff_toNat_le, UInt8.le_iff_toNat_le]
  constructor
  · rintro ⟨hlo, hhi⟩
    refine ⟨b.toNat - 128, ?_, by omega, by omega⟩
    rw [Nat.sub_add_cancel (by omega), UInt8.ofNat_toNat]
  · rintro ⟨y, rfl, hlo, hhi⟩
    rw [UInt8.toNat_ofNat_of_lt' (Nat.lt_of_le_of_lt hhi hi.toNat_lt)]
    exact ⟨hlo, hhi⟩

theorem toNat_sub_of_le {y : Nat} {hi : UInt8} (h : y + 128 ≤ hi.toNat) :
    (UInt8.ofNat (y + 128)).toNat - 128 = y := by
  rw [UInt8.toNat_ofNat_of_lt' (Nat.lt_of_le_of_lt h hi.toNat_lt), Nat.add_sub_cancel]

theorem completes_last_iff {v r : Nat} {lo hi : UInt8} {bs : Bytes} {n : Nat}
    (h80 : 128 ≤ lo.toNat) :
    Completes ⟨v, r, 1, lo, hi⟩ bs n ↔
      ∃ y, bs = [UInt8.ofNat (y + 128)] ∧ n = v * 64 + y ∧ lo.toNat ≤ y + 128
        ∧ y + 128 ≤ hi.toNat := by
  constructor
  · intro h
    cases h with
    | last hlo hhi hm =>
      obtain ⟨y, rfl, hylo, hyhi⟩ := (between_iff h80).1 ⟨hlo, hhi⟩
      exact ⟨y, rfl, by rw [toNat_sub_of_le hyhi], hylo, hyhi⟩
    | next hlo hhi hm hbs => exact absurd (Nat.le_refl 1) hm
  · rintro ⟨y, rfl, rfl, hylo, hyhi⟩
    obtain ⟨hlo, hhi⟩ := (between_iff h80).2 ⟨y, rfl, hylo, hyhi⟩
    have h := Completes.last (p := ⟨v, r, 1, lo, hi⟩) hlo hhi (Nat.le_refl 1)
    rwa [toNat_sub_of_le hyhi] at h

theorem completes_next_iff {v r m : Nat} {lo hi : UInt8} {bs : Bytes} {n : Nat}
    (h80 : 128 ≤ lo.toNat) :
    Completes ⟨v, r, m + 2, lo, hi⟩ bs n ↔
      ∃ y bs', bs = UInt8.ofNat (y + 128) :: bs' ∧ lo.toNat ≤ y + 128 ∧ y + 128 ≤ hi.toNat
        ∧ Completes ⟨v * 64 + y, r + 1, m + 1, 0x80, 0xBF⟩ bs' n := by
  have hmissing : ¬ m + 2 ≤ 1 := by omega
  constructor
  · intro h
    cases h with
    | last hlo hhi hm => exact absurd hm hmissing
    | next hlo hhi hm hbs =>
      obtain ⟨y, rfl, hylo, hyhi⟩ := (between_iff h80).1 ⟨hlo, hhi⟩
      rw [toNat_sub_of_le hyhi] at hbs
      exact ⟨y, _, rfl, hylo, hyhi, hbs⟩
  · rintro ⟨y, bs', rfl, hylo, hyhi, h⟩
    obtain ⟨hlo, hhi⟩ := (between_iff h80).2 ⟨y, rfl, hylo, hyhi⟩
    refine .next hlo hhi hmissing ?_
    rw [toNat_sub_of_le hyhi]
    exact h

/-- Any six bits may stand in a byte that is not the second one. -/
theorem completes_last_of_lt {v r y : Nat} (hy : y < 64) :
    Completes ⟨v, r, 1, 0x80, 0xBF⟩ [UInt8.ofNat (y + 128)] (v * 64 + y) :=
  (completes_last_iff (Nat.le_refl _)).2
    ⟨y, rfl, rfl, Nat.le_add_left 128 y, Nat.le_of_lt_succ (Nat.add_lt_add_right hy 128)⟩

theorem completes_next_of_lt {v r m y : Nat} {bs : Bytes} {n : Nat} (hy : y < 64)
    (h : Completes ⟨v * 64 + y, r + 1, m + 1, 0x80, 0xBF⟩ bs n) :
    Completes ⟨v, r, m + 2, 0x80, 0xBF⟩ (UInt8.ofNat (y + 128) :: bs) n :=
  (completes_next_iff (Nat.le_refl _)).2
    ⟨y, bs, rfl, Nat.le_add_left 128 y, Nat.le_of_lt_succ (Nat.add_lt_add_right hy 128), h⟩

/-! ## The four forms of a character -/

/-- The bytes of the character of a number, by the bits that each of them carries.  The first bits
of a long form are bounded so that no shorter form would do, and so that the number is that of a
character. -/
inductive Spells : Bytes → Nat → Prop
  | one {x : Nat} (hx : x < 128) : Spells [UInt8.ofNat x] x
  | two {x y : Nat} (hlo : 2 ≤ x) (hx : x < 32) (hy : y < 64) :
      Spells [UInt8.ofNat (x + 192), UInt8.ofNat (y + 128)] (x * 64 + y)
  | three {x y z : Nat} (hx : x < 16) (hy : y < 64) (hz : z < 64) (hlo : x = 0 → 32 ≤ y)
      (hhi : x = 13 → y < 32) :
      Spells [UInt8.ofNat (x + 224), UInt8.ofNat (y + 128), UInt8.ofNat (z + 128)]
        ((x * 64 + y) * 64 + z)
  | four {x y z w : Nat} (hx : x < 5) (hy : y < 64) (hz : z < 64) (hw : w < 64)
      (hlo : x = 0 → 16 ≤ y) (hhi : x = 4 → y < 16) :
      Spells [UInt8.ofNat (x + 240), UInt8.ofNat (y + 128), UInt8.ofNat (z + 128),
        UInt8.ofNat (w + 128)] (((x * 64 + y) * 64 + z) * 64 + w)

/-- A byte that begins a character and bytes that bring it to its end have one of the forms. -/
theorem spells_of_completes {b : UInt8} {p : Begun} {bs : Bytes} {n : Nat}
    (hp : begin? b = some p) (h : Completes p bs n) : Spells (b :: bs) n := by
  have h80 : 128 ≤ (0x80 : UInt8).toNat := Nat.le_refl _
  obtain ⟨x, hlo, hx, rfl, rfl⟩ | ⟨x, hx, rfl, rfl⟩ | ⟨x, hx, rfl, rfl⟩ := begin?_cases hp
  · obtain ⟨y, rfl, rfl, -, hy⟩ := (completes_last_iff h80).1 h
    simp only [UInt8.reduceToNat] at hy
    exact .two hlo hx (by omega)
  · obtain ⟨y, bs, rfl, hlo, hhi, h⟩ := (completes_next_iff (by split <;> decide)).1 h
    obtain ⟨z, rfl, rfl, -, hz⟩ := (completes_last_iff h80).1 h
    simp only [apply_ite UInt8.toNat, UInt8.reduceToNat] at hlo hhi hz
    split at hlo <;> split at hhi <;>
      exact .three hx (by omega) (by omega) (by omega) (by omega)
  · obtain ⟨y, bs, rfl, hlo, hhi, h⟩ := (completes_next_iff (by split <;> decide)).1 h
    obtain ⟨z, bs, rfl, -, hz, h⟩ := (completes_next_iff h80).1 h
    obtain ⟨w, rfl, rfl, -, hw⟩ := (completes_last_iff h80).1 h
    simp only [apply_ite UInt8.toNat, UInt8.reduceToNat] at hlo hhi hz hw
    split at hlo <;> split at hhi <;>
      exact .four hx (by omega) (by omega) (by omega) (by omega) (by omega)

/-- The machine reads the four forms and no other. -/
theorem spells_cons_iff {b : UInt8} {bs : Bytes} {n : Nat} :
    Spells (b :: bs) n ↔
      (b < 0x80 ∧ bs = [] ∧ n = b.toNat) ∨ ∃ p, begin? b = some p ∧ Completes p bs n := by
  constructor
  · intro h
    cases h with
    | one hx =>
      have hn : (UInt8.ofNat n).toNat = n := UInt8.toNat_ofNat_of_lt' (Nat.lt_trans hx (by decide))
      exact .inl ⟨by rwa [UInt8.lt_iff_toNat_lt, hn], rfl, hn.symm⟩
    | two hlo hx hy => exact .inr ⟨_, begin?_two hx hlo, completes_last_of_lt hy⟩
    | three hx hy hz hlo hhi =>
      refine .inr ⟨_, begin?_three hx, (completes_next_iff (by split <;> decide)).2
        ⟨_, _, rfl, ?_, ?_, completes_last_of_lt hz⟩⟩ <;>
      · split <;> simp only [UInt8.reduceToNat] <;> omega
    | four hx hy hz hw hlo hhi =>
      refine .inr ⟨_, begin?_four hx, (completes_next_iff (by split <;> decide)).2
        ⟨_, _, rfl, ?_, ?_, completes_next_of_lt hz (completes_last_of_lt hw)⟩⟩ <;>
      · split <;> simp only [UInt8.reduceToNat] <;> omega
  · rintro (⟨hb, rfl, rfl⟩ | ⟨p, hp, h⟩)
    · have h := Spells.one (UInt8.lt_iff_toNat_lt.1 hb)
      rwa [UInt8.ofNat_toNat] at h
    · exact spells_of_completes hp h

/-- A character is encoded in the form of its number. -/
theorem spells_utf8EncodeChar (c : Char) : Spells (String.utf8EncodeChar c) c.toNat := by
  have hvalid : c.toNat < 55296 ∨ 57343 < c.toNat ∧ c.toNat < 1114112 := c.valid
  rw [String.utf8EncodeChar.eq_1, Char.toNat_val]
  split
  · exact .one (by omega)
  split
  · have h := Spells.two (x := c.toNat / 64 % 32) (y := c.toNat % 64) (by omega) (by omega)
      (by omega)
    rwa [show c.toNat / 64 % 32 * 64 + c.toNat % 64 = c.toNat by omega] at h
  split
  · have h := Spells.three (x := c.toNat / 4096 % 16) (y := c.toNat / 64 % 64)
      (z := c.toNat % 64) (by omega) (by omega) (by omega) (by omega) (by omega)
    rwa [show (c.toNat / 4096 % 16 * 64 + c.toNat / 64 % 64) * 64 + c.toNat % 64 = c.toNat
      by omega] at h
  · have h := Spells.four (x := c.toNat / 262144 % 8) (y := c.toNat / 4096 % 64)
      (z := c.toNat / 64 % 64) (w := c.toNat % 64) (by omega) (by omega) (by omega) (by omega)
      (by omega) (by omega)
    rwa [show ((c.toNat / 262144 % 8 * 64 + c.toNat / 4096 % 64) * 64 + c.toNat / 64 % 64) * 64
      + c.toNat % 64 = c.toNat by omega] at h

/-- The form of a number is the encoding of its character. -/
theorem eq_utf8EncodeChar_of_spells {bs : Bytes} {n : Nat} (h : Spells bs n) :
    bs = String.utf8EncodeChar (Char.ofNat n) := by
  have hvalid : n.isValidChar := by cases h <;> simp only [Nat.isValidChar] <;> omega
  have hn : (Char.ofNat n).val.toNat = n := by rw [Char.ofNat, dif_pos hvalid]; rfl
  rw [String.utf8EncodeChar.eq_1, hn]
  cases h with
  | one hx => rw [if_pos (by omega)]
  | two hlo hx hy =>
    rw [if_neg (by omega), if_pos (by omega)]
    congr <;> omega
  | three hx hy hz hlo hhi =>
    rw [if_neg (by omega), if_neg (by omega), if_pos (by omega)]
    congr <;> omega
  | four hx hy hz hw hlo hhi =>
    rw [if_neg (by omega), if_neg (by omega), if_neg (by omega)]
    congr <;> omega

/-! ## Reading a whole text -/

theorem pieces_ascii {b : UInt8} (hb : b < 0x80) (bs : Bytes) :
    pieces (b :: bs) = .char (Char.ofNat b.toNat) :: pieces bs := by
  simp [pieces, run, step, fresh, hb]

theorem pieces_noStart {b : UInt8} (hb : ¬ b < 0x80) (h : begin? b = none) (bs : Bytes) :
    pieces (b :: bs) = .flawed 1 .noStart :: pieces bs := by
  simp [pieces, run, step, fresh, hb, h]

theorem pieces_begun {b : UInt8} {p : Begun} (h : begin? b = some p) (bs : Bytes) :
    pieces (b :: bs) = (run (some p) bs).1 ++ finish (run (some p) bs).2 := by
  simp [pieces, run, step, fresh, not_ascii_of_begin? h, h]

/-- The machine reads the encoding of a character as that character and goes on. -/
theorem pieces_utf8EncodeChar (c : Char) (ys : Bytes) :
    pieces (String.utf8EncodeChar c ++ ys) = .char c :: pieces ys := by
  have h := spells_utf8EncodeChar c
  cases hxs : String.utf8EncodeChar c with
  | nil => rw [hxs] at h; cases h
  | cons b bs =>
    rw [hxs, spells_cons_iff] at h
    obtain ⟨hb, rfl, hc⟩ | ⟨p, hp, h⟩ := h
    · rw [List.singleton_append, pieces_ascii hb, ← hc, Char.ofNat_toNat]
    · rw [List.cons_append, pieces_begun hp, run_of_completes h, Char.ofNat_toNat]
      rfl

/-- Where the first piece is a character, the bytes start with its encoding. -/
theorem exists_of_pieces {bs : Bytes} {c : Char} {rest : List Piece}
    (h : pieces bs = .char c :: rest) :
    ∃ ys, bs = String.utf8EncodeChar c ++ ys ∧ pieces ys = rest := by
  cases bs with
  | nil => cases h
  | cons b bs =>
    by_cases hb : b < 0x80
    · rw [pieces_ascii hb, List.cons.injEq, Piece.char.injEq] at h
      obtain ⟨rfl, hrest⟩ := h
      have hs := eq_utf8EncodeChar_of_spells (spells_cons_iff.2 (.inl ⟨hb, rfl, rfl⟩))
      exact ⟨bs, by rw [← hs]; rfl, hrest⟩
    cases hp : begin? b with
    | none => rw [pieces_noStart hb hp] at h; cases h
    | some p =>
      rw [pieces_begun hp] at h
      obtain ⟨xs, ys, n, rfl, hxs, rfl, hys⟩ := completes_of_run h
      have hs := eq_utf8EncodeChar_of_spells (spells_cons_iff.2 (.inr ⟨p, hp, hxs⟩))
      exact ⟨ys, by rw [← hs]; rfl, hys⟩

/-- A character that is begun leaves a piece. -/
theorem pieces_ne_nil_of_begun (bs : Bytes) (p : Begun) :
    (run (some p) bs).1 ++ finish (run (some p) bs).2 ≠ [] := by
  induction bs generalizing p with
  | nil => exact List.cons_ne_nil _ _
  | cons b bs ih =>
    by_cases hb : p.low ≤ b ∧ b ≤ p.high
    · by_cases hm : p.missing ≤ 1
      · simp [run, step, hb, hm]
      · simpa [run, step, hb, hm] using ih _
    · simp [run, step, hb]

/-- Only no bytes have no piece. -/
theorem pieces_eq_nil_iff {bs : Bytes} : pieces bs = [] ↔ bs = [] := by
  refine ⟨fun h => ?_, fun h => by rw [h]; rfl⟩
  cases bs with
  | nil => rfl
  | cons b bs =>
    by_cases hb : b < 0x80
    · rw [pieces_ascii hb] at h; cases h
    cases hp : begin? b with
    | none => rw [pieces_noStart hb hp] at h; cases h
    | some p =>
      rw [pieces_begun hp] at h
      exact absurd h (pieces_ne_nil_of_begun bs p)

/-- The pieces are the characters of a text exactly where the bytes are its encoding. -/
theorem pieces_eq_map_iff {bs : Bytes} {cs : List Char} :
    pieces bs = cs.map .char ↔ bs = encode cs := by
  induction cs generalizing bs with
  | nil => exact pieces_eq_nil_iff
  | cons c cs ih =>
    rw [List.map_cons, show encode (c :: cs) = String.utf8EncodeChar c ++ encode cs from rfl]
    constructor
    · intro h
      obtain ⟨ys, rfl, hys⟩ := exists_of_pieces h
      rw [ih.1 hys]
    · rintro rfl
      rw [pieces_utf8EncodeChar, ih.2 rfl]

/-- Reading stops at the first flaw, so it gets through exactly where all pieces are characters. -/
theorem collect_eq_ok_iff {start : Nat} {ps : List Piece} {cs : List Char} :
    collect start ps = .ok cs ↔ ps = cs.map .char := by
  constructor
  · intro h
    induction ps generalizing start cs with
    | nil => cases h; rfl
    | cons p ps ih =>
      cases p with
      | flawed length flaw => cases h
      | char c =>
        rw [collect] at h
        cases hds : collect (start + c.utf8Size) ps with
        | error e => rw [hds] at h; cases h
        | ok ds =>
          rw [hds] at h
          cases h
          rw [ih hds, List.map_cons]
  · rintro rfl
    induction cs generalizing start with
    | nil => rfl
    | cons c cs ih => rw [List.map_cons, collect, ih]

/-- **Reading undoes writing, and reads nothing else**: bytes are read as a text exactly where they
are its encoding. -/
theorem decode_eq_ok_iff {bs : Bytes} {cs : List Char} : decode bs = .ok cs ↔ bs = encode cs := by
  rw [decode, collect_eq_ok_iff, pieces_eq_map_iff]

end Utf8

/-- The character set reads what `Utf8.decode` reads. -/
theorem decodeUtf8_eq_ok_iff {bs : Bytes} {cs : List Char} :
    decodeUtf8 bs = .ok cs ↔ bs = Utf8.encode cs := by
  rw [← Utf8.decode_eq_ok_iff, decodeUtf8]
  cases Utf8.decode bs <;> simp

end RubySource
