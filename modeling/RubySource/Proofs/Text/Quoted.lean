import Mathlib.Algebra.Group.Nat.Defs
import RubySource.Text.Quoted

/-!
# Reading quoted texts

A quoted text says where it ends, whatever stands behind it: the quote that opens it is the next one
that no backslash stands before.  So it can be read back from any text that starts with it.  Only
one character has to be read for this, the one that stands in front; which quote is used plays no
part in the reading.

## What is here

* `hexNumber?_hexDigits` — as many digits as a number needs are read as the number.
* `readFirst?` — the character in front of a quoted text, and what stands behind it;
  `readFirst?_escape` says that it undoes `escape`.
* `quoted_append_inj` — **a quoted text and what stands behind it can be told apart**.
-/

set_option autoImplicit false

namespace RubySource
namespace Text

/-! ## Digits -/

theorem hexValue?_hexDigit {n : Nat} (h : n < 16) : hexValue? (hexDigit n) = some n := by
  decide +revert

theorem hexNumber?_concat (cs : List Char) (c : Char) :
    hexNumber? (cs ++ [c])
      = (hexNumber? cs).bind fun n => (hexValue? c).map (n * 16 + ·) := by
  rw [hexNumber?, List.foldlM_append, ← hexNumber?]
  cases hexNumber? cs with
  | none => rfl
  | some n => cases h : hexValue? c <;> simp [h]

/-- Digits are read as the number that they are written for, if there are enough of them. -/
theorem hexNumber?_hexDigits (width n : Nat) :
    hexNumber? (hexDigits width n) = some (n % 16 ^ width) := by
  induction width generalizing n with
  | zero => rw [Nat.pow_zero, Nat.mod_one]; rfl
  | succ width ih =>
    have hlow : n % 16 < 16 := Nat.mod_lt n (by decide)
    have hvalue : n / 16 % 16 ^ width * 16 + n % 16 = n % 16 ^ (width + 1) := by
      rw [Nat.pow_succ, Nat.mul_comm (16 ^ width), Nat.mod_mul]
      omega
    rw [hexDigits, hexNumber?_concat, ih, hexValue?_hexDigit hlow, ← hvalue]
    rfl

/-! ## One character -/

/-- How many digits follow the letter of an escape by number. -/
def escapeWidth? (c : Char) : Option Nat :=
  if c = 'x' then some 2 else if c = 'u' then some 4 else if c = 'U' then some 8 else none

/-- The character that an escape by one letter stands for. -/
def escapedLetter (c : Char) : Char :=
  if c = 'n' then '\n' else if c = 'r' then '\r' else if c = 't' then '\t' else c

/-- The character written in front of a text, and what stands behind it. -/
def readFirst? : List Char → Option (Char × List Char)
  | [] => none
  | c :: cs =>
    if c = '\\' then
      match cs with
      | [] => none
      | letter :: rest =>
        match escapeWidth? letter with
        | some width =>
          (hexNumber? (rest.take width)).map fun n => (Char.ofNat n, rest.drop width)
        | none => some (escapedLetter letter, rest)
    else some (c, cs)

theorem readFirst?_of_ne {c : Char} (h : c ≠ '\\') (cs : List Char) :
    readFirst? (c :: cs) = some (c, cs) := by
  rw [readFirst?.eq_def]
  exact if_neg h

/-- An escape by number is read as the character with this number. -/
theorem readFirst?_hexDigits {letter : Char} {width : Nat}
    (hletter : escapeWidth? letter = some width) {c : Char} (hc : c.toNat < 16 ^ width)
    (cs : List Char) :
    readFirst? ('\\' :: letter :: hexDigits width c.toNat ++ cs) = some (c, cs) := by
  have htake : (hexDigits width c.toNat ++ cs).take width = hexDigits width c.toNat :=
    List.take_left' (length_hexDigits width c.toNat)
  have hdrop : (hexDigits width c.toNat ++ cs).drop width = cs :=
    List.drop_left' (length_hexDigits width c.toNat)
  rw [List.cons_append, List.cons_append, readFirst?.eq_def]
  simp only [if_true, hletter, htake, hdrop, hexNumber?_hexDigits, Nat.mod_eq_of_lt hc,
    Option.map_some, Char.ofNat_toNat]

/-- A quote is single or double. -/
theorem quoteMark_cases (cs : List Char) : quoteMark cs = '\'' ∨ quoteMark cs = '"' := by
  rw [quoteMark]
  split
  · exact Or.inr rfl
  · exact Or.inl rfl

/-- **Reading a character undoes writing it**, whichever quote is used. -/
theorem readFirst?_escape {mark : Char} (hmark : mark = '\'' ∨ mark = '"') (c : Char)
    (cs : List Char) : readFirst? (escape mark c ++ cs) = some (c, cs) := by
  have hsize : c.toNat < 0x110000 := by
    have hvalid : c.toNat < 55296 ∨ 57343 < c.toNat ∧ c.toNat < 1114112 := c.valid
    omega
  rw [escape]
  split
  next h =>
    -- a backslash or a quote, behind a backslash
    obtain rfl | rfl := h
    · rcases hmark with rfl | rfl <;> rfl
    · rfl
  next hplain =>
    split
    next h => rw [h]; rfl
    split
    next h => rw [h]; rfl
    split
    next h => rw [h]; rfl
    split
    next => exact readFirst?_of_ne (fun h => hplain (Or.inr h)) cs
    split
    next hc =>
      have hwidth : escapeWidth? 'x' = some 2 := rfl
      exact readFirst?_hexDigits hwidth hc cs
    split
    next hc =>
      have hwidth : escapeWidth? 'u' = some 4 := rfl
      exact readFirst?_hexDigits hwidth hc cs
    next =>
      have hwidth : escapeWidth? 'U' = some 8 := rfl
      exact readFirst?_hexDigits hwidth (Nat.lt_trans hsize (by decide)) cs

/-! ## The whole text -/

section

variable {mark : Char} (hmark : mark = '\'' ∨ mark = '"')
include hmark

theorem escape_append_inj {c d : Char} {r s : List Char}
    (h : escape mark c ++ r = escape mark d ++ s) : c = d ∧ r = s := by
  have hread := congrArg readFirst? h
  rw [readFirst?_escape hmark, readFirst?_escape hmark] at hread
  exact Prod.mk.inj (Option.some.inj hread)

/-- No character is written so that it starts with the quote. -/
theorem escape_append_ne (c : Char) (r s : List Char) : escape mark c ++ r ≠ mark :: s := by
  intro h
  have hslash : mark ≠ '\\' := by rcases hmark with rfl | rfl <;> decide
  have hread := congrArg readFirst? h
  rw [readFirst?_escape hmark, readFirst?_of_ne hslash, Option.some_inj, Prod.mk.injEq] at hread
  rw [hread.1, escape, if_pos (Or.inl rfl)] at h
  exact hslash (List.cons.inj h).1.symm

/-- What is written between quotes ends with the first quote. -/
theorem escape_mark_append_inj {cs ds r s : List Char}
    (h : cs.flatMap (escape mark) ++ mark :: r = ds.flatMap (escape mark) ++ mark :: s) :
    cs = ds ∧ r = s := by
  induction cs generalizing ds with
  | nil =>
    cases ds with
    | nil => exact ⟨rfl, (List.cons.inj h).2⟩
    | cons d ds =>
      rw [List.flatMap_cons, List.append_assoc] at h
      exact absurd h.symm (escape_append_ne hmark d _ r)
  | cons c cs ih =>
    rw [List.flatMap_cons, List.append_assoc] at h
    cases ds with
    | nil => exact absurd h (escape_append_ne hmark c _ s)
    | cons d ds =>
      rw [List.flatMap_cons, List.append_assoc] at h
      obtain ⟨rfl, hrest⟩ := escape_append_inj hmark h
      obtain ⟨rfl, hrs⟩ := ih hrest
      exact ⟨rfl, hrs⟩

end

/-- **A quoted text and what stands behind it can be told apart.** -/
theorem quoted_append_inj {cs ds r s : List Char} (h : quoted cs ++ r = quoted ds ++ s) :
    cs = ds ∧ r = s := by
  simp only [quoted, List.cons_append, List.append_assoc, List.nil_append, List.cons.injEq] at h
  obtain ⟨hmark, hbody⟩ := h
  rw [← hmark] at hbody
  exact escape_mark_append_inj (quoteMark_cases cs) hbody

end Text
end RubySource
