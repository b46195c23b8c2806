import RubySource.Decimal.Shortest

/-!
# How a number with a fraction is written

The shortest decimal is written with a point where its leading digit lies between `10 ^ -4` and
`10 ^ 15`, and otherwise with one digit before the point and an exponent of at least two digits.  A
whole number keeps a `.0`.

## What is here

* `positional`, `exponential` — the two layouts.
* `floatText` — the text of a floating-point number.
-/

set_option autoImplicit false

namespace RubySource
namespace Decimal

/-- The digits of a number without the zeros at their end, and how many zeros that were. -/
def trimZeros : (fuel : Nat) → Nat → Nat × Nat
  | 0, n => (n, 0)
  | fuel + 1, n =>
    if n % 10 = 0 && n ≠ 0 then
      let rest := trimZeros fuel (n / 10)
      (rest.1, rest.2 + 1)
    else (n, 0)

/-- Digits with a point `places` digits after their start. -/
def positional (digits : List Char) (places : Int) : List Char :=
  if places ≤ 0 then '0' :: '.' :: (List.replicate (-places).toNat '0' ++ digits)
  else if digits.length ≤ places.toNat then
    digits ++ List.replicate (places.toNat - digits.length) '0' ++ ['.', '0']
  else digits.take places.toNat ++ '.' :: digits.drop places.toNat

/-- An exponent with its sign and at least two digits. -/
def exponentText (e : Int) : List Char :=
  let digits := (toString e.natAbs).toList
  (if e < 0 then '-' else '+') :: (if digits.length < 2 then '0' :: digits else digits)

/-- Digits with one of them before the point, and the exponent of that one. -/
def exponential (digits : List Char) (e : Int) : List Char :=
  digits.take 1 ++ (if digits.length ≤ 1 then [] else '.' :: digits.drop 1)
    ++ 'e' :: exponentText e

/-- The text of a positive number. -/
def binaryText (n : Binary) : List Char :=
  let found := n.shortest
  let digits := (toString (trimZeros 400 found.1).1).toList
  let leading := found.2 + ((toString found.1).length : Int) - 1
  if -4 ≤ leading ∧ leading < 16 then positional digits (leading + 1)
  else exponential digits leading

/-- The text of a floating-point number. -/
def floatText (x : Float) : String :=
  match Shape.ofFloat x with
  | .nan => "nan"
  | .infinite negative => if negative then "-inf" else "inf"
  | .zero negative => if negative then "-0.0" else "0.0"
  | .finite negative size =>
    String.ofList ((if negative then ['-'] else []) ++ binaryText size)

end Decimal
end RubySource
