/-!
# Shortest decimals

A floating-point number stands for all reals that round to it.  Its shortest decimal is the one with
the fewest digits among them; of several with that many digits it is the nearest to the number, and
of two that are equally near the one with the even last digit.

The interval of reals is kept in exact arithmetic.  With the number written as `m · 2 ^ q`,
distances are measured in quarters of the unit `2 ^ q`: the number is `4 m`, the upper end is
`4 m + 2`, and the lower end is `4 m - 2`, or `4 m - 1` where the spacing below is half of the
spacing above.  The ends themselves round to the number exactly when `m` is even.

## What is here

* `Binary` — a positive number `m · 2 ^ q` and its interval.
* `Binary.hits` — whether a decimal `d · 10 ^ k` lies in the interval.
* `Binary.shortest` — the digits and the exponent of the shortest decimal.
-/

set_option autoImplicit false

namespace RubySource
namespace Decimal

/-- The positive number `mantissa · 2 ^ exponent`; `narrowBelow` tells that the next number below
is only half as far away as the next one above. -/
structure Binary where
  mantissa : Nat
  exponent : Int
  narrowBelow : Bool
  deriving DecidableEq, Repr

namespace Binary

/-- The factors `a` and `b` for which `d · 10 ^ k` is below `x` quarter units exactly when `d · a`
is below `x · b`. -/
def scales (n : Binary) (k : Int) : Nat × Nat :=
  (Nat.pow 10 k.toNat * Nat.pow 2 (2 - n.exponent).toNat,
    Nat.pow 10 (-k).toNat * Nat.pow 2 (n.exponent - 2).toNat)

/-- Whether `d · 10 ^ k` rounds to the number. -/
def hits (n : Binary) (k : Int) (d : Nat) : Bool :=
  let a := (n.scales k).1
  let b := (n.scales k).2
  let low := (4 * n.mantissa - if n.narrowBelow then 1 else 2) * b
  let high := (4 * n.mantissa + 2) * b
  if n.mantissa % 2 = 0 then low ≤ d * a && d * a ≤ high else low < d * a && d * a < high

/-- The greatest multiple of `10 ^ k` that is not above the number, in units of `10 ^ k`. -/
def floorAt (n : Binary) (k : Int) : Nat :=
  4 * n.mantissa * (n.scales k).2 / (n.scales k).1

/-- Twice the distance from `floorAt` to the number, compared with the unit `10 ^ k`. -/
def compareHalf (n : Binary) (k : Int) : Ordering :=
  let a := (n.scales k).1
  compare (2 * (4 * n.mantissa * (n.scales k).2 - n.floorAt k * a)) a

/-- The decimal on the grid of `10 ^ k` that rounds to the number, if there is one. -/
def onGrid? (n : Binary) (k : Int) : Option Nat :=
  let d := n.floorAt k
  match n.hits k d, n.hits k (d + 1) with
  | true, true =>
    match n.compareHalf k with
    | .lt => some d
    | .gt => some (d + 1)
    | .eq => some (if d % 2 = 0 then d else d + 1)
  | true, false => some d
  | false, true => some (d + 1)
  | false, false => none

/-- The exponent of the leading decimal digit: the greatest `e` with `10 ^ e` not above the
number. -/
def leading (n : Binary) : Int :=
  match (List.range 660).find? fun (i : Nat) => n.floorAt (330 - (i : Int)) ≥ 1 with
  | some i => 330 - (i : Int)
  | none => -330

/-- The digits and the exponent of the shortest decimal: it is `digits · 10 ^ exponent`. -/
def shortest (n : Binary) : Nat × Int :=
  let e := n.leading
  match (List.range 18).findSome? fun (i : Nat) =>
      (n.onGrid? (e - (i : Int))).map fun d => (d, e - (i : Int)) with
  | some found => found
  | none => (n.floorAt (e - 17), e - 17)

end Binary

/-- A floating-point number taken apart. -/
inductive Shape
  | nan
  | infinite (negative : Bool)
  | zero (negative : Bool)
  | finite (negative : Bool) (size : Binary)
  deriving DecidableEq, Repr

/-- Take a floating-point number apart. -/
def Shape.ofFloat (x : Float) : Shape :=
  let bits := x.toBits.toNat
  let negative := bits / Nat.pow 2 63 = 1
  let exponent : Nat := bits / Nat.pow 2 52 % 2048
  let fraction : Nat := bits % Nat.pow 2 52
  if exponent = 2047 then (if fraction = 0 then .infinite negative else .nan)
  else if exponent = 0 then
    (if fraction = 0 then .zero negative else .finite negative ⟨fraction, -1074, false⟩)
  else
    .finite negative
      ⟨Nat.pow 2 52 + fraction, (exponent : Int) - 1075, fraction = 0 && exponent ≠ 1⟩

end Decimal
end RubySource
