import JvmFold.Decimal.Binary

/-!
# Shortest Decimals

A floating-point number is written with the fewest decimal digits that still
read back as the same number, and among those with the digits nearest to it.
The numbers that read back form an interval around the value, which includes
its ends exactly if the mantissa is even. For one, two, three digits and so on
the two neighbours of the value on that decimal grid are tested; a point of a
grid inside the interval implies that one of the two neighbours is inside.

## Main definitions

* `Decimal`: Decimal digits with an exponent.
* `Decimal.shortest`: The shortest decimal of `m · 2 ^ e`.
-/

namespace JvmFold

/-- The number `d₁.d₂d₃… · 10 ^ exponent` given by its digits. -/
structure Decimal where
  /-- The digits, most significant first. -/
  digits : List Nat
  /-- The power of ten of the first digit. -/
  exponent : Int
deriving DecidableEq, Repr

namespace Decimal

/-- The decimal digits of a natural number, most significant first. -/
def digitsOf (n : Nat) : List Nat :=
  (Nat.toDigits 10 n).map fun c => c.toNat - '0'.toNat

/-- The greatest `k` with `10 ^ k ≤ num / den`. -/
def log10 (num den : Nat) : Int :=
  if den ≤ num then ((Nat.toDigits 10 (num / den)).length : Int) - 1
  else -((Nat.toDigits 10 ((den - 1) / num)).length : Int)

/-- The decimal `c · 10 ^ scale` without trailing zeros. -/
def ofScaled (c : Nat) (scale : Int) : Decimal :=
  let digits := digitsOf c
  ⟨(digits.reverse.dropWhile (· == 0)).reverse, scale + (digits.length : Int) - 1⟩

/-- An interval around a value, in units of `1 / den`. -/
structure Around where
  /-- The lower end. -/
  low : Nat
  /-- The value. -/
  value : Nat
  /-- The upper end. -/
  high : Nat
  /-- The common denominator. -/
  den : Nat
  /-- Whether the ends belong to the interval. -/
  closed : Bool

/-- The numbers that round to `m · 2 ^ e`; the gap below is half as wide if `narrow` is set. -/
def Around.ofBinary (m : Nat) (e : Int) (narrow : Bool) : Around :=
  let up := Nat.pow 2 (e - 2).toNat
  { low := (4 * m - if narrow then 1 else 2) * up
    value := 4 * m * up
    high := (4 * m + 2) * up
    den := Nat.pow 2 (2 - e).toNat
    closed := m % 2 == 0 }

/-- The point of the grid of step `10 ^ scale` inside the interval that is nearest to the value; of
    two equally near the greater one. -/
def Around.gridPoint? (a : Around) (scale : Int) : Option Nat :=
  let up := Nat.pow 10 (-scale).toNat
  let step := a.den * Nat.pow 10 scale.toNat
  let floor := a.value * up / step
  let below (x y : Nat) : Bool := if a.closed then x ≤ y else x < y
  let down := below (a.low * up) (floor * step)
  let upper := below ((floor + 1) * step) (a.high * up)
  let nearer := (floor + 1) * step + floor * step ≤ 2 * (a.value * up)
  if upper && (!down || nearer) then some (floor + 1)
  else if down then some floor
  else none

/-- The shortest decimal in the interval, looking at up to `most` digits. -/
def Around.shortest (a : Around) (most : Nat) : Decimal :=
  let top := log10 a.value a.den
  let hit (n : Nat) : Option Decimal :=
    (a.gridPoint? (top - n)).map fun c => ofScaled c (top - n)
  ((List.range most).findSome? hit).getD
    (ofScaled (a.value * Nat.pow 10 (most - top).toNat / (a.den * Nat.pow 10 (top - most).toNat))
      (top - most))

/-- The shortest decimal that reads back as the positive number `m · 2 ^ e` of the format. -/
def shortest (f : FloatFormat) (m : Nat) (e : Int) : Decimal :=
  (Around.ofBinary m e (m == f.leadingBit && f.leastExponent < e)).shortest 17

end Decimal

end JvmFold
