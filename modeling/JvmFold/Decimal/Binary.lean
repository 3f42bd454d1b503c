/-!
# Binary Floating Point

A floating-point number is kept as its bits, so that equality, hashing and the
payload of a NaN are those of the machine word. This module reads the bits as
what they stand for, a sign, a natural number `m` and a power of two, and
rounds a rational number back to the nearest bits. Both directions are exact
integer arithmetic, which is what makes them usable in a proof.

## Main definitions

* `FloatFormat`: The widths of the two fields behind the sign.
* `FloatView`: What the bits stand for.
* `FloatFormat.view`: Reads bits.
* `FloatFormat.nearest`: Bits of the number nearest to a rational, ties to even.
-/

namespace JvmFold

/-- The bits of a single-precision number. -/
abbrev Bits32 := UInt32

/-- The bits of a double-precision number. -/
abbrev Bits64 := UInt64

/-- The widths of the exponent and the fraction, which stand behind the sign in that order, with the
    numbers that follow from them. -/
structure FloatFormat where
  /-- The number of bits of the fraction. -/
  fractionBits : Nat
  /-- The number of bits of the exponent. -/
  exponentBits : Nat
  /-- The weight of the bit in front of the fraction. -/
  leadingBit : Nat := Nat.pow 2 fractionBits
  /-- The exponent field of infinities and NaNs. -/
  topField : Nat := Nat.pow 2 exponentBits - 1
  /-- The bit that holds the sign. -/
  signBit : Nat := Nat.pow 2 (exponentBits + fractionBits)
  /-- The exponent of the least significant bit of a number with exponent field 1. -/
  leastExponent : Int := 2 - (Nat.pow 2 (exponentBits - 1) : Nat) - fractionBits
deriving DecidableEq, Repr

/-- What the bits of a floating-point number stand for. -/
inductive FloatView where
  | notANumber
  | infinite (negative : Bool)
  /-- The number `± mantissa · 2 ^ exponent`. -/
  | finite (negative : Bool) (mantissa : Nat) (exponent : Int)
deriving DecidableEq, Repr

namespace FloatFormat

/-- Single precision. -/
def single : FloatFormat where
  fractionBits := 23
  exponentBits := 8

/-- Double precision. -/
def double : FloatFormat where
  fractionBits := 52
  exponentBits := 11

variable (f : FloatFormat)

/-- Reads bits as a sign, a natural number and a power of two. -/
def view (bits : Nat) : FloatView :=
  let negative := bits / f.signBit % 2 == 1
  let field := bits / f.leadingBit % (f.topField + 1)
  let fraction := bits % f.leadingBit
  if field = f.topField then
    if fraction = 0 then .infinite negative else .notANumber
  else if field = 0 then .finite negative fraction f.leastExponent
  else .finite negative (f.leadingBit + fraction) (f.leastExponent + (field - 1 : Nat))

/-- The quotient rounded to the nearest natural number, a half to the even neighbour. -/
def roundHalfEven (num den : Nat) : Nat :=
  let q := num / den
  let twice := 2 * (num % den)
  if twice < den then q
  else if den < twice then q + 1
  else if q % 2 = 0 then q else q + 1

/-- The bits of the positive number nearest to `num / den`, without a sign; ties go to the even
    mantissa and what is too large becomes infinite. -/
def nearest (num den : Nat) : Nat :=
  if num = 0 then 0
  else
    -- The quotient lies between `2 ^ (size - 1)` and `2 ^ (size + 1)`.
    let size : Int := (num.log2 : Int) - den.log2
    let guess : Int := max f.leastExponent (size - f.fractionBits)
    -- The least exponent at which the mantissa stays below twice the leading bit.
    let mantissaAt (e : Int) : Nat :=
      roundHalfEven (num * Nat.pow 2 (-e).toNat) (den * Nat.pow 2 e.toNat)
    let isFull (e : Int) : Bool :=
      f.leadingBit * (den * Nat.pow 2 e.toNat) ≤ num * Nat.pow 2 (-e).toNat
    let exponent : Int := if isFull guess then guess else max f.leastExponent (guess - 1)
    let mantissa := mantissaAt exponent
    -- A mantissa that rounds up to twice the leading bit carries into the exponent field by itself.
    let bits := (exponent - f.leastExponent).toNat * f.leadingBit + mantissa
    min bits (f.topField * f.leadingBit)

end FloatFormat

end JvmFold
