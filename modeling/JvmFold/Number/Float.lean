import JvmFold.Decimal.Binary

/-!
# Floating-Point Operations

The operations of the machine on floating-point bits. Comparison, conversion,
rounding to integers and the remainder are exact integer arithmetic on what
the bits stand for, followed by one rounding where the result may need it. The
four basic operations, the square root and powers are those of the hardware.

The bits of a NaN can be seen, so they follow a rule. A NaN among the operands
goes on into the result, the first one if there are two, and becomes quiet on
the way: the first bit of its fraction is set. An operation that makes a NaN
from numbers answers one with the sign set.

## Main definitions

* `Bits32.compare?`, `Bits64.compare?`: The order of numbers; a NaN is not comparable.
* `FloatFormat.ofInt`, `FloatFormat.truncate`, `FloatFormat.convert`: Conversions.
* `FloatFormat.roundIntegral`: Rounding to an integral number.
* `FloatFormat.remainder`: The remainder with the sign of the dividend.
* `Bits32.settle`, `Bits64.settle`: The NaN that an operation answers.
* `Bits32.add`, `Bits64.add` and the other operations of the hardware.
-/

namespace JvmFold

namespace FloatFormat

variable (f : FloatFormat)

/-- The bits of the plainest NaN: quiet, positive and without anything else in its fraction. -/
def nan : Nat :=
  f.topField * f.leadingBit + f.leadingBit / 2

/-- The bits of a NaN made quiet. -/
def quiet (bits : Nat) : Nat :=
  if bits / (f.leadingBit / 2) % 2 = 1 then bits else bits + f.leadingBit / 2

/-- Bits with a sign put on them. -/
def withSign (negative : Bool) (magnitude : Nat) : Nat :=
  if negative then f.signBit + magnitude else magnitude

/-- The bits of an infinity. -/
def infinity (negative : Bool) : Nat :=
  f.withSign negative (f.topField * f.leadingBit)

/-- Whether the sign is set. -/
def isNegative (bits : Nat) : Bool :=
  bits / f.signBit % 2 == 1

/-- The bits without the sign. -/
def magnitude (bits : Nat) : Nat :=
  bits % f.signBit

/-- The bits with the opposite sign. -/
def negate (bits : Nat) : Nat :=
  f.withSign (!f.isNegative bits) (f.magnitude bits)

/-- Whether the bits are those of a NaN. -/
def isNaN (bits : Nat) : Bool :=
  f.topField * f.leadingBit < f.magnitude bits

/-- Whether the bits are those of an infinity. -/
def isInfinite (bits : Nat) : Bool :=
  f.magnitude bits == f.topField * f.leadingBit

/-- Whether the bits are those of a finite number. -/
def isFinite (bits : Nat) : Bool :=
  f.magnitude bits < f.topField * f.leadingBit

/-- Whether the bits are those of a zero. -/
def isZero (bits : Nat) : Bool :=
  f.magnitude bits == 0

/-- An integer in the order of the numbers: magnitudes grow with the bits. -/
def orderKey (bits : Nat) : Int :=
  if f.isNegative bits then -(f.magnitude bits : Int) else f.magnitude bits

/-- The bits of the number nearest to `± m · 2 ^ e`. -/
def ofBinary (negative : Bool) (m : Nat) (e : Int) : Nat :=
  f.withSign negative (f.nearest (m * Nat.pow 2 e.toNat) (Nat.pow 2 (-e).toNat))

/-- The bits of the number nearest to an integer. -/
def ofInt (v : Int) : Nat :=
  f.ofBinary (v < 0) v.natAbs 0

/-- The bits of a NaN in another format: the sign stays, and of the fraction the front. -/
def convertNaN (g : FloatFormat) (bits : Nat) : Nat :=
  let fraction := bits % f.leadingBit * g.leadingBit / f.leadingBit
  g.withSign (f.isNegative bits) (g.quiet (g.topField * g.leadingBit + fraction))

/-- The bits of a number in another format, rounded to the nearest. -/
def convert (g : FloatFormat) (bits : Nat) : Nat :=
  match f.view bits with
  | .notANumber => f.convertNaN g bits
  | .infinite negative => g.infinity negative
  | .finite negative m e => g.ofBinary negative m e

/-- An integer cut to a range. -/
def clamp (low high v : Int) : Int :=
  max low (min high v)

/-- The integer part of a number within a range; the ends of the range stand for what lies outside,
    and zero for a NaN. -/
def truncate (low high : Int) (bits : Nat) : Int :=
  match f.view bits with
  | .notANumber => 0
  | .infinite negative => if negative then low else high
  | .finite negative m e =>
    let whole : Int := if 0 ≤ e then m * Nat.pow 2 e.toNat else (m >>> (-e).toNat : Nat)
    clamp low high (if negative then -whole else whole)

/-- The ways to round to an integral number. -/
inductive Direction where
  | down
  | up
  | halfEven
deriving DecidableEq, Repr

/-- The natural number that the magnitude `m / den` of a number of the given sign rounds to. -/
def Direction.apply (d : Direction) (negative : Bool) (m den : Nat) : Nat :=
  match d, negative with
  | .down, false | .up, true => m / den
  | .down, true | .up, false => (m + den - 1) / den
  | .halfEven, _ => roundHalfEven m den

/-- The integral number that a number rounds to, with the sign it had. -/
def roundIntegral (d : Direction) (bits : Nat) : Nat :=
  match f.view bits with
  | .finite negative m e =>
    if 0 ≤ e then bits
    else f.ofBinary negative (d.apply negative m (Nat.pow 2 (-e).toNat)) 0
  | .infinite _ => bits
  | .notANumber => f.quiet bits

/-- The integer nearest to a number within a range, a half upwards; zero for a NaN. -/
def roundHalfUp (low high : Int) (bits : Nat) : Int :=
  match f.view bits with
  | .notANumber => 0
  | .infinite negative => if negative then low else high
  | .finite negative m e =>
    let numerator : Int := (m * Nat.pow 2 e.toNat : Nat)
    let den : Int := (Nat.pow 2 (-e).toNat : Nat)
    clamp low high
      (Int.fdiv (2 * (if negative then -numerator else numerator) + den) (2 * den))

/-- The remainder of a division that rounds toward zero; it has the sign of the dividend. -/
def remainder (a b : Nat) : Nat :=
  match f.view a, f.view b with
  | .finite negative m e, .finite _ n k =>
    if n = 0 then f.nan
    else
      let low := min e k
      let r := m * Nat.pow 2 (e - low).toNat % (n * Nat.pow 2 (k - low).toNat)
      f.ofBinary negative r low
  | .finite _ _ _, .infinite _ => a
  | _, _ => f.nan

end FloatFormat

namespace Bits32

/-- Whether the number is a NaN. -/
def isNaN (a : Bits32) : Bool :=
  0x7F800000 < (a &&& 0x7FFFFFFF)

/-- An integer in the order of the numbers: magnitudes grow with the bits. -/
def orderKey (a : Bits32) : Int32 :=
  if a < 0x80000000 then a.toInt32 else -(a &&& 0x7FFFFFFF).toInt32

/-- The answer of an operation on two numbers whose result is the given one, up to the bits of a
    NaN. -/
def settle (a b result : Bits32) : Bits32 :=
  if !result.isNaN then result
  else if a.isNaN then a ||| 0x00400000
  else if b.isNaN then b ||| 0x00400000
  else 0xFFC00000

/-- The answer of a hardware operation on two numbers. -/
def lift₂ (op : Float32 → Float32 → Float32) (a b : Bits32) : Bits32 :=
  settle a b (op (Float32.ofBits a) (Float32.ofBits b)).toBits

/-- Sum. -/
def add : Bits32 → Bits32 → Bits32 := lift₂ (· + ·)
/-- Difference. -/
def sub : Bits32 → Bits32 → Bits32 := lift₂ (· - ·)
/-- Product. -/
def mul : Bits32 → Bits32 → Bits32 := lift₂ (· * ·)
/-- Quotient. -/
def div : Bits32 → Bits32 → Bits32 := lift₂ (· / ·)

/-- Remainder. -/
def rem (a b : Bits32) : Bits32 :=
  settle a b (FloatFormat.single.remainder a.toNat b.toNat).toUInt32

/-- Opposite. -/
def neg (a : Bits32) : Bits32 :=
  (FloatFormat.single.negate a.toNat).toUInt32

/-- The number nearest to an integer. -/
def ofInt (v : Int) : Bits32 :=
  (FloatFormat.single.ofInt v).toUInt32

/-- The same number in double precision. -/
def toDouble (a : Bits32) : Bits64 :=
  (FloatFormat.single.convert .double a.toNat).toUInt64

/-- The integer part within the range of `int`. -/
def truncate32 (a : Bits32) : Int32 :=
  Int32.ofInt (FloatFormat.single.truncate Int32.minValue.toInt Int32.maxValue.toInt a.toNat)

/-- The integer part within the range of `long`. -/
def truncate64 (a : Bits32) : Int64 :=
  Int64.ofInt (FloatFormat.single.truncate Int64.minValue.toInt Int64.maxValue.toInt a.toNat)

/-- The order of two numbers; the zeros are equal and a NaN is not comparable. -/
def compare? (a b : Bits32) : Option Ordering :=
  if a.isNaN || b.isNaN then none else some (compare a.orderKey b.orderKey)

/-- The bits with every NaN made the same. -/
def canonical (a : Bits32) : Bits32 :=
  if a.isNaN then FloatFormat.single.nan.toUInt32 else a

end Bits32

namespace Bits64

/-- Whether the number is a NaN. -/
def isNaN (a : Bits64) : Bool :=
  0x7FF0000000000000 < (a &&& 0x7FFFFFFFFFFFFFFF)

/-- An integer in the order of the numbers: magnitudes grow with the bits. -/
def orderKey (a : Bits64) : Int64 :=
  if a < 0x8000000000000000 then a.toInt64 else -(a &&& 0x7FFFFFFFFFFFFFFF).toInt64

/-- The answer of an operation on two numbers whose result is the given one, up to the bits of a
    NaN. -/
def settle (a b result : Bits64) : Bits64 :=
  if !result.isNaN then result
  else if a.isNaN then a ||| 0x0008000000000000
  else if b.isNaN then b ||| 0x0008000000000000
  else 0xFFF8000000000000

/-- The answer of a hardware operation on two numbers. -/
def lift₂ (op : Float → Float → Float) (a b : Bits64) : Bits64 :=
  settle a b (op (Float.ofBits a) (Float.ofBits b)).toBits

/-- Sum. -/
def add : Bits64 → Bits64 → Bits64 := lift₂ (· + ·)
/-- Difference. -/
def sub : Bits64 → Bits64 → Bits64 := lift₂ (· - ·)
/-- Product. -/
def mul : Bits64 → Bits64 → Bits64 := lift₂ (· * ·)
/-- Quotient. -/
def div : Bits64 → Bits64 → Bits64 := lift₂ (· / ·)
/-- Power. -/
def pow : Bits64 → Bits64 → Bits64 := lift₂ Float.pow

/-- Square root. -/
def sqrt (a : Bits64) : Bits64 :=
  settle a a (Float.sqrt (Float.ofBits a)).toBits

/-- Remainder. -/
def rem (a b : Bits64) : Bits64 :=
  settle a b (FloatFormat.double.remainder a.toNat b.toNat).toUInt64

/-- Opposite. -/
def neg (a : Bits64) : Bits64 :=
  (FloatFormat.double.negate a.toNat).toUInt64

/-- The number nearest to an integer. -/
def ofInt (v : Int) : Bits64 :=
  (FloatFormat.double.ofInt v).toUInt64

/-- The nearest number in single precision. -/
def toSingle (a : Bits64) : Bits32 :=
  (FloatFormat.double.convert .single a.toNat).toUInt32

/-- The integer part within the range of `int`. -/
def truncate32 (a : Bits64) : Int32 :=
  Int32.ofInt (FloatFormat.double.truncate Int32.minValue.toInt Int32.maxValue.toInt a.toNat)

/-- The integer part within the range of `long`. -/
def truncate64 (a : Bits64) : Int64 :=
  Int64.ofInt (FloatFormat.double.truncate Int64.minValue.toInt Int64.maxValue.toInt a.toNat)

/-- The order of two numbers; the zeros are equal and a NaN is not comparable. -/
def compare? (a b : Bits64) : Option Ordering :=
  if a.isNaN || b.isNaN then none else some (compare a.orderKey b.orderKey)

/-- The bits with every NaN made the same. -/
def canonical (a : Bits64) : Bits64 :=
  if a.isNaN then FloatFormat.double.nan.toUInt64 else a

end Bits64

end JvmFold
