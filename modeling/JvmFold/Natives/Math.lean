import JvmFold.Natives.Numbers

/-!
# Arithmetic

The functions of arithmetic whose results are exactly defined. Integer
functions that promise an exact result throw where it does not fit.

## Main definitions

* `Natives.mathMethods`: The functions.
-/

namespace JvmFold

namespace Natives

/-- The greater of two floating-point numbers: a NaN if one is, and the positive of two zeros. -/
def floatMax (f : FloatFormat) (a b : Nat) : Nat :=
  if f.isNaN a || f.isNaN b then f.nan
  else if f.isZero a && f.isZero b then if f.isNegative a then b else a
  else if f.orderKey b ≤ f.orderKey a then a
  else b

/-- The smaller of two floating-point numbers: a NaN if one is, and the negative of two zeros. -/
def floatMin (f : FloatFormat) (a b : Nat) : Nat :=
  if f.isNaN a || f.isNaN b then f.nan
  else if f.isZero a && f.isZero b then if f.isNegative a then a else b
  else if f.orderKey a ≤ f.orderKey b then a
  else b

/-- The sign of a number as a number; zeros and NaNs stay. -/
def floatSign (f : FloatFormat) (a : Nat) : Nat :=
  if f.isNaN a || f.isZero a then a else f.withSign (f.isNegative a) (f.ofInt 1)

/-- A power, with two answers that hold whatever the base: a NaN exponent makes a NaN, and so does
    an infinite exponent of one or minus one. -/
def power (a b : Bits64) : Bits64 :=
  let f := FloatFormat.double
  if f.isNaN b.toNat then f.nan.toUInt64
  else if f.magnitude a.toNat == f.ofInt 1 && f.isInfinite b.toNat then f.nan.toUInt64
  else a.pow b

/-- A function of a `float`. -/
def onFloat (op : FloatFormat → Nat → Nat) : Native := fun args => do
  float (op .single (← argFloat args 0).toNat).toUInt32

/-- A function of a `double`. -/
def onDouble (op : FloatFormat → Nat → Nat) : Native := fun args => do
  double (op .double (← argDouble args 0).toNat).toUInt64

/-- A function of two values of type `float`. -/
def onFloats (op : FloatFormat → Nat → Nat → Nat) : Native := fun args => do
  let a ← argFloat args 0
  float (op .single a.toNat (← argFloat args 1).toNat).toUInt32

/-- A function of two values of type `double`. -/
def onDoubles (op : FloatFormat → Nat → Nat → Nat) : Native := fun args => do
  let a ← argDouble args 0
  double (op .double a.toNat (← argDouble args 1).toNat).toUInt64

/-- An integer that must fit an `int`. -/
def exactInt (v : Int) : Emu (Option Value) :=
  if Int32.minValue.toInt ≤ v ∧ v ≤ Int32.maxValue.toInt then int (Int32.ofInt v)
  else Emu.raise "java/lang/ArithmeticException" (some "integer overflow")

/-- An integer that must fit a `long`. -/
def exactLong (v : Int) : Emu (Option Value) :=
  if Int64.minValue.toInt ≤ v ∧ v ≤ Int64.maxValue.toInt then long (Int64.ofInt v)
  else Emu.raise "java/lang/ArithmeticException" (some "long overflow")

/-- An exact function of an `int`. -/
def exactInt₁ (op : Int → Int) : Native := fun args => do
  exactInt (op (← argInt args 0).toInt)

/-- An exact function of a `long`. -/
def exactLong₁ (op : Int → Int) : Native := fun args => do
  exactLong (op (← argLong args 0).toInt)

/-- An exact function of two values of type `int`. -/
def exactInt₂ (op : Int → Int → Int) : Native := fun args => do
  let a ← argInt args 0
  exactInt (op a.toInt (← argInt args 1).toInt)

/-- An exact function of two values of type `long`. -/
def exactLong₂ (op : Int → Int → Int) : Native := fun args => do
  let a ← argLong args 0
  exactLong (op a.toInt (← argLong args 1).toInt)

/-- A division of two values of type `int`. -/
def divideInts (op : Int32 → Int32 → Int32) : Native := fun args => do
  let a ← argInt args 0
  let b ← argInt args 1
  if b = 0 then Emu.raiseZeroDivision else int (op a b)

/-- A division of two values of type `long`. -/
def divideLongs (op : Int64 → Int64 → Int64) : Native := fun args => do
  let a ← argLong args 0
  let b ← argLong args 1
  if b = 0 then Emu.raiseZeroDivision else long (op a b)

/-- The remainder of two values of type `int`, taken together with their quotient: the machine
    breaks off if that is beyond the greatest `int`. -/
def strictRemainder (a b : Int32) : Emu Int32 :=
  if a = Int32.minValue ∧ b = -1 then throw .aborted else return a % b

/-- The quotient of two values of type `int` rounded down. Unlike that of two values of type `long`
    it takes the strict remainder. -/
def floorDivInts : Native := fun args => do
  let a ← argInt args 0
  let b ← argInt args 1
  if b = 0 then Emu.raiseZeroDivision
  else
    let remainder ← strictRemainder a b
    int (.ofBitVec (Word.floorDiv a.toBitVec b.toBitVec remainder.toBitVec))

/-- The quotient of two values of type `long` rounded down. -/
def floorDivLongs : Native :=
  divideLongs fun a b => .ofBitVec (Word.floorDiv a.toBitVec b.toBitVec (a % b).toBitVec)

/-- The remainder of two values of type `int` that goes with the quotient rounded down. -/
def floorModInts : Native :=
  divideInts fun a b => .ofBitVec (Word.floorMod a.toBitVec b.toBitVec)

/-- The remainder of two values of type `long` that goes with the quotient rounded down. -/
def floorModLongs : Native :=
  divideLongs fun a b => .ofBitVec (Word.floorMod a.toBitVec b.toBitVec)

/-- The functions. -/
def mathMethods : List Builtin :=
  [method "abs" "(I)I" fun args => do
     let v ← argInt args 0
     int (if v < 0 then -v else v),
   method "abs" "(J)J" fun args => do
     let v ← argLong args 0
     long (if v < 0 then -v else v),
   method "abs" "(F)F" (onFloat FloatFormat.magnitude),
   method "abs" "(D)D" (onDouble FloatFormat.magnitude),
   method "max" "(II)I" (onInts max),
   method "max" "(JJ)J" (onLongs max),
   method "max" "(FF)F" (onFloats floatMax),
   method "max" "(DD)D" (onDoubles floatMax),
   method "min" "(II)I" (onInts min),
   method "min" "(JJ)J" (onLongs min),
   method "min" "(FF)F" (onFloats floatMin),
   method "min" "(DD)D" (onDoubles floatMin),
   method "floor" "(D)D" (onDouble fun f => f.roundIntegral .down),
   method "ceil" "(D)D" (onDouble fun f => f.roundIntegral .up),
   method "rint" "(D)D" (onDouble fun f => f.roundIntegral .halfEven),
   method "sqrt" "(D)D" fun args => do double (← argDouble args 0).sqrt,
   method "pow" "(DD)D" fun args => do
     let a ← argDouble args 0
     double (power a (← argDouble args 1)),
   method "signum" "(D)D" (onDouble floatSign),
   method "signum" "(F)F" (onFloat floatSign),
   method "round" "(D)J" fun args => do
     let b ← argDouble args 0
     long (.ofInt
       (FloatFormat.double.roundHalfUp Int64.minValue.toInt Int64.maxValue.toInt b.toNat)),
   method "round" "(F)I" fun args => do
     let b ← argFloat args 0
     int (.ofInt
       (FloatFormat.single.roundHalfUp Int32.minValue.toInt Int32.maxValue.toInt b.toNat)),
   method "addExact" "(II)I" (exactInt₂ (· + ·)),
   method "addExact" "(JJ)J" (exactLong₂ (· + ·)),
   method "subtractExact" "(II)I" (exactInt₂ (· - ·)),
   method "subtractExact" "(JJ)J" (exactLong₂ (· - ·)),
   method "multiplyExact" "(II)I" (exactInt₂ (· * ·)),
   method "multiplyExact" "(JJ)J" (exactLong₂ (· * ·)),
   method "negateExact" "(I)I" (exactInt₁ fun v => -v),
   method "negateExact" "(J)J" (exactLong₁ fun v => -v),
   method "incrementExact" "(I)I" (exactInt₁ (· + 1)),
   method "incrementExact" "(J)J" (exactLong₁ (· + 1)),
   method "decrementExact" "(I)I" (exactInt₁ (· - 1)),
   method "decrementExact" "(J)J" (exactLong₁ (· - 1)),
   method "toIntExact" "(J)I" fun args => do exactInt (← argLong args 0).toInt,
   method "floorDiv" "(II)I" floorDivInts,
   method "floorDiv" "(JJ)J" floorDivLongs,
   method "floorMod" "(II)I" floorModInts,
   method "floorMod" "(JJ)J" floorModLongs]

end Natives

end JvmFold
