import JvmFold.Natives.Box
import JvmFold.Natives.Strings
import JvmFold.Number.Word

/-!
# Numbers and Characters

The static methods that each class of boxes has for the values it holds: bits
and digits of integers, kinds of floating-point numbers, classes of
characters.

## Main definitions

* `Natives.integerMethods` and its companions: One list for each class of boxes.
* `Natives.wrapperMethods`: All methods of a class of boxes.
-/

namespace JvmFold

namespace Natives

/-- The digits of a word as a new string. -/
def wordText (radix n : Nat) : Emu (Option Value) :=
  text (String.ofList (Radix.renderNat radix n))

/-- A count as an answer. -/
def count (n : Nat) : Emu (Option Value) :=
  int (Int32.ofNat n)

/-- A method of a word of 32 bits. -/
def onWord32 (f : Nat → Emu (Option Value)) : Native := fun args => do
  f (← argInt args 0).toUInt32.toNat

/-- A method of a word of 64 bits. -/
def onWord64 (f : Nat → Emu (Option Value)) : Native := fun args => do
  f (← argLong args 0).toUInt64.toNat

/-- A method of two values of type `int`. -/
def onInts (f : Int32 → Int32 → Int32) : Native := fun args => do
  let a ← argInt args 0
  int (f a (← argInt args 1))

/-- A method of two values of type `long`. -/
def onLongs (f : Int64 → Int64 → Int64) : Native := fun args => do
  let a ← argLong args 0
  long (f a (← argLong args 1))

/-- The text of an `int` in a radix; a radix out of range counts as ten. -/
def textInRadix : Native := fun args => do
  let v := (← argInt args 0).toInt
  let radix := (← argInt args 1).toInt
  let radix := if 2 ≤ radix ∧ radix ≤ 36 then radix.toNat else 10
  text (String.ofList (Radix.render radix v))

/-- The methods of the class of `int` boxes. -/
def integerMethods : List Builtin :=
  valueMethods .integer ++ parseMethods .integer "parseInt" ++
  [method "valueOf" "(Ljava/lang/String;I)Ljava/lang/Integer;" (parseBoxed .integer),
   radixMethod .integer "parseInt",
   method "toString" "(II)Ljava/lang/String;" textInRadix,
   method "toHexString" "(I)Ljava/lang/String;" (onWord32 (wordText 16)),
   method "toBinaryString" "(I)Ljava/lang/String;" (onWord32 (wordText 2)),
   method "toOctalString" "(I)Ljava/lang/String;" (onWord32 (wordText 8)),
   method "bitCount" "(I)I" (onWord32 fun n => count (Word.bitCount 32 n)),
   method "numberOfLeadingZeros" "(I)I" (onWord32 fun n => count (Word.leadingZeros 32 n)),
   method "numberOfTrailingZeros" "(I)I" (onWord32 fun n => count (Word.trailingZeros 32 n)),
   method "signum" "(I)I" fun args => do int (Int32.ofInt (← argInt args 0).toInt.sign),
   method "sum" "(II)I" (onInts (· + ·)),
   method "max" "(II)I" (onInts max),
   method "min" "(II)I" (onInts min)]

/-- The methods of the class of `long` boxes. -/
def longMethods : List Builtin :=
  valueMethods .long ++ parseMethods .long "parseLong" ++
  [radixMethod .long "parseLong",
   method "toHexString" "(J)Ljava/lang/String;" (onWord64 (wordText 16)),
   method "toBinaryString" "(J)Ljava/lang/String;" (onWord64 (wordText 2)),
   method "bitCount" "(J)I" (onWord64 fun n => count (Word.bitCount 64 n)),
   method "numberOfLeadingZeros" "(J)I" (onWord64 fun n => count (Word.leadingZeros 64 n)),
   method "numberOfTrailingZeros" "(J)I" (onWord64 fun n => count (Word.trailingZeros 64 n)),
   method "signum" "(J)I" fun args => do int (Int32.ofInt (← argLong args 0).toInt.sign),
   method "sum" "(JJ)J" (onLongs (· + ·)),
   method "max" "(JJ)J" (onLongs max),
   method "min" "(JJ)J" (onLongs min)]

/-- The methods of the class of `short` boxes. -/
def shortMethods : List Builtin :=
  valueMethods .short ++ parseMethods .short "parseShort" ++ [radixMethod .short "parseShort"]

/-- The methods of the class of `byte` boxes. -/
def byteMethods : List Builtin :=
  valueMethods .byte ++ parseMethods .byte "parseByte" ++ [radixMethod .byte "parseByte"]

/-- A test of a `float`. -/
def floatTest (test : FloatFormat → Nat → Bool) : Native := fun args => do
  bool (test .single (← argFloat args 0).toNat)

/-- A test of a `double`. -/
def doubleTest (test : FloatFormat → Nat → Bool) : Native := fun args => do
  bool (test .double (← argDouble args 0).toNat)

/-- The methods of the class of `float` boxes. -/
def floatMethods : List Builtin :=
  valueMethods .float ++ parseMethods .float "parseFloat" ++
  [method "isNaN" "(F)Z" (floatTest FloatFormat.isNaN),
   method "isNaN" "()Z" fun args => do
     bool (← Emu.lift (← unboxThis args).asFloat).isNaN,
   method "isInfinite" "(F)Z" (floatTest FloatFormat.isInfinite),
   method "isFinite" "(F)Z" (floatTest FloatFormat.isFinite),
   method "floatToIntBits" "(F)I" fun args => do
     int (← argFloat args 0).canonical.toInt32,
   method "floatToRawIntBits" "(F)I" fun args => do int (← argFloat args 0).toInt32,
   method "intBitsToFloat" "(I)F" fun args => do float (← argInt args 0).toUInt32]

/-- The methods of the class of `double` boxes. -/
def doubleMethods : List Builtin :=
  valueMethods .double ++ parseMethods .double "parseDouble" ++
  [method "isNaN" "(D)Z" (doubleTest FloatFormat.isNaN),
   method "isNaN" "()Z" fun args => do
     bool (← Emu.lift (← unboxThis args).asDouble).isNaN,
   method "isInfinite" "(D)Z" (doubleTest FloatFormat.isInfinite),
   method "isFinite" "(D)Z" (doubleTest FloatFormat.isFinite),
   method "doubleToLongBits" "(D)J" fun args => do
     long (← argDouble args 0).canonical.toInt64,
   method "doubleToRawLongBits" "(D)J" fun args => do long (← argDouble args 0).toInt64,
   method "longBitsToDouble" "(J)D" fun args => do double (← argLong args 0).toUInt64]

/-- The methods of the class of `boolean` boxes. -/
def booleanMethods : List Builtin :=
  valueMethods .boolean ++ parseMethods .boolean "parseBoolean" ++
  [method "booleanValue" "()Z" fun args => return some (← unboxThis args)]

/-- A test of a character. -/
def unitTest (test : UInt16 → Bool) : Native := fun args => do
  bool (test (Value.unitOf (← argInt args 0)))

/-- A map of characters. -/
def unitMap (f : UInt16 → UInt16) : Native := fun args => do
  int (f (Value.unitOf (← argInt args 0))).toUInt32.toInt32

/-- The value of a digit in a radix, and -1 for what is none. -/
def digitValue : Native := fun args => do
  let radix := (← argInt args 1).toInt
  let u := Value.unitOf (← argInt args 0)
  if 2 ≤ radix ∧ radix ≤ 36 ∧ !Utf16.isSurrogate u.toNat then
    position (Radix.digit? radix.toNat (Char.ofNat u.toNat))
  else int (-1)

/-- The methods of the class of `char` boxes. -/
def characterMethods : List Builtin :=
  valueMethods .character ++
  [method "charValue" "()C" fun args => return some (← unboxThis args),
   method "isDigit" "(C)Z" (unitTest Text.isNumeric),
   method "isLetter" "(C)Z" (unitTest Text.isAlphabetic),
   method "isLetterOrDigit" "(C)Z" (unitTest fun u => Text.isAlphabetic u || Text.isNumeric u),
   method "isWhitespace" "(C)Z" (unitTest isBlank),
   method "isUpperCase" "(C)Z" (unitTest Text.isUppercase),
   method "isLowerCase" "(C)Z" (unitTest Text.isLowercase),
   method "toUpperCase" "(C)C" (unitMap Text.simpleUpper),
   method "toLowerCase" "(C)C" (unitMap Text.simpleLower),
   method "digit" "(CI)I" digitValue]

/-- All methods of a class of boxes. -/
def wrapperMethods (w : Wrapper) : List Builtin :=
  boxMethods w ++
    match w with
    | .integer => numberMethods ++ integerMethods
    | .long => numberMethods ++ longMethods
    | .short => numberMethods ++ shortMethods
    | .byte => numberMethods ++ byteMethods
    | .float => numberMethods ++ floatMethods
    | .double => numberMethods ++ doubleMethods
    | .boolean => booleanMethods
    | .character => characterMethods

end Natives

end JvmFold
