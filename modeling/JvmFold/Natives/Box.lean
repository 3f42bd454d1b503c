import JvmFold.Natives.Basic
import JvmFold.Number.FloatText

/-!
# Boxes of Primitive Values

What the eight classes of boxes have in common: making a box, taking the value
out, comparing, hashing, and reading a value from text. A method that serves
all of them takes the class as a parameter.

## Main definitions

* `Natives.boxMethods`: The methods of every class of boxes.
* `Natives.numberMethods`: The conversions of boxes of numbers.
* `Natives.parseValue`: Reads a value from text.
-/

namespace JvmFold

namespace Natives

/-- The class of a box and the value in it. -/
def unbox (v : Value) : Emu (Wrapper × Value) := do
  match ← Emu.lift v.asReference with
  | none => Emu.raiseNull (some "Cannot unbox a null value")
  | some r =>
    match ← Emu.object r with
    | .boxed w value => return (w, value)
    | _ => throw (Value.mismatch "boxed primitive" v)

/-- The value in the receiver. -/
def unboxThis (args : List Value) : Emu Value := do
  return (← unbox (← arg args 0)).2

/-- Puts a value into a box that is being made. -/
def boxInit : Native := fun args => do
  let this ← arg args 0
  let v ← arg args 1
  if let some r ← Emu.lift this.asReference then
    Emu.modifyObject r fun
      | .boxed w _ => .boxed w (w.normalize v)
      | o => o
  void

/-- A number as a `double`. -/
def toDouble : Value → Except Fault Bits64
  | .int v => .ok (Bits64.ofInt v.toInt)
  | .long v => .ok (Bits64.ofInt v.toInt)
  | .float b => .ok b.toDouble
  | .double b => .ok b
  | v => .error (Value.mismatch "number" v)

/-- A number as a `float`. -/
def toFloat : Value → Except Fault Bits32
  | .int v => .ok (Bits32.ofInt v.toInt)
  | .long v => .ok (Bits32.ofInt v.toInt)
  | .float b => .ok b
  | .double b => .ok b.toSingle
  | v => .error (Value.mismatch "number" v)

/-- A number as a `long`. -/
def toLong : Value → Except Fault Int64
  | .int v => .ok v.toInt64
  | .long v => .ok v
  | .float b => .ok b.truncate64
  | .double b => .ok b.truncate64
  | v => .error (Value.mismatch "number" v)

/-- A number as an `int`. -/
def toInt : Value → Except Fault Int32
  | .int v => .ok v
  | .long v => .ok v.toInt32
  | .float b => .ok b.truncate32
  | .double b => .ok b.truncate32
  | v => .error (Value.mismatch "number" v)

/-- Whether two boxed values are the same: the zeros differ and all NaNs are one. -/
def sameBoxed : Value → Value → Bool
  | .float a, .float b => a.canonical == b.canonical
  | .double a, .double b => a.canonical == b.canonical
  | a, b => a == b

/-- The halves of a word mixed into a hash code. -/
def hashHalves (bits : UInt64) : Int32 :=
  (bits ^^^ (bits >>> 32)).toUInt32.toInt32

/-- The hash code of a value in a box. -/
def hashBoxed : Wrapper → Value → Except Fault Int32
  | .boolean, .int v => .ok (if v ≠ 0 then 1231 else 1237)
  | _, .int v => .ok v
  | _, .long v => .ok (hashHalves v.toUInt64)
  | _, .float b => .ok b.canonical.toInt32
  | _, .double b => .ok (hashHalves b.canonical)
  | _, v => .error (Value.mismatch "primitive" v)

/-- An order as a number. -/
def orderingInt : Ordering → Int32
  | .lt => -1
  | .eq => 0
  | .gt => 1

/-- The order of two floating-point numbers in which a NaN is greatest and the negative zero comes
    first. -/
def compareTotal (f : FloatFormat) (a b : Nat) : Ordering :=
  match f.isNaN a, f.isNaN b with
  | true, true => .eq
  | true, false => .gt
  | false, true => .lt
  | false, false =>
    (compare (f.orderKey a) (f.orderKey b)).then
      (compare (f.isNegative b).toNat (f.isNegative a).toNat)

/-- The order of two values in boxes of a class. -/
def compareBoxed (w : Wrapper) (a b : Value) : Except Fault Int32 := do
  match w with
  | .integer => return orderingInt (compare (← a.asInt) (← b.asInt))
  | .long => return orderingInt (compare (← a.asLong) (← b.asLong))
  | .short | .byte | .character => return (← a.asInt) - (← b.asInt)
  | .boolean =>
    return orderingInt (compare ((← a.asInt) != 0).toNat ((← b.asInt) != 0).toNat)
  | .float =>
    return orderingInt (compareTotal .single (← a.asFloat).toNat (← b.asFloat).toNat)
  | .double =>
    return orderingInt (compareTotal .double (← a.asDouble).toNat (← b.asDouble).toNat)

/-- Whether the other value is a box of the same class and value. -/
def boxEquals : Native := fun args => do
  let (w, v) ← unbox (← arg args 0)
  match (← arg args 1).reference? with
  | none => bool false
  | some r =>
    match ← Emu.object r with
    | .boxed other value => bool (other == w && sameBoxed v value)
    | _ => bool false

/-- The order of two boxes of one class. -/
def boxCompare : Native := fun args => do
  let (w, a) ← unbox (← arg args 0)
  let (other, b) ← unbox (← arg args 1)
  if other ≠ w then raiseCast other.className w.className
  int (← Emu.lift (compareBoxed w a b))

/-- The text of a value of the class as a new string. -/
def boxedText (w : Wrapper) (v : Value) : Emu (Option Value) := do
  return some (← Emu.newString (← Emu.valueText v w.primitive))

/-- The methods of every class of boxes. -/
def boxMethods (w : Wrapper) : List Builtin :=
  [method "<init>" ("(" ++ w.primitive.descriptor ++ ")V") boxInit,
   method "equals" "(Ljava/lang/Object;)Z" boxEquals,
   method "hashCode" "()I" fun args => do
     let (w, v) ← unbox (← arg args 0)
     int (← Emu.lift (hashBoxed w v)),
   method "compareTo" ("(L" ++ w.className ++ ";)I") boxCompare,
   method "compareTo" "(Ljava/lang/Object;)I" boxCompare,
   method "toString" "()Ljava/lang/String;" fun args => do
     let (w, v) ← unbox (← arg args 0)
     boxedText w v]

/-- The conversions of boxes of numbers. -/
def numberMethods : List Builtin :=
  [method "intValue" "()I" fun args => do int (← Emu.lift (toInt (← unboxThis args))),
   method "longValue" "()J" fun args => do long (← Emu.lift (toLong (← unboxThis args))),
   method "floatValue" "()F" fun args => do float (← Emu.lift (toFloat (← unboxThis args))),
   method "doubleValue" "()D" fun args => do double (← Emu.lift (toDouble (← unboxThis args))),
   method "shortValue" "()S" fun args => do
     int (← Emu.lift (toInt (← unboxThis args))).toInt16.toInt32,
   method "byteValue" "()B" fun args => do
     int (← Emu.lift (toInt (← unboxThis args))).toInt8.toInt32]

/-- Throws the exception for a text that is no number. -/
def raiseFormat {α : Type} (message : String) : Emu α :=
  Emu.raise "java/lang/NumberFormatException" (some message)

/-- Throws the exception that names the text that is no number. -/
def raiseInput {α : Type} (text : String) (radix : Int) : Emu α :=
  raiseFormat ("For input string: \"" ++ text ++ "\""
    ++ if radix = 10 then "" else " under radix " ++ toString radix)

/-- Reads an integer of a range. -/
def parseIntegral (v : Value) (radix : Int) (low high : Int) : Emu Int := do
  if v = .null then raiseFormat "Cannot parse null string: null"
  else if radix < 2 then
    raiseFormat ("radix " ++ toString radix ++ " less than Character.MIN_RADIX")
  else if 36 < radix then
    raiseFormat ("radix " ++ toString radix ++ " greater than Character.MAX_RADIX")
  else
    let text := (← Emu.stringUnits v).toStringLossy
    match Radix.parse? radix.toNat low high text.toList with
    | some n => return n
    | none => raiseInput text radix

/-- Reads an integer of a narrow range, which is first read as an `int`. -/
def parseNarrow (v : Value) (radix : Int) (low high : Int) : Emu Int := do
  let n ← parseIntegral v radix Int32.minValue.toInt Int32.maxValue.toInt
  if n < low ∨ high < n then
    let shown := (v.reference?.bind (← Emu.heap).string?).getD ""
    raiseFormat ("Value out of range. Value:\"" ++ shown ++ "\" Radix:" ++ toString radix)
  else return n

/-- Reads a floating-point number. -/
def parseFloating (v : Value) (f : FloatFormat) : Emu Nat := do
  if v = .null then Emu.raiseNull
  else
    let text := (← Emu.stringUnits v).toStringLossy
    let read := FloatText.read text
    match read with
    | .blank => raiseFormat "empty String"
    | .hexadecimal trimmed => throw (.unsupported (.hexFloat trimmed))
    | _ =>
      match read.round? f with
      | some bits => return bits
      | none => raiseInput text 10

/-- Whether the text is the word for truth in any case. -/
def isTrueText (text : String) : Bool :=
  text.toList.map Char.toLower == "true".toList

/-- Reads a value of a class of boxes from the text in a call, with the radix if the call gives one.
    Characters are not read from text. -/
def parseValue (w : Wrapper) (args : List Value) : Emu Value := do
  let v ← arg args 0
  match w with
  | .integer =>
    let radix := (← argIntOr args 1 10).toInt
    return .int (Int32.ofInt (← parseIntegral v radix Int32.minValue.toInt Int32.maxValue.toInt))
  | .long =>
    let radix := (← argIntOr args 1 10).toInt
    return .long (Int64.ofInt (← parseIntegral v radix Int64.minValue.toInt Int64.maxValue.toInt))
  | .short =>
    let radix := (← argIntOr args 1 10).toInt
    return .int (Int32.ofInt (← parseNarrow v radix Int16.minValue.toInt Int16.maxValue.toInt))
  | .byte =>
    let radix := (← argIntOr args 1 10).toInt
    return .int (Int32.ofInt (← parseNarrow v radix Int8.minValue.toInt Int8.maxValue.toInt))
  | .float => return .float (← parseFloating v .single).toUInt32
  | .double => return .double (← parseFloating v .double).toUInt64
  | .boolean | .character =>
    let text := (v.reference?.bind (← Emu.heap).string?).getD ""
    return .ofBool (isTrueText text)

/-- A box of the value in the call. -/
def boxValue (w : Wrapper) : Native := fun args => do
  return some (← Emu.boxed w (w.normalize (← arg args 0)))

/-- Reads a value. -/
def parse (w : Wrapper) : Native := fun args => do
  return some (← parseValue w args)

/-- Reads a value and boxes it. -/
def parseBoxed (w : Wrapper) : Native := fun args => do
  return some (← Emu.boxed w (← parseValue w args))

/-- The static methods on values of a class: the box, the text, the order and the hash code. -/
def valueMethods (w : Wrapper) : List Builtin :=
  let p := w.primitive.descriptor
  [method "valueOf" ("(" ++ p ++ ")L" ++ w.className ++ ";") (boxValue w),
   method "toString" ("(" ++ p ++ ")Ljava/lang/String;") fun args => do
     boxedText w (← arg args 0),
   method "compare" ("(" ++ p ++ p ++ ")I") fun args => do
     let a ← arg args 0
     int (← Emu.lift (compareBoxed w a (← arg args 1))),
   method "hashCode" ("(" ++ p ++ ")I") fun args => do
     int (← Emu.lift (hashBoxed w (w.normalize (← arg args 0))))]

/-- The static methods that read a value of a class, of which `name` is that of the plain one. -/
def parseMethods (w : Wrapper) (name : String) : List Builtin :=
  [method "valueOf" ("(Ljava/lang/String;)L" ++ w.className ++ ";") (parseBoxed w),
   method name ("(Ljava/lang/String;)" ++ w.primitive.descriptor) (parse w)]

/-- The static method that reads an integer in a given radix. -/
def radixMethod (w : Wrapper) (name : String) : Builtin :=
  method name ("(Ljava/lang/String;I)" ++ w.primitive.descriptor) (parse w)

end Natives

end JvmFold
