import JvmFold.Natives.Basic
import JvmFold.Text.Case
import JvmFold.Text.CharClass
import JvmFold.Text.Search

/-!
# Strings

The methods of strings. They work on 16-bit units, so an unpaired surrogate
goes through all of them unchanged. Where a method would answer a string equal
to the one it was called on, several of them answer the receiver itself.

## Main definitions

* `Natives.stringMethods`: The methods of strings.
* `Natives.isBlank`: What counts as a blank.
-/

namespace JvmFold

namespace Natives

/-- The units of the receiver. -/
def thisUnits (args : List Value) : Emu Units := do
  Emu.stringUnits (← arg args 0)

/-- The text of the receiver. -/
def thisText (args : List Value) : Emu (List UInt16) := do
  return (← thisUnits args).toList

/-- The text of a string among the values of the call. -/
def argText (args : List Value) (i : Nat) : Emu (List UInt16) := do
  return (← Emu.stringUnits (← arg args i)).toList

/-- The text of a string, a builder or another object among the values of the call. -/
def argSequence (args : List Value) (i : Nat) : Emu (List UInt16) := do
  return (← Emu.sequenceText (← arg args i)).toList

/-- Throws the exception for a position outside a text. -/
def raiseIndex {α : Type} (message : String) : Emu α :=
  Emu.raise "java/lang/StringIndexOutOfBoundsException" (some message)

/-- A position in a text of the given length. -/
def checkIndex (index : Int32) (length : Nat) : Emu Nat :=
  if 0 ≤ index.toInt ∧ index.toInt < length then return index.toInt.toNat
  else
    raiseIndex ("Index " ++ toString index.toInt ++ " out of bounds for length "
      ++ toString length)

/-- The ends of a range in a text of the given length. -/
def checkRange (first last : Int32) (length : Nat) : Emu (Nat × Nat) :=
  if first.toInt < 0 ∨ last < first ∨ length < last.toInt then
    raiseIndex ("begin " ++ toString first.toInt ++ ", end " ++ toString last.toInt ++ ", length "
      ++ toString length)
  else return (first.toInt.toNat, last.toInt.toNat)

/-- The units from one position up to another. -/
def slice (units : List UInt16) (first last : Nat) : List UInt16 :=
  (units.drop first).take (last - first)

/-- A position as an answer, with -1 for none. -/
def position (found : Option Nat) : Emu (Option Value) :=
  int ((found.map fun i => Int32.ofNat i).getD (-1))

/-- The units of a code point; nothing for a number that is none. -/
def codePointUnits (v : Int32) : List UInt16 :=
  if 0 ≤ v.toInt ∧ v.toInt ≤ 0x10FFFF then Utf16.ofCodePoint v.toInt.toNat else []

/-- Whether the unit is a blank: control characters that separate count, and spaces that do not
    break do not. -/
def isBlank (u : UInt16) : Bool :=
  if (0x09 ≤ u && u ≤ 0x0D) || (0x1C ≤ u && u ≤ 0x1F) then true
  else if u == 0x85 || u == 0xA0 || u == 0x2007 || u == 0x202F then false
  else Text.isWhitespace u

/-- The units of an array of characters. -/
def charArray (v : Value) : Emu (List UInt16) := do
  match ← Emu.lift v.asReference with
  | none => Emu.raiseNull
  | some r =>
    match ← Emu.object r with
    | .array _ elements =>
      Emu.lift (elements.toList.mapM fun e => return Value.unitOf (← e.asInt))
    | .string _ => throw (.typeMismatch "char[]" "java/lang/String")
    | _ => throw (.typeMismatch "char[]" "object")

/-- Makes the receiver a string of the given text. -/
def becomeString (args : List Value) (units : List UInt16) : Emu (Option Value) := do
  if let some r ← Emu.lift (← arg args 0).asReference then
    Emu.modifyObject r fun _ => .string units.toArray
  void

/-- Takes the text of a string, a builder or another object. -/
def stringInitSequence : Native := fun args => do
  let units ← argSequence args 1
  becomeString args units

/-- Takes a range of an array of characters. -/
def stringInitRange : Native := fun args => do
  let units ← charArray (← arg args 1)
  let offset ← argInt args 2
  let count ← argInt args 3
  let last :=
    FloatFormat.clamp Int32.minValue.toInt Int32.maxValue.toInt (offset.toInt + count.toInt)
  let (first, last) ← checkRange offset (Int32.ofInt last) units.length
  becomeString args (slice units first last)

/-- The unit at a position. -/
def unitAt (units : Units) (index : Int32) : Emu (Option Value) := do
  let i ← checkIndex index units.size
  int (units.getD i 0).toUInt32.toInt32

/-- The code point that starts at a position. -/
def codePointAt : Native := fun args => do
  let units ← thisUnits args
  let i ← checkIndex (← argInt args 1) units.size
  int (Int32.ofNat ((Utf16.codePoints (units.extract i (i + 2)).toList).headD 0))

/-- Whether the other value is a string of the same text. -/
def stringEquals : Native := fun args => do
  let units ← thisUnits args
  match (← arg args 1).reference? with
  | none => bool false
  | some r =>
    match ← Emu.object r with
    | .string other => bool (units == other)
    | _ => bool false

/-- Whether two units differ in case at most. -/
def sameButCase (a b : UInt16) : Bool :=
  a == b || Text.simpleUpper a == Text.simpleUpper b || Text.simpleLower a == Text.simpleLower b

/-- Whether the other value is a string that differs in case at most. -/
def stringEqualsIgnoringCase : Native := fun args => do
  let units ← thisText args
  if (← arg args 1) = .null then bool false
  else
    let other ← argText args 1
    bool (units.length == other.length && (units.zip other).all fun p => sameButCase p.1 p.2)

/-- The order of two texts. -/
def stringCompare : Native := fun args => do
  let units ← thisText args
  int (Int32.ofInt (Text.compareUnits units (← argText args 1)))

/-- The order of two texts whose case does not count. -/
def stringCompareIgnoringCase : Native := fun args => do
  let fold (units : List UInt16) : List UInt16 :=
    units.map fun u => Text.simpleLower (Text.simpleUpper u)
  let units ← thisText args
  int (Int32.ofInt (Text.compareUnits (fold units) (fold (← argText args 1))))

/-- Where a search starts, if the call says so. -/
def startIndex (args : List Value) (i : Nat) : Emu Nat := do
  return (← argIntOr args i 0).toInt.toNat

/-- The first position of a code point. -/
def indexOfPoint : Native := fun args => do
  let units ← thisText args
  let needle := codePointUnits (← argInt args 1)
  let start ← startIndex args 2
  position (if needle.isEmpty then none else Text.find? units needle start)

/-- The first position of a text; an empty one is found at the end if the search starts behind it.
    -/
def indexOfText : Native := fun args => do
  let units ← thisText args
  let needle ← argText args 1
  let start ← startIndex args 2
  if units.length < start then position (if needle.isEmpty then some units.length else none)
  else position (Text.find? units needle start)

/-- The last position of a code point. -/
def lastIndexOfPoint : Native := fun args => do
  let units ← thisText args
  let needle := codePointUnits (← argInt args 1)
  position (if needle.isEmpty then none else Text.findLast? units needle)

/-- The last position of a text. -/
def lastIndexOfText : Native := fun args => do
  let units ← thisText args
  position (Text.findLast? units (← argText args 1))

/-- Whether a text stands at a position, zero if the call gives none. -/
def startsWith : Native := fun args => do
  let units ← thisText args
  let start ← argText args 1
  let offset := (← argIntOr args 2 0).toInt
  if offset < 0 ∨ units.length < offset then bool false
  else bool (start.isPrefixOf (units.drop offset.toNat))

/-- A part of the text, to its end if the call gives none. -/
def substring : Native := fun args => do
  let units ← thisUnits args
  let first ← argInt args 1
  let last ← argIntOr args 2 (Int32.ofNat units.size)
  let (first, last) ← checkRange first last units.size
  if first = 0 ∧ last = units.size then answerArg args 0
  else return some (← Emu.newString (units.extract first last))

/-- The text with another behind it. -/
def concat : Native := fun args => do
  let units ← thisUnits args
  let other ← Emu.stringUnits (← arg args 1)
  if other.isEmpty then answerArg args 0 else return some (← Emu.newString (units ++ other))

/-- The units behind `acc` as many times as the count says. -/
def repeated (units : Units) : Nat → Units → Units
  | 0, acc => acc
  | n + 1, acc => repeated units n (acc ++ units)

/-- The text several times over. -/
def repeatText : Native := fun args => do
  let units ← thisUnits args
  let count := (← argInt args 1).toInt
  if count < 0 then
    Emu.raise "java/lang/IllegalArgumentException"
      (some ("count is negative: " ++ toString count))
  else if 0x7fffffff < units.size * count then
    Emu.raise "java/lang/OutOfMemoryError" (some "Repeating string is too long")
  else if units.isEmpty then return some (← Emu.newString #[])
  else return some (← Emu.newString (repeated units count.toNat #[]))

/-- The text with one unit in the place of another. -/
def replaceUnit : Native := fun args => do
  let units ← thisText args
  let old := Value.unitOf (← argInt args 1)
  let new := Value.unitOf (← argInt args 2)
  if units.contains old then Natives.units (units.map fun u => if u = old then new else u)
  else answerArg args 0

/-- The text with one text in the place of another. -/
def replaceText : Native := fun args => do
  let units ← thisText args
  let old ← argSequence args 1
  let new ← argSequence args 2
  if (Text.find? units old 0).isNone then answerArg args 0
  else Natives.units (Text.replace units old new)

/-- The text without the units at both ends that pass the test. -/
def trimmed (test : UInt16 → Bool) : Native := fun args => do
  let units ← thisText args
  let kept := Text.trimUnits test units
  if kept.length = units.length then answerArg args 0 else Natives.units kept

/-- The units of the text in an array. -/
def toCharArray : Native := fun args => do
  let units ← thisUnits args
  let elements := units.map fun u => Value.int u.toUInt32.toInt32
  return some (.ref (← Emu.alloc (.array .char elements)))

/-- The canonical string of the same text. -/
def internString : Native := fun args => do
  let _ ← thisUnits args
  match (← arg args 0).reference? with
  | some r => return some (.ref (← Emu.onHeap (·.internExisting r)))
  | none => return some .null

/-- The text of a value of a declared type as a new string. -/
def valueOf (declared : FieldType) : Native := fun args => do
  return some (← Emu.newString (← Emu.valueText (← arg args 0) declared))

/-- The text of an object; a string is its own. -/
def valueOfObject : Native := fun args => do
  let v ← arg args 0
  if let some r := v.reference? then
    if let .string _ ← Emu.object r then return some v
  valueOf (.object objectClass) args

/-- The texts of objects with another between each two. -/
def join : Native := fun args => do
  let separator ← argSequence args 0
  let elements ← Emu.object (← argObject args 1)
  match elements with
  | .array _ elements =>
    let parts ← elements.toList.mapM fun e =>
      if e = .null then pure nullText.toList
      else do return (← Emu.sequenceText e).toList
    Natives.units (separator.intercalate parts)
  | _ => throw (.unsupported .joinNonArray)

/-- The methods of strings. -/
def stringMethods : List Builtin :=
  [method "<init>" "()V" fun args => becomeString args [],
   method "<init>" "(Ljava/lang/String;)V" stringInitSequence,
   method "<init>" "([C)V" fun args => do
     let units ← charArray (← arg args 1)
     becomeString args units,
   method "<init>" "([CII)V" stringInitRange,
   method "<init>" "(Ljava/lang/StringBuilder;)V" stringInitSequence,
   method "length" "()I" fun args => do int (Int32.ofNat (← thisUnits args).size),
   method "isEmpty" "()Z" fun args => do bool (← thisUnits args).isEmpty,
   method "isBlank" "()Z" fun args => do bool ((← thisText args).all isBlank),
   method "charAt" "(I)C" fun args => do unitAt (← thisUnits args) (← argInt args 1),
   method "codePointAt" "(I)I" codePointAt,
   method "equals" "(Ljava/lang/Object;)Z" stringEquals,
   method "equalsIgnoreCase" "(Ljava/lang/String;)Z" stringEqualsIgnoringCase,
   method "hashCode" "()I" fun args => do int (Text.hashUnits (← thisText args)),
   method "compareTo" "(Ljava/lang/String;)I" stringCompare,
   method "compareTo" "(Ljava/lang/Object;)I" stringCompare,
   method "compareToIgnoreCase" "(Ljava/lang/String;)I" stringCompareIgnoringCase,
   method "indexOf" "(I)I" indexOfPoint,
   method "indexOf" "(II)I" indexOfPoint,
   method "indexOf" "(Ljava/lang/String;)I" indexOfText,
   method "indexOf" "(Ljava/lang/String;I)I" indexOfText,
   method "lastIndexOf" "(I)I" lastIndexOfPoint,
   method "lastIndexOf" "(Ljava/lang/String;)I" lastIndexOfText,
   method "contains" "(Ljava/lang/CharSequence;)Z" fun args => do
     let units ← thisText args
     bool (Text.find? units (← argSequence args 1) 0).isSome,
   method "startsWith" "(Ljava/lang/String;)Z" startsWith,
   method "startsWith" "(Ljava/lang/String;I)Z" startsWith,
   method "endsWith" "(Ljava/lang/String;)Z" fun args => do
     let units ← thisText args
     bool ((← argText args 1).isSuffixOf units),
   method "substring" "(I)Ljava/lang/String;" substring,
   method "substring" "(II)Ljava/lang/String;" substring,
   method "concat" "(Ljava/lang/String;)Ljava/lang/String;" concat,
   method "repeat" "(I)Ljava/lang/String;" repeatText,
   method "replace" "(CC)Ljava/lang/String;" replaceUnit,
   method "replace" "(Ljava/lang/CharSequence;Ljava/lang/CharSequence;)Ljava/lang/String;"
     replaceText,
   method "trim" "()Ljava/lang/String;" (trimmed fun u => u ≤ 0x20),
   method "strip" "()Ljava/lang/String;" (trimmed isBlank),
   method "toUpperCase" "()Ljava/lang/String;" fun args => do
     units (Text.toUpper (← thisText args)),
   method "toLowerCase" "()Ljava/lang/String;" fun args => do
     units (Text.toLower (← thisText args)),
   method "toCharArray" "()[C" toCharArray,
   method "toString" "()Ljava/lang/String;" fun args => do
     let _ ← thisUnits args
     answerArg args 0,
   method "intern" "()Ljava/lang/String;" internString,
   method "valueOf" "(I)Ljava/lang/String;" (valueOf .int),
   method "valueOf" "(J)Ljava/lang/String;" (valueOf .long),
   method "valueOf" "(F)Ljava/lang/String;" (valueOf .float),
   method "valueOf" "(D)Ljava/lang/String;" (valueOf .double),
   method "valueOf" "(Z)Ljava/lang/String;" (valueOf .boolean),
   method "valueOf" "(C)Ljava/lang/String;" (valueOf .char),
   method "valueOf" "(Ljava/lang/Object;)Ljava/lang/String;" valueOfObject,
   method "valueOf" "([C)Ljava/lang/String;" fun args => do
     units (← charArray (← arg args 0)),
   method "join" "(Ljava/lang/CharSequence;[Ljava/lang/CharSequence;)Ljava/lang/String;" join]

end Natives

end JvmFold
