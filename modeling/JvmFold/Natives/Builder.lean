import JvmFold.Natives.Strings

/-!
# String Builders

A builder is a text that can change. Most of its methods change it and answer
the builder itself, so that calls can be chained.

## Main definitions

* `Natives.builderMethods`: The methods of builders.
-/

namespace JvmFold

namespace Natives

/-- The reference of the receiver, which must be a builder, and its text. -/
def thisBuilder (args : List Value) : Emu (HeapRef × Units) := do
  let this ← arg args 0
  match ← Emu.lift this.asReference with
  | none => Emu.raiseNull
  | some r =>
    match ← Emu.object r with
    | .builder units => return (r, units)
    | _ => throw (Value.mismatch "java/lang/StringBuilder" this)

/-- The length of the receiver. -/
def builderLength (args : List Value) : Emu Nat := do
  return (← thisBuilder args).2.size

/-- Changes the text of the receiver. -/
def changeBuilder (args : List Value) (f : Units → Units) : Emu Unit := do
  let r := (← thisBuilder args).1
  Emu.modifyObject r fun
    | .builder units => .builder (f units)
    | o => o

/-- Puts a text behind that of the receiver. -/
def appendUnits (args : List Value) (more : Units) : Emu (Option Value) := do
  changeBuilder args fun units => units ++ more
  answerArg args 0

/-- Puts the text of a value of a declared type behind that of the receiver. -/
def appendValue (declared : FieldType) : Native := fun args => do
  appendUnits args (← Emu.valueText (← arg args 1) declared)

/-- Puts the text of an object, which may be missing, behind that of the receiver. -/
def appendSequence : Native := fun args => do
  let v ← arg args 1
  appendUnits args (← if v = .null then pure nullText else Emu.sequenceText v)

/-- Puts a text into that of the receiver. -/
def insertUnits (args : List Value) (more : Units) : Emu (Option Value) := do
  let offset := (← argInt args 1).toInt
  let length ← builderLength args
  if offset < 0 ∨ length < offset then
    raiseIndex ("offset " ++ toString offset ++ ", length " ++ toString length)
  changeBuilder args fun units => units.take offset.toNat ++ more ++ units.drop offset.toNat
  answerArg args 0

/-- Changes one unit. -/
def setCharAt : Native := fun args => do
  let length ← builderLength args
  let i ← checkIndex (← argInt args 1) length
  let u := Value.unitOf (← argInt args 2)
  changeBuilder args fun units => units.setIfInBounds i u
  void

/-- Cuts the text off or fills it up with zeros. -/
def setLength : Native := fun args => do
  let length := (← argInt args 1).toInt
  if length < 0 then raiseIndex ("String index out of range: " ++ toString length)
  let n := length.toNat
  changeBuilder args fun units =>
    if n ≤ units.size then units.shrink n else units ++ Array.replicate (n - units.size) 0
  void

/-- Takes one unit out. -/
def deleteCharAt : Native := fun args => do
  let length ← builderLength args
  let i ← checkIndex (← argInt args 1) length
  changeBuilder args fun units => units.eraseIdxIfInBounds i
  answerArg args 0

/-- Takes a range out, whose end may lie behind that of the text. -/
def deleteRange : Native := fun args => do
  let length ← builderLength args
  let first ← argInt args 1
  let last ← argInt args 2
  let (first, last) ←
    checkRange first (Int32.ofInt (min last.toInt length)) length
  changeBuilder args fun units => units.take first ++ units.drop last
  answerArg args 0

/-- The descriptor of a method that answers the builder itself. -/
def chained (parameters : String) : String :=
  "(" ++ parameters ++ ")Ljava/lang/StringBuilder;"

/-- Takes the text of a string or another object. -/
def builderInitSequence : Native := fun args => do
  let initial ← Emu.sequenceText (← arg args 1)
  changeBuilder args fun _ => initial
  void

/-- The methods of builders. -/
def builderMethods : List Builtin :=
  [method "<init>" "()V" fun _ => void,
   method "<init>" "(I)V" fun args => do
     let capacity := (← argInt args 1).toInt
     if capacity < 0 then
       Emu.raise "java/lang/NegativeArraySizeException" (some (toString capacity))
     void,
   method "<init>" "(Ljava/lang/String;)V" builderInitSequence,
   method "<init>" "(Ljava/lang/CharSequence;)V" builderInitSequence,
   method "length" "()I" fun args => do int (Int32.ofNat (← builderLength args)),
   method "charAt" "(I)C" fun args => do
     let units := (← thisBuilder args).2
     unitAt units (← argInt args 1),
   method "setCharAt" "(IC)V" setCharAt,
   method "setLength" "(I)V" setLength,
   method "toString" "()Ljava/lang/String;" fun args => do
     return some (← Emu.newString (← thisBuilder args).2),
   method "indexOf" "(Ljava/lang/String;)I" fun args => do
     let units := (← thisBuilder args).2.toList
     position (Text.find? units (← argText args 1) 0),
   method "append" (chained "Ljava/lang/String;") (appendValue (.object "java/lang/String")),
   method "append" (chained "Ljava/lang/Object;") (appendValue (.object objectClass)),
   method "append" (chained "Ljava/lang/CharSequence;") appendSequence,
   method "append" (chained "[C") fun args => do
     let more ← charArray (← arg args 1)
     appendUnits args more.toArray,
   method "append" (chained "I") (appendValue .int),
   method "append" (chained "J") (appendValue .long),
   method "append" (chained "F") (appendValue .float),
   method "append" (chained "D") (appendValue .double),
   method "append" (chained "Z") (appendValue .boolean),
   method "append" (chained "C") (appendValue .char),
   method "insert" (chained "ILjava/lang/String;") fun args => do
     let more ← Emu.valueText (← arg args 2) (.object "java/lang/String")
     insertUnits args more,
   method "insert" (chained "IC") fun args => do
     let u := Value.unitOf (← argInt args 2)
     insertUnits args #[u],
   method "deleteCharAt" (chained "I") deleteCharAt,
   method "delete" (chained "II") deleteRange,
   method "reverse" (chained "") fun args => do
     changeBuilder args fun units => (Text.reversePairs units.toList).toArray
     answerArg args 0]

end Natives

end JvmFold
