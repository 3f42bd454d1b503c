import JvmFold.Machine.Stack
import JvmFold.Machine.Throwable

/-!
# Arrays

Making arrays and reading and writing their elements. An array of a narrow
integer type keeps of a value what fits; an array of references takes only
objects of its component type.

## Main definitions

* `Emu.newArray`, `Emu.newArrays`: Makes an array, or arrays of arrays.
* `Emu.arrayLoad`, `Emu.arrayStore`, `Emu.arrayLength`: Access to elements.
-/

namespace JvmFold

/-- The component type of a code for primitive arrays. -/
def FieldType.ofArrayKind? : UInt8 → Option FieldType
  | 4 => some .boolean
  | 5 => some .char
  | 6 => some .float
  | 7 => some .double
  | 8 => some .byte
  | 9 => some .short
  | 10 => some .int
  | 11 => some .long
  | _ => none

/-- What an array of a primitive type keeps of a value. -/
def Value.narrowTo : FieldType → Value → Value
  | .boolean, .int v => .int (v &&& 1)
  | .byte, .int v => .int v.toInt8.toInt32
  | .char, .int v => .int v.toUInt32.toUInt16.toUInt32.toInt32
  | .short, .int v => .int v.toInt16.toInt32
  | _, v => v

namespace Emu

/-- Throws the exception for a negative length. -/
def raiseNegative {α : Type} (length : Int32) : Emu α :=
  raise "java/lang/NegativeArraySizeException" (some (toString length.toInt))

/-- Makes an array with the default value of its component type in every place. -/
def newArray (component : FieldType) (length : Int32) : Emu Value := do
  if length < 0 then raiseNegative length
  else
    return .ref (← alloc (.array component
      (Array.replicate length.toInt.toNat (Value.default component))))

/-- As many values as the count says, each made anew. -/
def several (n : Nat) (make : Emu Value) : Emu (List Value) :=
  go n []
where
  /-- Makes `n` more values in front of which `acc` holds the earlier ones in reverse. -/
  go : Nat → List Value → Emu (List Value)
    | 0, acc => return acc.reverse
    | n + 1, acc => do go n ((← make) :: acc)

/-- Makes an array of the given type whose elements are arrays of the further lengths; the elements
    come first. -/
def newArrays (type : FieldType) : List Int32 → Emu Value
  | lengths => do
    match type with
    | .array component =>
      match lengths with
      | [] => return .null
      | [length] => newArray component length
      | length :: rest =>
        if length < 0 then raiseNegative length
        else
          let elements ← several length.toInt.toNat (newArrays component rest)
          return .ref (← alloc (.array component elements.toArray))
    | other => throw (.unsupported (.arrayType other))

/-- The array that a value refers to. -/
def arrayRef (v : Value) : Emu HeapRef := do
  match ← lift v.asReference with
  | some r => return r
  | none => raiseNull (some "Cannot access an element of a null array")

/-- Throws the exception for a position outside an array. -/
def raiseArrayIndex {α : Type} (index : Int32) (length : Nat) : Emu α :=
  raise "java/lang/ArrayIndexOutOfBoundsException"
    (some ("Index " ++ toString index.toInt ++ " out of bounds for length " ++ toString length))

/-- Takes a position and an array off the stack and puts the element there. -/
def arrayLoad (s : Stack) : Emu Stack := do
  let (index, s) ← lift s.popInt
  let (array, s) ← lift s.pop
  match ← object (← arrayRef array) with
  | .array _ elements =>
    if index < 0 then raiseArrayIndex index elements.size
    else
      match elements[index.toInt.toNat]? with
      | some v => return v :: s
      | none => raiseArrayIndex index elements.size
  | o => throw (.unsupported (.arrayLoad o.className))

/-- Throws unless an array of the component type takes the value. -/
def checkStore (component : FieldType) (v : Value) : Emu Unit := do
  match v, component.className? with
  | .ref r, some name =>
    if !(← isInstance v name) then
      raise "java/lang/ArrayStoreException" (some (dotted (← object r).className))
  | _, _ => return

/-- The component type and the length of an array. -/
def arrayShape (r : HeapRef) : Emu (FieldType × Nat) := do
  match ← object r with
  | .array component elements => return (component, elements.size)
  | o => throw (.unsupported (.arrayStore o.className))

/-- Takes a value, a position and an array off the stack and puts the value into the array. -/
def arrayStore (s : Stack) : Emu Stack := do
  let (v, s) ← lift s.pop
  let (index, s) ← lift s.popInt
  let (array, s) ← lift s.pop
  let r ← arrayRef array
  let (component, length) ← arrayShape r
  if index < 0 ∨ length ≤ index.toInt then raiseArrayIndex index length
  checkStore component v
  let stored := v.narrowTo component
  modifyObject r fun
    | .array component elements =>
      .array component (elements.setIfInBounds index.toInt.toNat stored)
    | o => o
  return s

/-- Takes an array off the stack and puts its length there. -/
def arrayLength (s : Stack) : Emu Stack := do
  let (array, s) ← lift s.pop
  match ← object (← arrayRef array) with
  | .array _ elements => return .int (Int32.ofNat elements.size) :: s
  | o => throw (.unsupported (.arrayLength o.className))

end Emu

end JvmFold
