import JvmFold.Natives.Basic
import JvmFold.Number.Text

/-!
# Objects in General

The methods that every object has, those of arrays and identity, and the
helpers that allow for a missing object.

## Main definitions

* `Natives.objectMethods`: The methods of the root class.
* `Natives.systemMethods`: Copying arrays, and identity.
* `Natives.objectsMethods`: The helpers that allow for a missing object.
-/

namespace JvmFold

namespace Natives

/-- The hash code that an object gives of itself; zero for a missing one. -/
def hashCode (v : Value) : Emu Int32 := do
  if v = .null then return 0
  else
    match ← Emu.invoke .virtual ⟨objectClass, "hashCode", "()I"⟩ [v] with
    | some (.int hash) => return hash
    | other => throw (Value.mismatch "int" (other.getD .null))

/-- An `int` in hexadecimal, negative numbers by their bits. -/
def hexBits (v : Int32) : String :=
  String.ofList (Radix.renderNat 16 v.toUInt32.toNat)

/-- Whether two values are the same as arithmetic has it. -/
def sameValues : Native := fun args => do
  bool ((← arg args 0).equals (← arg args 1))

/-- The hash code of identity. -/
def identityHash : Native := fun args => do
  int (← receiver args).identityHash

/-- The class and the hash code of an object as text. -/
def describeObject : Native := fun args => do
  let this ← arg args 0
  let name := (← Emu.runtimeClass? this).getD ""
  let hash ← hashCode this
  text (dotted name ++ "@" ++ hexBits hash)

/-- The class object of an object. -/
def classOf : Native := fun args => do
  let name := (← Emu.object (← receiver args)).className
  return some (← Emu.classObject name)

/-- A copy of an array, or of an object of a class that allows it. -/
def clone : Native := fun args => do
  let o ← Emu.object (← receiver args)
  let allowed ← match o with
    | .array _ _ => pure true
    | .instance name _ => pure ((← Emu.classes).isSubtype name "java/lang/Cloneable")
    | _ => pure false
  if allowed then return some (.ref (← Emu.alloc o))
  else Emu.raise "java/lang/CloneNotSupportedException" (some (dotted o.className))

/-- The methods of the root class. -/
def objectMethods : List Builtin :=
  [method "<init>" "()V" fun _ => void,
   method "equals" "(Ljava/lang/Object;)Z" sameValues,
   method "hashCode" "()I" identityHash,
   method "toString" "()Ljava/lang/String;" describeObject,
   method "getClass" "()Ljava/lang/Class;" classOf,
   method "clone" "()Ljava/lang/Object;" clone]

/-- Throws the exception for an array that takes no such element. -/
def raiseStore {α : Type} (message : String) : Emu α :=
  Emu.raise "java/lang/ArrayStoreException" (some message)

/-- The component type and the elements of an array; `role` names the array in the exception. -/
def arrayParts (r : HeapRef) (role : String) : Emu (FieldType × Array Value) := do
  match ← Emu.object r with
  | .array component elements => return (component, elements)
  | o =>
    raiseStore ("arraycopy: " ++ role ++ " type " ++ dotted o.className ++ " is not an array")

/-- The first of some values that refers to an object of another class. -/
def firstMisfit? (u : Universe) (h : Heap) (name : String) (values : List Value) :
    Option HeapObject :=
  values.findSome? fun v =>
    (v.reference?.map h.get).filter fun o => !u.isSubtype o.className name

/-- The elements with others put over them from a position on. -/
def overwrite (elements : Array Value) (start : Nat) (values : List Value) : Array Value :=
  (elements.toList.take start ++ values ++ elements.toList.drop (start + values.length)).toArray

/-- Copies elements from one array to another. -/
def copyElements : Native := fun args => do
  let source ← Emu.lift (← arg args 0).asReference
  let target ← Emu.lift (← arg args 2).asReference
  match source, target with
  | some source, some target =>
    let sourceStart := (← argInt args 1).toInt
    let targetStart := (← argInt args 3).toInt
    let length := (← argInt args 4).toInt
    let (sourceType, elements) ← arrayParts source "source"
    let (targetType, room) ← arrayParts target "destination"
    if (sourceType.isPrimitive || targetType.isPrimitive) && sourceType != targetType then
      raiseStore "arraycopy: type mismatch"
    if sourceStart < 0 || targetStart < 0 || length < 0 || elements.size < sourceStart + length
        || room.size < targetStart + length then
      Emu.raise "java/lang/ArrayIndexOutOfBoundsException"
        (some ("arraycopy: last source index " ++ toString (sourceStart + length)
          ++ " out of bounds for length " ++ toString elements.size))
    let copied := (elements.toList.drop sourceStart.toNat).take length.toNat
    if let some name := targetType.className? then
      if let some o := firstMisfit? (← Emu.classes) (← Emu.heap) name copied then
        raiseStore (dotted o.className)
    Emu.modifyObject target fun
      | .array component elements => .array component (overwrite elements targetStart.toNat copied)
      | o => o
    void
  | _, _ => Emu.raiseNull

/-- Copying arrays, and identity. -/
def systemMethods : List Builtin :=
  [method "arraycopy" "(Ljava/lang/Object;ILjava/lang/Object;II)V" copyElements,
   method "identityHashCode" "(Ljava/lang/Object;)I" fun args => do
     int (((← arg args 0).reference?.map HeapRef.identityHash).getD 0)]

/-- Whether two objects are equal, a missing one only to another. -/
def equalObjects : Native := fun args => do
  let a ← arg args 0
  let b ← arg args 1
  if a.equals b then bool true
  else if a = .null then bool false
  else bool (← Emu.areEqual a b)

/-- The hash code of a list of objects. -/
def hashList : Native := fun args => do
  let v ← arg args 0
  match v.reference? with
  | none => int 0
  | some r =>
    match ← Emu.object r with
    | .array _ elements =>
      int (← elements.toList.foldlM (fun h e => do return h * 31 + (← hashCode e)) (1 : Int32))
    | _ => throw (Value.mismatch "java/lang/Object[]" v)

/-- The text of an object that may be missing. -/
def objectText : Native := fun args => do
  return some (← Emu.newString (← Emu.anyText (← arg args 0)))

/-- The object, which must not be missing; the message is the next value, if there is one. -/
def required : Native := fun args => do
  let v ← arg args 0
  if v ≠ .null then return some v
  else
    let h ← Emu.heap
    Emu.raiseNull ((args[1]?.bind Value.reference?).bind h.string?)

/-- The object, or another if it is missing. -/
def requiredElse : Native := fun args => do
  let v ← arg args 0
  if v ≠ .null then return some v
  else
    let other ← arg args 1
    if other = .null then Emu.raiseNull (some "defaultObj") else return some other

/-- The helpers that allow for a missing object. -/
def objectsMethods : List Builtin :=
  [method "equals" "(Ljava/lang/Object;Ljava/lang/Object;)Z" equalObjects,
   method "hashCode" "(Ljava/lang/Object;)I" fun args => do int (← hashCode (← arg args 0)),
   method "hash" "([Ljava/lang/Object;)I" hashList,
   method "toString" "(Ljava/lang/Object;)Ljava/lang/String;" objectText,
   method "toString" "(Ljava/lang/Object;Ljava/lang/String;)Ljava/lang/String;" fun args => do
     if (← arg args 0) = .null then answerArg args 1 else objectText args,
   method "isNull" "(Ljava/lang/Object;)Z" fun args => do bool ((← arg args 0) = .null),
   method "nonNull" "(Ljava/lang/Object;)Z" fun args => do bool ((← arg args 0) ≠ .null),
   method "requireNonNull" "(Ljava/lang/Object;)Ljava/lang/Object;" required,
   method "requireNonNull" "(Ljava/lang/Object;Ljava/lang/String;)Ljava/lang/Object;" required,
   method "requireNonNullElse" "(Ljava/lang/Object;Ljava/lang/Object;)Ljava/lang/Object;"
     requiredElse]

end Natives

end JvmFold
