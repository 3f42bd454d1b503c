import JvmFold.Decimal.Layout
import JvmFold.Machine.Call

/-!
# Values as Text

How a value turns into text when the program joins it to a string. Numbers
have a layout of their own, a truth value and a character are told from an
`int` by the declared type, and an object is asked for its text.

## Main definitions

* `Emu.stringUnits`: The text of a string.
* `Emu.valueText`: The text of a value of a declared type.
* `Emu.sequenceText`: The text of a string, a builder or another object.
-/

namespace JvmFold

/-- The text of a missing object. -/
def nullText : Units := .ofString "null"

/-- The unit that an `int` is cut to. -/
def Value.unitOf (v : Int32) : UInt16 :=
  v.toUInt32.toUInt16

/-- The text of a primitive value of a declared type; nothing for references. -/
def Value.primitiveText? (v : Value) (declared : FieldType) : Option Units :=
  match v, declared with
  | .int v, .boolean => some (.ofString (if v ≠ 0 then "true" else "false"))
  | .int v, .char => some #[unitOf v]
  | .int v, _ => some (.ofString (toString v.toInt))
  | .long v, _ => some (.ofString (toString v.toInt))
  | .float b, _ => some (.ofString (Layout.machine.single b))
  | .double b, _ => some (.ofString (Layout.machine.double b))
  | _, _ => none

namespace Emu

/-- The text of a string. -/
def stringUnits (v : Value) : Emu Units := do
  match v with
  | .null => raiseNull (some "Cannot invoke String method on null")
  | .ref r =>
    match ← object r with
    | .string units => return units
    | .builder _ => throw (.typeMismatch "java/lang/String" "java/lang/StringBuilder")
    | _ => throw (.typeMismatch "java/lang/String" "object")
  | v => throw (Value.mismatch "reference" v)

/-- The text that an object gives of itself. -/
def objectText (v : Value) : Emu Units := do
  match ← invoke .virtual ⟨objectClass, "toString", "()Ljava/lang/String;"⟩ [v] with
  | some (.ref s) => return ((← heap).stringUnits? s).getD #[]
  | _ => return nullText

/-- The text of a value of a declared type. -/
def valueText (v : Value) (declared : FieldType) : Emu Units := do
  match v with
  | .null => return nullText
  | .ref r =>
    match ← object r with
    | .string units => return units
    | _ => objectText v
  | _ => return (v.primitiveText? declared).getD #[]

/-- The text of an object of any class. -/
def anyText (v : Value) : Emu Units :=
  valueText v (.object objectClass)

/-- The text of a string, a builder or another object. -/
def sequenceText (v : Value) : Emu Units := do
  match v with
  | .ref r =>
    match ← object r with
    | .builder units => return units
    | .string units => return units
    | _ => anyText v
  | _ => stringUnits v

end Emu

end JvmFold
