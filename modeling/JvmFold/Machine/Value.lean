import JvmFold.Descriptor
import JvmFold.Number.Float

/-!
# Values of the Machine

What a local variable, a stack slot, a field or an array element holds. The
small integer types are all `int`. Floating-point values are kept as bits, so
`=` tells apart what the machine tells apart by identity: the two zeros differ
and a NaN is the same as itself. `Value.equals` compares as arithmetic does.

## Main definitions

* `HeapRef`: A reference to an object.
* `Value`: A value.
* `Value.default`: The value that a field of a type starts with.
-/

namespace JvmFold

/-- A reference to an object: its position in the order of allocation. -/
structure HeapRef where
  /-- The position. -/
  index : Nat
deriving DecidableEq, Hashable, Inhabited, Repr

namespace HeapRef

/-- The form shown in messages. -/
def display (r : HeapRef) : String :=
  "@" ++ toString r.index

/-- The hash code of the object's identity: never negative and spread over the range. -/
def identityHash (r : HeapRef) : Int32 :=
  ((r.index.toUInt32 * 0x9E3779B9) >>> 1).toInt32

end HeapRef

/-- A value of the machine. -/
inductive Value where
  | int (value : Int32)
  | long (value : Int64)
  | float (bits : Bits32)
  | double (bits : Bits64)
  | null
  | ref (reference : HeapRef)
deriving DecidableEq, Hashable, Inhabited, Repr

namespace Value

/-- The truth value as an `int`. -/
def ofBool (b : Bool) : Value :=
  .int (if b then 1 else 0)

/-- The value that a field of the type starts with. -/
def default : FieldType → Value
  | .long => .long 0
  | .float => .float 0
  | .double => .double 0
  | .object _ | .array _ => .null
  | _ => .int 0

/-- The value that a field of the descriptor starts with; `null` if it does not parse. -/
def defaultFor (descriptor : String) : Value :=
  match FieldType.parse descriptor with
  | .ok t => default t
  | .error _ => .null

/-- The number of slots. -/
def slots : Value → Nat
  | .long _ | .double _ => 2
  | _ => 1

/-- Whether the value is a reference or `null`. -/
def isReference : Value → Bool
  | .null | .ref _ => true
  | _ => false

/-- The reference, if the value is one. -/
def reference? : Value → Option HeapRef
  | .ref r => some r
  | _ => none

/-- Whether two values are equal as arithmetic has it: the zeros are equal and a NaN is not equal to
    itself. -/
def equals : Value → Value → Bool
  | .float a, .float b => a.compare? b == some .eq
  | .double a, .double b => a.compare? b == some .eq
  | a, b => a == b

/-- The name of the kind of value. -/
def typeName : Value → String
  | .int _ => "int"
  | .long _ => "long"
  | .float _ => "float"
  | .double _ => "double"
  | .null => "null"
  | .ref _ => "reference"

end Value

end JvmFold
