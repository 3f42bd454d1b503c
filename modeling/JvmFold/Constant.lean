import JvmFold.Decimal.Layout
import JvmFold.Member
import JvmFold.Text.Quoted

/-!
# Constants

The values that an instruction can load from the constant pool and a field can
start with. Floating-point constants are kept as bits, so two constants are
equal exactly if they load the same bits: the two zeros differ, and a NaN is
equal to itself.

## Main definitions

* `Constant`: A loadable constant.
* `Constant.slots`: The stack slots it takes.
* `Constant.display`: The form shown in messages.
-/

namespace JvmFold

/-- A constant that can be loaded. -/
inductive Constant where
  | int (value : Int32)
  | float (bits : Bits32)
  | long (value : Int64)
  | double (bits : Bits64)
  | string (text : String)
  | classRef (name : String)
  /-- A constant named by its pool index alone: a method handle, a method type or one that is
      computed on first use. -/
  | pool (index : UInt16)
deriving DecidableEq, Inhabited, Repr

namespace Constant

/-- The stack slots that the constant takes. -/
def slots : Constant → Nat
  | .long _ | .double _ => 2
  | _ => 1

/-- The form shown in messages. -/
def display : Constant → String
  | .int value => toString value.toInt
  | .float bits => Layout.constant.single bits ++ "f"
  | .long value => toString value.toInt ++ "L"
  | .double bits => Layout.constant.double bits ++ "d"
  | .string text => Text.quoted text
  | .classRef name => dotted name ++ ".class"
  | .pool index => "#" ++ toString index.toNat

end Constant

end JvmFold
