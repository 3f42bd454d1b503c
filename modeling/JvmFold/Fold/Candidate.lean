import JvmFold.Body.Basic
import JvmFold.Machine.Value

/-!
# What the Analysis Knows

The analysis follows a body and keeps, for every slot of the stack, what it
knows of the value there. A value that is known comes with the instructions
that make it: a span of the body, and the values it was made from, each with a
span of its own inside. So a known value is a tree, and where the whole cannot
be replaced its parts still can.

A value is known in one place only. It is on the stack, or it is a part of
another one, or it is gone; nothing is shared between trees.

## Main definitions

* `Fold`: A known value with the span that makes it.
* `Slot`: What is known of a slot of the stack.
* `Operand`: What is known of an operand.
* `Fold.isRead`: Whether the value is only read from fields.
* `Replacement`: New code for a span.
-/

namespace JvmFold

/-- Where a known value comes from. -/
inductive Origin where
  /-- An instruction that loads it. -/
  | literal
  | staticField
  | field
  | cast
  /-- A method, a constructor or a call site. -/
  | call
deriving DecidableEq, Inhabited, Repr

/-- A known value with the span that makes it. -/
structure Fold where
  /-- Where the value comes from. -/
  origin : Origin
  /-- The first instruction of the span. -/
  start : Nat
  /-- The last instruction of the span. -/
  stop : Nat
  /-- The value. -/
  value : Value
  /-- The type that the body gives the value. -/
  type : FieldType
  /-- The field that was read or the method that ran. -/
  member : Option Member := none
  /-- The values it was made from, in order. -/
  children : List Fold := []
  /-- Whether its object was handed to an evaluation and may have changed since. -/
  stale : Bool := false
deriving Inhabited

namespace Fold

mutual
/-- Whether the value is only read from fields: from a static field, or as a field or by a cast of a
    value that is. -/
def isRead : Fold → Bool
  | ⟨.staticField, _, _, _, _, _, _, _⟩ => true
  | ⟨.field, _, _, _, _, _, children, _⟩ => areReads children
  | ⟨.cast, _, _, _, _, _, children, _⟩ => areReads children
  | _ => false

/-- Whether all of the values are only read from fields. -/
def areReads : List Fold → Bool
  | [] => true
  | f :: rest => f.isRead && areReads rest
end

end Fold

/-- An object that was made and not initialized yet, with the span that made it. -/
structure Uninitialized where
  /-- The instruction that made the object. -/
  start : Nat
  /-- The last instruction that copied the reference to it. -/
  stop : Nat
deriving DecidableEq, Inhabited, Repr

/-- What is known of a slot of the stack. -/
inductive Slot where
  | unknown
  /-- The upper slot of a known value that takes two. -/
  | upper
  | uninitialized (object : Uninitialized)
  | known (fold : Fold)
deriving Inhabited

/-- What is known of an operand. -/
inductive Operand where
  | unknown
  | uninitialized (object : Uninitialized)
  | known (fold : Fold)
deriving Inhabited

namespace Operand

/-- The known value. -/
def fold? : Operand → Option Fold
  | .known f => some f
  | _ => none

end Operand

/-- The known values of operands, if all of them are known. -/
def knownFolds? (operands : List Operand) : Option (List Fold) :=
  operands.mapM Operand.fold?

/-- New code for a span. -/
structure Replacement where
  /-- The first instruction of the span. -/
  start : Nat
  /-- The last instruction of the span. -/
  stop : Nat
  /-- The new instructions. -/
  code : List Instruction
  /-- The stack slots of the value that they leave. -/
  slots : Nat
deriving DecidableEq, Inhabited, Repr

end JvmFold
