import JvmFold.Machine.Basic

/-!
# Exceptions

An exception is an object like any other, with two fields that every
throwable has: a message and a cause. The machine raises exceptions of the
platform's classes itself; the string of the message is made in front of the
exception, so it has the smaller number.

## Main definitions

* `Throwable.messageField`, `Throwable.causeField`: The fields of every throwable.
* `Emu.raise`: Makes an exception and throws it.
* `Heap.describeThrowable`: The text of an exception with its causes.
* `Heap.describe`: The text of a fault.
-/

namespace JvmFold

namespace Throwable

/-- The field that holds the message. -/
def messageField : Member :=
  ⟨"java/lang/Throwable", "detailMessage", "Ljava/lang/String;"⟩

/-- The field that holds the cause. -/
def causeField : Member :=
  ⟨"java/lang/Throwable", "cause", "Ljava/lang/Throwable;"⟩

end Throwable

namespace Heap

/-- The value of a field of an object. -/
def field? (h : Heap) (r : HeapRef) (m : Member) : Option Value :=
  match h.get r with
  | .instance _ fields => fields.get? m
  | _ => none

/-- The text of an exception without its cause. -/
def describeOne (h : Heap) (r : HeapRef) : String :=
  let name := dotted (h.get r).className
  match ((h.field? r Throwable.messageField).bind Value.reference?).bind h.string? with
  | some message => name ++ ": " ++ message
  | none => name

/-- The cause of an exception, unless it is the exception itself. -/
def cause? (h : Heap) (r : HeapRef) : Option HeapRef :=
  ((h.field? r Throwable.causeField).bind Value.reference?).filter (· != r)

/-- The text of an exception with at most `n` causes in a row. -/
def describeCauses (h : Heap) : Nat → HeapRef → String
  | 0, r => h.describeOne r
  | n + 1, r =>
    match h.cause? r with
    | none => h.describeOne r
    | some c => h.describeOne r ++ " caused by " ++ h.describeCauses n c

/-- The text of an exception with its causes, of which the first eight are shown. -/
def describeThrowable (h : Heap) (r : HeapRef) : String :=
  h.describeCauses 8 r

/-- The text of a fault, which for an exception tells what was thrown. -/
def describe (h : Heap) : Fault → String
  | .thrown r => "threw " ++ h.describeThrowable r
  | f => f.message

end Heap

namespace Emu

/-- Makes an exception. -/
def newThrowable (name : String) (message : Option String) : Emu HeapRef := do
  let fields ← match message with
    | none => pure []
    | some text => pure [(Throwable.messageField, ← newText text)]
  alloc (.instance name fields)

/-- Makes an exception and throws it. -/
def raise {α : Type} (name : String) (message : Option String := none) : Emu α := do
  throw (.thrown (← newThrowable name message))

/-- Throws the exception for a missing object. -/
def raiseNull {α : Type} (message : Option String := none) : Emu α :=
  raise "java/lang/NullPointerException" message

/-- Throws the exception for a division by zero. -/
def raiseZeroDivision {α : Type} : Emu α :=
  raise "java/lang/ArithmeticException" (some "/ by zero")

/-- The class of the object that a value refers to. -/
def runtimeClass? (v : Value) : Emu (Option String) := do
  match v with
  | .ref r => return some (← object r).className
  | _ => return none

/-- Whether the value refers to an object of the class. -/
def isInstance (v : Value) (name : String) : Emu Bool := do
  match ← runtimeClass? v with
  | some actual => return (← classes).isSubtype actual name
  | none => return false

/-- Gives a field of an object a value. Objects of the machine's own kinds have no fields and stay
    as they are. -/
def setField (r : HeapRef) (m : Member) (v : Value) : Emu Unit :=
  modifyObject r fun
    | .instance name fields => .instance name (fields.set m v)
    | o => o

/-- The value of a field of an object. -/
def field? (r : HeapRef) (m : Member) : Emu (Option Value) := do
  return (← get).heap.field? r m

end Emu

end JvmFold
