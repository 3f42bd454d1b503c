import JvmFold.Instruction.Basic

/-!
# Method Bodies

A body is its instructions with the limits of its frame, the ranges its
exception handlers guard and the names of its local variables. Ranges start
and end at labels.

## Main definitions

* `Handler`, `LocalVariable`: Entries of the tables beside the code.
* `Body`: A decoded method body.
* `Body.newLabel`: A label that is made for a body.
* `Body.real`: The instructions without the marks.
* `Body.referenced`: The labels that something refers to.
* `MethodInfo`: What a body needs to know of its method.
-/

namespace JvmFold

/-- A range of instructions whose exceptions are handled elsewhere. -/
structure Handler where
  /-- The first guarded position. -/
  start : Label
  /-- The position behind the last guarded one. -/
  stop : Label
  /-- Where the handler starts. -/
  target : Label
  /-- The class of the exceptions that are handled; all of them if there is none. -/
  catchType : Option String
deriving DecidableEq, Inhabited, Repr

/-- The name of a local variable over a range of instructions. -/
structure LocalVariable where
  /-- The name. -/
  name : String
  /-- The descriptor of the type. -/
  descriptor : String
  /-- The first position of the range. -/
  start : Label
  /-- The position behind the range. -/
  stop : Label
  /-- The slot. -/
  index : UInt16
deriving DecidableEq, Inhabited, Repr

/-- A decoded method body. -/
structure Body where
  /-- The greatest depth of the stack. -/
  maxStack : UInt16
  /-- The number of local variables. -/
  maxLocals : UInt16
  /-- The instructions and marks. -/
  instructions : List Instruction
  /-- The exception handlers, in the order in which they are tried. -/
  handlers : List Handler := []
  /-- The names of local variables. -/
  locals : List LocalVariable := []
  /-- Whether the body differs from the bytes it was decoded from. -/
  modified : Bool := true
  /-- The number of the next label that is made for the body. -/
  nextLabel : Nat := 0
deriving DecidableEq, Inhabited, Repr

namespace Body

/-- A label that is made for the body, and the body that has made it. -/
def newLabel (b : Body) : Label × Body :=
  (⟨b.nextLabel⟩, { b with nextLabel := b.nextLabel + 1 })

/-- The instructions without the marks. -/
def real (b : Body) : List Instruction :=
  b.instructions.filter fun i => !i.isPseudo

/-- The labels in the types of a frame. -/
def frameLabels (f : Frame) : List Label :=
  (f.locals ++ f.stack).filterMap fun
    | .uninitialized l => some l
    | _ => none

/-- The labels that an instruction or mark refers to. -/
def instructionLabels (i : Instruction) : List Label :=
  match i with
  | .frame f => frameLabels f
  | _ => i.targets

/-- The labels that branches, frames and handlers refer to, possibly repeated. -/
def referenced (b : Body) : List Label :=
  b.instructions.flatMap instructionLabels
    ++ b.handlers.flatMap fun h => [h.start, h.stop, h.target]

end Body

/-- What a body needs to know of its method. -/
structure MethodInfo where
  /-- The method. -/
  member : Member
  /-- Whether the method has no receiver. -/
  isStatic : Bool
deriving DecidableEq, Inhabited, Repr

namespace SlotType

/-- How a value of a type shows up in a frame. -/
def ofFieldType (t : FieldType) : SlotType :=
  match t with
  | .long => .long
  | .double => .double
  | .float => .float
  | .object name => .object name
  | .array _ => .object t.descriptor
  | _ => .int

end SlotType

/-- The types of the local variables on entry to the method. -/
def MethodInfo.initialLocals (m : MethodInfo) : Except Error (List SlotType) := do
  let type ← MethodType.parse m.member.descriptor
  let receiver :=
    if m.isStatic then []
    else if m.member.isConstructor ∧ m.member.owner ≠ "java/lang/Object" then
      [SlotType.uninitializedThis]
    else [SlotType.object m.member.owner]
  return receiver ++ type.parameters.map SlotType.ofFieldType

end JvmFold
