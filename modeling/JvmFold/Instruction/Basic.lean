import JvmFold.Descriptor

/-!
# Instructions

A method body is a list of instructions in which positions are marked by
labels instead of offsets. Besides the real instructions the list holds three
kinds of marks that produce no code: labels, line numbers and the frames that
record the types at a branch target.

## Main definitions

* `Label`, `Frame`: Marks of a position.
* `Instruction`: One element of a body.
* `Instruction.int`, `Instruction.literal`: The shortest way to load a constant.
* `Instruction.literal?`: The constant that an instruction loads.
* `Instruction.stackEffect?`: The slots popped and pushed.
-/

namespace JvmFold

/-- A mark of a position in a body. -/
structure Label where
  /-- The number of the label. -/
  id : Nat
deriving DecidableEq, Hashable, Inhabited, Repr

/-- The form shown in messages. -/
def Label.display (l : Label) : String :=
  "L" ++ toString l.id

/-- The type of a local variable or stack slot at a branch target. -/
inductive SlotType where
  | top | int | float | double | long | null | uninitializedThis
  | object (name : String)
  /-- An object made by the `new` at the label and not initialized yet. -/
  | uninitialized (origin : Label)
deriving DecidableEq, Inhabited, Repr

/-- The types at a branch target. -/
structure Frame where
  /-- The types of the local variables. -/
  locals : List SlotType
  /-- The types on the stack, bottom first. -/
  stack : List SlotType
deriving DecidableEq, Inhabited, Repr

/-- One element of a body. -/
inductive Instruction where
  | label (label : Label)
  | line (number : UInt16)
  | frame (frame : Frame)
  /-- An instruction without operands. -/
  | simple (op : Opcode)
  /-- `bipush` or `sipush`. -/
  | push (op : Opcode) (value : Int32)
  | newArray (kind : UInt8)
  /-- An access to a local variable. -/
  | var (op : Opcode) (index : UInt16)
  | iinc (index : UInt16) (delta : Int16)
  /-- `new`, `anewarray`, `checkcast` or `instanceof`. -/
  | typed (op : Opcode) (name : String)
  | field (op : Opcode) (member : Member)
  | invoke (op : Opcode) (member : Member) (isInterface : Bool)
  | invokeDynamic (bootstrap : UInt16) (name descriptor : String)
  | jump (op : Opcode) (target : Label)
  | ldc (constant : Constant)
  | tableSwitch (default : Label) (low high : Int32) (targets : List Label)
  | lookupSwitch (default : Label) (pairs : List (Int32 × Label))
  | multiNewArray (name : String) (dimensions : UInt8)
deriving DecidableEq, Inhabited, Repr

namespace Instruction

/-- Whether the element is a mark that produces no code. -/
def isPseudo : Instruction → Bool
  | .label _ | .line _ | .frame _ => true
  | _ => false

/-- The shortest instruction that loads an `int`. -/
def int (value : Int32) : Instruction :=
  if value = -1 then .simple .iconstM1
  else if value = 0 then .simple .iconst0
  else if value = 1 then .simple .iconst1
  else if value = 2 then .simple .iconst2
  else if value = 3 then .simple .iconst3
  else if value = 4 then .simple .iconst4
  else if value = 5 then .simple .iconst5
  else if -128 ≤ value ∧ value ≤ 127 then .push .bipush value
  else if -32768 ≤ value ∧ value ≤ 32767 then .push .sipush value
  else .ldc (.int value)

/-- The bits of `1.0` in single precision. -/
def singleOne : Bits32 := 0x3F800000

/-- The bits of `2.0` in single precision. -/
def singleTwo : Bits32 := 0x40000000

/-- The bits of `1.0` in double precision. -/
def doubleOne : Bits64 := 0x3FF0000000000000

/-- The shortest instruction that loads a constant. -/
def literal (c : Constant) : Instruction :=
  match c with
  | .int v => int v
  | .long v =>
    if v = 0 then .simple .lconst0 else if v = 1 then .simple .lconst1 else .ldc c
  | .float b =>
    if b = 0 then .simple .fconst0
    else if b = singleOne then .simple .fconst1
    else if b = singleTwo then .simple .fconst2
    else .ldc c
  | .double b =>
    if b = 0 then .simple .dconst0 else if b = doubleOne then .simple .dconst1 else .ldc c
  | _ => .ldc c

/-- The constant that an instruction loads, unless it is known by its pool index only. -/
def literal? : Instruction → Option Constant
  | .simple .iconstM1 => some (.int (-1))
  | .simple .iconst0 => some (.int 0)
  | .simple .iconst1 => some (.int 1)
  | .simple .iconst2 => some (.int 2)
  | .simple .iconst3 => some (.int 3)
  | .simple .iconst4 => some (.int 4)
  | .simple .iconst5 => some (.int 5)
  | .simple .lconst0 => some (.long 0)
  | .simple .lconst1 => some (.long 1)
  | .simple .fconst0 => some (.float 0)
  | .simple .fconst1 => some (.float singleOne)
  | .simple .fconst2 => some (.float singleTwo)
  | .simple .dconst0 => some (.double 0)
  | .simple .dconst1 => some (.double doubleOne)
  | .push _ v => some (.int v)
  | .ldc (.pool _) => none
  | .ldc c => some c
  | _ => none

/-- The opcode of a real instruction; a constant that takes one slot counts as `ldc`. -/
def opcode? : Instruction → Option Opcode
  | .label _ | .line _ | .frame _ => none
  | .simple op | .push op _ | .var op _ | .typed op _ | .field op _ | .invoke op _ _
  | .jump op _ => some op
  | .newArray _ => some .newarray
  | .iinc _ _ => some .iinc
  | .invokeDynamic _ _ _ => some .invokedynamic
  | .ldc (.long _) | .ldc (.double _) => some .ldc2W
  | .ldc _ => some .ldc
  | .tableSwitch _ _ _ _ => some .tableswitch
  | .lookupSwitch _ _ => some .lookupswitch
  | .multiNewArray _ _ => some .multianewarray

/-- The effect of an instruction that rearranges the stack. -/
def shuffleEffect? : Opcode → Option (Nat × Nat)
  | .pop => some (1, 0)
  | .pop2 => some (2, 0)
  | .dup => some (1, 2)
  | .dupX1 => some (2, 3)
  | .dupX2 => some (3, 4)
  | .dup2 => some (2, 4)
  | .dup2X1 => some (3, 5)
  | .dup2X2 => some (4, 6)
  | .swap => some (2, 2)
  | _ => none

/-- The slots popped and pushed; nothing if a descriptor does not parse or an opcode stands where
    its operand is missing. Slots are counted modulo 65536. -/
def stackEffect? (i : Instruction) : Option (Nat × Nat) :=
  match i with
  | .label _ | .line _ | .frame _ => some (0, 0)
  | .simple op => (shuffleEffect? op).or op.stackEffect?
  | .ldc c => some (0, c.slots)
  | .field op m =>
    (FieldType.parse m.descriptor).toOption.map fun t =>
      match op with
      | .getstatic => (0, t.slots)
      | .putstatic => (t.slots, 0)
      | .getfield => (1, t.slots)
      | _ => (t.slots + 1, 0)
  | .invoke op m _ =>
    (MethodType.parse m.descriptor).toOption.map fun t =>
      ((t.parameterSlots + if op = .invokestatic then 0 else 1) % 65536, t.resultSlots)
  | .invokeDynamic _ _ d =>
    (MethodType.parse d).toOption.map fun t => (t.parameterSlots, t.resultSlots)
  | .multiNewArray _ n => some (n.toNat, 1)
  | _ => i.opcode?.bind Opcode.stackEffect?

/-- The labels that the instruction can branch to, the default first. -/
def targets : Instruction → List Label
  | .jump _ target => [target]
  | .tableSwitch default _ _ targets => default :: targets
  | .lookupSwitch default pairs => default :: pairs.map Prod.snd
  | _ => []

/-- The form shown in messages. -/
def display : Instruction → String
  | .label l => l.display ++ ":"
  | .line n => "line " ++ toString n.toNat
  | .frame f =>
    "frame locals=" ++ toString f.locals.length ++ " stack=" ++ toString f.stack.length
  | .simple op => op.mnemonic
  | .push op v => op.mnemonic ++ " " ++ toString v.toInt
  | .newArray k => "newarray " ++ toString k.toNat
  | .var op i => op.mnemonic ++ " " ++ toString i.toNat
  | .iinc i d => "iinc " ++ toString i.toNat ++ " " ++ toString d.toInt
  | .typed op c => op.mnemonic ++ " " ++ c
  | .field op m | .invoke op m _ =>
    op.mnemonic ++ " " ++ m.owner ++ "." ++ m.name ++ m.descriptor
  | .invokeDynamic b n d => "invokedynamic #" ++ toString b.toNat ++ " " ++ n ++ d
  | .jump op l => op.mnemonic ++ " " ++ l.display
  | .ldc c => "ldc " ++ c.display
  | .tableSwitch _ low high _ =>
    "tableswitch " ++ toString low.toInt ++ ".." ++ toString high.toInt
  | .lookupSwitch _ pairs => "lookupswitch (" ++ toString pairs.length ++ " keys)"
  | .multiNewArray c n => "multianewarray " ++ c ++ " " ++ toString n.toNat

end Instruction

end JvmFold
