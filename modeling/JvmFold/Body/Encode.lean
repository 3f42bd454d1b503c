import Std.Data.HashMap
import JvmFold.Body.Decode

/-!
# Encoding Bodies

Encoding goes in three passes. First every operand that lives in the constant
pool gets its index, since the size of a constant load hangs on it. Then the
instructions are placed one behind the other; the size of an instruction
depends on nothing but its operands, its pool index and, for the padding of a
switch, its own offset, so one pass places every label. Last the instructions
are emitted with their branch targets resolved.

## Main definitions

* `Body.poolIndex`: The pool index of an operand.
* `Body.sizeAt`: The size of an instruction.
* `Body.place`: The instructions with their offsets.
* `Body.emit`: The bytes of an instruction.
* `Body.encode`: A whole body.
-/

namespace JvmFold

namespace Body

/-- Adds the operand of an instruction to the pool; zero if it has none there. -/
def poolIndex : Instruction → Pool.Edit UInt16
  | .typed _ name | .multiNewArray name _ => Pool.addClass name
  | .field _ m => Pool.addField m
  | .invoke _ m isInterface => Pool.addMethod m isInterface
  | .invokeDynamic bootstrap name descriptor => Pool.addInvokeDynamic bootstrap name descriptor
  | .ldc c => Pool.addConstant c
  | _ => pure 0

/-- Whether the variable access or increment fits its short form. -/
def iincIsShort (index : UInt16) (delta : Int16) : Bool :=
  index ≤ 255 && -128 ≤ delta && delta ≤ 127

/-- The size in bytes of an instruction at `pc` whose operand has the given pool index. -/
def sizeAt (pc : Nat) (index : UInt16) : Instruction → Nat
  | .label _ | .line _ | .frame _ => 0
  | .simple _ => 1
  | .push op _ => if op = .bipush then 2 else 3
  | .newArray _ => 2
  | .var op i => if i ≤ 3 ∧ op ≠ .ret then 1 else if i ≤ 255 then 2 else 4
  | .iinc i delta => if iincIsShort i delta then 3 else 6
  | .typed _ _ | .field _ _ => 3
  | .invoke op _ _ => if op = .invokeinterface then 5 else 3
  | .invokeDynamic _ _ _ => 5
  | .jump op _ => if op.takesLongBranch then 5 else 3
  | .ldc (.long _) | .ldc (.double _) => 3
  | .ldc _ => if index ≤ 255 then 2 else 3
  | .tableSwitch _ _ _ targets => 1 + switchPadding pc + 12 + 4 * targets.length
  | .lookupSwitch _ pairs => 1 + switchPadding pc + 8 + 8 * pairs.length
  | .multiNewArray _ _ => 4

/-- An instruction with the pool index of its operand and its offset. -/
structure Placed where
  /-- The instruction. -/
  instruction : Instruction
  /-- The pool index of its operand. -/
  index : UInt16
  /-- Its offset. -/
  pc : Nat
deriving DecidableEq, Repr

/-- Places instructions from `pc` on. Answers them with the length of the code; `acc` holds those
    already placed in reverse. -/
def placeFrom (acc : List Placed) (pc : Nat) : List (Instruction × UInt16) → List Placed × Nat
  | [] => (acc.reverse, pc)
  | (i, index) :: rest => placeFrom (⟨i, index, pc⟩ :: acc) (pc + sizeAt pc index i) rest

/-- Places instructions one behind the other from the start of the code. -/
def place (l : List (Instruction × UInt16)) : List Placed × Nat :=
  placeFrom [] 0 l

/-- The offset of each label; the last place counts if there are several. -/
def labelOffsets (l : List Placed) : Std.HashMap Label Nat :=
  l.foldl (fun m p => match p.instruction with
    | .label label => m.insert label p.pc
    | _ => m) ∅

/-- The offset of a label. -/
def resolve (method : Member) (offsets : Std.HashMap Label Nat) (l : Label) : Except Error Nat :=
  match offsets[l]? with
  | some offset => .ok offset
  | none => .error (.malformed (.labelNotPlaced l.id method))

/-- The bytes of an access to a local variable: a one-byte form for the first four, else an index of
    one byte or, behind a `wide`, of two. -/
def emitVar (op : Opcode) (index : UInt16) : Bytes :=
  match op.shortByte? index with
  | some b => [b]
  | none =>
    if index ≤ 255 then [op.byte, index.toUInt8]
    else Opcode.wide.byte :: op.byte :: Bytes.ofU16 index

/-- Whether the constant takes two slots when it is loaded. -/
def isWideConstant (pool : Pool) : Constant → Bool
  | .long _ | .double _ => true
  | .pool index =>
    match pool.entry index with
    | .ok (.dynamic _ nat) =>
      match pool.nameAndType nat with
      | .ok s => s.descriptor == "J" || s.descriptor == "D"
      | .error _ => false
    | _ => false
  | _ => false

/-- The bytes of a constant load. -/
def emitLdc (pool : Pool) (c : Constant) (index : UInt16) : Bytes :=
  if isWideConstant pool c then Opcode.ldc2W.byte :: Bytes.ofU16 index
  else if index ≤ 255 then [Opcode.ldc.byte, index.toUInt8]
  else Opcode.ldcW.byte :: Bytes.ofU16 index

/-- Four bytes of a branch displacement. -/
def longBranch (displacement : Int) : Bytes :=
  Bytes.ofU32 (Int32.ofInt displacement).toUInt32

/-- The bytes of an instruction; marks have none. `offsetOf` answers the offset of a label. -/
def emit (pool : Pool) (method : Member) (offsetOf : Label → Except Error Nat) (p : Placed) :
    Except Error Bytes := do
  let branch (l : Label) : Except Error Int := do
    return ((← offsetOf l : Nat) : Int) - p.pc
  let padding := List.replicate (switchPadding p.pc) (0 : UInt8)
  match p.instruction with
  | .label _ | .line _ | .frame _ => return []
  | .simple op => return [op.byte]
  | .push op v =>
    if op = .bipush then return [op.byte, v.toInt8.toUInt8]
    else return op.byte :: Bytes.ofU16 v.toInt16.toUInt16
  | .newArray kind => return [Opcode.newarray.byte, kind]
  | .var op index => return emitVar op index
  | .iinc index delta =>
    if iincIsShort index delta then
      return [Opcode.iinc.byte, index.toUInt8, delta.toInt8.toUInt8]
    else
      return Opcode.wide.byte :: Opcode.iinc.byte ::
        (Bytes.ofU16 index ++ Bytes.ofU16 delta.toUInt16)
  | .typed op _ | .field op _ => return op.byte :: Bytes.ofU16 p.index
  | .invoke op m _ =>
    if op = .invokeinterface then
      let type ← MethodType.parse m.descriptor
      return op.byte :: (Bytes.ofU16 p.index ++ [(type.parameterSlots + 1).toUInt8, 0])
    else return op.byte :: Bytes.ofU16 p.index
  | .invokeDynamic _ _ _ =>
    return Opcode.invokedynamic.byte :: (Bytes.ofU16 p.index ++ [0, 0])
  | .jump op target =>
    let displacement ← branch target
    if op.takesLongBranch then return op.byte :: longBranch displacement
    else if -32768 ≤ displacement ∧ displacement ≤ 32767 then
      return op.byte :: Bytes.ofU16 (Int16.ofInt displacement).toUInt16
    else throw (.branchOutOfRange method p.pc)
  | .ldc c => return emitLdc pool c p.index
  | .tableSwitch default low high targets =>
    let default ← branch default
    let targets ← targets.mapM branch
    return Opcode.tableswitch.byte :: (padding ++ longBranch default ++ Bytes.ofU32 low.toUInt32
      ++ Bytes.ofU32 high.toUInt32 ++ targets.flatMap longBranch)
  | .lookupSwitch default pairs =>
    let default ← branch default
    let pairs ← pairs.mapM fun (key, target) => return (key, ← branch target)
    return Opcode.lookupswitch.byte :: (padding ++ longBranch default
      ++ Bytes.ofU32 pairs.length.toUInt32
      ++ pairs.flatMap fun (key, d) => Bytes.ofU32 key.toUInt32 ++ longBranch d)
  | .multiNewArray _ dimensions =>
    return Opcode.multianewarray.byte :: (Bytes.ofU16 p.index ++ [dimensions])

/-- The line numbers with their offsets. -/
def lineEntries (l : List Placed) : List (Nat × UInt16) :=
  l.filterMap fun p => match p.instruction with
    | .line n => some (p.pc, n)
    | _ => none

/-- The frames with their offsets; of several at one offset the last one counts. -/
def frameEntries (l : List Placed) : List (Nat × Frame) :=
  let step (acc : List (Nat × Frame)) (p : Placed) : List (Nat × Frame) :=
    match p.instruction, acc with
    | .frame f, (last, g) :: rest =>
      if last = p.pc then (p.pc, f) :: rest else (p.pc, f) :: (last, g) :: rest
    | .frame f, [] => [(p.pc, f)]
    | _, _ => acc
  (l.foldl step []).reverse

/-- Continues with the answer of a pure computation, or fails as it did. -/
def liftEdit {α : Type} (r : Except Error α) : Pool.Edit α :=
  match r with
  | .ok a => pure a
  | .error e => throw e

/-- The bytes of an entry of the handler table. -/
def handlerBytes (offsetOf : Label → Except Error Nat) (h : Handler) : Pool.Edit Bytes := do
  let start ← liftEdit (offsetOf h.start)
  let stop ← liftEdit (offsetOf h.stop)
  let target ← liftEdit (offsetOf h.target)
  let index ← match h.catchType with
    | some name => Pool.addClass name
    | none => pure 0
  return Bytes.ofCount start ++ Bytes.ofCount stop ++ Bytes.ofCount target ++ Bytes.ofU16 index

/-- The bytes of the name of a local variable; a range that ends before it starts is empty. -/
def localBytes (offsetOf : Label → Except Error Nat) (v : LocalVariable) : Pool.Edit Bytes := do
  let start ← liftEdit (offsetOf v.start)
  let stop ← liftEdit (offsetOf v.stop)
  let name ← Pool.addUtf8 v.name
  let descriptor ← Pool.addUtf8 v.descriptor
  return Bytes.ofCount start ++ Bytes.ofCount (stop - start) ++ Bytes.ofU16 name
    ++ Bytes.ofU16 descriptor ++ Bytes.ofU16 v.index

/-- The bytes of the type of a slot. -/
def slotBytes (offsetOf : Label → Except Error Nat) : SlotType → Pool.Edit Bytes
  | .top => pure [0]
  | .int => pure [1]
  | .float => pure [2]
  | .double => pure [3]
  | .long => pure [4]
  | .null => pure [5]
  | .uninitializedThis => pure [6]
  | .object name => return 7 :: Bytes.ofU16 (← Pool.addClass name)
  | .uninitialized l => return 8 :: Bytes.ofCount (← liftEdit (offsetOf l))

/-- The bytes of a frame, always in the form that lists every slot. `last` is the offset of the
    frame before it. -/
def frameBytes (offsetOf : Label → Except Error Nat) (last : Option Nat) (pc : Nat) (f : Frame) :
    Pool.Edit Bytes := do
  let delta := match last with
    | none => pc
    | some last => pc - last - 1
  let locals ← f.locals.mapM (slotBytes offsetOf)
  let stack ← f.stack.mapM (slotBytes offsetOf)
  return 255 :: (Bytes.ofCount delta ++ Bytes.ofCount f.locals.length ++ locals.flatten
    ++ Bytes.ofCount f.stack.length ++ stack.flatten)

/-- The bytes of frames, each with the offset of the one before it. -/
def framesBytes (offsetOf : Label → Except Error Nat) (frames : List (Nat × Frame)) :
    Pool.Edit (List Bytes) :=
  (List.zip (none :: frames.map fun f => some f.1) frames).mapM fun (last, pc, f) =>
    frameBytes offsetOf last pc f

/-- An attribute: the index of its name and its length-prefixed contents. -/
def attributeBytes (name : String) (contents : Bytes) : Pool.Edit Bytes := do
  return Bytes.ofU16 (← Pool.addUtf8 name) ++ Bytes.lengthPrefixed contents

/-- A table: the number of entries and the entries. -/
def tableBytes (entries : List Bytes) : Bytes :=
  Bytes.ofCount entries.length ++ entries.flatten

/-- The attributes of a body: lines, names of local variables and frames, each if there are any. -/
def attributes (offsetOf : Label → Except Error Nat) (placed : List Placed)
    (locals : List LocalVariable) : Pool.Edit (List Bytes) := do
  let lines := lineEntries placed
  let lineTable ←
    if lines.isEmpty then pure []
    else
      let entries := lines.map fun (pc, line) => Bytes.ofCount pc ++ Bytes.ofU16 line
      pure [← attributeBytes "LineNumberTable" (tableBytes entries)]
  let localTable ←
    if locals.isEmpty then pure []
    else
      let entries ← locals.mapM (localBytes offsetOf)
      pure [← attributeBytes "LocalVariableTable" (tableBytes entries)]
  let frames := frameEntries placed
  let frameTable ←
    if frames.isEmpty then pure []
    else
      let entries ← framesBytes offsetOf frames
      pure [← attributeBytes "StackMapTable" (tableBytes entries)]
  return lineTable ++ localTable ++ frameTable

/-- The pool indices of a list of instructions, in order. -/
def indexed (l : List Instruction) : Pool.Edit (List (Instruction × UInt16)) :=
  l.mapM fun i => return (i, ← poolIndex i)

/-- Encodes the body of a method, adding to the pool what it refers to. -/
def encode (b : Body) (method : Member) : Pool.Edit Bytes := do
  let (placed, length) := place (← indexed b.instructions)
  if length = 0 ∨ 65535 < length then throw (.codeTooLarge method)
  let offsetOf := resolve method (labelOffsets placed)
  let code ← liftEdit (placed.mapM (emit (← get) method offsetOf))
  let code := code.flatten
  let handlers ← b.handlers.mapM (handlerBytes offsetOf)
  let attributes ← attributes offsetOf placed b.locals
  return Bytes.ofU16 b.maxStack ++ Bytes.ofU16 b.maxLocals ++ Bytes.lengthPrefixed code
    ++ tableBytes handlers ++ tableBytes attributes

end Body

end JvmFold
