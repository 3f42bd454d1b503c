import Std.Data.TreeMap
import JvmFold.Body.Basic
import JvmFold.Pool.Basic

/-!
# Decoding Bodies

The bytes of a body name positions by offsets. Decoding gives every offset
that something refers to a label, numbered in the order in which the offsets
first come up: branch targets, then the handler table, then the attributes in
their order. The labels, lines and frames are woven between the instructions
at the end, when all offsets are known; an offset inside an instruction or
behind the code is an error.

## Main definitions

* `Decode`: Reading with a table of labels.
* `Decode.labelAt`: The label of an offset.
* `Body.readInstruction`: One instruction.
* `Body.weave`: Labels, lines and frames between the instructions.
* `Body.decode`: A whole body.
* `Body.parameterNames`: The names of the variables that are live at the start, without decoding
  the code.
-/

namespace JvmFold

/-- The label of each offset that has one. -/
abbrev LabelTable := Std.TreeMap Nat Label

/-- Reading with a table of labels. -/
abbrev Decode := StateT LabelTable Read

namespace Decode

/-- The label of an offset, a new one if it has none yet. -/
def labelAt (offset : Nat) : Decode Label := do
  let table ← get
  match table[offset]? with
  | some l => return l
  | none =>
    let l : Label := ⟨table.size⟩
    set (table.insert offset l)
    return l

/-- The label of the branch target at a displacement from the instruction at `pc`. -/
def labelFrom (pc : Nat) (displacement : Int) : Decode Label :=
  let target := (pc : Int) + displacement
  if target < 0 then throw (.malformed (.negativeBranch pc)) else labelAt target.toNat

/-- Decodes a byte string of its own, with the same labels. -/
def within {α : Type} (data : Bytes) (d : Decode α) : Decode α := fun table =>
  Read.lift ((d.run table).parse data)

/-- Continues with the answer of a pure computation, or fails as it did. -/
def ofExcept {α : Type} (r : Except Error α) : Decode α :=
  Read.lift r

end Decode

/-- The constant that the pool holds at an index, as an instruction loads it. -/
def Pool.loadable (p : Pool) (index : UInt16) : Except Error Constant := do
  match ← p.entry index with
  | .integer v => return .int v
  | .float b => return .float b
  | .long v => return .long v
  | .double b => return .double b
  | .string t => return .string (← p.text t)
  | .classRef n => return .classRef (← p.text n)
  | .methodHandle _ _ | .methodType _ | .dynamic _ _ => return .pool index
  | other => throw (.malformed (.notLoadable index other))

namespace Body

/-- Reads an opcode. -/
def readOpcode : Read Opcode := do
  let b ← Read.u8
  match Opcode.ofByte? b with
  | some op => return op
  | none => Read.malformed (.unknownOpcode b)

/-- The zero bytes between a switch opcode at `pc` and its operands, which start at a multiple of
    four. -/
def switchPadding (pc : Nat) : Nat :=
  (4 - (pc + 1) % 4) % 4

/-- Reads the operands of a `tableswitch` at `pc` in code of the given length. -/
def readTableSwitch (codeLength pc : Nat) : Decode Instruction := do
  Read.skip (switchPadding pc)
  let default ← Decode.labelFrom pc (← Read.i32).toInt
  let low ← Read.i32
  let high ← Read.i32
  if high < low then throw (.malformed (.switchRange pc))
  let count := (high.toInt - low.toInt + 1).toNat
  if codeLength / 4 < count then throw .outOfBounds
  let targets ← repeated count do Decode.labelFrom pc (← Read.i32).toInt
  return .tableSwitch default low high targets

/-- Reads the operands of a `lookupswitch` at `pc` in code of the given length. -/
def readLookupSwitch (codeLength pc : Nat) : Decode Instruction := do
  Read.skip (switchPadding pc)
  let default ← Decode.labelFrom pc (← Read.i32).toInt
  let count ← Read.i32
  if count < 0 ∨ codeLength / 8 < count.toInt.toNat then
    throw (.malformed (.switchPairs pc count))
  let pairs ← repeated count.toInt.toNat do
    let key ← Read.i32
    return (key, ← Decode.labelFrom pc (← Read.i32).toInt)
  return .lookupSwitch default pairs

/-- Reads a call site named by a pool index and two zero bytes. -/
def readInvokeDynamic (pool : Pool) (pc : Nat) : Decode Instruction := do
  let index ← Read.u16
  Read.skip 2
  match ← Decode.ofExcept (pool.entry index) with
  | .invokeDynamic bootstrap nat =>
    let signature ← Decode.ofExcept (pool.nameAndType nat)
    return .invokeDynamic bootstrap signature.name signature.descriptor
  | _ => throw (.malformed (.notCallSite pc index))

/-- Reads the instruction behind a `wide` at `pc`, whose operands have two bytes. -/
def readWide (pc : Nat) : Decode Instruction := do
  let inner ← readOpcode
  if inner = .iinc then return .iinc (← Read.u16) (← Read.i16)
  else if inner.takesLocal then return .var inner (← Read.u16)
  else throw (.malformed (.wideOpcode inner pc))

/-- Reads the operands of the instruction at `pc` in code of the given length. -/
def readOperands (pool : Pool) (codeLength pc : Nat) (op : Opcode) : Decode Instruction :=
  match op with
  | .bipush => return .push op (← Read.i8).toInt32
  | .sipush => return .push op (← Read.i16).toInt32
  | .ldc => return .ldc (← Decode.ofExcept (pool.loadable (← Read.u8).toUInt16))
  | .ldcW | .ldc2W => return .ldc (← Decode.ofExcept (pool.loadable (← Read.u16)))
  | .iinc => return .iinc (← Read.u8).toUInt16 (← Read.i8).toInt16
  | .tableswitch => readTableSwitch codeLength pc
  | .lookupswitch => readLookupSwitch codeLength pc
  | .getstatic | .putstatic | .getfield | .putfield =>
    return .field op (← Decode.ofExcept (pool.member (← Read.u16))).1
  | .invokevirtual | .invokespecial | .invokestatic => do
    let (member, isInterface) ← Decode.ofExcept (pool.member (← Read.u16))
    return .invoke op member isInterface
  | .invokeinterface => do
    let (member, _) ← Decode.ofExcept (pool.member (← Read.u16))
    Read.skip 2
    return .invoke op member true
  | .invokedynamic => readInvokeDynamic pool pc
  | .new | .anewarray | .checkcast | .instanceof =>
    return .typed op (← Decode.ofExcept (pool.className (← Read.u16)))
  | .newarray => return .newArray (← Read.u8)
  | .multianewarray => do
    let name ← Decode.ofExcept (pool.className (← Read.u16))
    return .multiNewArray name (← Read.u8)
  | .wide => readWide pc
  | _ =>
    if op.takesLocal then return .var op (← Read.u8).toUInt16
    else if op.takesShortBranch then
      return .jump op (← Decode.labelFrom pc (← Read.i16).toInt)
    else if op.takesLongBranch then
      return .jump op (← Decode.labelFrom pc (← Read.i32).toInt)
    else
      match op.shortLocal? with
      | some (op, index) => return .var op index
      | none => return .simple op

/-- Reads an instruction with its offset. -/
def readInstruction (pool : Pool) (codeLength : Nat) : Decode (Nat × Instruction) := do
  let pc ← Read.position
  let op ← readOpcode
  return (pc, ← readOperands pool codeLength pc op)

/-- Reads instructions to the end of the code. Each takes at least one byte, so as many rounds as
    there are bytes suffice; `acc` holds the instructions already read in reverse. -/
def readInstructions (pool : Pool) (codeLength : Nat) :
    Nat → List (Nat × Instruction) → Decode (List (Nat × Instruction))
  | 0, acc => return acc.reverse
  | rounds + 1, acc => do
    if ← Read.hasMore then
      let i ← readInstruction pool codeLength
      readInstructions pool codeLength rounds (i :: acc)
    else return acc.reverse

/-- Reads an entry of the handler table. -/
def readHandler (pool : Pool) : Decode Handler := do
  let start ← Decode.labelAt (← Read.u16).toNat
  let stop ← Decode.labelAt (← Read.u16).toNat
  let target ← Decode.labelAt (← Read.u16).toNat
  let index ← Read.u16
  let catchType ← if index = 0 then pure none else some <$> Decode.ofExcept (pool.className index)
  return { start, stop, target, catchType }

/-- What the attributes of a body hold, by offset where it belongs to one. -/
structure Tables where
  /-- The line numbers at an offset, the last one of the table first. -/
  lines : Std.TreeMap Nat (List UInt16) := ∅
  /-- The frame at an offset; a later one replaces an earlier one. -/
  frames : Std.TreeMap Nat Frame := ∅
  /-- The names of local variables. -/
  locals : List LocalVariable := []

/-- Reads a line number and its offset. -/
def readLine (tables : Tables) : Decode Tables := do
  let pc := (← Read.u16).toNat
  let line ← Read.u16
  let _ ← Decode.labelAt pc
  return { tables with lines := tables.lines.insert pc (line :: (tables.lines[pc]?).getD []) }

/-- Reads the name of a local variable. -/
def readLocal (pool : Pool) : Decode LocalVariable := do
  let pc := (← Read.u16).toNat
  let length := (← Read.u16).toNat
  let name ← Decode.ofExcept (pool.text (← Read.u16))
  let descriptor ← Decode.ofExcept (pool.text (← Read.u16))
  let index ← Read.u16
  let start ← Decode.labelAt pc
  let stop ← Decode.labelAt (pc + length)
  return { name, descriptor, start, stop, index }

/-- Reads the type of a slot in a frame. -/
def readSlotType (pool : Pool) : Decode SlotType := do
  let tag ← Read.u8
  match tag.toNat with
  | 0 => return .top
  | 1 => return .int
  | 2 => return .float
  | 3 => return .double
  | 4 => return .long
  | 5 => return .null
  | 6 => return .uninitializedThis
  | 7 => return .object (← Decode.ofExcept (pool.className (← Read.u16)))
  | 8 => return .uninitialized (← Decode.labelAt (← Read.u16).toNat)
  | _ => throw (.malformed (.verificationTag tag))

/-- Reads the change that a frame makes to the local variables of the frame before it. Answers the
    distance from that frame, the local variables and the stack. -/
def readFrameChange (pool : Pool) (method : Member) (locals : List SlotType) :
    Decode (Nat × List SlotType × List SlotType) := do
  let kind ← Read.u8
  let k := kind.toNat
  if k ≤ 63 then return (k, locals, [])
  else if k ≤ 127 then return (k - 64, locals, [← readSlotType pool])
  else if k ≤ 246 then throw (.malformed (.reservedFrame kind method))
  else if k = 247 then
    let delta ← Read.u16
    return (delta.toNat, locals, [← readSlotType pool])
  else if k ≤ 250 then
    let delta ← Read.u16
    let chop := 251 - k
    if locals.length < chop then throw (.malformed (.chopFrame chop locals.length method))
    return (delta.toNat, locals.take (locals.length - chop), [])
  else if k = 251 then return ((← Read.u16).toNat, locals, [])
  else if k ≤ 254 then
    let delta ← Read.u16
    let added ← repeated (k - 251) (readSlotType pool)
    return (delta.toNat, locals ++ added, [])
  else
    let delta ← Read.u16
    let locals ← repeated (← Read.u16).toNat (readSlotType pool)
    let stack ← repeated (← Read.u16).toNat (readSlotType pool)
    return (delta.toNat, locals, stack)

/-- What reading frames carries from one to the next. -/
structure FrameState where
  /-- The local variables of the last frame. -/
  locals : List SlotType
  /-- The offset of the last frame. -/
  last : Option Nat := none
  /-- The frames by offset. -/
  frames : Std.TreeMap Nat Frame

/-- Reads a frame. The first one counts its offset from the start and every other one from the
    instruction behind the frame before it. -/
def readFrame (pool : Pool) (method : Member) (s : FrameState) : Decode FrameState := do
  let (delta, locals, stack) ← readFrameChange pool method s.locals
  let position := match s.last with
    | none => delta
    | some last => last + delta + 1
  let _ ← Decode.labelAt position
  return { locals, last := some position, frames := s.frames.insert position { locals, stack } }

/-- Reads an attribute of a body; those that do not matter to it are left out. -/
def readAttribute (pool : Pool) (method : MethodInfo) (tables : Tables) : Decode Tables := do
  let name ← Decode.ofExcept (pool.text (← Read.u16))
  let data ← Read.lengthPrefixed
  if name = "LineNumberTable" then
    Decode.within data do iterated readLine (← Read.u16).toNat tables
  else if name = "LocalVariableTable" then
    Decode.within data do
      let locals ← repeated (← Read.u16).toNat (readLocal pool)
      return { tables with locals := tables.locals ++ locals }
  else if name = "StackMapTable" then
    Decode.within data do
      let count ← Read.u16
      let locals ← Decode.ofExcept method.initialLocals
      let s ← iterated (readFrame pool method.member) count.toNat
        { locals, frames := tables.frames }
      return { tables with frames := s.frames }
  else return tables

/-- Labels at the end of the code. -/
def weaveEnd (method : Member) (codeLength : Nat) :
    List (Nat × Label) → List Instruction → Except Error (List Instruction)
  | [], acc => .ok acc.reverse
  | (offset, l) :: pending, acc =>
    if offset = codeLength then weaveEnd method codeLength pending (.label l :: acc)
    else .error (.malformed (.labelOutsideCode offset method))

/-- The marks in front of the instruction at an offset, in reverse. -/
def Tables.marksAt (tables : Tables) (offset : Nat) : List Instruction :=
  ((tables.frames[offset]?).map Instruction.frame).toList
    ++ ((tables.lines[offset]?).getD []).map Instruction.line

/-- Puts the labels, which come in ascending order of their offsets, and the lines and frames in
    front of the instructions they belong to. `acc` holds the result so far in reverse. -/
def weave (method : Member) (codeLength : Nat) (tables : Tables) :
    List (Nat × Label) → List (Nat × Instruction) → List Instruction →
      Except Error (List Instruction)
  | pending, [], acc => weaveEnd method codeLength pending acc
  | [], (offset, i) :: rest, acc =>
    weave method codeLength tables [] rest (i :: (tables.marksAt offset ++ acc))
  | (place, l) :: pending, (offset, i) :: rest, acc =>
    if place < offset then .error (.malformed (.labelInsideInstruction place method))
    else if place = offset then
      weave method codeLength tables pending ((offset, i) :: rest) (.label l :: acc)
    else
      weave method codeLength tables ((place, l) :: pending) rest
        (i :: (tables.marksAt offset ++ acc))
termination_by pending rest => pending.length + rest.length

/-- Reads a body, with the labels still in a table of their own. -/
def readBody (pool : Pool) (method : MethodInfo) :
    Decode (UInt16 × UInt16 × Nat × List (Nat × Instruction) × List Handler × Tables) := do
  let maxStack ← Read.u16
  let maxLocals ← Read.u16
  let codeLength := (← Read.u32).toNat
  let code ← Read.bytes codeLength
  let instructions ← Decode.within code (readInstructions pool codeLength codeLength [])
  let handlers ← repeated (← Read.u16).toNat (readHandler pool)
  let tables ← iterated (readAttribute pool method) (← Read.u16).toNat {}
  return (maxStack, maxLocals, codeLength, instructions, handlers, tables)

/-- Decodes the body of a method. -/
def decode (data : Bytes) (pool : Pool) (method : MethodInfo) : Except Error Body := do
  let ((maxStack, maxLocals, codeLength, code, handlers, tables), labels) ←
    ((readBody pool method).run ∅).parse data
  let instructions ← weave method.member codeLength tables labels.toList code []
  return { maxStack, maxLocals, instructions, handlers, locals := tables.locals, modified := false,
           nextLabel := labels.size }

/-- Reads the slot and name of a local variable if its range starts at offset zero. -/
def readParameterName (pool : Pool) : Read (Option (UInt16 × String)) := do
  let start ← Read.u16
  Read.skip 2
  let name ← Read.lift (pool.text (← Read.u16))
  Read.skip 2
  let index ← Read.u16
  return if start = 0 then some (index, name) else none

/-- Reads the slots and names in an attribute of a body. -/
def readParameterNames (pool : Pool) : Read (List (UInt16 × String)) := do
  let name ← Read.lift (pool.text (← Read.u16))
  let data ← Read.lengthPrefixed
  if name = "LocalVariableTable" then
    Read.lift <| Read.parse (do
      let names ← repeated (← Read.u16).toNat (readParameterName pool)
      return names.filterMap id) data
  else return []

/-- Keeps the first of each run of pairs with the same slot. -/
def dedupSlots : List (UInt16 × String) → List (UInt16 × String)
  | [] => []
  | [a] => [a]
  | a :: b :: rest => if a.1 = b.1 then dedupSlots (a :: rest) else a :: dedupSlots (b :: rest)
termination_by l => l.length

/-- The slots and names of the local variables that are live at the start of a body, by slot; the
    least name is kept for each. The code and the handlers are skipped. -/
def parameterNames (data : Bytes) (pool : Pool) : Except Error (List (UInt16 × String)) := do
  let read : Read (List (UInt16 × String)) := do
    Read.skip 4
    Read.skip (← Read.u32).toNat
    Read.skip ((← Read.u16).toNat * 8)
    let names ← repeated (← Read.u16).toNat (readParameterNames pool)
    return names.flatten
  let names ← read.parse data
  let sorted := names.mergeSort fun a b => a.1 < b.1 || (a.1 == b.1 && !(b.2 < a.2))
  return dedupSlots sorted

end Body

end JvmFold
