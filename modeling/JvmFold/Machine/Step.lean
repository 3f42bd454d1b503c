import JvmFold.Machine.Arrays
import JvmFold.Machine.Concat

/-!
# One Instruction

What a single instruction does to the local variables, the stack and the
state, and where execution goes from there. An exception that an instruction
raises ends the call unless a handler guards the instruction's position; then
the stack holds nothing but the exception and the handler goes on.

An instruction reads the local variables and says which of them changes, but
does not change it itself. So the handler finds them as they were, and the
change is made where nothing else holds the old ones.

## Main definitions

* `Flow`: Where execution goes.
* `Emu.step`: Executes an instruction.
* `Emu.advance`: Executes the instruction at a position, exceptions included.
-/

namespace JvmFold

/-- Where execution goes after an instruction, and with which stack. -/
inductive Flow where
  | next (stack : Stack)
  /-- On to the next instruction with a local variable changed. -/
  | store (index : Nat) (value : Value) (stack : Stack)
  | jump (label : Label) (stack : Stack)
  | finish (value : Option Value)
deriving DecidableEq, Repr

namespace Activation

/-- The value of a local variable. -/
@[inline] def load (a : Activation) (index : UInt16) : Except Fault Value :=
  match a.locals[index.toNat]? with
  | some v => .ok v
  | none => .error (.derailed (.localOutOfRange index))

/-- Changes a local variable; there is room for as many slots as the value takes. -/
def store (a : Activation) (index : Nat) (v : Value) : Activation :=
  let needed := index + v.slots
  let locals :=
    if a.locals.size < needed then
      a.locals ++ Array.replicate (needed - a.locals.size) Value.null
    else a.locals
  { a with locals := locals.setIfInBounds index v }

/-- Puts the arguments of a call into the local variables from a slot on. -/
def storeAll (a : Activation) (slot : Nat) : List Value → Activation
  | [] => a
  | v :: rest => (a.store slot v).storeAll (slot + v.slots) rest

/-- The local variables at the start of a call. -/
def start (maxLocals : Nat) (arguments : List Value) : Activation :=
  storeAll { locals := Array.replicate maxLocals .null } 0 arguments

/-- The frame with another stack. -/
@[inline] def withStack (a : Activation) (s : Stack) : Activation :=
  { a with stack := s }

end Activation

namespace Emu

/-- Divides two values of type `int`. -/
def divideInts (op : Int32 → Int32 → Int32) (s : Stack) : Emu Stack := do
  let (b, s) ← lift s.popInt
  let (a, s) ← lift s.popInt
  if b = 0 then raiseZeroDivision else return .int (op a b) :: s

/-- Divides two values of type `long`. -/
def divideLongs (op : Int64 → Int64 → Int64) (s : Stack) : Emu Stack := do
  let (b, s) ← lift s.popLong
  let (a, s) ← lift s.popLong
  if b = 0 then raiseZeroDivision else return .long (op a b) :: s

/-- Takes an exception off the stack and throws it. -/
def throwTop {α : Type} (s : Stack) : Emu α := do
  let (exception, _) ← lift s.popReference
  match exception with
  | some r => throw (.thrown r)
  | none => raiseNull (some "Cannot throw exception because value is null")

/-- Enters or leaves a monitor, which has no effect on an object. -/
def monitor (s : Stack) : Emu Stack := do
  let (object, s) ← lift s.popReference
  if object.isNone then
    raiseNull (some "Cannot enter synchronized block because value is null")
  return s

/-- The instructions without operands that need more than the stack. -/
def simpleEffect (op : Opcode) (s : Stack) : Emu Stack :=
  match op with
  | .iaload | .laload | .faload | .daload | .aaload | .baload | .caload | .saload => arrayLoad s
  | .iastore | .lastore | .fastore | .dastore | .aastore | .bastore | .castore | .sastore =>
    arrayStore s
  | .arraylength => arrayLength s
  | .idiv => divideInts (· / ·) s
  | .irem => divideInts (· % ·) s
  | .ldiv => divideLongs (· / ·) s
  | .lrem => divideLongs (· % ·) s
  | .athrow => throwTop s
  | .monitorenter | .monitorexit => monitor s
  | _ => throw (.unsupported (.opcode op))

/-- Executes an instruction without operands. -/
def simple (op : Opcode) (s : Stack) : Emu Flow := do
  match (Stack.compute? op).or (Stack.shuffle? op) with
  | some f => return .next (← lift (f s))
  | none =>
    match op with
    | .ireturn | .lreturn | .freturn | .dreturn | .areturn =>
      let (v, _) ← lift s.pop
      return .finish (some v)
    | .voidReturn => return .finish none
    | _ => return .next (← simpleEffect op s)

/-- Loads or stores a local variable. -/
def localAccess (op : Opcode) (index : UInt16) (a : Activation) : Emu Flow := do
  match op with
  | .iload | .lload | .fload | .dload | .aload =>
    return .next ((← lift (a.load index)) :: a.stack)
  | .istore | .lstore | .fstore | .dstore | .astore =>
    let (v, s) ← lift (Stack.pop a.stack)
    return .store index.toNat v s
  | _ => throw (.unsupported (.opcode op))

/-- Reads or writes a field. -/
def fieldAccess (op : Opcode) (m : Member) (s : Stack) : Emu Stack := do
  match op with
  | .getstatic => return (← getStatic m) :: s
  | .putstatic =>
    let (v, s) ← lift s.pop
    putStatic m v
    return s
  | .getfield =>
    let (object, s) ← lift s.pop
    return (← getField object m) :: s
  | _ =>
    let (v, s) ← lift s.pop
    let (object, s) ← lift s.pop
    putField object m v
    return s

/-- A descriptor or name that was read; what is wrong with it is a fault. -/
def fromDescriptor {α : Type} : Except Error α → Except Fault α
  | .ok a => .ok a
  | .error e => .error (.unsupported (.badDescriptor e))

/-- Calls a method with values from the stack. -/
def invokeFrom (op : Opcode) (m : Member) (s : Stack) : Emu Stack := do
  match InvokeKind.ofOpcode? op with
  | none => throw (.unsupported (.opcode op))
  | some kind =>
    let type ← lift (fromDescriptor (MethodType.parse m.descriptor))
    let (arguments, s) ←
      lift (s.popMany (type.parameters.length + kind.hasReceiver.toNat))
    match ← invoke kind m arguments with
    | some v => return v :: s
    | none => return s

/-- Joins values from the stack at a call site of a class. -/
def concatFrom (c : ClassFile) (bootstrap : UInt16) (name descriptor : String) (s : Stack) :
    Emu Stack := do
  match ← lift (ConcatRecipe.ofCallSite c bootstrap) with
  | none => throw (.unsupported (.callSite name descriptor))
  | some recipe =>
    let type ← lift (fromDescriptor (MethodType.parse descriptor))
    let (values, s) ← lift (s.popMany type.parameters.length)
    return (← recipe.apply type.parameters values) :: s

/-- The instructions that name a class. -/
def typed (op : Opcode) (name : String) (s : Stack) : Emu Stack := do
  match op with
  | .new => return .ref (← instantiate name) :: s
  | .anewarray =>
    let (length, s) ← lift s.popInt
    let component ← lift (fromDescriptor (FieldType.ofClassName name))
    return (← newArray component length) :: s
  | .checkcast =>
    let (v, rest) ← lift s.pop
    if let .ref r := v then
      if !(← isInstance v name) then
        raise "java/lang/ClassCastException"
          (some ("class " ++ dotted (← object r).className ++ " cannot be cast to class "
            ++ dotted name))
    return v :: rest
  | .instanceof =>
    let (v, s) ← lift s.pop
    return .ofBool (← isInstance v name) :: s
  | _ => throw (.unsupported (.opcode op))

/-- Makes an array of a primitive type. -/
def newPrimitiveArray (kind : UInt8) (s : Stack) : Emu Stack := do
  let (length, s) ← lift s.popInt
  match FieldType.ofArrayKind? kind with
  | none => throw (.unsupported (.arrayKind kind))
  | some component => return (← newArray component length) :: s

/-- Makes arrays of arrays. -/
def newNestedArray (name : String) (dimensions : UInt8) (s : Stack) : Emu Stack := do
  let (lengths, s) ← lift (s.popMany dimensions.toNat)
  let lengths ← lift (lengths.mapM Value.asInt)
  let type ← lift (fromDescriptor (FieldType.parse name))
  return (← newArrays type lengths) :: s

/-- The target of a switch over a range of keys. -/
def tableTarget (default : Label) (low high : Int32) (targets : List Label) (key : Int32) :
    Label :=
  if key < low ∨ high < key then default
  else (targets[(key.toInt - low.toInt).toNat]?).getD default

/-- The target of a switch over a list of keys. -/
def lookupTarget (default : Label) (pairs : List (Int32 × Label)) (key : Int32) : Label :=
  ((pairs.find? (·.1 == key)).map Prod.snd).getD default

/-- Executes an instruction of a class. -/
def step (c : ClassFile) (i : Instruction) (a : Activation) : Emu Flow := do
  match i with
  | .label _ | .line _ | .frame _ => return .next a.stack
  | .simple op => simple op a.stack
  | .push _ v => return .next (.int v :: a.stack)
  | .ldc k => return .next ((← constant k) :: a.stack)
  | .var op index => localAccess op index a
  | .iinc index delta =>
    let v ← lift ((← lift (a.load index)).asInt)
    return .store index.toNat (.int (v + delta.toInt32)) a.stack
  | .jump op label =>
    match Stack.branch? op with
    | none => throw (.unsupported (.opcode op))
    | some test =>
      let (taken, s) ← lift (test a.stack)
      return if taken then .jump label s else .next s
  | .tableSwitch default low high targets =>
    let (key, s) ← lift (Stack.popInt a.stack)
    return .jump (tableTarget default low high targets key) s
  | .lookupSwitch default pairs =>
    let (key, s) ← lift (Stack.popInt a.stack)
    return .jump (lookupTarget default pairs key) s
  | .field op m => return .next (← fieldAccess op m a.stack)
  | .invoke op m _ => return .next (← invokeFrom op m a.stack)
  | .invokeDynamic bootstrap name descriptor =>
    return .next (← concatFrom c bootstrap name descriptor a.stack)
  | .typed op name => return .next (← typed op name a.stack)
  | .newArray kind => return .next (← newPrimitiveArray kind a.stack)
  | .multiNewArray name dimensions =>
    return .next (← newNestedArray name dimensions a.stack)

/-- The handler that guards a position against an exception. -/
def handler? (p : Prepared) (position : Nat) (exception : HeapRef) : Emu (Option Nat) := do
  let name := (← object exception).className
  let u ← classes
  let guard := p.guards.find? fun g =>
    g.start ≤ position && position < g.stop && g.catchType.all (u.isSubtype name)
  return guard.map (·.target)

/-- How a call in progress stands after an instruction. -/
inductive Progress where
  | running (frame : Activation) (position : Nat)
  | finished (value : Option Value)

/-- Executes the instruction at a position of a method. -/
def advance (p : Prepared) (a : Activation) (position : Nat) : Emu Progress := do
  match p.code[position]? with
  | none => throw (.derailed (.fellOff p.member))
  | some i =>
    if i.isPseudo then return .running a (position + 1)
    else
      tick
      let flow ←
        try step p.owner i a
        catch fault =>
          match fault with
          | .thrown exception =>
            match ← handler? p position exception with
            | some target => return .running (a.withStack [.ref exception]) target
            | none => throw fault
          | _ => throw fault
      match flow with
      | .next s => return .running (a.withStack s) (position + 1)
      | .store index v s => return .running ((a.withStack s).store index v) (position + 1)
      | .jump label s => return .running (a.withStack s) (← lift (p.target label))
      | .finish v => return .finished v

end Emu

end JvmFold
