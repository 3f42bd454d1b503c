import JvmFold.Machine.Heap
import JvmFold.Machine.Program

/-!
# The State of the Machine

What an evaluation can change: the heap, the static fields, which classes have
been initialized, the answers kept for later, and the count of instructions.
Everything else an evaluation needs comes from outside, in an `Env`: the
program, the limits, the number of calls in progress, and the way to run
another part of the program.

That last part ties the knot. The machine's operations, the instructions and
the built-in methods all call back into the program, and each of them is an
ordinary function that asks `Env.dispatch` to run a `Task`. Only the engine,
which supplies `dispatch`, is recursive.

## Main definitions

* `Limits`: How deep and how long an evaluation may get.
* `Machine`: The state.
* `Task`: A part of the program to run.
* `Env`, `Emu`: What an operation of the machine is given, and what it is.
-/

namespace JvmFold

/-- How deep and how long an evaluation may get. -/
structure Limits where
  /-- The greatest number of calls in progress. -/
  depth : Nat := 512
  /-- The greatest number of instructions. -/
  instructions : Option Nat := none
deriving DecidableEq, Inhabited, Repr

/-- The ways to call a method. -/
inductive InvokeKind where
  | static
  | special
  | virtual
  | interface
deriving DecidableEq, Hashable, Inhabited, Repr

namespace InvokeKind

/-- The kind of call of an opcode. -/
def ofOpcode? : Opcode → Option InvokeKind
  | .invokestatic => some .static
  | .invokespecial => some .special
  | .invokevirtual => some .virtual
  | .invokeinterface => some .interface
  | _ => none

/-- Whether the first argument of the call is an object. -/
def hasReceiver (k : InvokeKind) : Bool :=
  k != .static

end InvokeKind

/-- What a call runs. -/
inductive Target where
  /-- A method of a class file. -/
  | bytecode (method : Member)
  /-- A method that is built into the machine. -/
  | native (method : Member)
deriving DecidableEq, Inhabited, Repr

/-- The method that a call runs. -/
def Target.member : Target → Member
  | .bytecode m | .native m => m

/-- How far the initialization of a class has come. -/
inductive InitState where
  | inProgress
  | done
  | failed
deriving DecidableEq, Inhabited, Repr

/-- What an unchangeable value stands for, apart from its identity. -/
inductive ValueKey where
  | int (value : Int32)
  | long (value : Int64)
  | float (bits : Bits32)
  | double (bits : Bits64)
  | null
  | string (units : Units)
  | boxed (wrapper : Wrapper) (bits : UInt64)
  | classObject (name : String)
deriving DecidableEq, Hashable, Inhabited, Repr

/-- A call by what it stands for. -/
structure CallKey where
  /-- The way to call. -/
  kind : InvokeKind
  /-- The method named in the call. -/
  method : Member
  /-- The arguments. -/
  arguments : List ValueKey
deriving DecidableEq, Hashable, Inhabited, Repr

/-- The state of the machine. -/
structure Machine where
  /-- The objects. -/
  heap : Heap := {}
  /-- The static fields of the classes whose initialization has begun. -/
  statics : Std.HashMap Member Value := ∅
  /-- The classes whose initialization has begun. -/
  initialized : Std.HashMap String InitState := ∅
  /-- The answers of calls, an exception counting as one. -/
  answers : Std.HashMap CallKey (Except HeapRef (Option Value)) := ∅
  /-- The instructions executed since the count was last set to zero. -/
  executed : Nat := 0
deriving Inhabited

/-- The local variables and the stack of a call in progress. -/
structure Activation where
  /-- The stack, top first. -/
  stack : List Value := []
  /-- The local variables. -/
  locals : Array Value := #[]
deriving DecidableEq, Inhabited, Repr

/-- A part of the program to run. -/
inductive Task where
  /-- Call a method. -/
  | call (target : Target) (arguments : List Value)
  /-- Initialize a class. -/
  | initClass (name : String)

/-- A computation that changes the state and may fail; what a failed one did to the state stays. -/
abbrev Run := EStateM Fault Machine

/-- What an operation of the machine is given. -/
structure Env where
  /-- The program. -/
  program : Program
  /-- The limits. -/
  limits : Limits
  /-- Which methods are built in. -/
  isNative : Member → Bool
  /-- The number of calls in progress. -/
  depth : Nat
  /-- Runs a part of the program on top of the given number of calls. -/
  dispatch : Nat → Task → Run (Option Value)

/-- An operation of the machine. -/
abbrev Emu := ReaderT Env Run

namespace Emu

/-- An answer that needs nothing from the machine. -/
@[inline] def lift {α : Type} : Except Fault α → Emu α
  | .ok a => pure a
  | .error e => throw e

/-- The classes of the program. -/
def classes : Emu Universe := do
  return (← read).program.classes

/-- Runs a part of the program. -/
def run (t : Task) : Emu (Option Value) := do
  let env ← read
  env.dispatch env.depth t

/-- Calls a method. -/
def call (t : Target) (arguments : List Value) : Emu (Option Value) :=
  run (.call t arguments)

/-- Initializes a class unless that has begun before. -/
def initClass (name : String) : Emu Unit := do
  let _ ← run (.initClass name)

/-- Counts an instruction. -/
@[inline] def tick : Emu Unit := do
  modify fun s => { s with executed := s.executed + 1 }
  match (← read).limits.instructions with
  | none => return
  | some limit => if limit < (← get).executed then throw (.instructionLimit limit)

/-- The heap. -/
def heap : Emu Heap := do
  return (← get).heap

/-- The object of a reference. -/
def object (r : HeapRef) : Emu HeapObject := do
  return (← get).heap.get r

/-- Lets the heap take up or find an object. -/
@[inline] def onHeap (f : Heap → HeapRef × Heap) : Emu HeapRef :=
  modifyGet fun s =>
    let heap := s.heap
    let s := { s with heap := {} }
    let (r, heap) := f heap
    (r, { s with heap })

/-- Adds an object. -/
def alloc (o : HeapObject) : Emu HeapRef :=
  onHeap (·.alloc o)

/-- Adds a string. -/
def newString (units : Units) : Emu Value := do
  return .ref (← onHeap (·.newString units))

/-- Adds a string with the given text. -/
def newText (text : String) : Emu Value :=
  newString (.ofString text)

/-- The canonical string of a text. -/
def intern (text : String) : Emu Value := do
  return .ref (← onHeap (·.intern (.ofString text)))

/-- The object of a class. -/
def classObject (name : String) : Emu Value := do
  return .ref (← onHeap (·.classObject name))

/-- A box of a value. -/
def boxed (w : Wrapper) (v : Value) : Emu Value := do
  return .ref (← onHeap (·.boxed w v))

/-- Changes an object. -/
@[inline] def modifyObject (r : HeapRef) (f : HeapObject → HeapObject) : Emu Unit :=
  modify fun s =>
    let heap := s.heap
    let s := { s with heap := {} }
    { s with heap := heap.modify r f }

end Emu

end JvmFold
