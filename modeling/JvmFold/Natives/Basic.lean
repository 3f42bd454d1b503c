import JvmFold.Machine.Text

/-!
# Built-In Methods

Methods of the platform are functions from the values of a call, the receiver
first, to an answer. A value that is missing shows up as a stack that is too
short, and one of the wrong kind as a mismatch, in the order in which the
method looks at its values.

## Main definitions

* `Native`: A built-in method.
* `Builtin`: A built-in method with its name and descriptor.
* `Natives.arg` and its companions: The values of a call.
-/

namespace JvmFold

/-- A built-in method. -/
abbrev Native := List Value → Emu (Option Value)

/-- A built-in method of some class. -/
structure Builtin where
  /-- The name and descriptor. -/
  signature : Signature
  /-- What the method does. -/
  run : Native

namespace Natives

/-- A built-in method by its name and descriptor. -/
def method (name descriptor : String) (run : Native) : Builtin :=
  ⟨⟨name, descriptor⟩, run⟩

/-- A value of the call. -/
def arg (args : List Value) (i : Nat) : Emu Value :=
  match args[i]? with
  | some v => return v
  | none => throw .stackUnderflow

/-- A value of the call as an `int`. -/
def argInt (args : List Value) (i : Nat) : Emu Int32 := do
  Emu.lift (← arg args i).asInt

/-- A value of the call as a `long`. -/
def argLong (args : List Value) (i : Nat) : Emu Int64 := do
  Emu.lift (← arg args i).asLong

/-- A value of the call as a `float`. -/
def argFloat (args : List Value) (i : Nat) : Emu Bits32 := do
  Emu.lift (← arg args i).asFloat

/-- A value of the call as a `double`. -/
def argDouble (args : List Value) (i : Nat) : Emu Bits64 := do
  Emu.lift (← arg args i).asDouble

/-- A value of the call as an `int`, or `default` if the call has no such value. -/
def argIntOr (args : List Value) (i : Nat) (default : Int32) : Emu Int32 :=
  match args[i]? with
  | some v => Emu.lift v.asInt
  | none => return default

/-- A value of the call as an object. -/
def argObject (args : List Value) (i : Nat) : Emu HeapRef := do
  match ← Emu.lift (← arg args i).asReference with
  | some r => return r
  | none => Emu.raiseNull

/-- The receiver. -/
def receiver (args : List Value) : Emu HeapRef :=
  argObject args 0

/-- The answer of a method that answers nothing. -/
def void : Emu (Option Value) :=
  return none

/-- The answer of a test. -/
def bool (b : Bool) : Emu (Option Value) :=
  return some (.ofBool b)

/-- An `int` as an answer. -/
def int (v : Int32) : Emu (Option Value) :=
  return some (.int v)

/-- A `long` as an answer. -/
def long (v : Int64) : Emu (Option Value) :=
  return some (.long v)

/-- A `float` as an answer. -/
def float (b : Bits32) : Emu (Option Value) :=
  return some (.float b)

/-- A `double` as an answer. -/
def double (b : Bits64) : Emu (Option Value) :=
  return some (.double b)

/-- A new string as an answer. -/
def units (u : List UInt16) : Emu (Option Value) := do
  return some (← Emu.newString u.toArray)

/-- A new string of a text as an answer. -/
def text (s : String) : Emu (Option Value) := do
  return some (← Emu.newText s)

/-- A value of the call as the answer. -/
def answerArg (args : List Value) (i : Nat) : Emu (Option Value) := do
  return some (← arg args i)

/-- The text of an exception for a value of the wrong class. -/
def castMessage (actual wanted : String) : String :=
  "class " ++ dotted actual ++ " cannot be cast to class " ++ dotted wanted

/-- Throws the exception for a value of the wrong class. -/
def raiseCast {α : Type} (actual wanted : String) : Emu α :=
  Emu.raise "java/lang/ClassCastException" (some (castMessage actual wanted))

end Natives

end JvmFold
