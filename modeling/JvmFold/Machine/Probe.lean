import JvmFold.Machine.Call

/-!
# Probes

The folding asks the machine for values, and no answer of the machine stops
it. A probe is a computation over the machine that handles every fault itself:
it always ends with a value, and a fault of an operation is part of what it
sees.

## Main definitions

* `Probe`: A computation over the machine that cannot fail.
* `Probe.attempt`: Runs an operation of the machine.
* `Probe.beginEvaluation`: Starts the count of instructions anew.
-/

namespace JvmFold

/-- A computation over the machine that cannot fail. -/
abbrev Probe := ReaderT Env (StateM Machine)

/-- The class of the object that a value refers to. -/
def Heap.runtimeClass? (h : Heap) (v : Value) : Option String :=
  v.reference?.map fun r => (h.get r).className

namespace Probe

/-- Runs an operation of the machine. What a failed operation did to the state stays. -/
def attempt {α : Type} (operation : Emu α) : Probe (Except Fault α) := fun env s =>
  match operation env s with
  | .ok a s => (.ok a, s)
  | .error e s => (.error e, s)

/-- The heap. -/
def heap : Probe Heap := do
  return (← get).heap

/-- Starts the count of instructions anew. -/
def beginEvaluation : Probe Unit :=
  modify fun s => { s with executed := 0 }

end Probe

end JvmFold
