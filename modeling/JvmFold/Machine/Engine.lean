import JvmFold.Machine.Step
import JvmFold.Natives.Table

/-!
# The Engine

Runs tasks. What a task asks to be run in turn gets one level less than the
task itself, and a method in progress gets one step less for every
instruction, so the recursion ends whatever the program does. The allowance for
both is no limit of the machine: `Engine.allowance` is beyond what any run uses
up, and an evaluation that did use it up would end in `Fault.outOfSteps`, which
nothing in a program can bring about or catch.

The number of calls in progress is counted on the way down and is part of no
state, so it is right again after every call whatever its outcome.

## Main definitions

* `Emu.execute`: Runs a method that is ready.
* `Engine.run`: Runs a task.
* `Session`: A program with the state of its machine.
* `Session.perform`: Runs an operation of the machine.
-/

namespace JvmFold

/-- Runs a method from a position on, at most the given number of steps far. -/
def Emu.execute (p : Prepared) : Nat → Activation → Nat → Emu (Option Value)
  | 0, _, _ => throw .outOfSteps
  | steps + 1, a, position => fun env s =>
    match advance p a position env s with
    | .error e s => .error e s
    | .ok (.finished v) s => .ok v s
    | .ok (.running a position) s => execute p steps a position env s

namespace Engine

/-- More levels and steps than any run takes. -/
def allowance : Nat := Nat.pow 2 60

/-- Runs a task on top of the given number of calls, with an allowance of levels. -/
def run (p : Program) (limits : Limits) :
    Nat → Nat → Task → Machine → EStateM.Result Fault Machine (Option Value)
  | 0, _, _, s => .error .outOfSteps s
  | levels + 1, depth, task, s =>
    let env : Env :=
      { program := p, limits, isNative := Natives.contains, depth
        dispatch := fun depth task s => run p limits levels depth task s }
    match task with
    | .initClass name =>
      match Emu.useClass name env s with
      | .ok _ s => .ok none s
      | .error e s => .error e s
    | .call target arguments =>
      if limits.depth ≤ depth then Emu.raise "java/lang/StackOverflowError" none env s
      else
        match target with
        | .native m =>
          match Natives.find? m with
          | some native => native arguments { env with depth := depth + 1 } s
          | none => .error (.missingNative m) s
        | .bytecode m =>
          match p.prepare m with
          | .error e => .error e s
          | .ok method =>
            Emu.execute method allowance (.start method.maxLocals arguments) 0
              { env with depth := depth + 1 } s

/-- What an operation of the machine is given at the start, when no call is in progress. -/
def env (p : Program) (limits : Limits) : Env where
  program := p
  limits := limits
  isNative := Natives.contains
  depth := 0
  dispatch := run p limits allowance

end Engine

/-- A program with the state of its machine. -/
structure Session where
  /-- The program. -/
  program : Program
  /-- The limits. -/
  limits : Limits := {}
  /-- The state. -/
  machine : Machine := {}

namespace Session

/-- A session at the start. -/
def start (u : Universe) (limits : Limits) : Session :=
  { program := .ofUniverse u, limits }

/-- Runs an operation of the machine. The state it leaves stays even if it fails. -/
def perform {α : Type} (s : Session) (operation : Emu α) : Except Fault α × Session :=
  match operation (Engine.env s.program s.limits) s.machine with
  | .ok a machine => (.ok a, { s with machine })
  | .error e machine => (.error e, { s with machine })

/-- Sets the count of instructions to zero. -/
def beginEvaluation (s : Session) : Session :=
  { s with machine := { s.machine with executed := 0 } }

end Session

end JvmFold
