import JvmFold.Proofs.Natives.Composition

/-!
# Watching a Run

What holds at every moment of a run cannot be read off its outcome, because an
operation of the machine passes through states that its outcome does not show.
So a run is watched: before every instruction, and where a task starts and
ends, a watch may stop it with a fault. A property holds at every point of a run
if it makes no difference to be stopped where it does not hold.

A point shows the state of the machine together with what is still going to be
stored whatever else happens: the field that an instruction in progress writes,
and the values that the fields of a class start with, which are stored when the
superclass has been initialized.

A run need not be watched to its end. `Always` also speaks of runs that
something else stops, so that a property can be claimed up to some event.

## Main definitions

* `Engine.Store`: What is going to be stored in static fields.
* `Engine.Point`: Where a run stands.
* `Engine.watched`: Runs a task under a watch.
* `Engine.Always`: A property of every point of a run.

## Theorems

* `Engine.watched_none`: A watch that never stops a run makes no difference.
-/

namespace JvmFold

namespace Engine

/-- What is going to be stored in static fields when what is in progress has ended. -/
inductive Store where
  /-- The values that the fields of a class start with. -/
  | start (name : String)
  /-- The value that an instruction writes. -/
  | write (field : Member)
deriving DecidableEq, Repr

/-- Where a run stands. -/
structure Point where
  /-- What is going to be stored, the next one first. -/
  pending : List Store
  /-- The instruction that is executed next; nothing where a task starts or ends. -/
  instruction : Option Instruction
  /-- The state. -/
  state : Machine

/-- What may stop a run. -/
abbrev Watch := Point → Option Fault

/-- What is going to be stored while an instruction is in progress. -/
def pendingDuring (pending : List Store) (i : Option Instruction) : List Store :=
  ((i.bind Instruction.staticWrite?).map Store.write).toList ++ pending

/-- What is going to be stored while a task runs another one: a class that waits for its superclass
    has its fields to come. -/
def pendingWithin (pending : List Store) : Task → Task → List Store
  | .initClass name, .initClass _ => .start name :: pending
  | _, _ => pending

/-- The real instruction at a position of a method. -/
def instructionAt? (p : Prepared) (position : Nat) : Option Instruction :=
  (p.code[position]?).filter (!·.isPseudo)

section Watched

variable (watch : Watch) (p : Program) (limits : Limits)

/-- Runs a method under a watch; `enter` is what an instruction is given for what it leaves to be
    stored. -/
def watchedExecute (enter : List Store → Env) (pending : List Store) (m : Prepared) :
    Nat → Activation → Nat → Machine → Emu.Outcome (Option Value)
  | 0, _, _, s => .error .outOfSteps s
  | steps + 1, a, position, s =>
    let i := instructionAt? m position
    match watch ⟨pending, i, s⟩ with
    | some e => .error e s
    | none =>
      match Emu.advance m a position (enter (pendingDuring pending i)) s with
      | .error e s => .error e s
      | .ok (.finished v) s => .ok v s
      | .ok (.running a position) s => watchedExecute enter pending m steps a position s

/-- What the operations of a task are given, with everything below it left to `dispatch`, which is
    told what is going to be stored. -/
def beneath (dispatch : List Store → Nat → Task → Machine → Emu.Outcome (Option Value))
    (task : Task) (depth : Nat) (pending : List Store) : Env where
  program := p
  limits := limits
  isNative := Natives.contains
  depth := depth
  dispatch := fun depth sub s => dispatch (pendingWithin pending task sub) depth sub s

/-- What a task does under a watch. -/
def watchedTask (dispatch : List Store → Nat → Task → Machine → Emu.Outcome (Option Value))
    (depth : Nat) (pending : List Store) (task : Task) (s : Machine) :
    Emu.Outcome (Option Value) :=
  let enter := beneath p limits dispatch task
  match task with
  | .initClass name =>
    match Emu.useClass name (enter depth pending) s with
    | .ok _ s => .ok none s
    | .error e s => .error e s
  | .call target arguments =>
    if limits.depth ≤ depth then
      Emu.raise "java/lang/StackOverflowError" none (enter depth pending) s
    else
      match target with
      | .native m =>
        match Natives.find? m with
        | some native => native arguments (enter (depth + 1) pending) s
        | none => .error (.missingNative m) s
      | .bytecode m =>
        match p.prepare m with
        | .error e => .error e s
        | .ok method =>
          watchedExecute watch (enter (depth + 1)) pending method allowance
            (.start method.maxLocals arguments) 0 s

/-- Runs a task under a watch, with an allowance of levels. -/
def watched : Nat → List Store → Nat → Task → Machine → Emu.Outcome (Option Value)
  | 0, _, _, _, s => .error .outOfSteps s
  | levels + 1, pending, depth, task, s =>
    match watch ⟨pending, none, s⟩ with
    | some e => .error e s
    | none =>
      let r := watchedTask watch p limits (watched levels) depth pending task s
      match watch ⟨pending, none, Emu.Outcome.state r⟩ with
      | some e => .error e (Emu.Outcome.state r)
      | none => r

/-- A property holds at every point of the run that `stop` leaves: whatever else stops it, if only
    where the property does not hold, makes no difference. -/
def Always (stop : Watch) (levels : Nat) (pending : List Store) (depth : Nat) (task : Task)
    (s : Machine) (P : Point → Prop) : Prop :=
  ∀ watch : Watch, (∀ point, P point → watch point = stop point) →
    watched watch p limits levels pending depth task s =
      watched stop p limits levels pending depth task s

end Watched

section None

variable (p : Program) (limits : Limits)

/-- Watched by nobody, a run is as it was. -/
theorem watchedExecute_none (env : Env) (pending : List Store) (m : Prepared) (steps : Nat)
    (a : Activation) (position : Nat) (s : Machine) :
    watchedExecute (fun _ => none) (fun _ => env) pending m steps a position s
      = Emu.execute m steps a position env s := by
  induction steps generalizing a position s with
  | zero => rfl
  | succ steps ih =>
      rw [Emu.execute_succ, watchedExecute]
      dsimp only
      cases Emu.advance m a position env s with
      | error e t => rfl
      | ok progress t =>
          cases progress with
          | finished v => rfl
          | running b next => exact ih b next t

/-- A watch that never stops a run makes no difference. -/
theorem watched_none (levels : Nat) (pending : List Store) (depth : Nat) (task : Task)
    (s : Machine) :
    watched (fun _ => none) p limits levels pending depth task s
      = run p limits levels depth task s := by
  induction levels generalizing pending depth task s with
  | zero => rfl
  | succ levels ih =>
      -- Everything below goes on without a watch as well.
      have hdispatch : watched (fun _ => none) p limits levels
          = fun _ depth task s => run p limits levels depth task s := by
        funext pending depth task s
        exact ih pending depth task s
      rw [watched]
      dsimp only
      rw [hdispatch]
      cases task with
      | initClass name => rfl
      | call target arguments =>
          unfold watchedTask
          cases target with
          | native m =>
              rw [run_native]
              dsimp only
              split
              · rfl
              · cases Natives.find? m with
                | none => rfl
                | some native => rfl
          | bytecode m =>
              rw [run_call]
              dsimp only
              split
              · rfl
              · cases p.prepare m with
                | error e => rfl
                | ok method => exact watchedExecute_none _ _ _ _ _ _ _

end None

end Engine

end JvmFold
