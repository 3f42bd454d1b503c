import JvmFold.Proofs.Machine.Lifecycle

/-!
# The Depth of Calls

The machine is given the number of calls in progress on the way down. A counter
in its state does the same work if every call adds one to it and takes one away
at its end. Here operations are run with such a counter, which is asked for the
depth wherever the depth matters. Beside it stand the calls that are in
progress. These are no part of the state: a call is in progress as long as what
it runs is run.

The counter is read before every part of an operation and after every change.
Both runs come to the same, and in the end the counter is back where it was,
whatever the outcome. A call adds one to the counter and one call to those in
progress, and nothing else does either. So the induction is on the levels, and
on the scripts below each.

## Main definitions

* `Reading`: The counter and the calls in progress, at some point of a run.
* `Emu.Script.counted`, `Engine.counted`: Scripts and tasks with a counter.
* `Counter.Keeps`: What is the same with a counter, and what its readings are.
* `Emu.Entry`: What the machine is asked for.

## Theorems

* `Engine.keeps_counted`: Every task keeps the counter.
* `Session.depth_counts_calls`: The counter over any operations.
-/

namespace JvmFold

/-- The counter of calls at some point of a run. -/
structure Reading where
  /-- The calls in progress, the last one first. -/
  calls : List Target
  /-- What the counter says. -/
  depth : Nat
deriving DecidableEq, Repr

/-- A machine with a counter of calls. -/
structure Counter where
  machine : Machine := {}
  depth : Nat := 0
  /-- What was read so far, the last one first. -/
  readings : List Reading := []

/-- An operation of a machine with a counter. -/
abbrev Counting := EStateM Fault Counter

namespace Counter

/-- The counter is read. -/
def read (g : Counter) (calls : List Target) : Counter :=
  { g with readings := ⟨calls, g.depth⟩ :: g.readings }

/-- What is left of a run. -/
def after {α : Type} : EStateM.Result Fault Counter α → Counter
  | .ok _ g | .error _ g => g

end Counter

namespace Counting

variable {α : Type}

/-- A part of an operation that has no share in the counter. -/
def plain (inside : Nat → Env) (calls : List Target) (x : Emu α) : Counting α := fun g =>
  match x (inside g.depth) g.machine with
  | .ok a machine => .ok a { g.read calls with machine }
  | .error e machine => .error e { g.read calls with machine }

/-- One call deeper. What was added is taken away again whatever the outcome. -/
def deeper (target : Target) (calls : List Target) (x : Counting α) : Counting α := fun g =>
  match x ({ g with depth := g.depth + 1 }.read (target :: calls)) with
  | .ok a g => .ok a ({ g with depth := g.depth - 1 }.read calls)
  | .error e g => .error e ({ g with depth := g.depth - 1 }.read calls)

end Counting

/-- What a script does if the depth is taken from the counter. -/
def Emu.Script.counted (inside : Nat → Env) (tasks : Task → Counting (Option Value))
    (calls : List Target) {starts : Option String} :
    {α : Type} → Emu.Script starts α → Counting α
  | _, quiet x => Counting.plain inside calls x
  | _, bind x f =>
    x.counted inside tasks calls >>= fun a => (f a).counted inside tasks calls
  | _, tryCatch x handle =>
    MonadExcept.tryCatch (x.counted inside tasks calls) fun e =>
      (handle e).counted inside tasks calls
  | _, read f => fun g => (f (inside g.depth)).counted inside tasks calls g
  | _, run t => tasks t
  | _, note name _ state => Counting.plain inside calls (setInitState name state)
  | _, initializer name _ => tasks (.call (.bytecode (ClassFile.initializer.on name)) [])

/-- What a task does on top of the calls in progress if the depth is taken from the counter. -/
def Engine.counted {p : Program} (limits : Limits) (plan : Engine.Plan p) :
    Nat → List Target → Task → Counting (Option Value)
  | 0, _, _ => throw .outOfSteps
  | levels + 1, calls, .initClass name => do
    (Emu.Script.useClass name).counted (inside p limits levels) (counted limits plan levels calls)
      calls
    return none
  | levels + 1, calls, .call target arguments => do
    if limits.depth ≤ (← get).depth then
      Counting.plain (inside p limits levels) calls (Emu.raise "java/lang/StackOverflowError" none)
    else
      Counting.deeper target calls <|
        (plan.script target arguments).counted (inside p limits levels)
          (counted limits plan levels (target :: calls)) (target :: calls)

/-- The counter has grown by as much as there are more calls in progress, and within the limit. -/
structure Reading.Counts (limits : Limits) (calls : List Target) (depth : Nat) (r : Reading) :
    Prop where
  above : calls <:+ r.calls
  depth_eq : r.depth + calls.length = depth + r.calls.length
  depth_le : r.depth ≤ max depth limits.depth

namespace Emu

variable {α β : Type} {σ : Type}

/-- The outcome if more is kept than the state of the machine. -/
def Outcome.within (f : Machine → σ) : Outcome α → EStateM.Result Fault σ α
  | .ok a s => .ok a (f s)
  | .error e s => .error e (f s)

end Emu

/-- An operation comes to the same with a counter. The counter is back where it was, and it was
    right on the way. -/
def Counter.Keeps {α : Type} (limits : Limits) (calls : List Target) (g : Counter)
    (r : Emu.Outcome α) (r' : EStateM.Result Fault Counter α) : Prop :=
  ∃ new : List Reading, (∀ reading ∈ new, reading.Counts limits calls g.depth) ∧
    r' = Emu.Outcome.within (fun machine => ⟨machine, g.depth, new ++ g.readings⟩) r

section Keeps

variable {limits : Limits} {calls : List Target} {g : Counter} {α β : Type}
variable {r : Emu.Outcome α} {r' : EStateM.Result Fault Counter α} {inside : Nat → Env}

theorem Reading.counts_self : (Reading.mk calls g.depth).Counts limits calls g.depth :=
  ⟨List.suffix_rfl, rfl, Nat.le_max_left ..⟩

/-- What is right one call deeper is right, if the call was allowed. -/
theorem Reading.Counts.ofDeeper {reading : Reading} {target : Target} {depth : Nat}
    (h : reading.Counts limits (target :: calls) (depth + 1)) (hlimit : ¬limits.depth ≤ depth) :
    reading.Counts limits calls depth := by
  have hdepth := h.depth_eq
  have hle := h.depth_le
  rw [List.length_cons] at hdepth
  exact ⟨(List.suffix_cons target calls).trans h.above, by omega, by omega⟩

/-- A count goes on from one part to the next. -/
theorem Counting.bind_apply {x : Counting α} {f : α → Counting β} :
    (x >>= f) g = match x g with
      | .ok a g => f a g
      | .error e g => .error e g := by
  change EStateM.bind x f g = _
  unfold EStateM.bind
  cases x g <;> rfl

-- And into a handler.
theorem Counting.tryCatch_apply {x : Counting α} {handle : Fault → Counting α} :
    MonadExcept.tryCatch x handle g = match x g with
      | .ok a g => .ok a g
      | .error e g => handle e g := by
  change EStateM.tryCatch x handle g = _
  unfold EStateM.tryCatch
  cases x g <;> rfl

/-- What goes on from a state in which the counter is back. -/
theorem Counter.Keeps.later {s : Machine} {x : EStateM.Result Fault Counter β}
    {y : Emu.Outcome β} {new : List Reading}
    (hnew : ∀ reading ∈ new, reading.Counts limits calls g.depth)
    (h : (Counter.mk s g.depth (new ++ g.readings)).Keeps limits calls y x) :
    g.Keeps limits calls y x := by
  rcases h with ⟨more, hmore, rfl⟩
  exact ⟨more ++ new, List.forall_mem_append.2 ⟨hmore, hnew⟩, by rw [List.append_assoc]⟩

/-- What makes no calls is read once. -/
theorem Counting.keeps_plain (inside : Nat → Env) (x : Emu α) :
    g.Keeps limits calls (x (inside g.depth) g.machine) (Counting.plain inside calls x g) := by
  refine ⟨[⟨calls, g.depth⟩], List.forall_mem_singleton.2 Reading.counts_self, ?_⟩
  unfold Counting.plain
  cases x (inside g.depth) g.machine <;> rfl

/-- A script keeps the counter if the tasks do. -/
theorem Emu.Script.keeps_counted {tasks : Task → Counting (Option Value)}
    {starts : Option String}
    (htasks : ∀ (t : Task) (g : Counter),
      g.Keeps limits calls (Emu.run t (inside g.depth) g.machine) (tasks t g))
    (x : Emu.Script starts α) (g : Counter) :
    g.Keeps limits calls (x.perform (inside g.depth) g.machine)
      (x.counted inside tasks calls g) := by
  -- The induction is on the script; the readings of a later part go in front.
  induction x generalizing g with
  | quiet x => exact Counting.keeps_plain inside x
  | bind x f ihx ihf =>
      rw [counted, perform, Emu.bind_apply, Counting.bind_apply]
      rcases ihx g with ⟨new, hnew, heq⟩
      rw [heq]
      cases x.perform (inside g.depth) g.machine with
      | ok a s => exact .later hnew (ihf a ⟨s, g.depth, new ++ g.readings⟩)
      | error e s => exact ⟨new, hnew, rfl⟩
  | tryCatch x handle ihx ihhandle =>
      rw [counted, perform, Emu.tryCatch_apply, Counting.tryCatch_apply]
      rcases ihx g with ⟨new, hnew, heq⟩
      rw [heq]
      cases x.perform (inside g.depth) g.machine with
      | ok a s => exact ⟨new, hnew, rfl⟩
      | error e s => exact .later hnew (ihhandle e ⟨s, g.depth, new ++ g.readings⟩)
  | read f ih => exact ih (inside g.depth) g
  | run t => exact htasks t g
  | note name hname state => exact Counting.keeps_plain inside (setInitState name state)
  | initializer name hname => exact htasks _ g

end Keeps

namespace Engine

variable {p : Program} {limits : Limits} (plan : Plan p)

/-- A call keeps the counter if what it runs does. -/
theorem keeps_deeper {target : Target} {calls : List Target} {g : Counter}
    {x : Counting (Option Value)} {r : Emu.Outcome (Option Value)}
    (hlimit : ¬limits.depth ≤ g.depth)
    (h : ({ g with depth := g.depth + 1 }.read (target :: calls)).Keeps limits (target :: calls)
      r (x ({ g with depth := g.depth + 1 }.read (target :: calls)))) :
    g.Keeps limits calls r (Counting.deeper target calls x g) := by
  rcases h with ⟨new, hnew, heq⟩
  refine ⟨⟨calls, g.depth⟩ :: (new ++ [⟨target :: calls, g.depth + 1⟩]), ?_, ?_⟩
  · refine List.forall_mem_cons.2 ⟨Reading.counts_self, List.forall_mem_append.2 ⟨?_, ?_⟩⟩
    · exact fun reading hin => (hnew reading hin).ofDeeper hlimit
    · exact List.forall_mem_singleton.2
        ((Reading.counts_self (g := { g with depth := g.depth + 1 })).ofDeeper hlimit)
  · unfold Counting.deeper
    rw [heq]
    cases r with
    | ok a s => simp [Emu.Outcome.within, Counter.read]
    | error e s => simp [Emu.Outcome.within, Counter.read]

/-- A call is refused at the limit and counts one level more below it. -/
theorem counted_call (levels : Nat) (calls : List Target) (target : Target)
    (arguments : List Value) (g : Counter) :
    counted limits plan (levels + 1) calls (.call target arguments) g =
      if limits.depth ≤ g.depth then
        Counting.plain (inside p limits levels) calls
          (Emu.raise "java/lang/StackOverflowError" none) g
      else Counting.deeper target calls ((plan.script target arguments).counted
        (inside p limits levels) (counted limits plan levels (target :: calls))
        (target :: calls)) g := by
  have hget : (get : Counting Counter) g = .ok g g := rfl
  rw [counted, Counting.bind_apply, hget]
  dsimp only
  split <;> rfl

/-- Every task keeps the counter. -/
theorem keeps_counted (levels : Nat) (calls : List Target) (task : Task) (g : Counter) :
    g.Keeps limits calls (run p limits levels g.depth task g.machine)
      (counted limits plan levels calls task g) := by
  -- Each level of the machine is one task of the levels below, with one call more on top.
  induction levels generalizing calls task g with
  | zero => exact ⟨[], nofun, rfl⟩
  | succ levels ih =>
      have hbelow (calls : List Target) (t : Task) (g : Counter) :
          g.Keeps limits calls (Emu.run t (inside p limits levels g.depth) g.machine)
            (counted limits plan levels calls t g) :=
        ih calls t g
      cases task with
      | initClass name =>
          rcases (Emu.Script.useClass name).keeps_counted (hbelow calls) g with ⟨new, hnew, heq⟩
          refine ⟨new, hnew, ?_⟩
          rw [counted, Counting.bind_apply, heq, run_initClass, Emu.Script.perform_useClass]
          cases Emu.useClass name (inside p limits levels g.depth) g.machine <;> rfl
      | call target arguments =>
          rw [counted_call, run_target]
          by_cases hlimit : limits.depth ≤ g.depth
          · rw [if_pos hlimit, if_pos hlimit]
            exact Counting.keeps_plain (inside p limits levels) _
          · rw [if_neg hlimit, if_neg hlimit, ← plan.perform_eq]
            exact keeps_deeper hlimit (Emu.Script.keeps_counted (hbelow (target :: calls)) _ _)

/-- A call at the limit makes the exception and throws it, whatever it is a call of. -/
theorem counted_at_limit {g : Counter} (hlimit : limits.depth ≤ g.depth) (levels : Nat)
    (calls : List Target) (target : Target) (arguments : List Value) :
    let raised := g.machine.heap.alloc (.instance "java/lang/StackOverflowError" [])
    counted limits plan (levels + 1) calls (.call target arguments) g =
      .error (.thrown raised.1)
        { g.read calls with machine := { g.machine with heap := raised.2 } } := by
  intro raised
  rw [counted_call, if_pos hlimit]
  rfl

end Engine

namespace Emu

/-- What the machine is asked for. -/
inductive Entry where
  | call (target : Target) (arguments : List Value)
  | invoke (kind : InvokeKind) (m : Member) (arguments : List Value)
  | invokeOnce (kind : InvokeKind) (m : Member) (arguments : List Value)
  | construct (constructor : Member) (arguments : List Value)
  | initClass (name : String)
  | areEqual (a b : Value)

/-- The operation of the machine that answers, without the answer. -/
def Entry.operation : Entry → Emu Unit
  | call target arguments => Emu.call target arguments >>= fun _ => pure ()
  | invoke kind m arguments => Emu.invoke kind m arguments >>= fun _ => pure ()
  | invokeOnce kind m arguments => Emu.invokeOnce kind m arguments >>= fun _ => pure ()
  | construct constructor arguments => Emu.construct constructor arguments >>= fun _ => pure ()
  | initClass name => Emu.initClass name
  | areEqual a b => Emu.areEqual a b >>= fun _ => pure ()

instance (entry : Entry) : Scripted entry.operation := by
  cases entry <;> (unfold Entry.operation; infer_instance)

end Emu

namespace Session

variable {p : Program}

/-- Performs operations one after the other with a counter, whatever becomes of each. -/
def countAll (limits : Limits) (plan : Engine.Plan p) (operations : List (Emu.Script none Unit))
    (g : Counter) : Counter :=
  operations.foldl (fun g operation => Counter.after
    (operation.counted (Engine.inside p limits Engine.allowance)
      (Engine.counted limits plan Engine.allowance []) [] g)) g

/-- An operation is counted as its script is, at whatever depth it is asked for. -/
theorem keeps_operation (limits : Limits) (plan : Engine.Plan p) (levels : Nat)
    (calls : List Target) {α : Type} (operation : Emu.Script none α) (g : Counter) :
    g.Keeps limits calls (operation.perform (Engine.inside p limits levels g.depth) g.machine)
      (operation.counted (Engine.inside p limits levels)
        (Engine.counted limits plan levels calls) calls g) :=
  operation.keeps_counted (fun t g => Engine.keeps_counted plan levels calls t g) g

/-- No call is in progress between operations, so the counter is at zero. -/
theorem countAll_eq (limits : Limits) (plan : Engine.Plan p)
    (operations : List (Emu.Script none Unit)) {g : Counter} (hzero : g.depth = 0) :
    ∃ new : List Reading, (∀ reading ∈ new, reading.Counts limits [] 0) ∧
      countAll limits plan operations g =
        ⟨(performAll ⟨p, limits, g.machine⟩ operations).machine, 0, new ++ g.readings⟩ := by
  induction operations generalizing g with
  | nil => exact ⟨[], nofun, by rw [← hzero]; rfl⟩
  | cons operation rest ih =>
      rcases keeps_operation limits plan Engine.allowance [] operation g with ⟨new, hnew, heq⟩
      have henv : Engine.inside p limits Engine.allowance 0 = Engine.env p limits := rfl
      -- The machine and the depth go on; the readings are put in front.
      have hstep : Counter.after (operation.counted (Engine.inside p limits Engine.allowance)
          (Engine.counted limits plan Engine.allowance []) [] g) =
          ⟨Emu.Outcome.state (operation.perform (Engine.env p limits) g.machine), 0,
            new ++ g.readings⟩ := by
        rw [heq, hzero, henv]
        cases operation.perform (Engine.env p limits) g.machine <;> rfl
      rcases ih
        (g := ⟨Emu.Outcome.state (operation.perform (Engine.env p limits) g.machine), 0,
          new ++ g.readings⟩) rfl with ⟨more, hmore, hrest⟩
      refine ⟨more ++ new, List.forall_mem_append.2 ⟨hmore, hzero ▸ hnew⟩, ?_⟩
      unfold countAll at hrest ⊢
      unfold performAll at hrest ⊢
      rw [List.foldl_cons, List.foldl_cons, hstep, hrest, perform_snd, List.append_assoc]

/-- The counter of calls over any operations from the start. At every point of the run it says how
    many calls are in progress, which are at most as many as the limit allows, and between
    operations it is at zero. Whatever the machine is asked for, at any point and whatever comes of
    it, leaves the counter as it was. A call at the limit only makes the exception that it throws.
    With the counter all comes to the same as without. -/
theorem depth_counts_calls (limits : Limits) (plan : Engine.Plan p) :
    (∀ operations : List (Emu.Script none Unit),
      let g := countAll limits plan operations {}
      g.machine = (performAll ⟨p, limits, {}⟩ operations).machine ∧ g.depth = 0 ∧
      ∀ reading ∈ g.readings,
        reading.depth = reading.calls.length ∧ reading.depth ≤ limits.depth) ∧
    (∀ entry : Emu.Entry, (∃ script : Emu.Script none Unit, script.perform = entry.operation) ∧
      ∀ script : Emu.Script none Unit, script.perform = entry.operation →
        ∀ (levels : Nat) (calls : List Target) (g : Counter),
          g.Keeps limits calls
            (entry.operation (Engine.inside p limits levels g.depth) g.machine)
            (script.counted (Engine.inside p limits levels)
              (Engine.counted limits plan levels calls) calls g)) ∧
    ∀ (levels : Nat) (calls : List Target) (target : Target) (arguments : List Value)
      (g : Counter), limits.depth ≤ g.depth →
      let raised := g.machine.heap.alloc (.instance "java/lang/StackOverflowError" [])
      Engine.counted limits plan (levels + 1) calls (.call target arguments) g =
        .error (.thrown raised.1)
          { g.read calls with machine := { g.machine with heap := raised.2 } } := by
  -- Over all operations, for each way in, and at the limit itself.
  refine ⟨fun operations => ?_, fun entry => ⟨?_, ?_⟩, ?_⟩
  · rcases countAll_eq limits plan operations (g := {}) rfl with ⟨new, hnew, heq⟩
    intro g
    have hg : g = _ := heq
    rw [hg]
    refine ⟨rfl, rfl, fun reading hreading => ?_⟩
    rw [List.append_nil] at hreading
    have hcounts := hnew reading hreading
    have hdepth := hcounts.depth_eq
    have hle := hcounts.depth_le
    rw [List.length_nil] at hdepth
    exact ⟨by omega, by omega⟩
  · have hscripted : Emu.Scripted entry.operation := inferInstance
    exact hscripted.exists_script
  · intro script hscript levels calls g
    rw [← hscript]
    exact keeps_operation limits plan levels calls script g
  · intro levels calls target arguments g hlimit
    exact Engine.counted_at_limit plan hlimit levels calls target arguments

namespace Descent

/-- A method that calls itself. -/
def down : Member :=
  ⟨"demo/Deep", "down", "()V"⟩

/-- The call of itself, and the return behind it that is never reached. -/
def body : Body where
  maxStack := 0
  maxLocals := 0
  instructions := [.invoke .invokestatic down false, .simple .voidReturn]

/-- Its class. -/
def classFile : ClassFile where
  name := "demo/Deep"
  superName := none
  methods :=
    [{ access := ⟨9⟩, name := down.name, descriptor := down.descriptor, body := some body }]

abbrev program : Program :=
  .ofUniverse (.ofClasses [classFile])

/-- The method made ready. -/
def prepared : Prepared :=
  .unguarded classFile down body

/-- Its body can be run. -/
theorem prepare_down : program.prepare down = .ok prepared := by
  rw [Program.prepare_ofUniverse]
  rfl

/-- The class is found by name. -/
theorem class?_deep : program.classes.class? "demo/Deep" = some classFile :=
  Universe.class?_ofClasses rfl

/-- The class is initialized. -/
def ready : Machine :=
  (Machine.noted {} "demo/Deep" .inProgress).noted "demo/Deep" .done

/-- Calling it needs nothing to be initialized first. -/
theorem invoke_down {limits : Limits} {levels depth : Nat} {s : Machine}
    (hdone : s.initialized["demo/Deep"]? = some .done) :
    Emu.invoke .static down [] (Engine.inside program limits (levels + 1) depth) s
      = Emu.call (.bytecode down) [] (Engine.inside program limits (levels + 1) depth) s := by
  refine Emu.invoke_static_of_initClass
    (Env.directTarget_of_method? (m := down) class?_deep rfl) ?_
  change Emu.initClass "demo/Deep" _ s = _
  rw [Emu.initClass_eq, Emu.useClass_of_done hdone]

/-- The instruction ends as the call does. -/
theorem step_down {env : Env} {s t : Machine} {fault : Fault}
    (h : Emu.invoke .static down [] env s = .error fault t) :
    Emu.step classFile (.invoke .invokestatic down false) (.start 0 []) env s
      = .error fault t := by
  have hparse : MethodType.parse down.descriptor = .ok ⟨[], none⟩ := by cbv
  have heffect : Emu.invokeFrom .invokestatic down [] =
      Emu.invoke .static down [] >>= fun x => pure (x.toList ++ []) :=
    @Emu.invokeFrom_reverse .invokestatic .static down ⟨[], none⟩ [] [] rfl hparse rfl
  change (Emu.invokeFrom .invokestatic down [] >>= fun stack => pure (.next stack) :
    Emu Flow) env s = _
  rw [heffect, Emu.bind_apply, Emu.bind_apply, h]

/-- Every call makes another one, and the one at the limit throws. -/
theorem call_down {limits : Limits} (hinstructions : limits.instructions = none) (k levels : Nat)
    {depth : Nat} (hdepth : depth + k = limits.depth) {s : Machine}
    (hdone : s.initialized["demo/Deep"]? = some .done) :
    ∃ r heap, Emu.call (.bytecode down) []
        (Engine.inside program limits (levels + 1 + k) depth) s
      = .error (.thrown r) { s with heap, executed := s.executed + k } := by
  -- The induction is on the levels that are left.
  induction k generalizing depth s with
  | zero =>
      rcases Emu.raise_eq (α := Option Value) "java/lang/StackOverflowError" none
        (Engine.inside program limits levels depth) s with ⟨r, heap, hraise⟩
      refine ⟨r, heap, ?_⟩
      change Engine.run program limits (levels + 1) depth (.call (.bytecode down) []) s = _
      rw [Engine.run_call, if_pos (by omega)]
      exact hraise
  | succ k ih =>
      have hnext : depth + 1 + k = limits.depth := by omega
      rcases ih hnext (s := s.ticked) hdone with ⟨r, heap, hbelow⟩
      have hlevels : levels + 1 + k = levels + k + 1 := by omega
      rw [hlevels] at hbelow
      have hstep := step_down ((invoke_down (s := s.ticked) hdone).trans hbelow)
      have hcount : s.ticked.executed + k = s.executed + (k + 1) := by
        change s.executed + 1 + k = _
        omega
      refine ⟨r, heap, Emu.call_of_run? (k := 1) (by omega) prepare_down (by decide) ?_⟩
      rw [← hlevels] at hstep
      rw [← hcount]
      exact Emu.run?_thrown (m := .invoke .invokestatic down false) rfl rfl hinstructions rfl hstep

/-- The first use of the class initializes it. -/
theorem invoke_down_start (limits : Limits) :
    Emu.invoke .static down [] (Engine.env program limits) {}
      = Emu.call (.bytecode down) [] (Engine.env program limits) ready := by
  -- The class has no superclass, no fields and no initializer.
  refine Emu.invoke_static_of_initClass
    (Env.directTarget_of_method? (m := down) class?_deep rfl) ?_
  change Emu.initClass "demo/Deep" _ {} = _
  rw [Engine.env_eq, Emu.initClass_eq, Emu.useClass_of_new Std.HashMap.getElem?_empty class?_deep]
  rfl

end Descent

open Descent in
/-- With a limit of three the third call in progress makes a fourth, which throws. -/
theorem depth_counts_calls_descent :
    let limits : Limits := { depth := 3 }
    let target : Target := .bytecode down
    let entry : Emu.Entry := .invoke .static down []
    ∃ (plan : Engine.Plan Descent.program) (script : Emu.Script none Unit),
      script.perform = entry.operation ∧
      (let g := countAll limits plan [script] {}
       g.machine.executed = 3 ∧ g.depth = 0 ∧
        ∀ reading ∈ g.readings, reading.depth = reading.calls.length ∧ reading.depth ≤ 3) ∧
      Counter.Keeps limits [target] { depth := 1 }
        (entry.operation (Engine.inside Descent.program limits 3 1) {})
        (script.counted (Engine.inside Descent.program limits 3)
          (Engine.counted limits plan 3 [target]) [target] { depth := 1 }) ∧
      ∃ r heap, Engine.counted limits plan 1 [target, target, target] (.call target [])
          { depth := 3 } =
        .error (.thrown r)
          { machine := { heap }, depth := 3, readings := [⟨[target, target, target], 3⟩] } := by
  intro limits target entry
  rcases Engine.nonempty_plan Descent.program with ⟨plan⟩
  rcases depth_counts_calls limits plan with ⟨hall, hentry, hlimit⟩
  rcases (hentry entry).1 with ⟨script, hscript⟩
  rcases hall [script] with ⟨hmachine, hdepth, hreadings⟩
  refine ⟨plan, script, hscript, ⟨?_, hdepth, hreadings⟩,
    (hentry entry).2 script hscript 3 [target] { depth := 1 },
    _, _, hlimit 0 [target, target, target] target [] { depth := 3 } (Nat.le_refl 3)⟩
  -- Each of the three calls executes the one instruction that makes the next.
  have hready : ready.initialized["demo/Deep"]? = some .done := Std.HashMap.getElem?_insert_self
  have hinstructions : limits.instructions = none := rfl
  have hroom : 0 + 3 = limits.depth := rfl
  rcases call_down hinstructions 3 (Engine.allowance - 4) hroom hready with ⟨r, heap, hcall⟩
  have hperform : script.perform (Engine.env Descent.program limits) {} =
      .error (.thrown r) { ready with heap, executed := 3 } := by
    rw [hscript]
    change (Emu.invoke .static down [] >>= fun _ => pure ()) _ _ = _
    rw [Emu.bind_apply, invoke_down_start, Engine.env_eq_inside]
    exact hcall ▸ rfl
  rw [hmachine]
  change (Session.perform _ script.perform).2.machine.executed = 3
  unfold Session.perform
  rw [hperform]

end Session

end JvmFold
