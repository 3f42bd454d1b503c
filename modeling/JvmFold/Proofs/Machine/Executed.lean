import JvmFold.Proofs.Machine.Replacing
import JvmFold.Proofs.Machine.Watching

/-!
# What a Run Executes

The state of the machine has a count of instructions, and a count says little
as long as it is not known what it counts. So what a run executes is defined
here without it: the real instructions of a method, each one in front of what
the calls and initializations execute that it brings about, and so on down to
the last level. An instruction is executed if it passes the check of the
limits, whatever becomes of it afterwards.

An operation executes what the parts of the program do that it runs, and
nothing besides. It is taken apart into these parts in the way it is put
together, until something is left that runs no part of the program and leaves
the count as it is. Every operation can be taken apart like this. How it is
done makes no difference to the count, which is shown for all ways at once.

## Main definitions

* `Limits.Counts`: Instructions that are counted, and are within the limits.
* `Emu.Idle`: Operations that run no part of the program and leave the count.
* `Emu.Executes`, `Emu.ExecutesAll`: What operations execute.
* `Emu.ExecutesFrom`: What a method executes from a position on.
* `Emu.Tracked`: Operations that can be taken apart.
* `Engine.Executes`: What a task executes.

## Theorems

* `Emu.tracked_of_composed`: An operation can be taken apart in the way it is put together.
* `Emu.Executes.counts`: What an operation executes is counted if it is for its parts.
* `Engine.exists_executes`: Every task executes something or nothing.
* `Engine.counts_executes`: What a task executes is counted, and is within the limits.
-/

namespace JvmFold

/-- Instructions that are executed between two states are counted. No more of them are executed
    than the limits allow, and without a limit nothing else is counted. -/
structure Limits.Counts (limits : Limits) (s : Machine) (l : List Instruction) (t : Machine) :
    Prop where
  counted : s.executed + l.length ≤ t.executed
  eq_of_no_limit : limits.instructions = none → t.executed = s.executed + l.length
  within : ∀ limit, limits.instructions = some limit → l = [] ∨ s.executed + l.length ≤ limit

namespace Limits

variable {limits : Limits} {s t u : Machine} {l l' : List Instruction}

/-- What leaves the count alone runs nothing. -/
theorem Counts.of_eq (h : t.executed = s.executed) : limits.Counts s [] t :=
  ⟨h.ge, fun _ => h, fun _ _ => .inl rfl⟩

/-- Counts add up. -/
theorem Counts.trans (h : limits.Counts s l t) (h' : limits.Counts t l' u) :
    limits.Counts s (l ++ l') u := by
  have hcounted := h.counted
  have hcounted' := h'.counted
  refine ⟨?_, fun hnone => ?_, fun limit hlimit => ?_⟩
  · rw [List.length_append]
    omega
  · rw [List.length_append, h'.eq_of_no_limit hnone, h.eq_of_no_limit hnone, Nat.add_assoc]
  · rcases h'.within limit hlimit with rfl | hle
    · rw [List.append_nil]
      exact h.within limit hlimit
    · rw [List.length_append]
      exact .inr (by omega)

end Limits

namespace Emu

/-- An instruction that passes the check of the limits is counted and is within them. -/
theorem counts_tick {env : Env} {s t : Machine} (h : tick env s = .ok () t) (i : Instruction) :
    env.limits.Counts s [i] t := by
  have hstate := state_tick env s
  rw [h] at hstate
  change t = s.ticked at hstate
  subst hstate
  refine ⟨Nat.le_refl _, fun _ => rfl, fun limit hlimit => .inr ?_⟩
  rw [tick_eq, hlimit] at h
  by_contra hover
  have hlt : limit < s.ticked.executed := Nat.not_le.mp hover
  dsimp only at h
  rw [if_pos hlt] at h
  cases h

/-- An operation that runs no part of the program and leaves the count of instructions. -/
class Idle {α : Type} (x : Emu α) : Prop where
  alone : ∀ (env : Env) (dispatch : Nat → Task → Run (Option Value)) (s : Machine),
    x { env with dispatch } s = x env s
  keeps : ∀ (env : Env) (s : Machine), (Outcome.state (x env s)).executed = s.executed

section Idle

variable {α : Type}

instance (a : α) : Idle (pure a : Emu α) :=
  ⟨fun _ _ _ => rfl, fun _ _ => rfl⟩

instance (e : Fault) : Idle (throw e : Emu α) :=
  ⟨fun _ _ _ => rfl, fun _ _ => rfl⟩

instance : Idle (get : Emu Machine) :=
  ⟨fun _ _ _ => rfl, fun _ _ => rfl⟩

instance (f : Heap → α × Heap) :
    Idle (fun _ s => .ok (f s.heap).1 { s with heap := (f s.heap).2 } : Emu α) :=
  ⟨fun _ _ _ => rfl, fun _ _ => rfl⟩

instance (m : Member) (v : Value) : Idle (setStatic m v) :=
  ⟨fun _ _ _ => rfl, fun _ _ => rfl⟩

instance (name : String) (state : InitState) : Idle (setInitState name state) :=
  ⟨fun _ _ _ => rfl, fun _ _ => rfl⟩

instance (key : CallKey) (answer : Except HeapRef (Option Value)) : Idle (remember key answer) :=
  ⟨fun _ _ _ => rfl, fun _ _ => rfl⟩

end Idle

/-- What parts of the program execute, by the number of calls in progress and the state before. -/
abbrev Parts := Nat → Task → Machine → List Instruction → Prop

/-- What an operation executes, the first instruction first, if it is known of the parts of the
    program that it runs. -/
inductive Executes (parts : Parts) (env : Env) :
    {α : Type} → Emu α → Machine → List Instruction → Prop
  | idle {α : Type} (x : Emu α) [hx : Idle x] (s : Machine) : Executes parts env x s []
  | run {t : Task} {s : Machine} {l : List Instruction} (h : parts env.depth t s l) :
      Executes parts env (run t) s l
  | read {α : Type} {f : Env → Emu α} {s : Machine} {l : List Instruction}
      (h : Executes parts env (f env) s l) : Executes parts env (read >>= f) s l
  | bind_ok {α β : Type} {x : Emu α} {f : α → Emu β} {a : α} {s t : Machine}
      {l l' : List Instruction} (hx : Executes parts env x s l) (ha : x env s = .ok a t)
      (hf : Executes parts env (f a) t l') : Executes parts env (x >>= f) s (l ++ l')
  | bind_error {α β : Type} {x : Emu α} {f : α → Emu β} {e : Fault} {s t : Machine}
      {l : List Instruction} (hx : Executes parts env x s l) (he : x env s = .error e t) :
      Executes parts env (x >>= f) s l
  | tryCatch_ok {α : Type} {x : Emu α} {handle : Fault → Emu α} {a : α} {s t : Machine}
      {l : List Instruction} (hx : Executes parts env x s l) (ha : x env s = .ok a t) :
      Executes parts env (tryCatch x handle) s l
  | tryCatch_error {α : Type} {x : Emu α} {handle : Fault → Emu α} {e : Fault} {s t : Machine}
      {l l' : List Instruction} (hx : Executes parts env x s l) (he : x env s = .error e t)
      (hhandle : Executes parts env (handle e) t l') :
      Executes parts env (tryCatch x handle) s (l ++ l')

/-- What operations execute one after the other, whatever becomes of each. -/
def ExecutesAll {α : Type} (parts : Parts) (env : Env) :
    List (Emu α) → Machine → List Instruction → Prop
  | [], _, l => l = []
  | x :: rest, s, l =>
    ∃ first more, l = first ++ more ∧ x.Executes parts env s first ∧
      ExecutesAll parts env rest (Outcome.state (x env s)) more

/-- What the instruction at a position executes: itself, unless it is one too many, and what comes
    of it. A handler that goes on after an exception only looks at classes. -/
def ExecutesAt (parts : Parts) (env : Env) (p : Prepared) (a : Activation) (position : Nat)
    (s : Machine) (l : List Instruction) : Prop :=
  match Engine.instructionAt? p position with
  | none => l = []
  | some i =>
    match tick env s with
    | .error _ _ => l = []
    | .ok _ t => ∃ inner, l = i :: inner ∧ (step p.owner i a).Executes parts env t inner

/-- What a method executes from a position on. -/
def ExecutesFrom (parts : Parts) (env : Env) (p : Prepared) :
    Nat → Activation → Nat → Machine → List Instruction → Prop
  | 0, _, _, _, l => l = []
  | steps + 1, a, position, s, l =>
    ∃ first more, l = first ++ more ∧ ExecutesAt parts env p a position s first ∧
      match advance p a position env s with
      | .ok (.running a position) t => ExecutesFrom parts env p steps a position t more
      | _ => more = []

/-- An operation that can be taken apart, so that it is known what it executes. -/
class Tracked {α : Type} (x : Emu α) : Prop where
  exists_executes : ∀ {parts : Parts} {env : Env},
    (∀ t s, ∃ l, parts env.depth t s l) → ∀ s, ∃ l, x.Executes parts env s l

section Tracked

variable {α β : Type}

instance (x : Emu α) [Idle x] : Tracked x :=
  ⟨fun _ s => ⟨_, .idle x s⟩⟩

/-- Parts that are tracked are so one after the other. -/
theorem Tracked.bind {x : Emu α} {f : α → Emu β} (hx : Tracked x) (hf : ∀ a, Tracked (f a)) :
    Tracked (x >>= f) := by
  refine ⟨fun {parts env} hparts s => ?_⟩
  rcases hx.exists_executes hparts s with ⟨l, hl⟩
  cases h : x env s with
  | ok a t =>
      rcases (hf a).exists_executes hparts t with ⟨l', hl'⟩
      exact ⟨_, .bind_ok hl h hl'⟩
  | error e t => exact ⟨l, .bind_error hl h⟩

instance (x : Emu α) (f : α → Emu β) [hx : Tracked x] [hf : ∀ a, Tracked (f a)] :
    Tracked (x >>= f) :=
  hx.bind hf

-- And in a handler.
theorem Tracked.tryCatch {x : Emu α} {handle : Fault → Emu α} (hx : Tracked x)
    (hhandle : ∀ e, Tracked (handle e)) : Tracked (tryCatch x handle) := by
  refine ⟨fun {parts env} hparts s => ?_⟩
  rcases hx.exists_executes hparts s with ⟨l, hl⟩
  cases h : x env s with
  | ok a t => exact ⟨l, .tryCatch_ok hl h⟩
  | error e t =>
      rcases (hhandle e).exists_executes hparts t with ⟨l', hl'⟩
      exact ⟨_, .tryCatch_error hl h hl'⟩

/-- An operation can be taken apart in the way it is put together. -/
instance tracked_of_composed (x : Emu α) [hx : Composed true x] : Tracked x := by
  -- One case for each way to compose a part.
  induction hx with
  | pure a => exact inferInstance
  | throw e => exact inferInstance
  | bind hx hf ihx ihf => exact ihx.bind ihf
  | tryCatch hx hhandle hpasses ihx ihhandle => exact ihx.tryCatch ihhandle
  | get hf huncounted ih =>
      have hget : Tracked (get : Emu Machine) := inferInstance
      exact hget.bind ih
  | @read _ f hf halike ih =>
      refine ⟨fun {parts env} hparts s => ?_⟩
      exact ((ih env).exists_executes hparts s).imp fun _ hl => .read hl
  | run t => exact ⟨fun hparts s => (hparts t s).imp fun _ hl => .run hl⟩
  | @heap _ f hf =>
      let change : Emu _ := fun _ s => .ok (f s.heap).1 { s with heap := (f s.heap).2 }
      exact inferInstanceAs (Tracked change)
  | setStatic m v hwrites => exact inferInstance
  | setInitState name state hwrites => exact inferInstance

/-- So can a call whose answer is kept. -/
instance (kind : InvokeKind) (m : Member) (arguments : List Value) :
    Tracked (invokeOnce kind m arguments) := by
  -- A call that is new is run and its answer remembered, which executes nothing more.
  have hkeep (key : CallKey) : Tracked (tryCatch
      (invoke kind m arguments >>= fun v => remember key (.ok v) >>= fun _ => pure v)
      fun fault => (match fault with
        | .thrown exception => remember key (.error exception)
        | _ => pure ()) >>= fun _ => throw fault) := by
    refine Tracked.tryCatch inferInstance fun fault => ?_
    split <;> infer_instance
  rw [invokeOnce_eq]
  refine Tracked.bind inferInstance fun h => ?_
  split
  · infer_instance
  · refine Tracked.bind inferInstance fun s => ?_
    split
    · infer_instance
    · infer_instance
    · exact hkeep _

end Tracked

section Methods

variable {parts : Parts} {env : Env} {p : Prepared}

/-- Every step executes some list of instructions. -/
theorem exists_executesAt (hparts : ∀ t s, ∃ l, parts env.depth t s l) (a : Activation)
    (position : Nat) (s : Machine) : ∃ l, ExecutesAt parts env p a position s l := by
  unfold ExecutesAt
  cases Engine.instructionAt? p position with
  | none => exact ⟨[], rfl⟩
  | some i =>
      cases tick env s with
      | error e t => exact ⟨[], rfl⟩
      | ok _ t =>
          have hstep : Composed true (step p.owner i a) :=
            composed_step p.owner (fun hfalse => by cases hfalse) a
          rcases (tracked_of_composed (step p.owner i a)).exists_executes hparts t with ⟨l, hl⟩
          exact ⟨i :: l, l, rfl, hl⟩

-- And so does every run.
theorem exists_executesFrom (hparts : ∀ t s, ∃ l, parts env.depth t s l) (steps : Nat)
    (a : Activation) (position : Nat) (s : Machine) :
    ∃ l, ExecutesFrom parts env p steps a position s l := by
  induction steps generalizing a position s with
  | zero => exact ⟨[], rfl⟩
  | succ steps ih =>
      rcases exists_executesAt (p := p) hparts a position s with ⟨first, hfirst⟩
      unfold ExecutesFrom
      cases advance p a position env s with
      | error e t => exact ⟨_, first, [], rfl, hfirst, rfl⟩
      | ok progress t =>
          -- A run that has finished executes nothing more.
          cases progress with
          | finished v => exact ⟨_, first, [], rfl, hfirst, rfl⟩
          | running b next =>
              rcases ih b next t with ⟨more, hmore⟩
              exact ⟨_, first, more, rfl, hfirst, hmore⟩

/-- Parts of the program for which what they execute is counted. -/
def Parts.Counted (parts : Parts) (env : Env) : Prop :=
  ∀ depth t s l, parts depth t s l →
    env.limits.Counts s l (Outcome.state (env.dispatch depth t s))

/-- What an operation executes is counted if it is for the parts of the program. -/
theorem Executes.counts {α : Type} {x : Emu α} {s : Machine} {l : List Instruction}
    (h : x.Executes parts env s l) (hparts : parts.Counted env) :
    env.limits.Counts s l (Outcome.state (x env s)) := by
  -- One case for each way in which the list is made up.
  induction h with
  | @idle _ x hx s => exact .of_eq (hx.keeps env s)
  | run h => exact hparts _ _ _ _ h
  | read h ih => exact ih
  | @bind_ok _ _ x f a s t l l' hx ha hf ihx ihf =>
      rw [ha] at ihx
      rw [bind_apply, ha]
      exact ihx.trans ihf
  | @bind_error _ _ x f e s t l hx he ihx =>
      rw [he] at ihx
      rw [bind_apply, he]
      exact ihx
  | @tryCatch_ok _ x handle a s t l hx ha ihx =>
      rw [ha] at ihx
      rw [tryCatch_apply, ha]
      exact ihx
  | @tryCatch_error _ x handle e s t l l' hx he hhandle ihx ihhandle =>
      rw [he] at ihx
      rw [tryCatch_apply, he]
      exact ihx.trans ihhandle

/-- Operations one after the other count what each of them runs. -/
theorem ExecutesAll.counts {α : Type} {operations : List (Emu α)} {s : Machine}
    {l : List Instruction} (h : ExecutesAll parts env operations s l)
    (hparts : parts.Counted env) :
    ∃ t, env.limits.Counts s l t := by
  induction operations generalizing s l with
  | nil =>
      subst h
      exact ⟨s, .of_eq rfl⟩
  | cons x rest ih =>
      rcases h with ⟨first, more, rfl, hfirst, hmore⟩
      rcases ih hmore with ⟨t, ht⟩
      exact ⟨t, (hfirst.counts hparts).trans ht⟩

/-- A step counts its own instruction and whatever it calls. -/
theorem ExecutesAt.counts {a : Activation} {position : Nat} {s : Machine} {l : List Instruction}
    (h : ExecutesAt parts env p a position s l) (hparts : parts.Counted env) :
    env.limits.Counts s l (Outcome.state (advance p a position env s)) := by
  unfold ExecutesAt Engine.instructionAt? at h
  cases hget : p.code[position]? with
  | none =>
      rw [hget] at h
      rw [advance_end hget]
      cases h
      exact .of_eq rfl
  | some i =>
      rw [hget] at h
      cases hi : i.isPseudo with
      | true =>
          have hnone : (some i).filter (!·.isPseudo) = none := by simp [hi]
          rw [hnone] at h
          rw [advance_mark hget hi]
          cases h
          exact .of_eq rfl
      | false =>
          have hsome : (some i).filter (!·.isPseudo) = some i := by simp [hi]
          rw [hsome] at h
          rw [advance_real hget hi]
          dsimp only at h
          cases htick : tick env s with
          | error e t =>
              have hstate := state_tick env s
              rw [htick] at h hstate
              cases h
              -- The one instruction too many is counted although it is not executed.
              refine ⟨?_, fun hnone => ?_, fun _ _ => .inl rfl⟩
              · exact (Nat.le_succ s.executed).trans_eq (congrArg Machine.executed hstate).symm
              · rw [tick_of_no_limit hnone] at htick
                cases htick
          | ok _ t =>
              rw [htick] at h
              rcases h with ⟨inner, rfl, hinner⟩
              dsimp only
              rw [state_resume]
              exact (counts_tick htick i).trans (hinner.counts hparts)

/-- A run counts the instructions of its steps. -/
theorem ExecutesFrom.counts {steps : Nat} {a : Activation} {position : Nat} {s : Machine}
    {l : List Instruction} (h : ExecutesFrom parts env p steps a position s l)
    (hparts : parts.Counted env) :
    env.limits.Counts s l (Outcome.state (execute p steps a position env s)) := by
  -- The induction is on the steps: the first one counts its part, the rest the other.
  induction steps generalizing a position s l with
  | zero =>
      cases h
      exact .of_eq rfl
  | succ steps ih =>
      rcases h with ⟨first, more, rfl, hfirst, hmore⟩
      have hcounts := hfirst.counts hparts
      rw [execute_succ]
      cases hadvance : advance p a position env s with
      | error e t =>
          rw [hadvance] at hcounts hmore
          cases hmore
          rwa [List.append_nil]
      | ok progress t =>
          rw [hadvance] at hcounts hmore
          cases progress with
          | finished v =>
              cases hmore
              rwa [List.append_nil]
          | running b next => exact hcounts.trans (ih hmore)

end Methods

end Emu

namespace Engine

section Tasks

variable (steps : Nat) (p : Program) (limits : Limits)

/-- What a method executes that is called with arguments. -/
def ExecutesBody (parts : Emu.Parts) (env : Env) (target : Target) (arguments : List Value)
    (s : Machine) (l : List Instruction) : Prop :=
  match target with
  | .native m => (nativeBody m arguments).Executes parts env s l
  | .bytecode m =>
    match p.prepare m with
    | .error _ => l = []
    | .ok q => Emu.ExecutesFrom parts env q steps (.start q.maxLocals arguments) 0 s l

/-- What a task executes, with an allowance of levels and a number of steps for every method. -/
def Executes : Nat → Emu.Parts
  | 0, _, _, _, l => l = []
  | levels + 1, depth, .initClass name, s, l =>
    (Emu.useClass name).Executes (Executes levels) (insideWithin steps p limits levels depth) s l
  | levels + 1, depth, .call target arguments, s, l =>
    if limits.depth ≤ depth then l = []
    else
      ExecutesBody steps p (Executes levels) (insideWithin steps p limits levels (depth + 1)) target
        arguments s l

end Tasks

section Tasks

variable {steps : Nat} {p : Program} {limits : Limits}

/-- Every call executes some list of instructions. -/
theorem exists_executesBody {parts : Emu.Parts} {env : Env}
    (hparts : ∀ t s, ∃ l, parts env.depth t s l) (target : Target) (arguments : List Value)
    (s : Machine) : ∃ l, ExecutesBody steps p parts env target arguments s l := by
  unfold ExecutesBody
  cases target with
  | native m =>
      -- A native method is composed of tracked parts, whichever it is.
      have hnative : Emu.Tracked (nativeBody m arguments) := by
        unfold nativeBody
        cases hfind : Natives.find? m with
        | none => exact inferInstanceAs (Emu.Tracked (throw _))
        | some native =>
            have hcomposed : Emu.Composed true (native arguments) :=
              Natives.composed_find? hfind arguments
            exact Emu.tracked_of_composed (native arguments)
      exact hnative.exists_executes hparts s
  | bytecode m =>
      dsimp only
      cases p.prepare m with
      | error e => exact ⟨[], rfl⟩
      | ok q => exact Emu.exists_executesFrom hparts _ _ _ _

/-- Every task executes something or nothing. -/
theorem exists_executes (levels depth : Nat) (task : Task) (s : Machine) :
    ∃ l, Executes steps p limits levels depth task s l := by
  -- The induction is on the levels, as that of the run itself.
  induction levels generalizing depth task s with
  | zero => exact ⟨[], rfl⟩
  | succ levels ih =>
      have hparts (depth : Nat) (t : Task) (s : Machine) :
          ∃ l, Executes steps p limits levels
            (insideWithin steps p limits levels depth).depth t s l :=
        ih depth t s
      cases task with
      | initClass name =>
          have huse : Emu.Tracked (Emu.useClass name) := inferInstance
          exact huse.exists_executes (hparts depth) s
      | call target arguments =>
          unfold Executes
          split
          · exact ⟨[], rfl⟩
          · exact exists_executesBody (hparts (depth + 1)) target arguments s

/-- What a task executes is counted, and is within the limits. -/
theorem counts_executes (levels depth : Nat) (task : Task) (s : Machine) (l : List Instruction)
    (h : Executes steps p limits levels depth task s l) :
    limits.Counts s l (Emu.Outcome.state (runWithin steps p limits levels depth task s)) := by
  induction levels generalizing depth task s l with
  | zero =>
      cases h
      exact .of_eq rfl
  | succ levels ih =>
      have hparts (depth : Nat) : (Executes steps p limits levels).Counted
          (insideWithin steps p limits levels depth) :=
        fun depth task s l => ih depth task s l
      cases task with
      | initClass name =>
          rw [state_runWithin_initClass]
          exact Emu.Executes.counts h (hparts depth)
      | call target arguments =>
          unfold Executes at h
          -- The exception for a call that is too deep is raised without an instruction.
          have hraise (e : Env) : limits.Counts s [] (Emu.Outcome.state
              ((Emu.raise "java/lang/StackOverflowError" none : Emu (Option Value)) e s)) :=
            .of_eq rfl
          cases target with
          | native m =>
              rw [runWithin_native]
              split at h
              next hdepth =>
                cases h
                rw [if_pos hdepth]
                exact hraise _
              next hdepth =>
                rw [if_neg hdepth]
                exact Emu.Executes.counts h (hparts (depth + 1))
          | bytecode m =>
              rw [runWithin_bytecode]
              split at h
              next hdepth =>
                cases h
                rw [if_pos hdepth]
                exact hraise _
              next hdepth =>
                rw [if_neg hdepth]
                unfold ExecutesBody at h
                cases hprepare : p.prepare m with
                | error e =>
                    simp only [hprepare] at h
                    cases h
                    exact .of_eq rfl
                | ok q =>
                    simp only [hprepare] at h
                    exact Emu.ExecutesFrom.counts h (hparts (depth + 1))

end Tasks

end Engine

end JvmFold
