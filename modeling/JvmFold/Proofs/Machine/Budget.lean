import JvmFold.Proofs.Machine.Executed

/-!
# The Instruction Budget

A limit of instructions holds for everything that is executed since the count
was last set to zero, on whatever level. When it is used up, the next
instruction ends the evaluation with a fault of its own kind. Handlers in
methods, the initialization of classes and the calls whose answers are kept all
tell exceptions of the program from other faults, and have to let this one
through.

That they do shows in a comparison with the machine that has no limit. As long
as the count stays within the limit, an operation comes to the same in both.
When it gets beyond the limit without one, it is at an end with one, and nothing
has been counted since the instruction that was one too many. So the fault has
not been handled on its way, and a part of the program that was run to handle it
would have been counted.

The machine runs out of levels and steps at some point, which is none of its
limits. So all of this is stated for any number of them.

## Main definitions

* `Emu.Demand`: What the machine is asked for a value.
* `Emu.Outcome.Capped`: What becomes of an outcome under a limit.
* `Env.Caps`: Parts of the program with a limit and without one.

## Theorems

* `Emu.Composed.capped`: An operation is capped if the parts of the program are.
* `Engine.capped_runWithin`: Every task is capped.
* `Engine.demands_within_budget`: What is executed and what is answered under a limit.
-/

namespace JvmFold

/-- The same limits apart from that of instructions. -/
def Limits.unlimited (limits : Limits) : Limits :=
  { limits with instructions := none }

/-- Parts of the program that never take back what is counted. -/
def Env.Grows (env : Env) : Prop :=
  ∀ depth task (s : Machine), s.executed ≤ (Emu.Outcome.state (env.dispatch depth task s)).executed

namespace Emu

/-- What becomes of an outcome under a limit, if it is the second one without. The count may get to
    `top`, which is the limit unless the count was beyond it before. Then the outcome is the same
    or, if the count gets further, the fault of the first instruction that is one too many. -/
def Outcome.Capped {α : Type} (limit top : Nat) (r r' : Outcome α) : Prop :=
  (r = r' ∧ max limit (Outcome.state r).executed = top) ∨
    (top < (Outcome.state r').executed ∧
      ∃ t, r = .error (.instructionLimit limit) t ∧ t.executed = top + 1)

/-- The count is within the limit at the end, or the end is the fault that names the limit. -/
def Outcome.Limited {α : Type} (limit : Nat) (r : Outcome α) : Prop :=
  limit < (Outcome.state r).executed → ∃ t, r = .error (.instructionLimit limit) t

theorem Outcome.Capped.limited {α : Type} {limit n : Nat} {r r' : Outcome α}
    (h : Outcome.Capped limit (max limit n) r r') (hn : n ≤ limit) :
    Outcome.Limited limit r := by
  intro hover
  rcases h with ⟨-, htop⟩ | ⟨-, t, ht, -⟩
  · omega
  · exact ⟨t, ht⟩

end Emu

/-- Parts of the program with a limit and without one. -/
structure Env.Caps (limit top : Nat) (e e' : Env) : Prop where
  alike : e.Alike e'
  limited : e.limits.instructions = some limit
  free : e'.limits.instructions = none
  grows : e'.Grows
  dispatch : ∀ depth task s, max limit s.executed = top →
    Emu.Outcome.Capped limit top (e.dispatch depth task s) (e'.dispatch depth task s)

namespace Emu

section Capped

variable {limit top : Nat} {env env' : Env} {α : Type} {s : Machine}

theorem lasting_executed (n : Nat) : Lasting true fun t => n ≤ t.executed :=
  ⟨fun h _ => h, fun _ _ _ h => h, fun _ _ _ h => h⟩

/-- The count never goes down. -/
theorem Composed.grows {x : Emu α} (hx : Composed true x) (henv : env.Grows) (s : Machine) :
    s.executed ≤ (Outcome.state (x env s)).executed :=
  hx.lasts (lasting_executed s.executed)
    (fun depth task t ht => ht.trans (henv depth task t)) s (Nat.le_refl _)

/-- An operation is capped if the parts of the program are. -/
theorem Composed.capped {x : Emu α} (hx : Composed true x) (henv : env.Caps limit top env')
    (s : Machine) (hs : max limit s.executed = top) :
    Outcome.Capped limit top (x env s) (x env' s) := by
  induction hx generalizing s with
  | pure a => exact .inl ⟨rfl, hs⟩
  | throw e => exact .inl ⟨rfl, hs⟩
  | @bind _ _ x f hx hf ihx ihf =>
      rw [bind_apply, bind_apply]
      rcases ihx s hs with ⟨heq, htop⟩ | ⟨hover, t, ht, hcount⟩
      · rw [← heq]
        revert htop
        cases x env s with
        | ok a t => exact ihf a t
        | error e t => exact fun htop => .inl ⟨rfl, htop⟩
      · rw [ht]
        refine .inr ⟨?_, t, rfl, hcount⟩
        revert hover
        cases x env' s with
        | ok a u => exact fun hover => hover.trans_le ((hf a).grows henv.grows u)
        | error e u => exact id
  | @tryCatch _ x handle hx hhandle hpasses ihx ihhandle =>
      rw [tryCatch_apply, tryCatch_apply]
      rcases ihx s hs with ⟨heq, htop⟩ | ⟨hover, t, ht, hcount⟩
      · rw [← heq]
        revert htop
        cases x env s with
        | ok a t => exact fun htop => .inl ⟨rfl, htop⟩
        | error e t => exact ihhandle e t
      · -- The fault is none of the program, so the handler has nothing to do with it.
        rcases hpasses (.instructionLimit limit) nofun env t with ⟨initialized, hpass⟩
        rw [ht]
        refine .inr ⟨?_, _, hpass, hcount⟩
        revert hover
        cases x env' s with
        | ok a u => exact id
        | error e u => exact fun hover => hover.trans_le ((hhandle e).grows henv.grows u)
  | get hf huncounted ih => exact ih s s hs
  | @read _ f hf halike ih =>
      change Outcome.Capped limit top (f env env s) (f env' env' s)
      rw [← halike env env' henv.alike]
      exact ih env s hs
  | run t =>
      change Outcome.Capped limit top (env.dispatch env.depth t s) (env'.dispatch env'.depth t s)
      rw [← henv.alike.depth]
      exact henv.dispatch env.depth t s hs
  | heap hf => exact .inl ⟨rfl, hs⟩
  | setStatic m v hwrites => exact .inl ⟨rfl, hs⟩
  | setInitState name state hwrites => exact .inl ⟨rfl, hs⟩

/-- An instruction is counted in any case, and with a limit it can be one too many. -/
theorem capped_tick (h : env.limits.instructions = some limit)
    (h' : env'.limits.instructions = none) (hs : max limit s.executed = top) :
    Outcome.Capped limit top (tick env s) (tick env' s) := by
  have hticked : s.ticked.executed = s.executed + 1 := rfl
  rw [tick_of_no_limit h', tick_eq, h]
  dsimp only
  split
  next hover =>
    have htop : s.ticked.executed = top + 1 := by omega
    exact .inr ⟨htop.symm ▸ Nat.lt_succ_self top, s.ticked, rfl, htop⟩
  next hover =>
    refine .inl ⟨rfl, ?_⟩
    change max limit s.ticked.executed = top
    omega

variable {p : Prepared}

/-- An instruction in its place is capped, whatever becomes of an exception. -/
theorem capped_advance (henv : env.Caps limit top env') (a : Activation) (position : Nat)
    (s : Machine) (hs : max limit s.executed = top) :
    Outcome.Capped limit top (advance p a position env s) (advance p a position env' s) := by
  cases hget : p.code[position]? with
  | none =>
      rw [advance_end hget, advance_end hget]
      exact .inl ⟨rfl, hs⟩
  | some i =>
      cases hi : i.isPseudo with
      | true =>
          rw [advance_mark hget hi, advance_mark hget hi]
          exact .inl ⟨rfl, hs⟩
      | false =>
          have hstep : Composed true (step p.owner i a) :=
            composed_step p.owner (fun hfalse => by cases hfalse) a
          rw [advance_real hget hi, advance_real hget hi, tick_of_no_limit henv.free]
          have htick := capped_tick henv.limited henv.free hs
          rw [tick_of_no_limit henv.free] at htick
          -- Within the limit both count the instruction and carry it out; beyond it only the run
          -- without a limit does.
          rcases htick with ⟨heq, htop⟩ | ⟨hover, t, ht, hcount⟩
          · rw [heq] at htop ⊢
            dsimp only
            rcases hstep.capped henv s.ticked htop with ⟨heq, htop⟩ | ⟨hover, t, ht, hcount⟩
            · rw [← heq, resume_congr henv.alike]
              refine .inl ⟨rfl, ?_⟩
              rwa [state_resume]
            · rw [ht]
              refine .inr ⟨?_, t, rfl, hcount⟩
              rwa [state_resume]
          · rw [ht]
            refine .inr ⟨?_, t, rfl, hcount⟩
            rw [state_resume]
            exact hover.trans_le (hstep.grows henv.grows s.ticked)

/-- A method is capped, as far as it is run. -/
theorem capped_execute (henv : env.Caps limit top env') (steps : Nat) (a : Activation)
    (position : Nat) (s : Machine) (hs : max limit s.executed = top) :
    Outcome.Capped limit top (execute p steps a position env s)
      (execute p steps a position env' s) := by
  induction steps generalizing a position s with
  | zero => exact .inl ⟨rfl, hs⟩
  | succ steps ih =>
      rw [execute_succ, execute_succ]
      rcases capped_advance (p := p) henv a position s hs with ⟨heq, htop⟩ | ⟨hover, t, ht, hcount⟩
      · rw [← heq]
        revert htop
        cases advance p a position env s with
        | error e t => exact fun htop => .inl ⟨rfl, htop⟩
        | ok progress t =>
            cases progress with
            | finished v => exact fun htop => .inl ⟨rfl, htop⟩
            | running b next => exact ih b next t
      · rw [ht]
        refine .inr ⟨?_, t, rfl, hcount⟩
        revert hover
        cases advance p a position env' s with
        | error e u => exact id
        | ok progress u =>
            cases progress with
            | finished v => exact id
            | running b next =>
                -- The other run goes on from here, and the count does not go down again.
                refine fun hover => hover.trans_le ?_
                exact execute_lasts (lasting_executed u.executed)
                  (fun _ h => h.trans (Nat.le_succ _))
                  (fun depth task w hw => hw.trans (henv.grows depth task w)) steps b next u
                  (Nat.le_refl _)

end Capped

end Emu

namespace Engine

section Tasks

variable {steps : Nat} {p : Program} {limits : Limits} {limit top : Nat}

/-- The count never goes down within the rounds that are left. -/
theorem grows_insideWithin (levels depth : Nat) :
    (insideWithin steps p limits levels depth).Grows :=
  fun depth task s => runWithin_lasts (Emu.lasting_executed s.executed)
    (fun _ h => h.trans (Nat.le_succ _)) levels depth task s (Nat.le_refl _)

/-- The environment within a round is capped as the round is. -/
theorem caps_insideWithin (hlimit : limits.instructions = some limit) (levels depth : Nat)
    (h : ∀ depth task s, max limit s.executed = top →
      Emu.Outcome.Capped limit top (runWithin steps p limits levels depth task s)
        (runWithin steps p limits.unlimited levels depth task s)) :
    (insideWithin steps p limits levels depth).Caps limit top
      (insideWithin steps p limits.unlimited levels depth) :=
  ⟨⟨Universe.alike_refl _, rfl, rfl⟩, hlimit, rfl, grows_insideWithin levels depth, h⟩

/-- Every task is capped. -/
theorem capped_runWithin (hlimit : limits.instructions = some limit) (levels depth : Nat)
    (task : Task) (s : Machine) (hs : max limit s.executed = top) :
    Emu.Outcome.Capped limit top (runWithin steps p limits levels depth task s)
      (runWithin steps p limits.unlimited levels depth task s) := by
  induction levels generalizing depth task s with
  | zero => exact .inl ⟨rfl, hs⟩
  | succ levels ih =>
      have hcaps (depth : Nat) : (insideWithin steps p limits levels depth).Caps limit top
          (insideWithin steps p limits.unlimited levels depth) :=
        caps_insideWithin hlimit levels depth ih
      -- Whatever the task comes down to is put together from operations, on this level or one
      -- below.
      have hcapped {α : Type} {x : Emu α} (hx : Emu.Composed true x) (depth : Nat) :
          Emu.Outcome.Capped limit top (x (insideWithin steps p limits levels depth) s)
            (x (insideWithin steps p limits.unlimited levels depth) s) :=
        hx.capped (hcaps depth) s hs
      cases task with
      | initClass name =>
          rw [runWithin_initClass, runWithin_initClass]
          rcases hcapped (x := Emu.useClass name) inferInstance depth with
            ⟨heq, htop⟩ | ⟨hover, t, ht, hcount⟩
          · rw [← heq]
            refine .inl ⟨rfl, ?_⟩
            revert htop
            cases Emu.useClass name (insideWithin steps p limits levels depth) s <;> exact id
          · rw [ht]
            refine .inr ⟨?_, t, rfl, hcount⟩
            revert hover
            cases Emu.useClass name (insideWithin steps p limits.unlimited levels depth) s <;>
              exact id
      | call target values =>
          have hdepth : limits.unlimited.depth = limits.depth := rfl
          cases target with
          | native m =>
              rw [runWithin_native, runWithin_native, hdepth]
              split
              · exact hcapped inferInstance depth
              · unfold nativeBody
                cases hnative : Natives.find? m with
                | none => exact .inl ⟨rfl, hs⟩
                | some native =>
                    exact hcapped (Natives.composed_find? hnative values) (depth + 1)
          | bytecode m =>
              rw [runWithin_bytecode, runWithin_bytecode, hdepth]
              split
              · exact hcapped inferInstance depth
              · cases p.prepare m with
                | error e => exact .inl ⟨rfl, hs⟩
                | ok q => exact Emu.capped_execute (hcaps (depth + 1)) steps _ 0 s hs

/-- The environment within a round keeps the answers. -/
theorem framed_insideWithin (levels depth : Nat) :
    (insideWithin steps p limits levels depth).Framed :=
  fun depth task s => runWithin_lasts (Emu.lasting_evolves s)
    (fun _ h => h.trans ⟨rfl, .refl _⟩) levels depth task s (.refl s)

end Tasks

end Engine

namespace Emu

/-- What the machine is asked for a value. -/
inductive Demand where
  | invoke (kind : InvokeKind) (m : Member) (arguments : List Value)
  | invokeOnce (kind : InvokeKind) (m : Member) (arguments : List Value)
  | construct (constructor : Member) (arguments : List Value)
  | getStatic (f : Member)
deriving DecidableEq, Repr

/-- Does what the machine is asked for. -/
def Demand.perform : Demand → Emu (Option Value)
  | .invoke kind m arguments => Emu.invoke kind m arguments
  | .invokeOnce kind m arguments => Emu.invokeOnce kind m arguments
  | .construct constructor arguments => some <$> Emu.construct constructor arguments
  | .getStatic f => some <$> Emu.getStatic f

instance (demand : Demand) : Tracked demand.perform := by
  cases demand with
  | invoke kind m arguments => exact inferInstanceAs (Tracked (Emu.invoke kind m arguments))
  | invokeOnce kind m arguments => exact inferInstanceAs (Tracked (Emu.invokeOnce kind m arguments))
  | construct constructor arguments =>
      exact inferInstanceAs (Tracked (some <$> Emu.construct constructor arguments))
  | getStatic f => exact inferInstanceAs (Tracked (some <$> Emu.getStatic f))

/-- An outcome under a limit that leaves the answers as they were if it is the fault. -/
def Outcome.CappedWith {α : Type} (limit top : Nat) (s : Machine) (r r' : Outcome α) : Prop :=
  (r = r' ∧ max limit (Outcome.state r).executed = top) ∨
    (top < (Outcome.state r').executed ∧
      ∃ t, r = .error (.instructionLimit limit) t ∧ t.executed = top + 1 ∧ t.answers = s.answers)

theorem Outcome.CappedWith.capped {α : Type} {limit top : Nat} {s : Machine} {r r' : Outcome α}
    (h : Outcome.CappedWith limit top s r r') : Outcome.Capped limit top r r' :=
  h.imp_right fun ⟨hover, t, ht, hcount, _⟩ => ⟨hover, t, ht, hcount⟩

section Demands

variable {limit top : Nat} {env env' : Env} {s : Machine}

/-- What is composed is capped if its environment is. -/
theorem Composed.cappedWith {α : Type} {x : Emu α} (hx : Composed true x)
    (henv : env.Caps limit top env') (hframed : env.Framed) (s : Machine)
    (hs : max limit s.executed = top) : Outcome.CappedWith limit top s (x env s) (x env' s) := by
  rcases hx.capped henv s hs with h | ⟨hover, t, ht, hcount⟩
  · exact .inl h
  · have hevolves := (framed_of_composed x).evolves hframed s
    rw [ht] at hevolves
    exact .inr ⟨hover, t, ht, hcount, hevolves.answers_eq⟩

/-- A call whose answer is kept is answered without any instruction, or it is a call like any other
    whose answer is kept unless it is the fault. -/
theorem cappedWith_invokeOnce (henv : env.Caps limit top env') (hframed : env.Framed)
    (kind : InvokeKind) (m : Member) (arguments : List Value) (s : Machine)
    (hs : max limit s.executed = top) :
    Outcome.CappedWith limit top s (invokeOnce kind m arguments env s)
      (invokeOnce kind m arguments env' s) := by
  have hinvoke := Composed.cappedWith (x := invoke kind m arguments) inferInstance henv hframed s hs
  cases hkeys : arguments.mapM s.heap.key? with
  | none => rwa [invokeOnce_of_none hkeys, invokeOnce_of_none hkeys]
  | some keys =>
      cases hanswer : s.answers[(⟨kind, m, keys⟩ : CallKey)]? with
      | some answer =>
          cases answer with
          | ok v =>
              rw [invokeOnce_of_ok hkeys hanswer, invokeOnce_of_ok hkeys hanswer]
              exact .inl ⟨rfl, hs⟩
          | error exception =>
              rw [invokeOnce_of_error hkeys hanswer, invokeOnce_of_error hkeys hanswer]
              exact .inl ⟨rfl, hs⟩
      | none =>
          rw [invokeOnce_of_new hkeys hanswer, invokeOnce_of_new hkeys hanswer]
          -- A fault of the machine is no answer, so nothing is kept where the limit is exceeded.
          rcases hinvoke with ⟨heq, htop⟩ | ⟨hover, t, ht, hcount, hanswers⟩
          · rw [← heq]
            refine .inl ⟨rfl, ?_⟩
            revert htop
            cases invoke kind m arguments env s with
            | ok v t => exact id
            | error e t => cases e <;> exact id
          · rw [ht]
            refine .inr ⟨?_, t, rfl, hcount, hanswers⟩
            revert hover
            cases invoke kind m arguments env' s with
            | ok v u => exact id
            | error e u => cases e <;> exact id

/-- Every demand is capped if its environment is. -/
theorem Demand.cappedWith (henv : env.Caps limit top env') (hframed : env.Framed)
    (demand : Demand) (s : Machine) (hs : max limit s.executed = top) :
    Outcome.CappedWith limit top s (demand.perform env s) (demand.perform env' s) := by
  cases demand with
  | invoke kind m arguments =>
      exact Composed.cappedWith (x := Emu.invoke kind m arguments) inferInstance henv hframed s hs
  | invokeOnce kind m arguments => exact cappedWith_invokeOnce henv hframed kind m arguments s hs
  | construct constructor arguments =>
      exact Composed.cappedWith (x := some <$> Emu.construct constructor arguments) inferInstance
        henv hframed s hs
  | getStatic f =>
      exact Composed.cappedWith (x := some <$> Emu.getStatic f) inferInstance henv hframed s hs

/-- Demands one after the other make some list of instructions. -/
theorem exists_executesAll {parts : Parts} (hparts : ∀ t s, ∃ l, parts env.depth t s l)
    (demands : List Demand) (s : Machine) :
    ∃ l, ExecutesAll parts env (demands.map Demand.perform) s l := by
  induction demands generalizing s with
  | nil => exact ⟨[], rfl⟩
  | cons demand rest ih =>
      have htracked : Tracked demand.perform := inferInstance
      rcases htracked.exists_executes hparts s with ⟨first, hfirst⟩
      rcases ih (Outcome.state (demand.perform env s)) with ⟨more, hmore⟩
      exact ⟨_, first, more, rfl, hfirst, hmore⟩

end Demands

end Emu

namespace Engine

/-- Under a limit no more instructions are executed than it allows, whatever is done after the count
    has been set to zero. Any call, initialization and demand, on whatever level, in which the count
    gets beyond the limit ends in the fault that names it. A demand that needs no more than is left
    comes to what it comes to without a limit. One that would need more comes to the fault, with
    nothing counted since, and no answer is kept. -/
theorem demands_within_budget (p : Program) {limits : Limits} {limit : Nat}
    (hlimit : limits.instructions = some limit) (steps levels : Nat) :
    let parts := Executes steps p limits levels
    let env := insideWithin steps p limits levels 0
    let freeParts := Executes steps p limits.unlimited levels
    let free := insideWithin steps p limits.unlimited levels 0
    (∀ (operations : List (Emu (Option Value))) (s : Machine) (l : List Instruction),
      Emu.ExecutesAll parts env operations s.restarted l → l.length ≤ limit) ∧
    (∀ (demands : List Emu.Demand) (s : Machine),
      ∃ l, Emu.ExecutesAll parts env (demands.map Emu.Demand.perform) s.restarted l) ∧
    (∀ depth task (s : Machine), s.executed ≤ limit →
      Emu.Outcome.Limited limit (env.dispatch depth task s)) ∧
    ∀ (demand : Emu.Demand) (s : Machine),
      (s.executed ≤ limit → Emu.Outcome.Limited limit (demand.perform env s)) ∧
      (∃ l, demand.perform.Executes freeParts free s l) ∧
      ∀ l, demand.perform.Executes freeParts free s l →
        (l = [] ∨ s.executed + l.length ≤ limit →
          demand.perform env s = demand.perform free s) ∧
        (l ≠ [] → limit < s.executed + l.length →
          ∃ t, demand.perform env s = .error (.instructionLimit limit) t ∧
            t.executed = max limit s.executed + 1 ∧ t.answers = s.answers) := by
  intro parts env freeParts free
  have hcounted : parts.Counted env := fun depth task s l => counts_executes levels depth task s l
  have hframed : env.Framed := framed_insideWithin levels 0
  have hcapped (demand : Emu.Demand) (s : Machine) :=
    demand.cappedWith (caps_insideWithin hlimit levels 0 (capped_runWithin hlimit levels)) hframed
      s rfl
  refine ⟨fun operations s l h => ?_, fun demands s => ?_, fun depth task s hs => ?_,
    fun demand s => ⟨fun hs => ?_, ?_, fun l hl => ?_⟩⟩
  · rcases h.counts hcounted with ⟨t, ht⟩
    have hzero : s.restarted.executed = 0 := rfl
    rcases ht.within limit hlimit with rfl | hle
    · exact Nat.zero_le limit
    · omega
  · exact Emu.exists_executesAll (fun t s => exists_executes levels 0 t s) demands s.restarted
  · exact (capped_runWithin hlimit levels depth task s rfl).limited hs
  · exact (hcapped demand s).capped.limited hs
  · have htracked : Emu.Tracked demand.perform := inferInstance
    have hparts (t : Task) (s : Machine) : ∃ l, freeParts free.depth t s l :=
      exists_executes levels 0 t s
    exact htracked.exists_executes hparts s
  · -- Without a limit the count says how many instructions there were.
    have hcount : (Emu.Outcome.state (demand.perform free s)).executed = s.executed + l.length :=
      (hl.counts fun depth task s l => counts_executes levels depth task s l).eq_of_no_limit rfl
    refine ⟨fun hfits => ?_, fun hsome hover => ?_⟩
    all_goals
      rcases hcapped demand s with ⟨heq, htop⟩ | ⟨htop, t, ht, hexecuted, hanswers⟩
    · exact heq
    · rw [hcount] at htop
      rcases hfits with rfl | hle
      · rw [List.length_nil] at htop
        omega
      · omega
    · rw [heq, hcount] at htop
      have hpos := List.length_pos_iff.mpr hsome
      omega
    · exact ⟨t, ht, hexecuted, hanswers⟩

namespace Endless

/-- A method that never returns. -/
def loop : Member :=
  ⟨"demo/Calc", "run", "()V"⟩

/-- Goes back to where it is. -/
def body : Body where
  maxStack := 0
  maxLocals := 0
  instructions := [.label ⟨0⟩, .jump .goto ⟨0⟩]

/-- Its class. -/
def classFile : ClassFile where
  name := "demo/Calc"
  superName := none
  methods :=
    [{ access := ⟨9⟩, name := loop.name, descriptor := loop.descriptor, body := some body }]

abbrev program : Program :=
  .ofUniverse (.ofClasses [classFile])

/-- A limit on its instructions. -/
abbrev limits : Limits where
  depth := 16
  instructions := some 1000

/-- The method made ready. -/
def prepared : Prepared :=
  .unguarded classFile loop body

/-- Its body can be run. -/
theorem prepare_loop : program.prepare loop = .ok prepared := by
  rw [Program.prepare_ofUniverse]
  rfl

/-- The class is found by name. -/
theorem class?_calc : program.classes.class? "demo/Calc" = some classFile :=
  Universe.class?_ofClasses rfl

/-- Every second step counts an instruction. -/
theorem execute_loop {env : Env} (hlimit : env.limits.instructions = none) (k : Nat)
    (a : Activation) (s : Machine) :
    Emu.execute prepared (2 * k) a 0 env s
      = .error .outOfSteps { s with executed := s.executed + k } := by
  induction k generalizing s with
  | zero => rfl
  | succ k ih =>
      have hmark : Emu.advance prepared a 0 env s = .ok (.running a 1) s :=
        Emu.advance_mark (i := .label ⟨0⟩) rfl rfl
      have htarget : prepared.target ⟨0⟩ = .ok 0 := by
        simp [Prepared.target, Prepared.position, prepared, Prepared.unguarded, body,
          Prepared.labelPositions]
      have hback : Emu.advance prepared a 1 env s = .ok (.running a 0) s.ticked := by
        rw [Emu.advance_real (i := .jump .goto ⟨0⟩) rfl rfl, Emu.tick_of_no_limit hlimit]
        have hstep : Emu.step prepared.owner (.jump .goto ⟨0⟩) a env s.ticked
            = .ok (.jump ⟨0⟩ a.stack) s.ticked := rfl
        dsimp only
        rw [hstep]
        simp only [Prepared.resume, Flow.progress, htarget]
        rfl
      -- Once around are the mark and the branch, and only the branch is counted.
      have hsteps : 2 * (k + 1) = 2 * k + 1 + 1 := by omega
      rw [hsteps, Emu.execute_succ, hmark]
      dsimp only
      rw [Emu.execute_succ, hback]
      dsimp only
      rw [ih]
      have hcount : s.ticked.executed + k = s.executed + (k + 1) := by
        change s.executed + 1 + k = _
        omega
      rw [hcount]
      rfl

/-- Without a limit the call goes on until the engine has no more steps. -/
theorem executed_loop {k : Nat} (hsteps : allowance = 2 * k) :
    (Emu.Outcome.state ((Emu.Demand.invoke .static loop []).perform
      (env program limits.unlimited) {})).executed = k := by
  have htarget (s : Machine) : Emu.target .static loop none (env program limits.unlimited) s
      = .ok (.bytecode loop) s := by
    change Emu.lift ((env program limits.unlimited).directTarget loop) _ s = _
    rw [Env.directTarget_of_method? (m := loop) class?_calc rfl]
    rfl
  -- The class has no superclass, no fields and no initializer.
  let begun : Machine := Machine.noted {} "demo/Calc" .inProgress
  have hstart (levels : Nat) : Emu.startClass classFile "demo/Calc"
      (inside program limits.unlimited levels 0) {} = .ok () (begun.noted "demo/Calc" .done) := rfl
  have hinit : Emu.initClass "demo/Calc" (env program limits.unlimited) {}
      = .ok () (begun.noted "demo/Calc" .done) := by
    rw [env_eq, Emu.initClass_eq, Emu.useClass_of_new Std.HashMap.getElem?_empty class?_calc,
      hstart]
  change (Emu.Outcome.state ((Emu.target .static loop none >>= fun t =>
    (if InvokeKind.static = .static then Emu.initClass t.member.owner else pure ()) >>= fun _ =>
      Emu.call t []) (env program limits.unlimited) {})).executed = _
  rw [Emu.bind_apply, htarget]
  change (Emu.Outcome.state ((Emu.initClass "demo/Calc" >>= fun _ =>
    Emu.call (.bytecode loop) []) (env program limits.unlimited) {})).executed = _
  rw [Emu.bind_apply, hinit]
  change (Emu.Outcome.state (run program limits.unlimited (allowance - 1 + 1) 0
    (.call (.bytecode loop) []) (begun.noted "demo/Calc" .done))).executed = _
  rw [run_call, prepare_loop, if_neg (by decide)]
  dsimp only
  rw [hsteps, execute_loop rfl]
  exact Nat.zero_add k

/-- The loop ends in the fault when a thousand instructions have been executed. -/
theorem demands_within_budget_loop :
    limits.instructions = some 1000 ∧
    ∃ t, (Emu.Demand.invoke .static loop []).perform (env program limits) {}
        = .error (.instructionLimit 1000) t ∧ t.executed = 1001 ∧ t.answers = ∅ := by
  have hlimit : limits.instructions = some 1000 := rfl
  have hbudget := demands_within_budget program hlimit allowance allowance
  rcases hbudget.2.2.2 (.invoke .static loop []) {} with ⟨-, ⟨l, hl⟩, hdemand⟩
  have hcounts := hl.counts fun depth task s l => counts_executes allowance depth task s l
  -- Without the limit the loop runs for as many instructions as there are rounds, two by two.
  have heven : ∃ k, allowance = 2 * k ∧ 1000 < k := ⟨Nat.pow 2 59, by decide, by decide⟩
  rcases heven with ⟨k, hsteps, hk⟩
  have hexecuted := executed_loop hsteps
  rw [← envWithin_allowance] at hexecuted
  have hlength : l.length = k := by
    have hall := (hcounts.eq_of_no_limit rfl).symm.trans hexecuted
    rwa [Nat.zero_add] at hall
  have hsome : l ≠ [] := by
    rintro rfl
    exact absurd hk (hlength ▸ by decide)
  have hover : 1000 < 0 + l.length := by
    rw [hlength]
    exact hk.trans_eq (Nat.zero_add k).symm
  rcases (hdemand l hl).2 hsome hover with ⟨t, ht, hcount, hanswers⟩
  refine ⟨rfl, t, ?_, hcount, hanswers⟩
  rw [← envWithin_allowance]
  exact ht

end Endless

end Engine

end JvmFold
