import JvmFold.Proofs.Evaluation.Memo
import JvmFold.Proofs.Machine.Script
import JvmFold.Proofs.Machine.Statics

/-!
# The Life of a Class

Nothing has been done for a class at first. When it is used, its initialization
is noted to be in progress, and in the end it is done or has failed, which stays
so for good. Whatever happens in between, the initialization comes to its end
before the task that has begun it does: a fault of the superclass or of the
initializer is caught, and the values that fields start with cannot fail.

The history of a run is what the scripts of its tasks pass, from the task that
was asked for down to the last level. Which scripts the operations and methods
have is left open; only the initialization of a class has milestones of its own,
and its script is known. A task keeps the lives of all classes if the tasks below
it do, so the induction is on the levels.

## Main definitions

* `Lifecycle`: What may happen to a class.
* `Engine.Plan`: Scripts of the methods of a program.
* `Engine.history`, `Session.history`: The milestones of a task and of operations in turn.

## Theorems

* `Engine.lives_run`: Every task keeps the lives of all classes.
* `Session.classes_come_to_an_end`: The life of a class over any operations.
-/

namespace JvmFold

/-- What may happen to a class, from how far it is before to how far it is afterwards. -/
inductive Lifecycle (name : String) : Option InitState → List Milestone → Option InitState → Prop
  | stays (state : Option InitState) : Lifecycle name state [] state
  /-- The initialization begins, runs the initializer or does not, and comes to its end. -/
  | ends {ran : List Milestone} {state : InitState} (hran : ran = [] ∨ ran = [.ran name])
      (hstate : state = .done ∨ state = .failed) :
      Lifecycle name none (.moved name .inProgress :: (ran ++ [.moved name state])) (some state)

namespace Lifecycle

variable {name : String} {a b c : Option InitState} {l l' : List Milestone} {state : InitState}

/-- Nothing happens any more to a class that has begun. -/
theorem of_some (h : Lifecycle name (some state) l b) : l = [] ∧ b = some state := by
  cases h
  exact ⟨rfl, rfl⟩

/-- What happened to a class, in two parts. -/
theorem trans (h : Lifecycle name a l b) (h' : Lifecycle name b l' c) :
    Lifecycle name a (l ++ l') c := by
  cases h with
  | stays => exact h'
  | ends hran hstate =>
      rcases h'.of_some with ⟨rfl, rfl⟩
      rw [List.append_nil]
      exact .ends hran hstate

/-- A class that was not in progress is not in progress afterwards. -/
theorem ne_inProgress (h : Lifecycle name a l b) (ha : a ≠ some .inProgress) :
    b ≠ some .inProgress := by
  cases h with
  | stays => exact ha
  | ends hran hstate => rcases hstate with rfl | rfl <;> nofun

/-- The initializer is called at most once. -/
theorem count_ran_le (h : Lifecycle name a l b) : l.count (.ran name) ≤ 1 := by
  cases h with
  | stays => exact Nat.zero_le 1
  | ends hran hstate => rcases hran with rfl | rfl <;> simp

end Lifecycle

/-- The milestones of a class. -/
def Milestone.ofClass (name : String) (l : List Milestone) : List Milestone :=
  l.filter (·.name == name)

namespace Milestone

variable {name : String} {l l' : List Milestone}

@[simp]
theorem ofClass_nil : ofClass name [] = [] :=
  rfl

/-- What concerns a class is found part by part. -/
@[simp]
theorem ofClass_append : ofClass name (l ++ l') = ofClass name l ++ ofClass name l' :=
  List.filter_append ..

/-- A move of the class concerns it. -/
@[simp]
theorem ofClass_moved {state : InitState} :
    ofClass name (.moved name state :: l) = .moved name state :: ofClass name l :=
  List.filter_cons_of_pos (beq_self_eq_true name)

-- So does a run of its initializer.
@[simp]
theorem ofClass_ran : ofClass name (.ran name :: l) = .ran name :: ofClass name l :=
  List.filter_cons_of_pos (beq_self_eq_true name)

end Milestone

/-- The life of a class between two states. -/
def Machine.Lives (name : String) (s : Machine) (l : List Milestone) (t : Machine) : Prop :=
  Lifecycle name s.initialized[name]? (Milestone.ofClass name l) t.initialized[name]?

namespace Machine

variable {name : String} {s t u : Machine} {l l' : List Milestone}

/-- What starts no class leaves each in its state. -/
theorem Lives.of_eq (h : t.initialized = s.initialized) : Lives name s [] t := by
  unfold Lives
  rw [h]
  exact .stays _

/-- A class lives on from part to part. -/
theorem Lives.trans (h : Lives name s l t) (h' : Lives name t l' u) :
    Lives name s (l ++ l') u := by
  unfold Lives at *
  rw [Milestone.ofClass_append]
  exact Lifecycle.trans h h'

/-- What happens to another class is not part of the life. -/
theorem Lives.other {m : Milestone} (hm : m.name ≠ name)
    (h : t.initialized[name]? = s.initialized[name]?) : Lives name s [m] t := by
  have hfilter : Milestone.ofClass name [m] = [] :=
    List.filter_eq_nil_iff.mpr fun x hx => by rwa [List.mem_singleton.mp hx, beq_iff_eq]
  unfold Lives
  rw [hfilter, h]
  exact .stays _

/-- A class whose initialization has begun does not change. -/
theorem Lives.of_some {state : InitState} (h : Lives name s l t)
    (hs : s.initialized[name]? = some state) :
    Milestone.ofClass name l = [] ∧ t.initialized[name]? = some state := by
  unfold Lives at h
  rw [hs] at h
  exact h.of_some

end Machine

namespace Emu

/-- An exception that the machine throws is an object of its class. -/
theorem raise_className {α : Type} (name : String) (message : Option String) (env : Env)
    (s : Machine) :
    ∃ r heap, (raise name message : Emu α) env s = .error (.thrown r) { s with heap } ∧
      (heap.get r).className = name := by
  have hget (h : Heap) (fields : Fields) :
      ((h.alloc (.instance name fields)).2.get (h.alloc (.instance name fields)).1).className
        = name := by
    unfold Heap.get
    rw [Heap.get?_alloc_self]
    rfl
  cases message with
  | none => exact ⟨_, _, rfl, hget _ _⟩
  | some text => exact ⟨_, _, rfl, hget _ _⟩

section UseClass

variable {env : Env} {parts : Nat → Task → Machine → List Milestone} {name : String}

/-- Parts of the program that keep the life of a class. -/
def KeepsLife (env : Env) (parts : Nat → Task → Machine → List Milestone) (name : String) : Prop :=
  ∀ depth task (s : Machine), s.Lives name (parts depth task s)
    (Outcome.state (env.dispatch depth task s))

/-- An operation without milestones of its own keeps the lives of classes. -/
theorem Script.lives {α : Type} (h : KeepsLife env parts name) (x : Script none α) (s : Machine) :
    s.Lives name (x.history env parts s) (Outcome.state (x.perform env s)) := by
  refine x.relates (R := Machine.Lives name) .of_eq .trans (h env.depth) ?_ ?_ s
  all_goals
    intro starts hstarts
    cases hstarts

/-- The initialization of one class keeps the lives of the others. -/
theorem Script.lives_other {α : Type} {other : String} (h : KeepsLife env parts name)
    (hne : other ≠ name) (x : Script (some other) α) (s : Machine) :
    s.Lives name (x.history env parts s) (Outcome.state (x.perform env s)) := by
  refine x.relates (R := Machine.Lives name) .of_eq .trans (h env.depth) ?_ ?_ s
  · rintro starts hstarts state t
    cases hstarts
    exact .other hne (Machine.noted_of_ne hne.symm)
  · rintro starts hstarts t
    cases hstarts
    exact .other hne rfl

/-- A part of the initialization of a class in progress: it goes on and the class stays in
    progress, or it fails and so does the class. -/
def Outcome.GoesOn {α : Type} (name : String) (ran l : List Milestone) : Outcome α → Prop
  | .ok _ t => Milestone.ofClass name l = ran ∧ t.initialized[name]? = some .inProgress
  | .error _ t => Milestone.ofClass name l = ran ++ [.moved name .failed] ∧
      t.initialized[name]? = some .failed

/-- Starting the superclass does nothing to the class itself. -/
theorem Script.goesOn_startParent (h : KeepsLife env parts name) (c : ClassFile) {s : Machine}
    (hs : s.initialized[name]? = some .inProgress) :
    Outcome.GoesOn name [] ((startParent name c.superName).history env parts s)
      ((startParent name c.superName).perform env s) := by
  rw [perform_startParent]
  cases c.superName with
  | none => exact ⟨rfl, hs⟩
  | some parent =>
      rcases (h env.depth (.initClass parent) s).of_some hs with ⟨hl, ht⟩
      rw [history_startParent]
      dsimp only
      rw [initClass_apply]
      revert ht
      cases env.dispatch env.depth (.initClass parent) s with
      | ok x t => exact fun ht => ⟨by simp [hl], ht⟩
      | error e t => exact fun _ => ⟨by simp [hl], Machine.noted_self⟩

/-- The initializer of the class is run at most once. -/
theorem Script.goesOn_runInitializer (h : KeepsLife env parts name) (c : ClassFile) {s : Machine}
    (hs : s.initialized[name]? = some .inProgress) :
    ∃ ran, (ran = [] ∨ ran = [.ran name]) ∧
      Outcome.GoesOn name ran ((runInitializer c name).history env parts s)
        (Emu.runInitializer c name env s) := by
  cases hc : (c.method? ClassFile.initializer).isSome with
  | false =>
      refine ⟨[], .inl rfl, ?_⟩
      rw [runInitializer_of_none hc]
      unfold runInitializer
      rw [hc]
      exact ⟨rfl, hs⟩
  | true =>
      rcases (h env.depth (.call (.bytecode (ClassFile.initializer.on name)) []) s).of_some hs with
        ⟨hl, ht⟩
      refine ⟨[.ran name], .inr rfl, ?_⟩
      rw [history_runInitializer hc, runInitializer_of_some hc]
      have hcall : call (.bytecode (ClassFile.initializer.on name)) [] env s
          = env.dispatch env.depth (.call (.bytecode (ClassFile.initializer.on name)) []) s := rfl
      rw [hcall]
      revert ht
      cases env.dispatch env.depth (.call (.bytecode (ClassFile.initializer.on name)) []) s with
      | ok x t => exact fun ht => ⟨by simp [hl], ht⟩
      | error e t =>
          intro _
          cases e with
          | thrown exception =>
              -- The class has failed before the exception is wrapped, and wrapping it makes objects
              -- only.
              rcases raiseFromInitializer_eq (α := Unit) exception env (t.noted name .failed) with
                ⟨fault, heap, hraises⟩
              have hfailed : (t.noted name .failed).initialized[name]? = some .failed :=
                Machine.noted_self
              change Outcome.GoesOn name _ _
                (raiseFromInitializer exception env (t.noted name .failed))
              rw [hraises]
              exact ⟨by simp [hl], hfailed⟩
          | _ => exact ⟨by simp [hl], Machine.noted_self⟩

/-- A class that nothing has been done for comes to its end. -/
theorem Script.lives_startClass (h : KeepsLife env parts name) {c : ClassFile}
    (hc : ∀ f ∈ c.fields, ∀ i, f.constant ≠ some (.pool i)) {s : Machine}
    (hs : s.initialized[name]? = none) :
    s.Lives name ((startClass c name).history env parts s)
      (Outcome.state ((startClass c name).perform env s)) := by
  have hbegun : (s.noted name .inProgress).initialized[name]? = some .inProgress :=
    Machine.noted_self
  have hparent := goesOn_startParent h c hbegun
  unfold Machine.Lives
  rw [history_startClass, perform_startClass, startClass_eq, hs, Milestone.ofClass_moved]
  revert hparent
  cases (startParent name c.superName).perform env (s.noted name .inProgress) with
  | error e t =>
      rintro ⟨hl, ht⟩
      rw [List.append_nil, hl]
      change Lifecycle name none _ t.initialized[name]?
      rw [ht]
      exact .ends (.inl rfl) (.inr rfl)
  | ok _ t =>
      rintro ⟨hl, ht⟩
      rcases startSelf_eq hc name env t with ⟨w, hw, hinitialized, hself⟩
      -- Neither the superclass nor the first values have taken the class any further.
      have hprogress : w.initialized[name]? = some .inProgress := by rw [hinitialized, ht]
      rcases goesOn_runInitializer h c hprogress with ⟨ran, hran, hgoes⟩
      dsimp only
      rw [hw, hself, Milestone.ofClass_append, hl, List.nil_append]
      dsimp only
      rw [Milestone.ofClass_append]
      revert hgoes
      cases Emu.runInitializer c name env w with
      | error e t =>
          rintro ⟨hl, ht⟩
          rw [hl, Milestone.ofClass_nil, List.append_nil]
          change Lifecycle name none _ t.initialized[name]?
          rw [ht]
          exact .ends hran (.inr rfl)
      | ok _ t =>
          rintro ⟨hl, -⟩
          have hdone : (t.noted name .done).initialized[name]? = some .done := Machine.noted_self
          rw [hl, Milestone.ofClass_moved, Milestone.ofClass_nil]
          change Lifecycle name none _ (t.noted name .done).initialized[name]?
          rw [hdone]
          exact .ends hran (.inl rfl)

/-- The initialization of a class keeps the lives of all classes. -/
theorem Script.lives_useClass (hu : env.program.classes.Sound) (h : KeepsLife env parts name)
    (used : String) (s : Machine) :
    s.Lives name ((useClass used).history env parts s)
      (Outcome.state ((useClass used).perform env s)) := by
  -- The class that is used moves; any other one can only be moved by what runs inside.
  by_cases hname : used = name
  · subst hname
    rw [history_useClass, perform_useClass]
    cases hs : s.initialized[used]? with
    | some state =>
        cases state with
        | done =>
            rw [useClass_of_done hs]
            exact .of_eq rfl
        | inProgress =>
            rw [useClass_of_inProgress hs]
            exact .of_eq rfl
        | failed =>
            rw [useClass_of_failed hs]
            exact .of_eq (Quiet.keeps env s)
    | none =>
        dsimp only
        cases hc : env.program.classes.class? used with
        | none =>
            rw [useClass_of_outside hs hc]
            exact .of_eq rfl
        | some c =>
            rw [useClass_of_new hs hc, ← perform_startClass]
            exact lives_startClass h (fun f hf => hu.constants hc f hf) hs
  · exact lives_other h hname _ s

end UseClass

/-- A call whose answer is kept is scripted. -/
instance (kind : InvokeKind) (m : Member) (arguments : List Value) :
    Scripted (invokeOnce kind m arguments) := by
  -- Remembering an answer is quiet, and so is throwing again what was thrown.
  have hkeep (key : CallKey) : Scripted (tryCatch
      (invoke kind m arguments >>= fun v => remember key (.ok v) >>= fun _ => pure v)
      fun fault => (match fault with
        | .thrown exception => remember key (.error exception)
        | _ => pure ()) >>= fun _ => throw fault) := by
    refine Scripted.tryCatch inferInstance fun fault => ?_
    split <;> infer_instance
  rw [invokeOnce_eq]
  refine Scripted.bind inferInstance fun h => ?_
  split
  · infer_instance
  · refine Scripted.bind inferInstance fun s => ?_
    split
    · infer_instance
    · infer_instance
    · exact hkeep _

end Emu

namespace Engine

/-- What a built-in method does. -/
def nativeBody (m : Member) (arguments : List Value) : Emu (Option Value) :=
  match Natives.find? m with
  | some native => native arguments
  | none => throw (.missingNative m)

/-- What a method of a class file does. -/
def methodBody (p : Program) (m : Member) (arguments : List Value) : Emu (Option Value) :=
  match p.prepare m with
  | .error e => throw e
  | .ok q => Emu.execute q allowance (.start q.maxLocals arguments) 0

/-- What a call runs, one call deeper. -/
def body (p : Program) : Target → List Value → Emu (Option Value)
  | .native m => nativeBody m
  | .bytecode m => methodBody p m

/-- Scripts of what the methods of a program do. -/
structure Plan (p : Program) where
  /-- The script of a method that is called. -/
  script : Target → List Value → Emu.Script none (Option Value)
  /-- It does what the method does. -/
  perform_eq : ∀ target arguments, (script target arguments).perform = body p target arguments

section Run

variable {p : Program} {limits : Limits}

theorem run_target (levels depth : Nat) (target : Target) (arguments : List Value) (s : Machine) :
    run p limits (levels + 1) depth (.call target arguments) s =
      if limits.depth ≤ depth then
        Emu.raise "java/lang/StackOverflowError" none (inside p limits levels depth) s
      else body p target arguments (inside p limits levels (depth + 1)) s := by
  -- Native methods and bytecode are called alike, and refused at the same depth.
  cases target with
  | native m =>
      rw [run_native, body]
      by_cases h : limits.depth ≤ depth
      · rw [if_pos h, if_pos h]
      · rw [if_neg h, if_neg h]
        unfold nativeBody
        cases Natives.find? m with
        | some native => dsimp only
        | none => rfl
  | bytecode m =>
      rw [run_call, body, methodBody]
      by_cases h : limits.depth ≤ depth
      · rw [if_pos h, if_pos h]
      · rw [if_neg h, if_neg h]
        cases p.prepare m with
        | error e => rfl
        | ok q => rfl

/-- A native method is a script. -/
theorem scripted_nativeBody (m : Member) (arguments : List Value) :
    Emu.Scripted (nativeBody m arguments) := by
  unfold nativeBody
  cases hnative : Natives.find? m with
  | some native =>
      have hcomposed : Emu.Composed false (native arguments) :=
        Natives.composed_find? hnative arguments
      dsimp only
      infer_instance
  | none =>
      dsimp only
      infer_instance

-- So is a method with a body.
theorem scripted_methodBody (m : Member) (arguments : List Value) :
    Emu.Scripted (methodBody p m arguments) := by
  unfold methodBody
  cases p.prepare m with
  | error e =>
      dsimp only
      infer_instance
  | ok q =>
      dsimp only
      infer_instance

/-- Every method of a program has a script. -/
theorem nonempty_plan (p : Program) : Nonempty (Plan p) := by
  have hbody (target : Target) (arguments : List Value) :
      Emu.Scripted (body p target arguments) := by
    cases target with
    | native m => exact scripted_nativeBody m arguments
    | bytecode m => exact scripted_methodBody m arguments
  choose script hscript using fun target arguments => (hbody target arguments).exists_script
  exact ⟨⟨script, hscript⟩⟩

variable (limits) in
/-- The milestones that a task passes. -/
def history (plan : Plan p) : Nat → Nat → Task → Machine → List Milestone
  | 0, _, _, _ => []
  | levels + 1, depth, .initClass name, s =>
    (Emu.Script.useClass name).history (inside p limits levels depth) (history plan levels) s
  | levels + 1, depth, .call target arguments, s =>
    if limits.depth ≤ depth then []
    else
      (plan.script target arguments).history (inside p limits levels (depth + 1))
        (history plan levels) s

/-- Every task keeps the lives of all classes. -/
theorem lives_run (hu : p.classes.Sound) (plan : Plan p) (name : String) (levels depth : Nat)
    (task : Task) (s : Machine) :
    s.Lives name (history limits plan levels depth task s)
      (Emu.Outcome.state (run p limits levels depth task s)) := by
  -- The induction is on the levels: a task is a script whose calls are tasks of the levels below.
  induction levels generalizing depth task s with
  | zero => exact .of_eq rfl
  | succ levels ih =>
      have hbelow (depth : Nat) :
          Emu.KeepsLife (inside p limits levels depth) (history limits plan levels) name :=
        fun deeper task s => ih deeper task s
      cases task with
      | initClass used =>
          have hlives := Emu.Script.lives_useClass hu (hbelow depth) used s
          rw [Emu.Script.perform_useClass] at hlives
          rw [state_run_initClass]
          exact hlives
      | call target arguments =>
          rw [run_target]
          unfold history
          split
          · exact .of_eq (Emu.Quiet.keeps _ s)
          · rw [← plan.perform_eq]
            exact Emu.Script.lives (hbelow (depth + 1)) _ s

end Run

end Engine

namespace Session

/-- Performs operations one after the other, whatever becomes of each. -/
def performAll (s : Session) (operations : List (Emu.Script none Unit)) : Session :=
  operations.foldl (fun s operation => (s.perform operation.perform).2) s

/-- The milestones that operations pass. -/
def history {p : Program} (limits : Limits) (plan : Engine.Plan p) :
    List (Emu.Script none Unit) → Machine → List Milestone
  | [], _ => []
  | operation :: rest, s =>
    operation.history (Engine.env p limits) (Engine.history limits plan Engine.allowance) s ++
      history limits plan rest
        (Emu.Outcome.state (operation.perform (Engine.env p limits) s))

/-- Operations may be performed in two goes. -/
theorem performAll_append (s : Session) (operations more : List (Emu.Script none Unit)) :
    s.performAll (operations ++ more) = (s.performAll operations).performAll more :=
  List.foldl_append

section Lives

variable {p : Program} {limits : Limits}

/-- An operation leaves a session of the same program and limits. -/
theorem perform_snd (operation : Emu Unit) (m : Machine) :
    (perform ⟨p, limits, m⟩ operation).2
      = ⟨p, limits, Emu.Outcome.state (operation (Engine.env p limits) m)⟩ := by
  unfold perform
  cases operation (Engine.env p limits) m with
  | ok _ t => rfl
  | error e t => rfl

-- So do all of them.
theorem performAll_eq (operations : List (Emu.Script none Unit)) (m : Machine) :
    performAll ⟨p, limits, m⟩ operations
      = ⟨p, limits, (performAll ⟨p, limits, m⟩ operations).machine⟩ := by
  induction operations generalizing m with
  | nil => rfl
  | cons operation rest ih =>
      unfold performAll
      rw [List.foldl_cons, perform_snd]
      exact ih _

/-- Operations in turn keep the lives of all classes. -/
theorem lives_performAll (hu : p.classes.Sound) (plan : Engine.Plan p) (name : String)
    (operations : List (Emu.Script none Unit)) (m : Machine) :
    m.Lives name (history limits plan operations m)
      (performAll ⟨p, limits, m⟩ operations).machine := by
  induction operations generalizing m with
  | nil => exact .of_eq rfl
  | cons operation rest ih =>
      have hruns : Emu.KeepsLife (Engine.env p limits)
          (Engine.history limits plan Engine.allowance) name :=
        fun depth task s => Engine.lives_run hu plan name Engine.allowance depth task s
      have hfirst := Emu.Script.lives hruns operation m
      unfold performAll
      rw [List.foldl_cons, perform_snd]
      exact hfirst.trans (ih _)

end Lives

/-- Nothing is in progress in a class between operations: its initialization has not begun, or it
    has come to its end with the initializer called at most once. A class that has failed stays so,
    and every further attempt to initialize it throws. -/
theorem classes_come_to_an_end {u : Universe} (hu : u.Sound) (limits : Limits)
    (plan : Engine.Plan (.ofUniverse u)) (operations : List (Emu.Script none Unit))
    (name : String) :
    Lifecycle name none (Milestone.ofClass name (history limits plan operations {}))
      ((start u limits).performAll operations).machine.initialized[name]? ∧
    ((start u limits).performAll operations).machine.initialized[name]? ≠ some .inProgress ∧
    (history limits plan operations {}).count (.ran name) ≤ 1 ∧
    (((start u limits).performAll operations).machine.initialized[name]? = some .failed →
      ∀ more, ((start u limits).performAll (operations ++ more)).machine.initialized[name]?
        = some .failed) ∧
    ∀ levels depth (s : Machine), s.initialized[name]? = some .failed →
      ∃ r t, Engine.run (.ofUniverse u) limits (levels + 1) depth (.initClass name) s
          = .error (.thrown r) t ∧
        (t.heap.get r).className = "java/lang/NoClassDefFoundError" ∧
        t.initialized = s.initialized := by
  have hlives (operations : List (Emu.Script none Unit)) (m : Machine) :
      m.Lives name (history limits plan operations m)
        (performAll ⟨.ofUniverse u, limits, m⟩ operations).machine :=
    lives_performAll hu plan name operations m
  have hlife := hlives operations {}
  unfold Machine.Lives at hlife
  have hnone : ({} : Machine).initialized[name]? = none := Std.HashMap.getElem?_empty
  rw [hnone] at hlife
  refine ⟨hlife, hlife.ne_inProgress nofun, ?_, fun hfailed more => ?_, fun levels depth s hs => ?_⟩
  · have hcount := hlife.count_ran_le
    rwa [Milestone.ofClass, List.count_filter] at hcount
    exact beq_self_eq_true name
  · -- The operations that follow start from the state that the first ones have left.
    have hsplit : (start u limits).performAll (operations ++ more) =
        performAll ⟨.ofUniverse u, limits, ((start u limits).performAll operations).machine⟩
          more := by
      rw [performAll_append]
      exact congrArg (performAll · more) (performAll_eq operations {})
    rw [hsplit]
    exact ((hlives more _).of_some hfailed).2
  · rcases Emu.raise_className (α := Unit) "java/lang/NoClassDefFoundError"
        (some ("Could not initialize class " ++ dotted name))
        (Engine.inside (.ofUniverse u) limits levels depth) s with ⟨r, heap, hraise, hclass⟩
    refine ⟨r, { s with heap }, ?_, hclass, rfl⟩
    rw [Engine.run_initClass, Emu.useClass_of_failed hs, hraise]

open Engine.Levels in
theorem classes_come_to_an_end_levels :
    let u := Universe.ofClasses [parent, child]
    let operations := [Emu.Script.initClass "demo/Child", Emu.Script.initClass "demo/Parent"]
    ∃ plan : Engine.Plan (.ofUniverse u), u.Sound ∧
      Lifecycle "demo/Child" none
        (Milestone.ofClass "demo/Child" (history {} plan operations {}))
        ((start u {}).performAll operations).machine.initialized["demo/Child"]? ∧
      ((start u {}).performAll operations).machine.initialized["demo/Child"]?
        ≠ some .inProgress ∧
      (history {} plan operations {}).count (.ran "demo/Child") ≤ 1 := by
  intro u operations
  rcases Engine.nonempty_plan (.ofUniverse u) with ⟨plan⟩
  rcases classes_come_to_an_end (u := u) sound_program {} plan operations "demo/Child" with
    ⟨hlife, hended, hcount, -⟩
  exact ⟨plan, sound_program, hlife, hended, hcount⟩

end Session

end JvmFold
