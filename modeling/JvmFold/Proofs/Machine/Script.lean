import JvmFold.Proofs.Machine.Starting

/-!
# Operations as Scripts

The outcome of an operation shows the state that it leaves, and not the states
that it passes through. To speak of the order in which things happen, an
operation is written as a script: a tree whose leaves run a part of the
program, note how far a class has come, or are quiet. A quiet leaf runs no part
of the program and leaves the progress of every class as it is, so it has no
share in what happens to classes.

`Script.perform` turns a script back into an operation, and `Script.history`
follows it and writes down the milestones that it passes. Only the script of the
initialization of a class has milestones of its own, and only of this class.
Every other operation of the machine has a script without any.

## Main definitions

* `Milestone`: What happens to a class.
* `Emu.Quiet`: Operations that have no share in it.
* `Emu.Script`: An operation as a tree.
* `Emu.Script.perform`, `Emu.Script.history`: What a script does and what it passes.
* `Emu.Script.useClass`: The script of the initialization of a class.
* `Emu.Scripted`: Operations that have a script without milestones of their own.

## Theorems

* `Emu.Script.perform_useClass`: The script of the initialization does what the operation does.
* `Emu.scripted_of_composed`: Operations are scripted by the way they are put together.
* `Emu.scripted_execute`: So is a method that is ready.
* `Emu.Script.relates`: What all leaves of a script keep, the script keeps.
-/

namespace JvmFold

/-- What happens to a class. -/
inductive Milestone where
  /-- It is noted how far the class has come. -/
  | moved (name : String) (state : InitState)
  /-- Its initializer is called because the class is initialized. -/
  | ran (name : String)
deriving DecidableEq, Repr

/-- The class that something happens to. -/
def Milestone.name : Milestone → String
  | .moved name _ | .ran name => name

/-- The state with a note of how far a class has come. -/
def Machine.noted (s : Machine) (name : String) (state : InitState) : Machine :=
  { s with initialized := s.initialized.insert name state }

namespace Machine

variable {s : Machine} {name other : String} {state : InitState}

theorem noted_self : (s.noted name state).initialized[name]? = some state :=
  Std.HashMap.getElem?_insert_self

/-- A state that is noted concerns one class only. -/
theorem noted_of_ne (h : other ≠ name) :
    (s.noted name state).initialized[other]? = s.initialized[other]? := by
  have hne : ¬(name == other) = true := fun heq => h (eq_of_beq heq).symm
  exact Std.HashMap.getElem?_insert.trans (if_neg hne)

end Machine

namespace Emu

/-- An operation that runs no part of the program and leaves the progress of all classes. -/
class Quiet {α : Type} (x : Emu α) : Prop where
  alone : ∀ (env : Env) (dispatch : Nat → Task → Run (Option Value)) (s : Machine),
    x { env with dispatch } s = x env s
  keeps : ∀ (env : Env) (s : Machine), (Outcome.state (x env s)).initialized = s.initialized

section Quiet

variable {α β : Type}

instance (a : α) : Quiet (pure a : Emu α) :=
  ⟨fun _ _ _ => rfl, fun _ _ => rfl⟩

instance (e : Fault) : Quiet (throw e : Emu α) :=
  ⟨fun _ _ _ => rfl, fun _ _ => rfl⟩

instance : Quiet (get : Emu Machine) :=
  ⟨fun _ _ _ => rfl, fun _ _ => rfl⟩

instance (x : Emu α) (f : α → Emu β) [hx : Quiet x] [hf : ∀ a, Quiet (f a)] :
    Quiet (x >>= f) := by
  constructor
  · intro env dispatch s
    rw [bind_apply, bind_apply, hx.alone env dispatch]
    cases x env s with
    | ok a t => exact (hf a).alone env dispatch t
    | error e t => rfl
  · intro env s
    have hkeeps := hx.keeps env s
    rw [bind_apply]
    -- What the first part keeps the second one keeps as well, if there is one.
    revert hkeeps
    cases x env s with
    | ok a t => exact fun h => ((hf a).keeps env t).trans h
    | error e t => exact id

/-- A list of quiet parts is quiet. -/
theorem quiet_forM {f : α → Emu PUnit} {l : List α} (h : ∀ a, Quiet (f a)) :
    Quiet (l.forM f) := by
  induction l with
  | nil => exact inferInstanceAs (Quiet (pure PUnit.unit))
  | cons a rest ih => exact inferInstanceAs (Quiet (f a >>= fun _ => rest.forM f))

instance (k : Constant) : Quiet (constant k) := by
  cases k <;> exact ⟨fun _ _ _ => rfl, fun _ _ => rfl⟩

instance (m : Member) (v : Value) : Quiet (setStatic m v) :=
  ⟨fun _ _ _ => rfl, fun _ _ => rfl⟩

instance (c : ClassFile) : Quiet (startStatics c) := by
  rw [startStatics_def]
  refine quiet_forM fun f => ?_
  unfold startValue
  split <;> infer_instance

instance (name : String) (message : Option String) : Quiet (raise name message : Emu α) := by
  cases message <;> exact ⟨fun _ _ _ => rfl, fun _ _ => rfl⟩

instance (r : HeapRef) : Quiet (raiseFromInitializer r : Emu α) := by
  refine ⟨fun env dispatch s => ?_, fun env s => ?_⟩
  · have hprogram : ({ env with dispatch } : Env).program = env.program := rfl
    exact raiseFromInitializer_congr hprogram r s
  rcases raiseFromInitializer_eq (α := α) r env s with ⟨fault, heap, h⟩
  rw [h]
  rfl

instance (key : CallKey) (answer : Except HeapRef (Option Value)) : Quiet (remember key answer) :=
  ⟨fun _ _ _ => rfl, fun _ _ => rfl⟩

instance : Quiet tick := by
  constructor
  · intro env dispatch s
    rw [tick_eq, tick_eq]
  · intro env s
    rw [state_tick]
    rfl

end Quiet

/-- An operation as a tree of its parts. If it belongs to the initialization of a class, this class
    has milestones in it. -/
inductive Script (starts : Option String) : Type → Type 1
  | quiet {α : Type} (x : Emu α) [hx : Quiet x] : Script starts α
  | bind {α β : Type} (x : Script starts α) (f : α → Script starts β) : Script starts β
  | tryCatch {α : Type} (x : Script starts α) (handle : Fault → Script starts α) : Script starts α
  /-- What is given to the operation decides how it goes on. -/
  | read {α : Type} (f : Env → Script starts α) : Script starts α
  /-- A part of the program is run. -/
  | run (t : Task) : Script starts (Option Value)
  /-- It is noted how far the class has come. -/
  | note (name : String) (hname : starts = some name) (state : InitState) : Script starts Unit
  /-- The initializer of the class is called. -/
  | initializer (name : String) (hname : starts = some name) : Script starts (Option Value)

namespace Script

variable {starts : Option String} {α : Type}

/-- What a script does. -/
def perform : {α : Type} → Script starts α → Emu α
  | _, quiet x => x
  | _, bind x f => x.perform >>= fun a => (f a).perform
  | _, tryCatch x handle => MonadExcept.tryCatch x.perform fun e => (handle e).perform
  | _, read f => fun env => (f env).perform env
  | _, run t => Emu.run t
  | _, note name _ state => setInitState name state
  | _, initializer name _ => call (.bytecode (ClassFile.initializer.on name)) []

/-- The milestones that a script passes, if those of the parts of the program are known. -/
def history (env : Env) (parts : Nat → Task → Machine → List Milestone) :
    {α : Type} → Script starts α → Machine → List Milestone
  | _, quiet _, _ => []
  | _, bind x f, s =>
    x.history env parts s ++
      match x.perform env s with
      | .ok a t => (f a).history env parts t
      | .error _ _ => []
  | _, tryCatch x handle, s =>
    x.history env parts s ++
      match x.perform env s with
      | .ok _ _ => []
      | .error e t => (handle e).history env parts t
  | _, read f, s => (f env).history env parts s
  | _, run t, s => parts env.depth t s
  | _, note name _ state, _ => [.moved name state]
  | _, initializer name _, s =>
    .ran name :: parts env.depth (.call (.bytecode (ClassFile.initializer.on name)) []) s

/-- An answer that needs nothing. -/
def done (a : α) : Script starts α :=
  quiet (pure a)

/-- A fault. -/
def fail (e : Fault) : Script starts α :=
  quiet (throw e)

/-- The use of a class. -/
def initClass (name : String) : Script starts Unit :=
  bind (run (.initClass name)) fun _ => done ()

/-- The initialization of the superclass; if it fails, so does the class. -/
def startParent (name : String) : Option String → Script (some name) Unit
  | none => done ()
  | some parent =>
    tryCatch (initClass parent) fun fault =>
      bind (note name rfl .failed) fun _ => fail fault

/-- The run of the initializer. -/
def runInitializer (c : ClassFile) (name : String) : Script (some name) Unit :=
  if (c.method? ClassFile.initializer).isSome then
    tryCatch (bind (initializer name rfl) fun _ => done ()) fun fault =>
      bind (note name rfl .failed) fun _ =>
        match fault with
        | .thrown exception => quiet (raiseFromInitializer exception)
        | other => fail other
  else done ()

/-- The initialization of a class that nothing has been done for. -/
def startClass (c : ClassFile) (name : String) : Script (some name) Unit :=
  bind (note name rfl .inProgress) fun _ =>
    bind (startParent name c.superName) fun _ =>
      bind (quiet (startStatics c)) fun _ =>
        bind (runInitializer c name) fun _ => note name rfl .done

/-- The initialization of a class. -/
def useClass (name : String) : Script (some name) Unit :=
  bind (quiet get) fun s =>
    match s.initialized[name]? with
    | some .done | some .inProgress => done ()
    | some .failed =>
      quiet (raise "java/lang/NoClassDefFoundError"
        (some ("Could not initialize class " ++ dotted name)))
    | none =>
      read fun env =>
        match env.program.classes.class? name with
        | none => done ()
        | some c => startClass c name

/-- Starting the superclass, if there is one. -/
theorem perform_startParent (c : ClassFile) (name : String) (env : Env) (s : Machine) :
    (startParent name c.superName).perform env s =
      match c.superName with
      | none => .ok () s
      | some parent =>
        match Emu.initClass parent env s with
        | .ok _ t => .ok () t
        | .error e t => .error e (t.noted name .failed) := by
  cases c.superName with
  | none => rfl
  | some parent =>
      change (MonadExcept.tryCatch (Emu.initClass parent) fun fault =>
        setInitState name .failed >>= fun _ => throw fault) env s = _
      rw [tryCatch_apply]
      dsimp only
      cases Emu.initClass parent env s <;> rfl

theorem perform_runInitializer (c : ClassFile) (name : String) (env : Env) (s : Machine) :
    (runInitializer c name).perform env s = Emu.runInitializer c name env s := by
  unfold runInitializer
  cases h : (c.method? ClassFile.initializer).isSome with
  | false => exact (runInitializer_of_none h).symm
  | true =>
      rw [runInitializer_of_some h, if_pos rfl]
      change (MonadExcept.tryCatch
        (call (.bytecode (ClassFile.initializer.on name)) [] >>= fun _ => pure ()) _) env s = _
      rw [tryCatch_apply, bind_apply]
      cases call (.bytecode (ClassFile.initializer.on name)) [] env s with
      | ok v t => rfl
      | error fault t => cases fault <;> rfl

theorem initClass_apply (name : String) (env : Env) (s : Machine) :
    Emu.initClass name env s =
      match env.dispatch env.depth (.initClass name) s with
      | .ok _ t => .ok () t
      | .error e t => .error e t := by
  have hrun : Emu.run (.initClass name) env s = env.dispatch env.depth (.initClass name) s := rfl
  unfold Emu.initClass
  rw [bind_apply, hrun]
  cases env.dispatch env.depth (.initClass name) s <;> rfl

/-- A class has its values when its initializer is run, if they have no constants of the pool. -/
theorem startSelf_eq {c : ClassFile} (hc : ∀ f ∈ c.fields, ∀ i, f.constant ≠ some (.pool i))
    (name : String) (env : Env) (s : Machine) :
    ∃ t, startStatics c env s = .ok () t ∧ t.initialized = s.initialized ∧
      startSelf c name env s =
        match Emu.runInitializer c name env t with
        | .ok _ t => .ok () (t.noted name .done)
        | .error e t => .error e t := by
  rcases startStatics_eq (fun f hf _ => hc f hf) s with ⟨t, ht, -, hstarts⟩
  refine ⟨t, ht env, hstarts.initialized, ?_⟩
  unfold startSelf
  rw [bind_apply, ht env]
  dsimp only
  rw [bind_apply]
  cases Emu.runInitializer c name env t <;> rfl

/-- A class is initialized when its superclass is. -/
theorem startClass_eq (c : ClassFile) (name : String) (env : Env) (s : Machine) :
    Emu.startClass c name env s =
      match (startParent name c.superName).perform env (s.noted name .inProgress) with
      | .ok _ t => startSelf c name env t
      | .error e t => .error e t := by
  rw [perform_startParent]
  cases h : c.superName with
  | none => exact startClass_of_none h
  | some parent =>
      rw [startClass_of_some h]
      change (match Emu.initClass parent env (s.noted name .inProgress) with
        | .ok _ t => startSelf c name env t
        | .error fault t => .error fault (t.noted name .failed)) = _
      dsimp only
      cases Emu.initClass parent env (s.noted name .inProgress) <;> rfl

theorem perform_startClass (c : ClassFile) (name : String) (env : Env) (s : Machine) :
    (startClass c name).perform env s = Emu.startClass c name env s := by
  -- Behind the superclass the two are the same step by step.
  have hself (t : Machine) : (bind (quiet (startStatics c)) fun _ =>
      bind (runInitializer c name) fun _ => note name rfl .done).perform env t
        = startSelf c name env t := by
    change (startStatics c >>= fun _ => (runInitializer c name).perform >>= fun _ =>
      setInitState name .done) env t = (startStatics c >>= fun _ =>
        Emu.runInitializer c name >>= fun _ => setInitState name .done) env t
    rw [bind_apply, bind_apply]
    cases startStatics c env t with
    | error e t => rfl
    | ok _ t =>
        dsimp only
        rw [bind_apply, bind_apply, perform_runInitializer]
  have hnote : (note name rfl .inProgress : Script (some name) _).perform env s
      = .ok () (s.noted name .inProgress) := rfl
  unfold startClass
  rw [startClass_eq, perform, bind_apply, hnote]
  dsimp only
  rw [perform, bind_apply]
  cases (startParent name c.superName).perform env (s.noted name .inProgress) with
  | error e t => rfl
  | ok _ t => exact hself t

/-- The script of the initialization does what the operation does. -/
theorem perform_useClass (name : String) (env : Env) (s : Machine) :
    (useClass name).perform env s = Emu.useClass name env s := by
  -- The script looks at the same entry, so the two are compared entry by entry.
  have hperform : (useClass name).perform env s = (match s.initialized[name]? with
      | some .done | some .inProgress => (done () : Script (some name) Unit)
      | some .failed =>
        quiet (raise "java/lang/NoClassDefFoundError"
          (some ("Could not initialize class " ++ dotted name)))
      | none =>
        read fun env =>
          match env.program.classes.class? name with
          | none => done ()
          | some c => startClass c name).perform env s := rfl
  rw [hperform]
  cases h : s.initialized[name]? with
  | some state =>
      cases state with
      | done => exact (useClass_of_done h).symm
      | inProgress => exact (useClass_of_inProgress h).symm
      | failed => exact (useClass_of_failed h).symm
  | none =>
      change (match env.program.classes.class? name with
        | none => (done () : Script (some name) Unit)
        | some c => startClass c name).perform env s = _
      cases hc : env.program.classes.class? name with
      | none => exact (useClass_of_outside h hc).symm
      | some c => exact (perform_startClass c name env s).trans (useClass_of_new h hc).symm

section History

variable {env : Env} {parts : Nat → Task → Machine → List Milestone} {name : String} {s : Machine}

theorem history_startParent (parent : String) :
    (startParent name (some parent)).history env parts s =
      parts env.depth (.initClass parent) s ++
        match Emu.initClass parent env s with
        | .ok _ _ => []
        | .error _ _ => [.moved name .failed] := by
  have hperform : (initClass parent : Script (some name) Unit).perform = Emu.initClass parent := rfl
  have hinit : (initClass parent : Script (some name) Unit).history env parts s
      = parts env.depth (.initClass parent) s := by
    unfold initClass
    rw [history, history]
    cases (run (.initClass parent) : Script (some name) _).perform env s with
    | ok x t => exact List.append_nil _
    | error e t => exact List.append_nil _
  unfold startParent
  rw [history, hperform, hinit]
  cases Emu.initClass parent env s <;> rfl

theorem history_runInitializer {c : ClassFile}
    (h : (c.method? ClassFile.initializer).isSome = true) :
    (runInitializer c name).history env parts s =
      .ran name :: (parts env.depth (.call (.bytecode (ClassFile.initializer.on name)) []) s ++
        match call (.bytecode (ClassFile.initializer.on name)) [] env s with
        | .ok _ _ => []
        | .error _ _ => [.moved name .failed]) := by
  have hcall : (initializer name rfl : Script (some name) _).perform
      = call (.bytecode (ClassFile.initializer.on name)) [] := rfl
  unfold runInitializer
  rw [if_pos h, history, history, perform, hcall, history, bind_apply, List.append_assoc,
    List.cons_append]
  congr 2
  cases call (.bytecode (ClassFile.initializer.on name)) [] env s with
  | ok x t => rfl
  | error e t => cases e <;> rfl

theorem history_startClass (c : ClassFile) :
    (startClass c name).history env parts s =
      .moved name .inProgress ::
        ((startParent name c.superName).history env parts (s.noted name .inProgress) ++
          match (startParent name c.superName).perform env (s.noted name .inProgress) with
          | .error _ _ => []
          | .ok _ t =>
            match startStatics c env t with
            | .error _ _ => []
            | .ok _ t =>
              (runInitializer c name).history env parts t ++
                match Emu.runInitializer c name env t with
                | .error _ _ => []
                | .ok _ _ => [.moved name .done]) := by
  -- Behind the superclass: the first values leave no trace, the initializer and the end do.
  have hself (t : Machine) : (bind (quiet (startStatics c)) fun _ =>
      bind (runInitializer c name) fun _ => note name rfl .done).history env parts t =
        match startStatics c env t with
        | .error _ _ => []
        | .ok _ t =>
          (runInitializer c name).history env parts t ++
            match Emu.runInitializer c name env t with
            | .error _ _ => []
            | .ok _ _ => [.moved name .done] := by
    have hstatics : (quiet (startStatics c) : Script (some name) _).perform = startStatics c := rfl
    rw [history, history, hstatics, List.nil_append]
    cases startStatics c env t with
    | error e w => rfl
    | ok _ w =>
        dsimp only
        rw [history, perform_runInitializer]
        cases Emu.runInitializer c name env w <;> rfl
  have hnote : (note name rfl .inProgress : Script (some name) _).perform env s
      = .ok () (s.noted name .inProgress) := rfl
  unfold startClass
  rw [history, history, hnote, List.singleton_append]
  dsimp only
  rw [history]
  cases (startParent name c.superName).perform env (s.noted name .inProgress) with
  | error e t => rfl
  | ok _ t => exact congrArg _ (congrArg _ (hself t))

theorem history_useClass (used : String) :
    (useClass used).history env parts s =
      match s.initialized[used]? with
      | some _ => []
      | none =>
        match env.program.classes.class? used with
        | none => []
        | some c => (startClass c used).history env parts s := by
  have hget : (quiet get : Script (some used) Machine).perform env s = .ok s s := rfl
  unfold useClass
  rw [history, history, hget, List.nil_append]
  dsimp only
  cases s.initialized[used]? with
  | some state => cases state <;> rfl
  | none =>
      dsimp only
      rw [history]
      cases env.program.classes.class? used <;> rfl

end History

/-- What all leaves of a script keep, the script keeps. -/
theorem relates {R : Machine → List Milestone → Machine → Prop} {env : Env}
    {parts : Nat → Task → Machine → List Milestone}
    (hquiet : ∀ {s t : Machine}, t.initialized = s.initialized → R s [] t)
    (htrans : ∀ {s t w : Machine} {l l' : List Milestone}, R s l t → R t l' w → R s (l ++ l') w)
    (hparts : ∀ task s, R s (parts env.depth task s)
      (Outcome.state (env.dispatch env.depth task s)))
    (hnote : ∀ name, starts = some name → ∀ state s, R s [.moved name state] (s.noted name state))
    (hran : ∀ name, starts = some name → ∀ s, R s [.ran name] s)
    (x : Script starts α) (s : Machine) :
    R s (x.history env parts s) (Outcome.state (x.perform env s)) := by
  -- One case for each constructor of a script; only notes and initializers leave milestones.
  induction x generalizing s with
  | @quiet _ x hx => exact hquiet (hx.keeps env s)
  | bind x f ihx ihf =>
      have hx := ihx s
      rw [history, perform, bind_apply]
      revert hx
      cases x.perform env s with
      | ok a t => exact fun hx => htrans hx (ihf a t)
      | error e t => exact fun hx => htrans hx (hquiet rfl)
  | tryCatch x handle ihx ihhandle =>
      have hx := ihx s
      rw [history, perform, tryCatch_apply]
      revert hx
      cases x.perform env s with
      | ok a t => exact fun hx => htrans hx (hquiet rfl)
      | error e t => exact fun hx => htrans hx (ihhandle e t)
  | read f ih => exact ih env s
  | run t => exact hparts t s
  | note name hname state => exact hnote name hname state s
  | initializer name hname => exact htrans (hran name hname s) (hparts _ s)

end Script

/-- An operation that has a script without milestones of its own. -/
class Scripted {α : Type} (x : Emu α) : Prop where
  exists_script : ∃ script : Script none α, script.perform = x

section Scripted

variable {α β : Type}

instance (x : Emu α) [Quiet x] : Scripted x :=
  ⟨.quiet x, rfl⟩

/-- Parts that are scripts make a script. -/
theorem Scripted.bind {x : Emu α} {f : α → Emu β} (hx : Scripted x) (hf : ∀ a, Scripted (f a)) :
    Scripted (x >>= f) := by
  rcases hx with ⟨script, rfl⟩
  choose scripts hscripts using fun a => (hf a).exists_script
  refine ⟨.bind script scripts, ?_⟩
  change (script.perform >>= fun a => (scripts a).perform) = _
  rw [funext hscripts]

-- So do a part and its handler.
theorem Scripted.tryCatch {x : Emu α} {handle : Fault → Emu α} (hx : Scripted x)
    (hhandle : ∀ e, Scripted (handle e)) : Scripted (tryCatch x handle) := by
  rcases hx with ⟨script, rfl⟩
  choose scripts hscripts using fun e => (hhandle e).exists_script
  refine ⟨.tryCatch script scripts, ?_⟩
  change (MonadExcept.tryCatch script.perform fun e => (scripts e).perform) = _
  rw [funext hscripts]

-- And what depends on the environment.
theorem Scripted.read {f : Env → Emu α} (hf : ∀ env, Scripted (f env)) :
    Scripted (MonadReader.read >>= f) := by
  choose scripts hscripts using fun env => (hf env).exists_script
  refine ⟨.read scripts, ?_⟩
  funext env
  exact congrFun (hscripts env) env

instance (x : Emu α) (f : α → Emu β) [hx : Scripted x] [hf : ∀ a, Scripted (f a)] :
    Scripted (x >>= f) :=
  hx.bind hf

/-- Operations are scripted by the way they are put together. -/
instance scripted_of_composed (x : Emu α) [hx : Composed false x] : Scripted x := by
  -- Whatever writes no static field and no state is made of quiet parts.
  induction hx with
  | pure a => exact inferInstance
  | throw e => exact inferInstance
  | bind hx hf ihx ihf => exact ihx.bind ihf
  | tryCatch hx hhandle hpasses ihx ihhandle => exact ihx.tryCatch ihhandle
  | get hf huncounted ih =>
      have hget : Scripted (get : Emu Machine) := inferInstance
      exact hget.bind ih
  | read hf halike ih => exact .read ih
  | run t => exact ⟨.run t, rfl⟩
  | @heap _ f hf =>
      let change : Emu _ := fun _ s => .ok (f s.heap).1 { s with heap := (f s.heap).2 }
      have hquiet : Quiet change := ⟨fun _ _ _ => rfl, fun _ _ => rfl⟩
      exact inferInstanceAs (Scripted change)
  | setStatic m v hwrites => exact inferInstance
  | setInitState name state hwrites => cases hwrites

instance (f : Member) (v : Value) : Scripted (putStatic f v) := by
  have hput (u : Universe) : Scripted (match u.fieldOwner? f with
      | none => throw (.noSuchField f)
      | some owner => do
        initClass owner
        setStatic (f.withOwner owner) v : Emu Unit) := by
    split <;> infer_instance
  exact Scripted.read fun env => hput env.program.classes

/-- An instruction is scripted, whether it writes a static field or not. -/
instance scripted_step (c : ClassFile) (i : Instruction) (a : Activation) :
    Scripted (step c i a) := by
  -- Only the assignment of a static field needs a script of its own.
  cases hwrite : i.staticWrite? with
  | none =>
      have hcomposed : Composed false (step c i a) := composed_step c (fun _ => hwrite) a
      infer_instance
  | some f =>
      rcases Instruction.eq_of_staticWrite? hwrite with rfl
      cases hpop : Stack.pop a.stack with
      | error fault =>
          have hstep : step c (.field .putstatic f) a = throw fault := by
            funext env s
            exact step_putstatic_of_error hpop
          rw [hstep]
          infer_instance
      | ok x =>
          rw [step_putstatic hpop]
          infer_instance

/-- An operation whose faults are handed on like answers. -/
def attempted (x : Emu α) : Emu (α ⊕ Fault) :=
  tryCatch (x >>= fun a => pure (.inl a)) fun e => pure (.inr e)

/-- An attempt turns a fault into a value. -/
theorem attempted_apply (x : Emu α) (env : Env) (s : Machine) :
    attempted x env s =
      match x env s with
      | .ok a t => .ok (.inl a) t
      | .error e t => .ok (.inr e) t := by
  unfold attempted
  rw [tryCatch_apply, bind_apply]
  cases x env s <;> rfl

instance (x : Emu α) [Scripted x] : Scripted (attempted x) :=
  Scripted.tryCatch inferInstance fun _ => inferInstance

/-- Where a method goes on when an instruction has failed. -/
def recover (p : Prepared) (a : Activation) (position : Nat) (fault : Fault) : Emu Progress :=
  read >>= fun env => get >>= fun s =>
    match p.resume a position env (.error fault s) with
    | .ok progress _ => pure progress
    | .error e _ => throw e

/-- Recovery is going on after a fault. -/
theorem recover_eq (p : Prepared) (a : Activation) (position : Nat) (fault : Fault) (env : Env)
    (s : Machine) :
    recover p a position fault env s = p.resume a position env (.error fault s) := by
  have hrecover : recover p a position fault env s =
      (match p.resume a position env (.error fault s) with
        | .ok progress _ => pure progress
        | .error e _ => throw e : Emu Progress) env s := rfl
  rw [hrecover]
  unfold Prepared.resume
  cases fault with
  | thrown exception =>
      dsimp only
      cases p.handler? env.program.classes position (s.heap.get exception).className <;> rfl
  | _ => rfl

/-- An instruction in its place is scripted, whatever becomes of an exception. -/
instance scripted_advance (p : Prepared) (a : Activation) (position : Nat) :
    Scripted (advance p a position) := by
  cases hget : p.code[position]? with
  | none =>
      have hadvance : advance p a position = throw (.derailed (.fellOff p.member)) := by
        funext env s
        exact advance_end hget
      rw [hadvance]
      infer_instance
  | some i =>
      cases hi : i.isPseudo with
      | true =>
          have hadvance : advance p a position = pure (.running a (position + 1)) := by
            funext env s
            exact advance_mark hget hi
          rw [hadvance]
          infer_instance
      | false =>
          -- A fault of the instruction is caught and those of what comes after it are not.
          have hrecover (fault : Fault) : Scripted (recover p a position fault) := by
            refine Scripted.read fun env => Scripted.bind inferInstance fun s => ?_
            split <;> infer_instance
          have hadvance : advance p a position = tick >>= fun _ =>
              attempted (step p.owner i a) >>= fun
              | .inl flow => lift (flow.progress p a position)
              | .inr fault => recover p a position fault := by
            funext env s
            rw [advance_real hget hi, bind_apply]
            cases tick env s with
            | error e t => rfl
            | ok _ t =>
                dsimp only
                rw [bind_apply, attempted_apply]
                cases step p.owner i a env t with
                | ok flow w => rfl
                | error fault w => exact (recover_eq p a position fault env w).symm
          rw [hadvance]
          refine Scripted.bind inferInstance fun _ => Scripted.bind inferInstance fun x => ?_
          split <;> infer_instance

/-- A method that is ready is scripted, as far as it is run. -/
instance scripted_execute (p : Prepared) (steps : Nat) (a : Activation) (position : Nat) :
    Scripted (execute p steps a position) := by
  induction steps generalizing a position with
  | zero => exact inferInstanceAs (Scripted (throw Fault.outOfSteps))
  | succ steps ih =>
      -- A run is its first step and the run from there.
      have hexecute : execute p (steps + 1) a position = advance p a position >>= fun
          | .finished v => pure v
          | .running a position => execute p steps a position := by
        funext env s
        rw [execute_succ, bind_apply]
        cases advance p a position env s with
        | error e t => rfl
        | ok progress t => cases progress <;> rfl
      rw [hexecute]
      refine Scripted.bind inferInstance fun progress => ?_
      split
      · infer_instance
      · exact ih _ _

end Scripted

end Emu

end JvmFold
