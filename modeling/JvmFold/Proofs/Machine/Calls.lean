import JvmFold.Proofs.Machine.Straight

/-!
# Calls in the Engine

A call of a method of a class that is initialized is a run of the method, one
call deeper and with one level less. The allowance of the engine is only asked
to be large enough. What a call returns is up to the instruction that ends the
run, and not to the descriptor: nothing comes back exactly if that instruction
is the one that returns nothing.

## Main definitions

* `Engine.inside`: What the operations of a call in progress are given.

## Theorems

* `Program.prepare_ofUniverse`: The methods of a program are those of its classes.
* `Emu.getStatic_of_done`: Reading a field of a class that is initialized.
* `Emu.invoke_static`: A call is a run of the method.
* `Emu.execute_none`: A method that returns nothing has an instruction for that.
-/

namespace JvmFold

/-- The methods of a program are those of its classes. -/
theorem Program.prepare_ofUniverse (u : Universe) (m : Member) :
    (Program.ofUniverse u).prepare m = u.prepare m := by
  -- Every method that is kept is the one of the classes, however many have been put in.
  let Kept (methods : Std.HashMap Member (Thunk (Except Fault Prepared))) : Prop :=
    ∀ method, methods[m]? = some method → method.get = u.prepare m
  have hempty : Kept ∅ := by
    intro method h
    rw [Std.HashMap.getElem?_empty] at h
    cases h
  have hkept : Kept (Program.ofUniverse u).methods := by
    refine List.foldlRecOn (motive := Kept) _ _ hempty fun methods hmethods e _ => ?_
    refine List.foldlRecOn (motive := Kept) _ _ hmethods fun methods hmethods x _ method h => ?_
    rw [Std.HashMap.getElem?_insert] at h
    split at h
    next heq =>
      cases h
      rw [← eq_of_beq heq]
      rfl
    · exact hmethods method h
  unfold Program.prepare
  split
  · exact hkept _ ‹_›
  · rfl

/-- What the operations of a call in progress are given. -/
def Engine.inside (p : Program) (limits : Limits) (levels depth : Nat) : Env where
  program := p
  limits := limits
  isNative := Natives.contains
  depth := depth
  dispatch := Engine.run p limits levels

/-- The environment that requests come from is that of the outermost level. -/
theorem Engine.env_eq (p : Program) (limits : Limits) :
    Engine.env p limits = Engine.inside p limits (Engine.allowance - 1 + 1) 0 :=
  rfl

/-- There are levels for a call and for what it does. -/
theorem Engine.env_eq_inside (p : Program) (limits : Limits) :
    Engine.env p limits = Engine.inside p limits (Engine.allowance - 2 + 1 + 1) 0 := by
  have hallowance : Engine.allowance - 1 = Engine.allowance - 2 + 1 := by decide
  rw [Engine.env_eq, hallowance]

section Engine

variable {p : Program} {limits : Limits} {levels depth : Nat} {s t : Machine}

/-- Initializing a class, one level down. -/
theorem Engine.run_initClass (name : String) :
    Engine.run p limits (levels + 1) depth (.initClass name) s =
      match Emu.useClass name (Engine.inside p limits levels depth) s with
      | .ok _ s => .ok none s
      | .error e s => .error e s :=
  rfl

theorem Engine.run_call (m : Member) (values : List Value) :
    Engine.run p limits (levels + 1) depth (.call (.bytecode m) values) s =
      if limits.depth ≤ depth then
        Emu.raise "java/lang/StackOverflowError" none (Engine.inside p limits levels depth) s
      else
        match p.prepare m with
        | .error e => .error e s
        | .ok q =>
          Emu.execute q Engine.allowance (.start q.maxLocals values) 0
            (Engine.inside p limits levels (depth + 1)) s := by
  change (if limits.depth ≤ depth then _ else _) = _
  by_cases h : limits.depth ≤ depth
  · exact (if_pos h).trans (if_pos h).symm
  · refine (if_neg h).trans (.trans ?_ (if_neg h).symm)
    cases p.prepare m with
    | error e => rfl
    | ok q => dsimp only [Engine.inside]

namespace Emu

/-- What initializing does to a machine, seen from an instruction. -/
theorem initClass_eq (name : String) :
    initClass name (Engine.inside p limits (levels + 1) depth) s =
      match useClass name (Engine.inside p limits levels depth) s with
      | .ok _ t => .ok () t
      | .error e t => .error e t := by
  have hrun : run (.initClass name) (Engine.inside p limits (levels + 1) depth) s
      = Engine.run p limits (levels + 1) depth (.initClass name) s := rfl
  unfold initClass
  rw [bind_apply, hrun, Engine.run_initClass]
  cases useClass name (Engine.inside p limits levels depth) s with
  | ok _ t => rfl
  | error e t => rfl

/-- A class that is initialized needs nothing more. -/
theorem useClass_of_done {name : String} {env : Env} (h : s.initialized[name]? = some .done) :
    useClass name env s = .ok () s := by
  have hget : (get : Emu Machine) env s = .ok s s := rfl
  unfold useClass
  simp only [bind_apply, hget, h]
  rfl

-- Neither does one that is being initialized.
theorem useClass_of_inProgress {name : String} {env : Env}
    (h : s.initialized[name]? = some .inProgress) : useClass name env s = .ok () s := by
  have hget : (get : Emu Machine) env s = .ok s s := rfl
  unfold useClass
  simp only [bind_apply, hget, h]
  rfl

/-- A class that was not used before is initialized, if the program has it. -/
theorem useClass_of_none {name : String} {env : Env} (h : s.initialized[name]? = none) :
    useClass name env s =
      match env.program.classes.class? name with
      | none => .ok () s
      | some c => startClass c name env s := by
  have hget : (get : Emu Machine) env s = .ok s s := rfl
  have hclasses : classes env s = .ok env.program.classes s := rfl
  unfold useClass
  rw [bind_apply, hget]
  dsimp only
  rw [h]
  dsimp only
  rw [bind_apply, hclasses]
  dsimp only
  cases env.program.classes.class? name <;> rfl

/-- A class outside the program has nothing to initialize. -/
theorem useClass_of_outside {name : String} {env : Env}
    (h : s.initialized[name]? = none) (hc : env.program.classes.class? name = none) :
    useClass name env s = .ok () s := by
  rw [useClass_of_none h, hc]

/-- Any other class of the universe is started. -/
theorem useClass_of_new {name : String} {env : Env} {c : ClassFile}
    (h : s.initialized[name]? = none) (hc : env.program.classes.class? name = some c) :
    useClass name env s = startClass c name env s := by
  rw [useClass_of_none h, hc]

/-- A class that failed before fails again. -/
theorem useClass_of_failed {name : String} {env : Env}
    (h : s.initialized[name]? = some .failed) :
    useClass name env s = raise "java/lang/NoClassDefFoundError"
      (some ("Could not initialize class " ++ dotted name)) env s := by
  have hget : (get : Emu Machine) env s = .ok s s := rfl
  unfold useClass
  rw [bind_apply, hget]
  dsimp only
  rw [h]

/-- A class without an initializer, of whose superclass the program has nothing, is initialized
    by giving its fields their first values. -/
theorem initClass_of_no_initializer {name parent : String} {c : ClassFile}
    {statics : Std.HashMap Member Value} (hc : p.classes.class? name = some c)
    (hsuper : c.superName = some parent) (hparent : p.classes.class? parent = none)
    (hinit : (c.method? ClassFile.initializer).isSome = false) (hne : name ≠ parent)
    (hnew : s.initialized[name]? = none) (houtside : s.initialized[parent]? = none)
    (hstatics : startStatics c (Engine.inside p limits (levels + 1) depth)
      { s with initialized := s.initialized.insert name .inProgress }
        = .ok () { s with statics, initialized := s.initialized.insert name .inProgress }) :
    initClass name (Engine.inside p limits (levels + 1 + 1) depth) s
      = .ok () { s with
          statics, initialized := (s.initialized.insert name .inProgress).insert name .done } := by
  have hbegin : setInitState name .inProgress (Engine.inside p limits (levels + 1) depth) s
      = .ok () { s with initialized := s.initialized.insert name .inProgress } := rfl
  have hunknown : (s.initialized.insert name .inProgress)[parent]? = none := by
    rw [Std.HashMap.getElem?_insert, if_neg (by simpa using hne)]
    exact houtside
  -- The superclass is outside the program, and this leaves the state alone.
  have hup : initClass parent (Engine.inside p limits (levels + 1) depth)
      { s with initialized := s.initialized.insert name .inProgress }
        = .ok () { s with initialized := s.initialized.insert name .inProgress } := by
    rw [initClass_eq, useClass_of_outside hunknown hparent]
  rw [initClass_eq, useClass_of_new hnew hc]
  unfold startClass
  rw [bind_apply, hbegin]
  dsimp only
  rw [hsuper]
  dsimp only
  rw [bind_apply, tryCatch_apply, hup]
  dsimp only
  rw [bind_apply, hstatics]
  dsimp only
  unfold runInitializer
  rw [hinit]
  rfl

/-- Reading a field of a class that can be initialized. -/
theorem getStatic_of_initClass {f : Member} {owner : String} {v : Value} {env : Env}
    (howner : env.program.classes.fieldOwner? f = some owner)
    (hinit : initClass owner env s = .ok () t) (hv : t.statics[f.withOwner owner]? = some v) :
    getStatic f env s = .ok v t := by
  have hclasses : classes env s = .ok env.program.classes s := rfl
  have hget : (get : Emu Machine) env t = .ok t t := rfl
  unfold getStatic
  simp only [bind_apply, hclasses, howner, hinit, hget, hv]
  rfl

/-- A static field cannot be read if its class cannot be initialized. -/
theorem getStatic_of_initClass_error {f : Member} {owner : String} {e : Fault} {env : Env}
    (howner : env.program.classes.fieldOwner? f = some owner)
    (hinit : initClass owner env s = .error e t) : getStatic f env s = .error e t := by
  have hclasses : classes env s = .ok env.program.classes s := rfl
  unfold getStatic
  simp only [bind_apply, hclasses, howner, hinit]

/-- Reading a field of a class that can be initialized when the field has no value. -/
theorem getStatic_of_missing {f : Member} {owner : String} {env : Env}
    (howner : env.program.classes.fieldOwner? f = some owner)
    (hinit : initClass owner env s = .ok () t) (hv : t.statics[f.withOwner owner]? = none) :
    getStatic f env s = .error (.noSuchField (f.withOwner owner)) t := by
  have hclasses : classes env s = .ok env.program.classes s := rfl
  have hget : (get : Emu Machine) env t = .ok t t := rfl
  unfold getStatic
  simp only [bind_apply, hclasses, howner, hinit, hget, hv]
  rfl

/-- A field that no class declares cannot be written. -/
theorem putStatic_of_none {f : Member} {v : Value} {env : Env}
    (howner : env.program.classes.fieldOwner? f = none) :
    putStatic f v env s = .error (.noSuchField f) s := by
  have hclasses : classes env s = .ok env.program.classes s := rfl
  unfold putStatic
  simp only [bind_apply, hclasses, howner]
  rfl

/-- Writing a field of a class that can be initialized. -/
theorem putStatic_of_initClass {f : Member} {owner : String} {v : Value} {env : Env}
    (howner : env.program.classes.fieldOwner? f = some owner)
    (hinit : initClass owner env s = .ok () t) :
    putStatic f v env s = .ok () { t with statics := t.statics.insert (f.withOwner owner) v } := by
  have hclasses : classes env s = .ok env.program.classes s := rfl
  unfold putStatic
  simp only [bind_apply, hclasses, howner, hinit]
  rfl

/-- A static field cannot be written if its class cannot be initialized. -/
theorem putStatic_of_initClass_error {f : Member} {owner : String} {v : Value} {e : Fault}
    {env : Env} (howner : env.program.classes.fieldOwner? f = some owner)
    (hinit : initClass owner env s = .error e t) : putStatic f v env s = .error e t := by
  have hclasses : classes env s = .ok env.program.classes s := rfl
  unfold putStatic
  simp only [bind_apply, hclasses, howner, hinit]

/-- Reading a field of a class that is initialized. -/
theorem getStatic_of_done {f : Member} {owner : String} {v : Value}
    (howner : p.classes.fieldOwner? f = some owner)
    (hdone : s.initialized[owner]? = some .done) (hv : s.statics[f.withOwner owner]? = some v) :
    getStatic f (Engine.inside p limits (levels + 1) depth) s = .ok v s := by
  refine getStatic_of_initClass howner ?_ hv
  rw [initClass_eq, useClass_of_done hdone]

theorem target_static (m : Member) (receiver : Option Value) (env : Env) :
    target .static m receiver env s = lift (env.directTarget m) env s :=
  rfl

/-- Reading a field of an object that has it. -/
theorem getField_of_instance {f : Member} {owner name : String} {r : HeapRef} {fields : Fields}
    {v : Value} {env : Env} (howner : env.program.classes.fieldOwner? f = some owner)
    (hobject : s.heap.get r = .instance name fields)
    (hv : fields.get? (f.withOwner owner) = some v) :
    getField (.ref r) f env s = .ok v s := by
  have hclasses : classes env s = .ok env.program.classes s := rfl
  have hget : object r env s = .ok (s.heap.get r) s := rfl
  have hreference : lift (Value.ref r).asReference env s = .ok (some r) s := rfl
  have hdeclared : declaredField f env s = .ok (f.withOwner owner) s := by
    unfold declaredField
    simp only [bind_apply, hclasses, howner]
    rfl
  unfold getField
  simp only [bind_apply, hreference, hdeclared, hget, hobject, hv]
  rfl

/-- A call of a method is a run of it. -/
theorem call_of_run? {m : Member} {q : Prepared} {values : List Value} {k : Nat}
    {r : Outcome (Option Value)} (hdepth : depth < limits.depth) (hq : p.prepare m = .ok q)
    (hk : k ≤ Engine.allowance)
    (hr : run? q (Engine.inside p limits levels (depth + 1)) k (.start q.maxLocals values) 0 s
      = some r) :
    call (.bytecode m) values (Engine.inside p limits (levels + 1) depth) s = r := by
  change Engine.run p limits (levels + 1) depth (.call (.bytecode m) values) s = r
  rw [Engine.run_call, if_neg (Nat.not_le.mpr hdepth), hq]
  exact execute_of_run? (run?_mono hr hk)

/-- A static call of a method initializes its class first. -/
theorem invoke_static_of_initClass {m declared : Member} {values : List Value} {env : Env}
    (htarget : env.directTarget m = .ok (.bytecode declared))
    (hinit : initClass declared.owner env s = .ok () t) :
    invoke .static m values env s = call (.bytecode declared) values env t := by
  unfold invoke
  rw [bind_apply, target_static, htarget]
  change (initClass declared.owner >>= fun _ => call (.bytecode declared) values) _ s = _
  rw [bind_apply, hinit]

/-- A static call of a method of a class that is initialized is a run of the method. -/
theorem invoke_static {m declared : Member} {q : Prepared} {values : List Value} {k : Nat}
    {r : Outcome (Option Value)}
    (htarget : (Engine.inside p limits (levels + 1) depth).directTarget m
      = .ok (.bytecode declared))
    (hdone : s.initialized[declared.owner]? = some .done) (hdepth : depth < limits.depth)
    (hq : p.prepare declared = .ok q) (hk : k ≤ Engine.allowance)
    (hr : run? q (Engine.inside p limits levels (depth + 1)) k (.start q.maxLocals values) 0 s
      = some r) :
    invoke .static m values (Engine.inside p limits (levels + 1) depth) s = r := by
  have hinit : initClass declared.owner (Engine.inside p limits (levels + 1) depth) s
      = .ok () s := by
    rw [initClass_eq, useClass_of_done hdone]
  rw [invoke_static_of_initClass htarget hinit]
  exact call_of_run? hdepth hq hk hr

/-- Throwing an exception only adds to the heap. -/
theorem raise_eq {α : Type} (name : String) (message : Option String) (env : Env) (s : Machine) :
    ∃ r heap, (raise name message : Emu α) env s = .error (.thrown r) { s with heap } := by
  cases message with
  | none => exact ⟨_, _, rfl⟩
  | some text => exact ⟨_, _, rfl⟩

/-- What raises an exception does not succeed. -/
theorem raise_ne_ok {α : Type} {name : String} {message : Option String} {env : Env} {x : α} :
    raise name message env s ≠ .ok x t := by
  intro h
  rcases raise_eq (α := α) name message env s with ⟨r, heap, hraise⟩
  rw [hraise] at h
  cases h

/-- What leaves an initializer is a fault, and only the heap changes. -/
theorem raiseFromInitializer_eq {α : Type} (r : HeapRef) (env : Env) (s : Machine) :
    ∃ fault heap, (raiseFromInitializer r : Emu α) env s = .error fault { s with heap } := by
  have hchecks : ∃ b, isInstance (.ref r) "java/lang/Error" env s = .ok b s := ⟨_, rfl⟩
  rcases hchecks with ⟨b, hb⟩
  unfold raiseFromInitializer
  simp only [bind_apply, hb]
  cases b with
  | true => exact ⟨_, _, rfl⟩
  | false => exact ⟨_, _, rfl⟩

/-- An initializer that throws at once leaves its class failed. -/
theorem runInitializer_of_thrown {c : ClassFile} {name : String} {env : Env} {r : HeapRef}
    {heap : Heap} (hinit : (c.method? ClassFile.initializer).isSome = true)
    (hcall : call (.bytecode (ClassFile.initializer.on name)) [] env s
      = .error (.thrown r) { s with heap }) :
    ∃ fault t, runInitializer c name env s = .error fault t ∧
      t.initialized[name]? = some .failed := by
  rcases raiseFromInitializer_eq (α := Unit) r env
    { s with heap, initialized := s.initialized.insert name .failed } with ⟨fault, heap', hfault⟩
  refine ⟨fault, { s with heap := heap', initialized := s.initialized.insert name .failed }, ?_,
    Std.HashMap.getElem?_insert_self⟩
  -- The class is marked as failed before the exception is passed on.
  have hbody : (do
      let _ ← call (.bytecode (ClassFile.initializer.on name)) []
      pure () : Emu PUnit) env s = .error (.thrown r) { s with heap } := by
    rw [bind_apply, hcall]
  unfold runInitializer
  rw [if_pos hinit]
  change EStateM.tryCatch ((do
    let _ ← call (.bytecode (ClassFile.initializer.on name)) []
    pure () : Emu PUnit) env) _ s = _
  unfold EStateM.tryCatch
  simp only [hbody]
  exact hfault

/-- What a call of a method has returned, a run of the method has returned. -/
theorem execute_of_invoke_static {m declared : Member} {values : List Value} {x : Option Value}
    (htarget : (Engine.inside p limits (levels + 1) depth).directTarget m
      = .ok (.bytecode declared))
    (h : invoke .static m values (Engine.inside p limits (levels + 1) depth) s = .ok x t) :
    ∃ q u, p.prepare declared = .ok q ∧
      execute q Engine.allowance (.start q.maxLocals values) 0
        (Engine.inside p limits levels (depth + 1)) u = .ok x t := by
  rcases bind_ok h with ⟨found, u, hfound, h⟩
  rw [target_static, htarget] at hfound
  cases hfound
  rcases bind_ok h with ⟨_, u, _, h⟩
  change Engine.run p limits (levels + 1) depth (.call (.bytecode declared) values) u = _ at h
  rw [Engine.run_call] at h
  split at h
  · exact absurd h raise_ne_ok
  · split at h
    · cases h
    next q hq =>
      exact ⟨q, u, hq, h⟩

end Emu

end Engine

/-- The context with one more instruction counted. -/
def Machine.ticked (s : Machine) : Machine :=
  { s with executed := s.executed + 1 }

namespace Emu

section Run

variable {p : Prepared} {env : Env} {k i : Nat} {a : Activation} {s t : Machine} {m : Instruction}

/-- Each instruction is counted before the limit is looked at. -/
theorem tick_apply (env : Env) (s : Machine) :
    tick env s = (match env.limits.instructions with
      | none => pure ()
      | some limit => do
        if limit < (← get).executed then throw (.instructionLimit limit) : Emu Unit) env
          s.ticked :=
  rfl

theorem tick_of_no_limit (hlimit : env.limits.instructions = none) :
    tick env s = .ok () s.ticked := by
  rw [tick_apply, hlimit]
  rfl

theorem step_getstatic {c : ClassFile} {f : Member} {v : Value}
    (h : getStatic f env s = .ok v t) :
    step c (.field .getstatic f) a env s = .ok (.next (v :: a.stack)) t := by
  change ((getStatic f >>= fun v => pure (v :: a.stack)) >>= fun stack => pure (.next stack) :
    Emu Flow) env s = _
  rw [bind_apply, bind_apply, h]
  rfl

/-- An assignment to a static field takes the value off the stack. -/
theorem step_putstatic {c : ClassFile} {f : Member} {x : Value × Stack}
    (hpop : Stack.pop a.stack = .ok x) :
    step c (.field .putstatic f) a = putStatic f x.1 >>= fun _ => pure (.next x.2) := by
  change ((lift (Stack.pop a.stack) >>= fun x => putStatic f x.1 >>= fun _ => pure x.2) >>=
    fun stack => pure (.next stack) : Emu Flow) = _
  rw [hpop]
  simp only [lift, pure_bind, bind_assoc]

/-- Without a value on the stack nothing is stored. -/
theorem step_putstatic_of_error {c : ClassFile} {f : Member} {fault : Fault}
    (hpop : Stack.pop a.stack = .error fault) :
    step c (.field .putstatic f) a env s = .error fault s := by
  change ((lift (Stack.pop a.stack) >>= fun x => putStatic f x.1 >>= fun _ => pure x.2) >>=
    fun stack => pure (.next stack) : Emu Flow) env s = _
  rw [hpop]
  rfl

theorem step_getfield {c : ClassFile} {f : Member} {object v : Value} {stack : Stack}
    (h : getField object f env s = .ok v t) :
    step c (.field .getfield f) (a.withStack (object :: stack)) env s
      = .ok (.next (v :: stack)) t := by
  change ((getField object f >>= fun v => pure (v :: stack)) >>= fun stack => pure (.next stack) :
    Emu Flow) env s = _
  rw [bind_apply, bind_apply, h]
  rfl

/-- A mark is passed over without being counted. -/
theorem run?_mark (hget : p.code[i]? = some m) (hm : m.isPseudo = true) :
    run? p env (k + 1) a i s = run? p env k a (i + 1) s := by
  rw [run?, advance_mark hget hm]

/-- An instruction that goes on hands its stack to the one behind it. -/
theorem run?_next {stack : Stack} (hget : p.code[i]? = some m) (hm : m.isPseudo = false)
    (hlimit : env.limits.instructions = none)
    (hstep : step p.owner m a env s.ticked = .ok (.next stack) t) :
    run? p env (k + 1) a i s = run? p env k (a.withStack stack) (i + 1) t := by
  rw [run?, advance_real hget hm, tick_of_no_limit hlimit]
  simp only [hstep]
  rfl

/-- A jump goes on at the label. -/
theorem run?_jump {l : Label} {stack : Stack} {j : Nat} (hget : p.code[i]? = some m)
    (hm : m.isPseudo = false) (hlimit : env.limits.instructions = none)
    (hstep : step p.owner m a env s.ticked = .ok (.jump l stack) t)
    (hl : p.target l = .ok j) :
    run? p env (k + 1) a i s = run? p env k (a.withStack stack) j t := by
  rw [run?, advance_real hget hm, tick_of_no_limit hlimit]
  simp only [hstep, Prepared.resume, Flow.progress, hl]
  rfl

/-- A return ends the run. -/
theorem run?_finish {v : Option Value} (hget : p.code[i]? = some m) (hm : m.isPseudo = false)
    (hlimit : env.limits.instructions = none)
    (hstep : step p.owner m a env s.ticked = .ok (.finish v) t) :
    run? p env (k + 1) a i s = some (.ok v t) := by
  rw [run?, advance_real hget hm, tick_of_no_limit hlimit]
  simp only [hstep]
  rfl

/-- Without guards an exception ends it as well. -/
theorem run?_thrown {r : HeapRef} (hget : p.code[i]? = some m) (hm : m.isPseudo = false)
    (hlimit : env.limits.instructions = none) (hguards : p.guards = [])
    (hstep : step p.owner m a env s.ticked = .error (.thrown r) t) :
    run? p env (k + 1) a i s = some (.error (.thrown r) t) := by
  have hnone (name : String) : p.handler? env.program.classes i name = none := by
    unfold Prepared.handler?
    rw [hguards]
    rfl
  rw [run?, advance_real hget hm, tick_of_no_limit hlimit]
  simp only [hstep, Prepared.resume, hnone]

end Run

end Emu

namespace Emu

section Return

variable {env : Env} {s t : Machine}

/-- A method ends at an instruction that ends it. -/
theorem advance_finished {p : Prepared} {i : Nat} {a : Activation} {v : Option Value}
    (h : advance p a i env s = .ok (.finished v) t) :
    ∃ m u, p.code[i]? = some m ∧ step p.owner m a env u = .ok (.finish v) t := by
  cases advances_of_ok h with
  | @done m flow _ u _ hget _ hstep hflow =>
      cases flow with
      | finish x =>
          cases hflow
          exact ⟨m, u, hget, hstep⟩
      | jump l stack =>
          rcases Flow.progress_jump hflow with ⟨target, -, hnext⟩
          cases hnext
      | _ => cases hflow

/-- A method that returns nothing has the instruction for that. -/
theorem execute_none {p : Prepared} {steps i : Nat} {a : Activation}
    (h : execute p steps a i env s = .ok none t) : .simple .voidReturn ∈ p.code := by
  induction steps generalizing a i s with
  | zero => cases h
  | succ steps ih =>
      rw [execute_succ] at h
      split at h
      · cases h
      next hadvance =>
        cases h
        rcases advance_finished hadvance with ⟨m, u, hget, hstep⟩
        rw [← step_finish_none hstep]
        exact Array.mem_of_getElem? hget
      · exact ih h

end Return

end Emu

end JvmFold
