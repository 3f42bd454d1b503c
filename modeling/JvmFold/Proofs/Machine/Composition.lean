import JvmFold.Proofs.Machine.Calls
import JvmFold.Proofs.Machine.Constants
import JvmFold.Proofs.Universe.Shape

/-!
# How Operations Are Put Together

Every operation of the machine is put together from a few parts: it changes the
heap, runs a part of the program, asks the program about its classes, and hands
results on. Only some operations write static fields and note how far the
initialization of a class has come. No change to the heap takes an object away,
and an object that cannot change is never turned into one that can.

What is to hold of all operations is proved here once, by induction on the way
they are put together. An operation comes out the same in two environments if
the parts of the program do, from all the states that can come up; the classes
have to be the same only as far as the machine sees them.

One thing that holds by this is that the answers kept for later stay as they are
and the objects only evolve. It holds of every operation, and so of a method
that is run by such operations.

`Composed` is a class, so that an operation is known to be such by its
definition. Where a definition matches on a value, its cases are split first.

## Main definitions

* `Heap.Evolves`: Objects stay, and unchangeable ones stay unchangeable.
* `Emu.Composed`: Operations by the way they are put together.
* `Env.Follows`: Parts of the program that come out the same in two environments.
* `Machine.Evolves`: The objects evolve, and the answers stay as they are.
* `Emu.Framed`, `Env.Framed`: Operations and parts of the program after which the state has evolved.
* `Machine.Alike`, `Env.Uncounted`: States up to the count of instructions, and parts of the program
  that come to the same from such states.

## Theorems

* `Emu.Composed.follows`: An operation comes out the same in two environments.
* `Emu.Composed.lasts`: What lasts in the parts of the program lasts in an operation.
* `Emu.composed_step`: An instruction is composed.
* `Emu.framed_of_composed`: An operation is framed by the way it is put together.
* `Emu.framed_execute`: A method that is ready is framed.
* `Emu.Composed.uncounted`: No operation looks at the count of instructions.
* `Emu.agree_execute`: Nor does a method that is ready, without a limit.
-/

namespace JvmFold

namespace HeapObject

/-- What an object is, apart from its contents. -/
def kind : HeapObject → HeapObject
  | .string _ => .string #[]
  | .builder _ => .builder #[]
  | .boxed w _ => .boxed w .null
  | .classObject name => .classObject name
  | .array component _ => .array component #[]
  | .instance name _ => .instance name []

@[simp]
theorem className_kind (o : HeapObject) : o.kind.className = o.className := by
  cases o <;> rfl

@[simp]
theorem isMutable_kind (o : HeapObject) : o.kind.isMutable = o.isMutable := by
  cases o <;> rfl

/-- What can become of an object: its contents change, or a constructor makes it a string. -/
def Becomes (o p : HeapObject) : Prop :=
  p.kind = o.kind ∨ p.kind = .string #[]

variable {o p q : HeapObject}

theorem Becomes.refl (o : HeapObject) : o.Becomes o :=
  .inl rfl

/-- What an object becomes, it may become in two steps. -/
theorem Becomes.trans (h : o.Becomes p) (h' : p.Becomes q) : o.Becomes q := by
  rcases h' with h' | h'
  · rcases h with h | h
    · exact .inl (h'.trans h)
    · exact .inr (h'.trans h)
  · exact .inr h'

/-- An unchangeable object stays unchangeable. -/
theorem Becomes.isMutable (h : o.Becomes p) (ho : o.isMutable = false) : p.isMutable = false := by
  rw [← isMutable_kind] at ho ⊢
  rcases h with h | h
  · rw [h, ho]
  · rw [h]
    rfl

end HeapObject

/-- The canonical objects are there. -/
structure Heap.Canonical (h : Heap) : Prop where
  interned : ∀ {units : Units} {r}, h.interned[units]? = some r → ∃ o, h.get? r = some o
  classes : ∀ {name : String} {r}, h.classes[name]? = some r → ∃ o, h.get? r = some o
  boxes : ∀ {key : Wrapper × Int} {r}, h.boxes[key]? = some r → ∃ o, h.get? r = some o

/-- Objects stay and become at most strings, and canonical ones stay canonical. -/
structure Heap.Evolves (h h' : Heap) : Prop where
  objects : ∀ {r o}, h.get? r = some o → ∃ p, h'.get? r = some p ∧ o.Becomes p
  interned : ∀ {units : Units} {r}, h.interned[units]? = some r → h'.interned[units]? = some r
  classes : ∀ {name : String} {r}, h.classes[name]? = some r → h'.classes[name]? = some r
  boxes : ∀ {key : Wrapper × Int} {r}, h.boxes[key]? = some r → h'.boxes[key]? = some r
  canonical : h.Canonical → h'.Canonical

namespace Heap

variable {h h' h'' : Heap}

theorem Evolves.refl (h : Heap) : h.Evolves h :=
  ⟨fun ho => ⟨_, ho, .refl _⟩, id, id, id, id⟩

/-- A heap evolves step by step. -/
theorem Evolves.trans (hh : h.Evolves h') (hh' : h'.Evolves h'') : h.Evolves h'' where
  objects ho := by
    rcases hh.objects ho with ⟨p, hp, hop⟩
    rcases hh'.objects hp with ⟨q, hq, hpq⟩
    exact ⟨q, hq, hop.trans hpq⟩
  interned hr := hh'.interned (hh.interned hr)
  classes hr := hh'.classes (hh.classes hr)
  boxes hr := hh'.boxes (hh.boxes hr)
  canonical hc := hh'.canonical (hh.canonical hc)

/-- A new object leaves all others. -/
theorem evolves_alloc (h : Heap) (o : HeapObject) : h.Evolves (h.alloc o).2 where
  objects hp := ⟨_, get?_alloc hp, .refl _⟩
  interned := id
  classes := id
  boxes := id
  canonical hc :=
    ⟨fun hr => (hc.interned hr).imp fun _ => get?_alloc,
      fun hr => (hc.classes hr).imp fun _ => get?_alloc,
      fun hr => (hc.boxes hr).imp fun _ => get?_alloc⟩

/-- An entry of a table with one more entry, for an object that is there. -/
theorem exists_of_insert {α : Type} [BEq α] [LawfulBEq α] [Hashable α]
    {table : Std.HashMap α HeapRef} {key other : α} {r r' : HeapRef}
    (hr : ∃ o, h.get? r = some o)
    (htable : ∀ {key : α} {r}, table[key]? = some r → ∃ o, h.get? r = some o)
    (hother : (table.insert key r)[other]? = some r') : ∃ o, h.get? r' = some o := by
  rcases getElem?_of_insert hother with hother | ⟨-, rfl⟩
  · exact htable hother
  · exact hr

/-- Interning a text only adds to the table. -/
theorem evolves_interned {units : Units} {r : HeapRef} (hnew : h.interned[units]? = none)
    (hr : ∃ o, h.get? r = some o) :
    h.Evolves { h with interned := h.interned.insert units r } where
  objects ho := ⟨_, ho, .refl _⟩
  interned := getElem?_insert_of_new hnew
  classes := id
  boxes := id
  canonical hc := ⟨exists_of_insert hr hc.interned, hc.classes, hc.boxes⟩

-- So does asking for a text that may be interned already.
theorem evolves_intern (h : Heap) (units : Units) : h.Evolves (h.intern units).2 := by
  unfold intern
  split
  · exact .refl h
  next hnew =>
    exact (evolves_alloc h _).trans (evolves_interned hnew ⟨_, get?_alloc_self _⟩)

theorem evolves_internExisting (h : Heap) (r : HeapRef) : h.Evolves (h.internExisting r).2 := by
  unfold internExisting
  split
  next hr =>
    split
    · exact .refl h
    next hnew => exact evolves_interned hnew ⟨_, hr⟩
  · exact .refl h

theorem evolves_classObject (h : Heap) (name : String) : h.Evolves (h.classObject name).2 := by
  unfold classObject
  split
  · exact .refl h
  next hnew =>
    refine (evolves_alloc h (.classObject name)).trans ⟨fun ho => ⟨_, ho, .refl _⟩, id,
      getElem?_insert_of_new hnew, id, fun hc => ⟨hc.interned, ?_, hc.boxes⟩⟩
    exact exists_of_insert ⟨_, get?_alloc_self _⟩ hc.classes

theorem evolves_boxed (h : Heap) (w : Wrapper) (v : Value) : h.Evolves (h.boxed w v).2 := by
  unfold boxed
  split
  · exact evolves_alloc h _
  · split
    · exact .refl h
    next hnew =>
      refine (evolves_alloc h (.boxed w v)).trans ⟨fun ho => ⟨_, ho, .refl _⟩, id, id,
        getElem?_insert_of_new hnew, fun hc => ⟨hc.interned, hc.classes, ?_⟩⟩
      exact exists_of_insert ⟨_, get?_alloc_self _⟩ hc.boxes

/-- An object that changes within its kind lets the heap evolve. -/
theorem evolves_modify (h : Heap) (r : HeapRef) {f : HeapObject → HeapObject}
    (hf : ∀ o : HeapObject, o.Becomes (f o)) : h.Evolves (h.modify r f) := by
  have hobjects {r' : HeapRef} {o : HeapObject} (ho : h.get? r' = some o) :
      ∃ p, (h.modify r f).get? r' = some p ∧ o.Becomes p := by
    -- Only the object itself is changed.
    by_cases hr : r.index = r'.index
    · refine ⟨f o, ?_, hf o⟩
      rw [get?, modify, Array.getElem?_modify, if_pos hr]
      exact congrArg (Option.map f) ho
    · refine ⟨o, ?_, .refl o⟩
      rw [get?, modify, Array.getElem?_modify, if_neg hr]
      exact ho
  have hstays {r' : HeapRef} (ho : ∃ o, h.get? r' = some o) :
      ∃ o, (h.modify r f).get? r' = some o := by
    rcases ho with ⟨o, ho⟩
    exact (hobjects ho).imp fun _ hp => hp.1
  exact ⟨hobjects, id, id, id, fun hc => ⟨fun hr => hstays (hc.interned hr),
    fun hr => hstays (hc.classes hr), fun hr => hstays (hc.boxes hr)⟩⟩

end Heap

/-- The state that an outcome leaves. -/
def Emu.Outcome.state {α : Type} : Emu.Outcome α → Machine
  | .ok _ s => s
  | .error _ s => s

/-- The member whose static field an instruction writes. -/
def Instruction.staticWrite? : Instruction → Option Member
  | .field .putstatic m => some m
  | _ => none

/-- Only a putstatic writes a static field. -/
theorem Instruction.eq_of_staticWrite? {i : Instruction} {f : Member}
    (h : i.staticWrite? = some f) : i = .field .putstatic f := by
  unfold Instruction.staticWrite? at h
  split at h
  · cases h
    rfl
  · cases h

namespace Emu

/-- Operations by the way they are put together. Only those that may write change static fields and
    note how far classes are. -/
class inductive Composed (writes : Bool) : {α : Type} → Emu α → Prop where
  | pure {α : Type} (a : α) : Composed writes (pure a : Emu α)
  | throw {α : Type} (e : Fault) : Composed writes (throw e : Emu α)
  | bind {α β : Type} {x : Emu α} {f : α → Emu β} (hx : Composed writes x)
      (hf : ∀ a, Composed writes (f a)) : Composed writes (x >>= f)
  /-- Only an exception of the program is handled; any other fault goes through, with at most a
      note of how far a class is. -/
  | tryCatch {α : Type} {x : Emu α} {handle : Fault → Emu α} (hx : Composed writes x)
      (hhandle : ∀ e, Composed writes (handle e))
      (hpasses : ∀ e, (∀ r, e ≠ .thrown r) → ∀ env (s : Machine),
        ∃ initialized, handle e env s = .error e { s with initialized }) :
      Composed writes (tryCatch x handle)
  /-- What is read of the state is not how many instructions were executed. -/
  | get {α : Type} {f : Machine → Emu α} (hf : ∀ s, Composed writes (f s))
      (huncounted : ∀ (s : Machine) (n : Nat), f { s with executed := n } = f s) :
      Composed writes (get >>= f)
  | read {α : Type} {f : Env → Emu α} (hf : ∀ e, Composed writes (f e))
      (halike : ∀ e e', e.Alike e' → f e = f e') : Composed writes (read >>= f)
  | run (t : Task) : Composed writes (run t)
  | heap {α : Type} {f : Heap → α × Heap} (hf : ∀ h : Heap, h.Evolves (f h).2) :
      Composed writes (fun _ s => .ok (f s.heap).1 { s with heap := (f s.heap).2 })
  | setStatic (m : Member) (v : Value) (hwrites : writes = true) : Composed writes (setStatic m v)
  | setInitState (name : String) (state : InitState) (hwrites : writes = true) :
      Composed writes (setInitState name state)

/-- A property of states that stays when an operation does what it may. -/
structure Lasting (writes : Bool) (good : Machine → Prop) : Prop where
  heap {s : Machine} {h : Heap} : good s → s.heap.Evolves h → good { s with heap := h }
  statics {s : Machine} (m : Member) (v : Value) : writes = true → good s →
    good { s with statics := s.statics.insert m v }
  initialized {s : Machine} (name : String) (state : InitState) : writes = true → good s →
    good { s with initialized := s.initialized.insert name state }

/-- The one outcome is the other, with a good state, unless the one ran out of steps and is excused
    for that. -/
def Outcome.Follows {α : Type} (excused : Prop) (good : Machine → Prop) (r r' : Outcome α) : Prop :=
  (r' = r ∧ good (Outcome.state r)) ∨ (excused ∧ ∃ t, r = .error .outOfSteps t)

theorem follows_of_eq {α : Type} {good : Machine → Prop} {r : Outcome α}
    (h : good (Outcome.state r)) : Outcome.Follows False good r r :=
  .inl ⟨rfl, h⟩

theorem Outcome.Follows.eq {α : Type} {good : Machine → Prop} {r r' : Outcome α}
    (h : Outcome.Follows False good r r') : r' = r ∧ good (Outcome.state r) :=
  h.resolve_right fun hfalse => hfalse.1

end Emu

/-- Parts of the program that come out the same in two environments, from good states. -/
structure Env.Follows (excused : Prop) (good : Machine → Prop) (e e' : Env) : Prop where
  alike : e.Alike e'
  limits : e.limits = e'.limits
  dispatch : ∀ depth task s, good s →
    Emu.Outcome.Follows excused good (e.dispatch depth task s) (e'.dispatch depth task s)

namespace Emu

section Rules

variable {writes : Bool} {α β : Type}

/-- An operation comes out the same in two environments if the parts of the program do. -/
theorem Composed.follows {x : Emu α} (hx : Composed writes x) {excused : Prop}
    {good : Machine → Prop} (hgood : Lasting writes good) {env env' : Env}
    (henv : env.Follows excused good env') (s : Machine) (hs : good s) :
    Outcome.Follows excused good (x env s) (x env' s) := by
  induction hx generalizing s with
  | pure a => exact .inl ⟨rfl, hs⟩
  | throw e => exact .inl ⟨rfl, hs⟩
  | @bind _ _ x f hx hf ihx ihf =>
      rw [bind_apply, bind_apply]
      rcases ihx s hs with ⟨heq, hgood⟩ | ⟨hexcused, t, ht⟩
      · rw [heq]
        revert hgood
        generalize x env s = r
        cases r with
        | ok a t => exact ihf a t
        | error e t => exact fun ht => .inl ⟨rfl, ht⟩
      · rw [ht]
        exact .inr ⟨hexcused, t, rfl⟩
  | @tryCatch _ x handle hx hhandle hpasses ihx ihhandle =>
      rw [tryCatch_apply, tryCatch_apply]
      rcases ihx s hs with ⟨heq, hgood⟩ | ⟨hexcused, t, ht⟩
      · rw [heq]
        revert hgood
        generalize x env s = r
        cases r with
        | ok a t => exact fun ht => .inl ⟨rfl, ht⟩
        | error e t => exact ihhandle e t
      · rw [ht]
        -- Running out of steps is no exception of the program, so it passes the handler.
        rcases hpasses .outOfSteps nofun env t with ⟨initialized, hpass⟩
        exact .inr ⟨hexcused, _, hpass⟩
  | get hf huncounted ih => exact ih s s hs
  | @read _ f hf halike ih =>
      change Outcome.Follows excused good (f env env s) (f env' env' s)
      rw [← halike env env' henv.alike]
      exact ih env s hs
  | run t =>
      change Outcome.Follows excused good (env.dispatch env.depth t s)
        (env'.dispatch env'.depth t s)
      rw [← henv.alike.depth]
      exact henv.dispatch env.depth t s hs
  | heap hf => exact .inl ⟨rfl, hgood.heap hs (hf s.heap)⟩
  | setStatic m v hwrites => exact .inl ⟨rfl, hgood.statics m v hwrites hs⟩
  | setInitState name state hwrites => exact .inl ⟨rfl, hgood.initialized name state hwrites hs⟩

/-- What lasts in the parts of the program lasts in an operation. -/
theorem Composed.lasts {x : Emu α} (hx : Composed writes x) {good : Machine → Prop}
    (hgood : Lasting writes good) {env : Env}
    (hparts : ∀ depth task s, good s → good (Outcome.state (env.dispatch depth task s)))
    (s : Machine) (hs : good s) : good (Outcome.state (x env s)) := by
  have hsame : env.Follows False good env :=
    ⟨env.alike_refl, rfl, fun depth task t ht => .inl ⟨rfl, hparts depth task t ht⟩⟩
  exact (hx.follows hgood hsame s hs).eq.2

instance (a : α) : Composed writes (pure a : Emu α) :=
  .pure a

instance (e : Fault) : Composed writes (throw e : Emu α) :=
  .throw e

instance (x : Emu α) (f : α → Emu β) [hx : Composed writes x] [hf : ∀ a, Composed writes (f a)] :
    Composed writes (x >>= f) :=
  hx.bind hf

instance (x : Emu α) (f : α → β) [hx : Composed writes x] : Composed writes (f <$> x) :=
  inferInstanceAs (Composed writes (x >>= fun a => pure (f a)))

instance (c : Prop) [Decidable c] (x y : Emu α) [hx : Composed writes x] [hy : Composed writes y] :
    Composed writes (if c then x else y) := by
  split
  · exact hx
  · exact hy

/-- What depends on the classes only as far as the machine sees them may ask for them. -/
theorem composed_classes {f : Universe → Emu α} (hf : ∀ u, Composed writes (f u))
    (halike : ∀ u v : Universe, u.Alike v → f u = f v) : Composed writes (classes >>= f) :=
  Composed.read (f := fun e => f e.program.classes) (fun e => hf e.program.classes)
    fun _ _ h => halike _ _ h.classes

/-- A list of parts is composed if each of them is. -/
theorem composed_forM {f : α → Emu PUnit} {l : List α} (h : ∀ a, Composed writes (f a)) :
    Composed writes (l.forM f) := by
  induction l with
  | nil => exact inferInstanceAs (Composed writes (pure PUnit.unit))
  | cons a rest ih => exact (h a).bind fun _ => ih

-- So is one that gathers values.
theorem composed_mapM {f : α → Emu β} {l : List α} (h : ∀ a, Composed writes (f a)) :
    Composed writes (l.mapM f) := by
  induction l with
  | nil => exact inferInstanceAs (Composed writes (pure []))
  | cons a rest ih =>
      rw [List.mapM_cons]
      exact (h a).bind fun b => ih.bind fun bs => inferInstance

-- And one that folds them up.
theorem composed_foldlM {f : β → α → Emu β} {l : List α} (h : ∀ b a, Composed writes (f b a))
    (b : β) :
    Composed writes (l.foldlM f b) := by
  induction l generalizing b with
  | nil => exact inferInstanceAs (Composed writes (pure b))
  | cons a rest ih =>
      rw [List.foldlM_cons]
      exact (h b a).bind fun c => ih c

instance (e : Except Fault α) : Composed writes (lift e) := by
  unfold lift
  split <;> infer_instance

end Rules

section Operations

variable {writes : Bool}

/-- An instruction is counted, and that may be one too many. -/
theorem tick_eq (env : Env) (s : Machine) :
    tick env s =
      match env.limits.instructions with
      | none => .ok () s.ticked
      | some limit =>
        if limit < s.ticked.executed then .error (.instructionLimit limit) s.ticked
        else .ok () s.ticked := by
  rw [tick_apply]
  cases env.limits.instructions with
  | none => rfl
  | some limit =>
      let check : Emu Unit :=
        if limit < s.ticked.executed then throw (.instructionLimit limit) else pure ()
      change check env s.ticked = if limit < s.ticked.executed then _ else _
      by_cases h : limit < s.ticked.executed
      · exact (congrFun (congrFun (if_pos h) env) s.ticked).trans (if_pos h).symm
      · exact (congrFun (congrFun (if_neg h) env) s.ticked).trans (if_neg h).symm

theorem tick_congr {env env' : Env} (h : env.limits = env'.limits) (s : Machine) :
    tick env s = tick env' s := by
  rw [tick_eq, tick_eq, h]

/-- An instruction is counted whether or not it goes beyond the limit. -/
theorem tick_cases (env : Env) (s : Machine) :
    tick env s = .ok () s.ticked ∨ ∃ fault, tick env s = .error fault s.ticked := by
  rw [tick_eq]
  split
  · exact .inl rfl
  · split
    · exact .inr ⟨_, rfl⟩
    · exact .inl rfl

theorem lift_congr {α : Type} (x : Except Fault α) (env env' : Env) (s : Machine) :
    lift x env s = lift x env' s := by
  cases x <;> rfl

theorem state_tick (env : Env) (s : Machine) : Outcome.state (tick env s) = s.ticked := by
  rcases tick_cases env s with h | ⟨fault, h⟩
  · rw [h]
    rfl
  · rw [h]
    rfl

instance (t : Task) : Composed writes (run t) :=
  .run t

instance (t : Target) (arguments : List Value) : Composed writes (call t arguments) :=
  inferInstanceAs (Composed writes (run _))

instance (name : String) : Composed writes (initClass name) := by
  unfold initClass
  infer_instance

instance : Composed writes heap :=
  Composed.get (fun _ => inferInstance) fun _ _ => rfl

instance (r : HeapRef) : Composed writes (object r) :=
  Composed.get (fun _ => inferInstance) fun _ _ => rfl

/-- A part that only lets the heap evolve is composed. -/
theorem composed_onHeap {f : Heap → HeapRef × Heap} (hf : ∀ h : Heap, h.Evolves (f h).2) :
    Composed writes (onHeap f) :=
  .heap hf

instance (o : HeapObject) : Composed writes (alloc o) :=
  composed_onHeap fun h => h.evolves_alloc o

instance (units : Units) : Composed writes (newString units) :=
  (composed_onHeap fun h => h.evolves_alloc _).bind fun _ => inferInstance

instance (text : String) : Composed writes (newText text) :=
  inferInstanceAs (Composed writes (newString _))

instance (text : String) : Composed writes (intern text) :=
  (composed_onHeap fun h => h.evolves_intern _).bind fun _ => inferInstance

instance (name : String) : Composed writes (classObject name) :=
  (composed_onHeap fun h => h.evolves_classObject name).bind fun _ => inferInstance

instance (w : Wrapper) (v : Value) : Composed writes (boxed w v) :=
  (composed_onHeap fun h => h.evolves_boxed w v).bind fun _ => inferInstance

theorem composed_modifyObject (r : HeapRef) {f : HeapObject → HeapObject}
    (hf : ∀ o : HeapObject, o.Becomes (f o)) :
    Composed writes (modifyObject r f) :=
  Composed.heap (f := fun h => ((), h.modify r f)) fun h => h.evolves_modify r hf

instance (name : String) (message : Option String) :
    Composed writes (newThrowable name message) := by
  unfold newThrowable
  split <;> infer_instance

instance {α : Type} (name : String) (message : Option String) :
    Composed writes (raise name message : Emu α) := by
  unfold raise
  infer_instance

instance {α : Type} (message : Option String) : Composed writes (raiseNull message : Emu α) :=
  inferInstanceAs (Composed writes (raise _ _))

instance {α : Type} : Composed writes (raiseZeroDivision : Emu α) :=
  inferInstanceAs (Composed writes (raise _ _))

instance (v : Value) : Composed writes (runtimeClass? v) := by
  unfold runtimeClass?
  split <;> infer_instance

instance (v : Value) (name : String) : Composed writes (isInstance v name) := by
  refine Composed.bind inferInstance fun actual => ?_
  split
  · exact composed_classes (fun _ => inferInstance) fun _ _ h => by rw [h.isSubtype]
  · infer_instance

instance (r : HeapRef) (m : Member) (v : Value) : Composed writes (setField r m v) := by
  refine composed_modifyObject r fun o => ?_
  cases o <;> exact .inl rfl

instance (r : HeapRef) (m : Member) : Composed writes (field? r m) :=
  Composed.get (fun _ => inferInstance) fun _ _ => rfl

theorem raise_congr {α : Type} (name : String) (message : Option String) (env env' : Env)
    (s : Machine) : (raise name message : Emu α) env s = raise name message env' s := by
  cases message <;> rfl

instance (f : BuiltinField) : Composed writes f.read := by
  cases f with
  | typeOf w => exact inferInstanceAs (Composed writes (classObject _))
  | truth b => exact inferInstanceAs (Composed writes (boxed _ _))

instance (k : Constant) : Composed writes (constant k) := by
  unfold constant
  split <;> infer_instance

instance (name : String) (state : InitState) : Composed true (setInitState name state) :=
  .setInitState name state rfl

instance (m : Member) (v : Value) : Composed true (setStatic m v) :=
  .setStatic m v rfl

instance (c : ClassFile) : Composed true (startStatics c) := by
  refine composed_forM fun f => ?_
  split <;> infer_instance

instance {α : Type} (r : HeapRef) : Composed writes (raiseFromInitializer r : Emu α) := by
  unfold raiseFromInitializer
  infer_instance

theorem raiseFromInitializer_congr {α : Type} {env env' : Env} (h : env.program = env'.program)
    (r : HeapRef) (s : Machine) :
    (raiseFromInitializer r : Emu α) env s = raiseFromInitializer r env' s := by
  have hinstance : isInstance (.ref r) "java/lang/Error" env s
      = isInstance (.ref r) "java/lang/Error" env' s := by
    change (.ok (env.program.classes.isSubtype _ _) s : Outcome Bool) = _
    rw [h]
    rfl
  have hchecks : ∃ b, isInstance (.ref r) "java/lang/Error" env' s = .ok b s := ⟨_, rfl⟩
  rcases hchecks with ⟨b, hb⟩
  unfold raiseFromInitializer
  simp only [bind_apply, hinstance, hb]
  cases b <;> rfl

instance (c : ClassFile) (name : String) : Composed true (runInitializer c name) := by
  unfold runInitializer
  split
  · refine Composed.tryCatch inferInstance (fun fault => Composed.bind inferInstance fun _ => ?_)
      fun fault hfault _ s => ⟨s.initialized.insert name .failed, ?_⟩
    · split <;> infer_instance
    · cases fault with
      | thrown r => exact absurd rfl (hfault r)
      | _ => rfl
  · infer_instance

instance (c : ClassFile) (name : String) : Composed true (startClass c name) := by
  have hsuper (parent : String) : Composed true (tryCatch (initClass parent) fun fault => do
      setInitState name .failed
      throw fault) :=
    Composed.tryCatch inferInstance (fun _ => inferInstance)
      fun _ _ _ s => ⟨s.initialized.insert name .failed, rfl⟩
  unfold startClass
  refine Composed.bind inferInstance fun _ => ?_
  dsimp only
  split <;> infer_instance

instance (name : String) : Composed true (useClass name) := by
  refine Composed.get (fun s => ?_) fun _ _ => rfl
  split
  · infer_instance
  · infer_instance
  · infer_instance
  · refine composed_classes (fun u => ?_) fun u v h => h.useClass name
    split <;> infer_instance

instance (f : Member) : Composed writes (getStatic f) := by
  refine composed_classes (fun u => ?_) fun u v h => by rw [h.fieldOwner?]
  split
  · refine Composed.bind inferInstance fun _ => ?_
    dsimp only
    refine Composed.get (fun s => ?_) fun _ _ => rfl
    split <;> infer_instance
  · split
    · infer_instance
    · exact composed_classes (fun _ => inferInstance) fun _ _ h => by rw [h.contains]

instance (f : Member) (v : Value) : Composed true (putStatic f v) := by
  refine composed_classes (fun u => ?_) fun _ _ h => by rw [h.fieldOwner?]
  split <;> infer_instance

instance (f : Member) : Composed writes (declaredField f) := by
  refine composed_classes (fun u => ?_) fun _ _ h => by rw [h.fieldOwner?]
  split <;> infer_instance

instance (v : Value) (f : Member) : Composed writes (getField v f) := by
  refine Composed.bind inferInstance fun r => ?_
  split
  · infer_instance
  · refine Composed.bind inferInstance fun key => Composed.bind inferInstance fun o => ?_
    split <;> infer_instance

instance (object : Value) (f : Member) (v : Value) : Composed writes (putField object f v) := by
  refine Composed.bind inferInstance fun r => ?_
  split
  · infer_instance
  · refine Composed.bind inferInstance fun key => Composed.bind inferInstance fun o => ?_
    split <;> infer_instance

instance (name : String) : Composed writes (instantiate name) := by
  refine Composed.bind inferInstance fun _ => ?_
  split
  · infer_instance
  · split
    · infer_instance
    · split
      · infer_instance
      · exact composed_classes (fun _ => inferInstance) fun u v h => by
          rw [h.contains, h.startFields]

instance {α : Type} (length : Int32) : Composed writes (raiseNegative length : Emu α) :=
  inferInstanceAs (Composed writes (raise _ _))

instance (component : FieldType) (length : Int32) :
    Composed writes (newArray component length) := by
  unfold newArray
  infer_instance

/-- Making a value several times is composed of the single ones. -/
theorem composed_several (n : Nat) {make : Emu Value} (hmake : Composed writes make) :
    Composed writes (several n make) := by
  have hgo (n : Nat) (acc : List Value) : Composed writes (several.go make n acc) := by
    induction n generalizing acc with
    | zero => exact inferInstanceAs (Composed writes (pure _))
    | succ n ih => exact hmake.bind fun v => ih (v :: acc)
  exact hgo n []

/-- Arrays of arrays are made level by level. -/
theorem composed_newArrays (type : FieldType) (lengths : List Int32) :
    Composed writes (newArrays type lengths) := by
  -- Arrays inside arrays are made with the rest of the lengths.
  induction lengths generalizing type with
  | nil =>
      unfold newArrays
      split <;> infer_instance
  | cons length rest ih =>
      unfold newArrays
      split
      · dsimp only
        split
        · infer_instance
        · infer_instance
        next component _ _ _ _ heq =>
          cases heq
          have hall (n : Nat) : Composed writes (several n (newArrays component rest)) :=
            composed_several n (ih component)
          infer_instance
      · infer_instance

instance (type : FieldType) (lengths : List Int32) : Composed writes (newArrays type lengths) :=
  composed_newArrays type lengths

instance (v : Value) : Composed writes (arrayRef v) := by
  refine Composed.bind inferInstance fun r => ?_
  split <;> infer_instance

instance {α : Type} (index : Int32) (length : Nat) :
    Composed writes (raiseArrayIndex index length : Emu α) :=
  inferInstanceAs (Composed writes (raise _ _))

instance (s : Stack) : Composed writes (arrayLoad s) := by
  refine Composed.bind inferInstance fun index => Composed.bind inferInstance fun array => ?_
  refine Composed.bind inferInstance fun r => Composed.bind inferInstance fun o => ?_
  split
  · split
    · infer_instance
    · split <;> infer_instance
  · infer_instance

instance (component : FieldType) (v : Value) : Composed writes (checkStore component v) := by
  unfold checkStore
  split <;> infer_instance

instance (r : HeapRef) : Composed writes (arrayShape r) := by
  refine Composed.bind inferInstance fun o => ?_
  split <;> infer_instance

instance (s : Stack) : Composed writes (arrayStore s) := by
  refine Composed.bind inferInstance fun v => Composed.bind inferInstance fun index => ?_
  refine Composed.bind inferInstance fun array => Composed.bind inferInstance fun r => ?_
  refine Composed.bind inferInstance fun shape => ?_
  dsimp only
  have hput (f : HeapObject → HeapObject) (hf : ∀ o : HeapObject, o.Becomes (f o)) :
      Composed writes
        (checkStore shape.1 v.1 >>= fun _ => modifyObject r f >>= fun _ => pure array.2) :=
    Composed.bind inferInstance fun _ => (composed_modifyObject r hf).bind fun _ => inferInstance
  split
  · exact Composed.bind inferInstance fun _ => hput _ fun o => by cases o <;> exact .inl rfl
  · exact hput _ fun o => by cases o <;> exact .inl rfl

instance (s : Stack) : Composed writes (arrayLength s) := by
  refine Composed.bind inferInstance fun array => Composed.bind inferInstance fun r => ?_
  refine Composed.bind inferInstance fun o => ?_
  split <;> infer_instance

instance (m : Member) : Composed writes (directTarget m) := by
  exact Composed.read (fun _ => inferInstance) fun _ _ h => by rw [h.directTarget]

instance (name : String) (m : Member) : Composed writes (virtualTarget name m) := by
  exact Composed.read (fun _ => inferInstance) fun _ _ h => by rw [h.virtualTarget]

instance (kind : InvokeKind) (m : Member) (receiver : Option Value) :
    Composed writes (target kind m receiver) := by
  unfold target
  split
  · infer_instance
  · infer_instance
  all_goals
    split
    · infer_instance
    · refine Composed.bind inferInstance fun r => ?_
      split <;> infer_instance

instance (kind : InvokeKind) (m : Member) (arguments : List Value) :
    Composed writes (invoke kind m arguments) := by
  unfold invoke
  infer_instance

instance (constructor : Member) (arguments : List Value) :
    Composed writes (construct constructor arguments) := by
  unfold construct
  infer_instance

instance (a b : Value) : Composed writes (areEqual a b) := by
  unfold areEqual
  split
  · infer_instance
  · split
    · infer_instance
    · refine Composed.bind inferInstance fun answer => ?_
      split <;> infer_instance

instance (v : Value) : Composed writes (stringUnits v) := by
  unfold stringUnits
  split
  · infer_instance
  · refine Composed.bind inferInstance fun o => ?_
    split <;> infer_instance
  · infer_instance

instance (v : Value) : Composed writes (objectText v) := by
  refine Composed.bind inferInstance fun answer => ?_
  split <;> infer_instance

instance (v : Value) (declared : FieldType) : Composed writes (valueText v declared) := by
  unfold valueText
  split
  · infer_instance
  · refine Composed.bind inferInstance fun o => ?_
    split <;> infer_instance
  · infer_instance

instance (v : Value) : Composed writes (anyText v) :=
  inferInstanceAs (Composed writes (valueText _ _))

instance (v : Value) : Composed writes (sequenceText v) := by
  unfold sequenceText
  split
  · refine Composed.bind inferInstance fun o => ?_
    split <;> infer_instance
  · infer_instance

/-- Joining texts is composed of turning each value into one. -/
theorem composed_joinAll (text : Units) (l : List (Value × FieldType)) :
    Composed writes (ConcatRecipe.joinAll text l) := by
  induction l generalizing text with
  | nil => exact inferInstanceAs (Composed writes (pure text))
  | cons a rest ih => exact Composed.bind inferInstance fun more => ih (text ++ more)

-- So is following a recipe.
theorem composed_follow (text : Units) (arguments : List (Value × FieldType))
    (constants : List Units) (l : List UInt16) :
    Composed writes (ConcatRecipe.follow text arguments constants l) := by
  -- The recipe is followed unit by unit, with what is left of the arguments and constants.
  induction l generalizing text arguments constants with
  | nil => exact inferInstanceAs (Composed writes (pure text))
  | cons u rest ih =>
      unfold ConcatRecipe.follow
      split
      · split
        · infer_instance
        · exact Composed.bind inferInstance fun more => ih _ _ _
      · split
        · split
          · infer_instance
          · exact ih _ _ _
        · exact ih _ _ _

instance (r : ConcatRecipe) (parameters : List FieldType) (values : List Value) :
    Composed writes (r.apply parameters values) := by
  unfold ConcatRecipe.apply
  dsimp only
  split
  · exact (composed_joinAll _ _).bind fun text => inferInstance
  · exact (composed_follow _ _ _ _).bind fun text => inferInstance

instance (op : Int32 → Int32 → Int32) (s : Stack) : Composed writes (divideInts op s) := by
  unfold divideInts
  infer_instance

instance (op : Int64 → Int64 → Int64) (s : Stack) : Composed writes (divideLongs op s) := by
  unfold divideLongs
  infer_instance

instance {α : Type} (s : Stack) : Composed writes (throwTop s : Emu α) := by
  refine Composed.bind inferInstance fun top => ?_
  dsimp only
  split <;> infer_instance

instance (s : Stack) : Composed writes (monitor s) := by
  unfold monitor
  infer_instance

instance (op : Opcode) (s : Stack) : Composed writes (simpleEffect op s) := by
  unfold simpleEffect
  split <;> infer_instance

instance (op : Opcode) (s : Stack) : Composed writes (simple op s) := by
  unfold simple
  split
  · infer_instance
  · split <;> infer_instance

instance (op : Opcode) (index : UInt16) (a : Activation) :
    Composed writes (localAccess op index a) := by
  unfold localAccess
  split <;> infer_instance

/-- Only the writing of a static field writes one. -/
theorem composed_fieldAccess {op : Opcode} (h : writes = false → op ≠ .putstatic) (m : Member)
    (s : Stack) : Composed writes (fieldAccess op m s) := by
  unfold fieldAccess
  split
  · infer_instance
  · cases writes with
    | false => exact absurd rfl (h rfl)
    | true => infer_instance
  · infer_instance
  · infer_instance

instance (op : Opcode) (m : Member) (s : Stack) : Composed writes (invokeFrom op m s) := by
  unfold invokeFrom
  split
  · infer_instance
  · refine Composed.bind inferInstance fun type => Composed.bind inferInstance fun arguments => ?_
    refine Composed.bind inferInstance fun answer => ?_
    split <;> infer_instance

instance (c : ClassFile) (bootstrap : UInt16) (name descriptor : String) (s : Stack) :
    Composed writes (concatFrom c bootstrap name descriptor s) := by
  refine Composed.bind inferInstance fun recipe => ?_
  split <;> infer_instance

instance (op : Opcode) (name : String) (s : Stack) : Composed writes (typed op name s) := by
  unfold typed
  split
  · infer_instance
  · infer_instance
  · refine Composed.bind inferInstance fun top => ?_
    dsimp only
    split <;> infer_instance
  · infer_instance
  · infer_instance

instance (kind : UInt8) (s : Stack) : Composed writes (newPrimitiveArray kind s) := by
  refine Composed.bind inferInstance fun length => ?_
  dsimp only
  split <;> infer_instance

instance (name : String) (dimensions : UInt8) (s : Stack) :
    Composed writes (newNestedArray name dimensions s) := by
  unfold newNestedArray
  infer_instance

/-- An instruction is composed, and only one of them may write. -/
theorem composed_step (c : ClassFile) {i : Instruction}
    (h : writes = false → i.staticWrite? = none) (a : Activation) :
    Composed writes (step c i a) := by
  -- Only one instruction writes a static field.
  cases i with
  | field op m =>
      have hop : writes = false → op ≠ .putstatic := by
        rintro hwrites rfl
        exact absurd (h hwrites) (Option.some_ne_none m)
      exact (composed_fieldAccess hop m a.stack).bind fun _ => inferInstance
  | jump op label =>
      unfold step
      dsimp only
      split <;> infer_instance
  | _ =>
      unfold step
      infer_instance

instance (p : Prepared) (position : Nat) (exception : HeapRef) :
    Composed writes (handler? p position exception) := by
  refine Composed.bind inferInstance fun o => composed_classes (fun _ => inferInstance) ?_
  exact fun u v h => by rw [funext fun name => funext fun sup => h.isSubtype name sup]

end Operations

end Emu

/-- The answers stay as they are, and so do the objects, as far as unchangeable ones stay
    unchangeable. -/
structure Machine.Evolves (s t : Machine) : Prop where
  answers_eq : t.answers = s.answers
  heap : s.heap.Evolves t.heap

namespace Machine

variable {s t u : Machine}

theorem Evolves.refl (s : Machine) : s.Evolves s :=
  ⟨rfl, .refl s.heap⟩

theorem Evolves.trans (h : s.Evolves t) (h' : t.Evolves u) : s.Evolves u :=
  ⟨h'.answers_eq.trans h.answers_eq, h.heap.trans h'.heap⟩

end Machine

/-- Parts of the program after which the state has evolved. -/
def Env.Framed (env : Env) : Prop :=
  ∀ depth task (s : Machine), s.Evolves (Emu.Outcome.state (env.dispatch depth task s))

namespace Emu

/-- An operation after which the state has evolved. -/
class Framed {α : Type} (x : Emu α) : Prop where
  evolves : ∀ {env : Env}, env.Framed → ∀ s : Machine, s.Evolves (Outcome.state (x env s))

/-- Evolving is kept by all that a machine does. -/
theorem lasting_evolves (s : Machine) : Lasting true s.Evolves where
  heap h hheap := h.trans ⟨rfl, hheap⟩
  statics _ _ _ h := h.trans ⟨rfl, .refl _⟩
  initialized _ _ _ h := h.trans ⟨rfl, .refl _⟩

/-- An operation is framed by the way it is put together. -/
instance framed_of_composed {α : Type} (x : Emu α) [hx : Composed true x] : Framed x :=
  ⟨fun henv s => hx.lasts (lasting_evolves s)
    (fun depth task t ht => ht.trans (henv depth task t)) s (.refl s)⟩

theorem evolves_tick (env : Env) (s : Machine) : s.Evolves (Outcome.state (tick env s)) := by
  rw [state_tick]
  exact ⟨rfl, .refl s.heap⟩

theorem state_resume (p : Prepared) (a : Activation) (position : Nat) (env : Env)
    (r : Outcome Flow) : Outcome.state (p.resume a position env r) = Outcome.state r := by
  unfold Prepared.resume
  split
  next flow s => cases flow.progress p a position <;> rfl
  · split <;> rfl
  · rfl

/-- An instruction in its place is framed, whatever becomes of an exception. -/
instance framed_advance (p : Prepared) (a : Activation) (position : Nat) :
    Framed (advance p a position) := by
  refine ⟨fun {env} henv s => ?_⟩
  -- There is no instruction, a mark, or an instruction that is counted and run.
  cases h : p.code[position]? with
  | none =>
      rw [advance_end h]
      exact .refl s
  | some i =>
      by_cases hi : i.isPseudo = true
      · rw [advance_mark h hi]
        exact .refl s
      · have hcomposed : Composed true (step p.owner i a) :=
          composed_step p.owner (absurd · (by decide)) a
        have hcount := evolves_tick env s
        rw [advance_real h (Bool.eq_false_iff.mpr hi)]
        cases htick : tick env s with
        | error e t => rwa [htick] at hcount
        | ok _ t =>
            rw [htick] at hcount
            dsimp only
            rw [state_resume]
            exact hcount.trans ((framed_of_composed (step p.owner i a)).evolves henv t)

/-- A method that is ready is framed, as far as it is run. -/
instance framed_execute (p : Prepared) (steps : Nat) (a : Activation) (position : Nat) :
    Framed (execute p steps a position) := by
  induction steps generalizing a position with
  | zero => exact inferInstanceAs (Framed (throw Fault.outOfSteps))
  | succ steps ih =>
      refine ⟨fun {env} henv s => ?_⟩
      -- The first step keeps the frame, and the others do by the induction.
      have hfirst := (framed_advance p a position).evolves henv s
      rw [execute_succ]
      cases hadvance : advance p a position env s with
      | error e t => rwa [hadvance] at hfirst
      | ok progress t =>
          rw [hadvance] at hfirst
          cases progress with
          | finished v => exact hfirst
          | running b next => exact hfirst.trans ((ih b next).evolves henv t)

end Emu

namespace Machine

/-- The states are the same but for the count of instructions. -/
def Alike (s t : Machine) : Prop :=
  ∃ n, t = { s with executed := n }

variable {s t u : Machine}

theorem Alike.refl (s : Machine) : s.Alike s :=
  ⟨s.executed, rfl⟩

theorem Alike.trans (h : s.Alike t) (h' : t.Alike u) : s.Alike u := by
  rcases h with ⟨n, rfl⟩
  rcases h' with ⟨m, rfl⟩
  exact ⟨m, rfl⟩

/-- Machines that are alike have the same heap. -/
theorem Alike.heap_eq (h : s.Alike t) : s.heap = t.heap := by
  rcases h with ⟨n, rfl⟩
  rfl

end Machine

/-- Parts of the program that come to the same whatever the count of instructions is. -/
def Env.Uncounted (env : Env) : Prop :=
  ∀ depth task (s t : Machine), s.Alike t →
    Agree Machine.Alike (env.dispatch depth task s) (env.dispatch depth task t)

namespace Emu

variable {env : Env} {s t : Machine}

/-- No operation looks at the count of instructions, unless a part of the program does. -/
theorem Composed.uncounted {writes : Bool} {α : Type} {x : Emu α} (hx : Composed writes x)
    (henv : env.Uncounted) (hst : s.Alike t) : Agree Machine.Alike (x env s) (x env t) := by
  induction hx generalizing s t with
  | pure a => exact .ok hst
  | throw e => exact .error hst
  | @bind _ _ x f hx hf ihx ihf =>
      have hfirst := ihx hst
      rw [bind_apply, bind_apply]
      generalize x env s = r, x env t = r' at hfirst
      cases hfirst with
      | ok hst => exact ihf _ hst
      | error hst => exact .error hst
  | @tryCatch _ x handle hx hhandle hpasses ihx ihhandle =>
      have hfirst := ihx hst
      rw [tryCatch_apply, tryCatch_apply]
      generalize x env s = r, x env t = r' at hfirst
      cases hfirst with
      | ok hst => exact .ok hst
      | error hst => exact ihhandle _ hst
  | @get _ f hf huncounted ih =>
      rcases hst with ⟨n, rfl⟩
      -- What is done next does not depend on the count, so it is the same from both states.
      change Agree Machine.Alike (f s env s)
        (f { s with executed := n } env { s with executed := n })
      rw [huncounted s n]
      exact ih s ⟨n, rfl⟩
  | read hf halike ih => exact ih env hst
  | run task => exact henv env.depth task s t hst
  | heap hf =>
      rcases hst with ⟨n, rfl⟩
      exact .ok ⟨n, rfl⟩
  | setStatic m v hwrites =>
      rcases hst with ⟨n, rfl⟩
      exact .ok ⟨n, rfl⟩
  | setInitState name state hwrites =>
      rcases hst with ⟨n, rfl⟩
      exact .ok ⟨n, rfl⟩

/-- Without a limit an instruction is counted and nothing more. -/
theorem agree_tick (hlimit : env.limits.instructions = none) (hst : s.Alike t) :
    Agree Machine.Alike (tick env s) (tick env t) := by
  rcases hst with ⟨n, rfl⟩
  rw [tick_of_no_limit hlimit, tick_of_no_limit hlimit]
  exact .ok ⟨n + 1, rfl⟩

/-- What comes after an instruction does not look at the count. -/
theorem agree_resume {p : Prepared} {a : Activation} {position : Nat} {r r' : Outcome Flow}
    (h : Agree Machine.Alike r r') :
    Agree Machine.Alike (p.resume a position env r) (p.resume a position env r') := by
  cases h with
  | @ok flow s t hst =>
      unfold Prepared.resume
      dsimp only
      cases flow.progress p a position with
      | ok progress => exact .ok hst
      | error e => exact .error hst
  | @error e s t hst =>
      cases e with
      | thrown exception =>
          unfold Prepared.resume
          dsimp only
          rw [hst.heap_eq]
          -- Which handler is found depends on the heap, which is the same in both.
          cases p.handler? env.program.classes position (t.heap.get exception).className with
          | some target => exact .ok hst
          | none => exact .error hst
      | _ => exact .error hst

/-- An instruction in its place comes to the same whatever has been counted. -/
theorem agree_advance (hlimit : env.limits.instructions = none) (henv : env.Uncounted)
    (p : Prepared) (a : Activation) (position : Nat) (hst : s.Alike t) :
    Agree Machine.Alike (advance p a position env s) (advance p a position env t) := by
  -- The two machines are at the same instruction, since they differ in the count alone.
  cases hcode : p.code[position]? with
  | none =>
      rw [advance_end hcode, advance_end hcode]
      exact .error hst
  | some i =>
      cases hi : i.isPseudo with
      | true =>
          rw [advance_mark hcode hi, advance_mark hcode hi]
          exact .ok hst
      | false =>
          have htick := agree_tick hlimit hst
          rw [advance_real hcode hi, advance_real hcode hi]
          generalize tick env s = r, tick env t = r' at htick
          cases htick with
          | error hst => exact .error hst
          | ok hst =>
              have hcomposed : Composed true (step p.owner i a) :=
                composed_step p.owner (absurd · (by decide)) a
              exact agree_resume (hcomposed.uncounted henv hst)

/-- A method comes to the same whatever has been counted, as far as it is run. -/
theorem agree_execute (hlimit : env.limits.instructions = none) (henv : env.Uncounted)
    (p : Prepared) (steps : Nat) (a : Activation) (position : Nat) (hst : s.Alike t) :
    Agree Machine.Alike (execute p steps a position env s) (execute p steps a position env t) := by
  induction steps generalizing a position s t with
  | zero => exact .error hst
  | succ steps ih =>
      have hfirst := agree_advance hlimit henv p a position hst
      rw [execute_succ, execute_succ]
      generalize advance p a position env s = r, advance p a position env t = r' at hfirst
      cases hfirst with
      | error hst => exact .error hst
      | @ok progress s t hst =>
          cases progress with
          | finished v => exact .ok hst
          | running b next => exact ih b next hst

end Emu

end JvmFold
