import JvmFold.Proofs.Machine.Lifecycle

/-!
# What Lasts in the Machine

A machine lives as long as a run and is used over and over. Whatever it is used
for, its heap evolves, and a class whose initialization has come to its end is
not touched again. So a value that was read once can be read again, as long as
nothing else is assigned to the field: a constant is the same value, a class
that had to be initialized is initialized already, and an object is still
there.

An object stays what it is as well, with one exception. A constructor of
strings makes a string of whatever object it is called on. No verifier lets a
program through that does this, but the machine does not verify programs.

## Main definitions

* `Machine.Precedes`: A state and one that the machine comes to later.
* `Heap.SameKind`: A value refers to an object of the same kind.

## Theorems

* `Engine.precedes_run`: Every task leaves a later state.
* `Emu.constant_again`, `Emu.getStatic_again`, `Emu.getField_again`: What was read once is read
  again.
-/

namespace JvmFold

/-- A state and one that the machine comes to later: the objects evolve, and the classes whose
    initialization has begun stay as they are. -/
structure Machine.Precedes (s t : Machine) : Prop where
  heap : s.heap.Evolves t.heap
  initialized : ∀ {name : String} {state}, s.initialized[name]? = some state →
    t.initialized[name]? = some state

namespace Machine

variable {s t u : Machine}

theorem Precedes.refl (s : Machine) : s.Precedes s :=
  ⟨.refl s.heap, id⟩

/-- A machine precedes another step by step. -/
theorem Precedes.trans (h : s.Precedes t) (h' : t.Precedes u) : s.Precedes u :=
  ⟨h.heap.trans h'.heap, fun hs => h'.initialized (h.initialized hs)⟩

theorem keepsAnswers_precedes : KeepsAnswers Precedes :=
  fun s _ _ => ⟨.refl s.heap, id⟩

end Machine

namespace Emu

section Scripts

variable {env : Env} {name : String}

/-- Parts of the program that leave a class alone whose initialization has begun. -/
def LeavesBegun (env : Env) (name : String) : Prop :=
  ∀ depth task (s : Machine) state, s.initialized[name]? = some state →
    (Outcome.state (env.dispatch depth task s)).initialized[name]? = some state

/-- What is scripted leaves a class alone, unless it initializes that class itself. -/
theorem Script.leavesBegun {starts : Option String} {α : Type} (h : LeavesBegun env name)
    (hstarts : starts ≠ some name) (x : Script starts α) (s : Machine) {state : InitState}
    (hs : s.initialized[name]? = some state) :
    (Outcome.state (x.perform env s)).initialized[name]? = some state := by
  refine @Script.relates starts α (fun s _ t => ∀ state, s.initialized[name]? = some state →
    t.initialized[name]? = some state) env (fun _ _ _ => []) ?_ ?_ ?_ ?_ ?_ x s state hs
  · intro s t heq state hs
    rw [heq, hs]
  · exact fun h h' state hs => h' state (h state hs)
  · exact h env.depth
  · rintro other rfl state s state' hs
    rw [Machine.noted_of_ne fun heq => hstarts (congrArg some heq.symm)]
    exact hs
  · exact fun _ _ _ _ hs => hs

/-- The initialization of a class leaves all classes alone that have begun, itself included. -/
theorem useClass_leavesBegun (h : LeavesBegun env name) (used : String) (s : Machine)
    {state : InitState} (hs : s.initialized[name]? = some state) :
    (Outcome.state (useClass used env s)).initialized[name]? = some state := by
  by_cases hname : used = name
  · subst hname
    cases state with
    | done => rwa [useClass_of_done hs]
    | inProgress => rwa [useClass_of_inProgress hs]
    | failed =>
        rw [useClass_of_failed hs, Quiet.keeps env s]
        exact hs
  · rw [← Script.perform_useClass]
    exact Script.leavesBegun h (fun heq => hname (Option.some.inj heq)) _ s hs

end Scripts

end Emu

namespace Engine

variable {p : Program} {limits : Limits}

/-- Every task leaves a later state. -/
theorem precedes_run (levels depth : Nat) (task : Task) (s : Machine) :
    s.Precedes (Emu.Outcome.state (run p limits levels depth task s)) := by
  refine ⟨(evolves_run p limits levels depth task s).heap, fun {name state} hs => ?_⟩
  rcases nonempty_plan p with ⟨plan⟩
  -- A task on one level is a script whose calls are tasks on the level below.
  induction levels generalizing depth task s state with
  | zero => exact hs
  | succ levels ih =>
      have hbelow (depth : Nat) : Emu.LeavesBegun (inside p limits levels depth) name :=
        fun deeper task s _ hs => ih deeper task s hs
      cases task with
      | initClass used =>
          rw [state_run_initClass]
          exact Emu.useClass_leavesBegun (hbelow depth) used s hs
      | call target arguments =>
          rw [run_target]
          split
          · rw [Emu.Quiet.keeps _ s]
            exact hs
          · rw [← plan.perform_eq]
            exact Emu.Script.leavesBegun (hbelow (depth + 1)) (Option.some_ne_none name).symm _ s hs

/-- Whatever the machine is asked leaves a later state. -/
theorem keeps_env (p : Program) (limits : Limits) : (env p limits).Keeps Machine.Precedes where
  refl := .refl
  trans := .trans
  heap h := ⟨h, id⟩
  counted s _ := ⟨.refl s.heap, id⟩
  dispatch := precedes_run allowance

end Engine

namespace Heap

variable {h h' : Heap} {v : Value} {k : Constant}

/-- A value refers to the same kind of object in two heaps, if it is a reference. -/
def SameKind (h h' : Heap) (v : Value) : Prop :=
  ∀ r, v = .ref r → (h'.get r).kind = (h.get r).kind

/-- An object of the same kind has the same class. -/
theorem SameKind.runtimeClass? (hv : h.SameKind h' v) : h'.runtimeClass? v = h.runtimeClass? v := by
  cases v with
  | ref r =>
      change some (h'.get r).className = some (h.get r).className
      rw [← HeapObject.className_kind, hv r rfl, HeapObject.className_kind]
  | _ => rfl

/-- The value of a constant stays the same. -/
theorem Evolves.value? (hh : h.Evolves h') (hv : h.value? k = some v) : h'.value? k = some v := by
  cases k with
  | string text =>
      rcases Option.map_eq_some_iff.mp hv with ⟨r, hr, rfl⟩
      exact Option.map_eq_some_iff.mpr ⟨r, hh.interned hr, rfl⟩
  | classRef name =>
      rcases Option.map_eq_some_iff.mp hv with ⟨r, hr, rfl⟩
      exact Option.map_eq_some_iff.mpr ⟨r, hh.classes hr, rfl⟩
  | _ => exact hv

section Boxes

variable {w : Wrapper} {key : Int} {r : HeapRef}

/-- The canonical box of a value is there afterwards. -/
theorem boxes_boxed (h : Heap) (hkey : w.cacheKey? v = some key) :
    (h.boxed w v).2.boxes[(w, key)]? = some (h.boxed w v).1 := by
  unfold boxed
  rw [hkey]
  dsimp only
  cases hfound : h.boxes[(w, key)]? with
  | some r => exact hfound
  | none => exact Std.HashMap.getElem?_insert_self

/-- A box that is cached is found again. -/
theorem boxed_of_boxes (hkey : w.cacheKey? v = some key) (hr : h.boxes[(w, key)]? = some r) :
    h.boxed w v = (r, h) := by
  unfold boxed
  rw [hkey]
  dsimp only
  rw [hr]

end Boxes

end Heap

namespace Emu

variable {env : Env} {s s' t : Machine} {v : Value}

/-- A constant that is there is not made anew. -/
theorem constant_of_value? {k : Constant} (hv : s.heap.value? k = some v) :
    constant k env s = .ok v s := by
  cases k with
  | string text =>
      rcases Option.map_eq_some_iff.mp hv with ⟨r, hr, rfl⟩
      -- The canonical object is there already, so making it leaves the heap as it is.
      have hintern : s.heap.intern (.ofString text) = (r, s.heap) := by
        unfold Heap.intern
        rw [hr]
      have hconstant : constant (.string text) env s
          = .ok (.ref (s.heap.intern (.ofString text)).1)
              { s with heap := (s.heap.intern (.ofString text)).2 } := rfl
      rw [hconstant, hintern]
  | classRef name =>
      rcases Option.map_eq_some_iff.mp hv with ⟨r, hr, rfl⟩
      have hclass : s.heap.classObject name = (r, s.heap) := by
        unfold Heap.classObject
        rw [hr]
      have hconstant : constant (.classRef name) env s
          = .ok (.ref (s.heap.classObject name).1)
              { s with heap := (s.heap.classObject name).2 } := rfl
      rw [hconstant, hclass]
  | pool index => cases hv
  | _ =>
      cases hv
      rfl

/-- A constant has one value for good. -/
theorem constant_again {k : Constant} (h : constant k env s = .ok v t)
    (hlater : t.heap.Evolves s'.heap) : constant k env s' = .ok v s' := by
  have hk : ∀ i, k ≠ .pool i := by
    rintro i rfl
    cases h
  rcases constant_eq hk s with ⟨w, heap, heq, -, hw⟩
  rw [heq env] at h
  cases h
  exact constant_of_value? (hlater.value? hw)

/-- The object of a built-in field is canonical, so it is read again. -/
theorem read_again {b : BuiltinField} (h : b.read env s = .ok v t)
    (hlater : t.heap.Evolves s'.heap) : b.read env s' = .ok v s' := by
  cases b with
  | typeOf w => exact constant_again (k := .classRef w.keyword) h hlater
  | truth b =>
      have hread (env : Env) (u : Machine) : (BuiltinField.truth b).read env u
          = .ok (.ref (u.heap.boxed .boolean (.ofBool b)).1)
              { u with heap := (u.heap.boxed .boolean (.ofBool b)).2 } := rfl
      rw [hread] at h ⊢
      injection h with hv ht
      subst hv ht
      have hcached : ∃ key, Wrapper.boolean.cacheKey? (.ofBool b) = some key := ⟨_, rfl⟩
      rcases hcached with ⟨key, hkey⟩
      rw [Heap.boxed_of_boxes hkey (hlater.boxes (s.heap.boxes_boxed hkey))]

section Engine

variable {p : Program} {limits : Limits}

/-- A class that was initialized once is there for good. -/
theorem initClass_again {name : String} {c : ClassFile} (hc : p.classes.class? name = some c)
    (h : initClass name (Engine.env p limits) s = .ok () t) (hlater : t.Precedes s') :
    initClass name (Engine.env p limits) s' = .ok () s' := by
  have huse : useClass name (Engine.inside p limits (Engine.allowance - 1) 0) s = .ok () t := by
    rw [Engine.env_eq, initClass_eq] at h
    cases hused : useClass name (Engine.inside p limits (Engine.allowance - 1) 0) s with
    | ok _ u =>
        rw [hused] at h
        cases h
        rfl
    | error e u =>
        rw [hused] at h
        cases h
  have hused : useClass name (Engine.inside p limits (Engine.allowance - 1) 0) s' = .ok () s' := by
    -- The class was in progress or done afterwards, and so it still is.
    rcases progress_of_useClass hc huse with hstate | hstate
    · exact useClass_of_inProgress (hlater.initialized hstate)
    · exact useClass_of_done (hlater.initialized hstate)
  rw [Engine.env_eq, initClass_eq, hused]

/-- A static field is read again if its value is still there. -/
theorem getStatic_again {f : Member} (h : getStatic f (Engine.env p limits) s = .ok v t)
    (hlater : t.Precedes s')
    (hkept : s'.statics[p.classes.declaredField f]? = t.statics[p.classes.declaredField f]?) :
    getStatic f (Engine.env p limits) s' = .ok v s' := by
  have hclasses (u : Machine) : classes (Engine.env p limits) u = .ok p.classes u := rfl
  have hget (u : Machine) : (get : Emu Machine) (Engine.env p limits) u = .ok u u := rfl
  unfold Universe.declaredField at hkept
  cases howner : p.classes.fieldOwner? f with
  | some owner =>
      rcases Option.isSome_iff_exists.mp (Universe.isSome_class?_of_fieldOwner? howner) with ⟨c, hc⟩
      rw [howner] at hkept
      unfold getStatic at h
      simp only [bind_apply, hclasses, howner] at h
      cases hinit : initClass owner (Engine.env p limits) s with
      | error e u =>
          simp only [hinit] at h
          cases h
      | ok _ u =>
          simp only [hinit, hget] at h
          cases hv : u.statics[f.withOwner owner]? with
          | none =>
              simp only [hv] at h
              cases h
          | some w =>
              simp only [hv] at h
              cases h
              -- The class has been initialized since, and doing it again leaves the state alone.
              exact getStatic_of_initClass howner (initClass_again hc hinit hlater)
                (hkept.trans hv)
  | none =>
      unfold getStatic at h ⊢
      simp only [bind_apply, hclasses, howner] at h ⊢
      cases hbuiltin : BuiltinField.ofMember? f with
      | some b =>
          simp only [hbuiltin] at h ⊢
          exact read_again h hlater.heap
      | none =>
          simp only [hbuiltin, bind_apply, hclasses] at h
          split at h <;> cases h

end Engine

-- Which field is meant does not depend on the machine.
theorem declaredField_eq (f : Member) (env : Env) (s : Machine) :
    declaredField f env s = .ok (env.program.classes.declaredField f) s := by
  have hclasses : classes env s = .ok env.program.classes s := rfl
  unfold declaredField Universe.declaredField
  rw [bind_apply, hclasses]
  dsimp only
  cases env.program.classes.fieldOwner? f <;> rfl

/-- What can be read of an object is read from one with fields. -/
theorem getField_ok {object : Value} {f : Member} (h : getField object f env s = .ok v t) :
    ∃ r name fields, object = .ref r ∧ s.heap.get r = .instance name fields ∧ t = s ∧
      v = (fields.get? (env.program.classes.declaredField f)).getD
        (Value.defaultFor f.descriptor) := by
  rcases bind_ok h with ⟨reference, u, hreference, h⟩
  cases object with
  | ref r =>
      cases hreference
      rcases bind_ok h with ⟨key, u, hkey, h⟩
      rw [declaredField_eq] at hkey
      cases hkey
      rcases bind_ok h with ⟨o, u, ho, h⟩
      cases ho
      -- Only an instance has fields.
      cases hobject : s.heap.get r with
      | «instance» name fields =>
          rw [hobject] at h
          cases h
          exact ⟨r, name, fields, rfl, hobject, rfl, rfl⟩
      | _ =>
          rw [hobject] at h
          cases h
  | null =>
      cases hreference
      exact absurd h raise_ne_ok
  | _ => cases hreference

/-- A field of an object is read again if the object is what it was and nothing else was assigned
    to the field. -/
theorem getField_again {r : HeapRef} {f : Member} (h : getField (.ref r) f env s = .ok v t)
    (hkind : (s'.heap.get r).kind = (s.heap.get r).kind)
    (hkept : s'.heap.field? r (env.program.classes.declaredField f)
      = s.heap.field? r (env.program.classes.declaredField f)) :
    getField (.ref r) f env s' = .ok v s' := by
  rcases getField_ok h with ⟨r', name, fields, hr, hobject, rfl, rfl⟩
  cases hr
  have hget : object r env s' = .ok (s'.heap.get r) s' := rfl
  have hreference : lift (Value.ref r).asReference env s' = .ok (some r) s' := rfl
  unfold Heap.field? at hkept
  rw [hobject] at hkind hkept
  unfold getField
  simp only [bind_apply, hreference, declaredField_eq, hget]
  -- The object is still an instance, since it keeps its kind.
  cases hnow : s'.heap.get r with
  | «instance» name' fields' =>
      rw [hnow] at hkept
      dsimp only at hkept ⊢
      rw [hkept]
      rfl
  | _ =>
      rw [hnow] at hkind
      cases hkind

end Emu

end JvmFold
