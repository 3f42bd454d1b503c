import JvmFold.Proofs.Machine.Constants
import JvmFold.Proofs.Machine.Stored

/-!
# The Start of a Class

What the initialization of a class comes down to, part by part: the superclass,
the values that the fields start with, the initializer. `Held` is kept by the
whole if it is kept by the two parts that run something else, the superclass
with the class waiting for it and the initializer with the class no longer
waiting.

Two environments are compared at once, because a run under a watch is compared
with the run without it.

`Machine.Starts` says what it is for fields to have the values they start with,
however they came by them. An assignment of a constant to one of the fields
leaves a state in which the fields start as if that constant had been the
field's own.

## Main definitions

* `Machine.Starts`: Fields of a class have the values that they start with.
* `Emu.startValue`: The value that a static field starts with.
* `Emu.startSelf`: The initialization of a class without its superclass.

## Theorems

* `Machine.Starts.set`: The fields after an assignment.
* `Machine.Starts.valued_matches`: The same fields start with matching values.
* `Emu.startStatics_eq`: The static fields of a class get the values they start with.
* `Emu.startClass_of_some`: A class is initialized behind its superclass.
* `Emu.useClass_follows`: The use of a class keeps the invariant.
-/

namespace JvmFold

/-- The value that a field starts with, as far as the object for it is there. -/
def Field.valueIn? (f : Field) (h : Heap) : Option Value :=
  match f.constant with
  | some k => h.value? k
  | none => some (Value.defaultFor f.descriptor)

/-- The fields of a list have the values they start with, the last of several fields with the same
    name and descriptor its own; nothing else has changed but for canonical objects and the count
    of instructions. -/
structure Machine.Starts (s : Machine) (c : ClassFile) (l : List Field) (t : Machine) : Prop where
  heap : s.heap.Extends t.heap
  initialized : t.initialized = s.initialized
  answers : t.answers = s.answers
  others : ∀ key : Member, (∀ f ∈ l, c.fieldMember f ≠ key) → t.statics[key]? = s.statics[key]?
  valued : ∀ f ∈ l, ∃ g ∈ l, g.signature = f.signature ∧
    ∃ v, t.statics[c.fieldMember f]? = some v ∧ g.valueIn? t.heap = some v

section Starts

variable {s t u : Machine} {c : ClassFile} {l l' : List Field}

/-- No default refers to an object. -/
theorem Value.defaultFor_ne_ref (descriptor : String) (r : HeapRef) :
    Value.defaultFor descriptor ≠ .ref r := by
  unfold Value.defaultFor
  cases FieldType.parse descriptor with
  | ok t => cases t <;> exact nofun
  | error e => exact nofun

/-- A value that a field has in a heap it has in every extension. -/
theorem Field.valueIn?_of_extends {f : Field} {h h' : Heap} {v : Value} (hh : h.Extends h')
    (hv : f.valueIn? h = some v) : f.valueIn? h' = some v := by
  unfold valueIn? at hv ⊢
  split at hv
  · exact hh.value? hv
  · exact hv

/-- Fields of a class are told apart by their signatures. -/
theorem ClassFile.signature_eq_of_fieldMember {f g : Field}
    (h : c.fieldMember f = c.fieldMember g) : f.signature = g.signature := by
  unfold fieldMember Signature.on at h
  rcases Member.mk.inj h with ⟨-, hname, hdescriptor⟩
  exact congrArg₂ Signature.mk hname hdescriptor

theorem ClassFile.fieldMember_eq_of_signature {f g : Field} (h : f.signature = g.signature) :
    c.fieldMember f = c.fieldMember g :=
  congrArg (·.on c.name) h

namespace Machine

theorem Starts.nil (c : ClassFile) (s : Machine) : s.Starts c [] s :=
  ⟨.refl _, rfl, rfl, fun _ _ => rfl, nofun⟩

/-- A field is given its value. -/
theorem Starts.single {f : Field} {heap : Heap} {v : Value} (hheap : s.heap.Extends heap)
    (hv : f.valueIn? heap = some v) :
    s.Starts c [f] { s with heap, statics := s.statics.insert (c.fieldMember f) v } where
  heap := hheap
  initialized := rfl
  answers := rfl
  others key hkey := by
    have hne : ¬(c.fieldMember f == key) = true := fun heq =>
      hkey f (List.mem_singleton_self f) (eq_of_beq heq)
    exact Std.HashMap.getElem?_insert.trans (if_neg hne)
  valued g hg := by
    cases List.mem_singleton.mp hg
    exact ⟨f, hg, rfl, v, Std.HashMap.getElem?_insert_self, hv⟩

/-- More fields are given their values; what they do not give one keeps its own. -/
theorem Starts.append (h : s.Starts c l t) (h' : t.Starts c l' u) : s.Starts c (l ++ l') u where
  heap := h.heap.trans h'.heap
  initialized := h'.initialized.trans h.initialized
  answers := h'.answers.trans h.answers
  others key hkey := by
    rw [h'.others key fun f hf => hkey f (List.mem_append_right l hf)]
    exact h.others key fun f hf => hkey f (List.mem_append_left l' hf)
  valued f hf := by
    -- A field that is started twice keeps the later value.
    by_cases hlast : ∃ f' ∈ l', c.fieldMember f' = c.fieldMember f
    · rcases hlast with ⟨f', hf', heq⟩
      rcases h'.valued f' hf' with ⟨g, hg, hsignature, hv⟩
      rw [heq] at hv
      exact ⟨g, List.mem_append_right l hg,
        hsignature.trans (ClassFile.signature_eq_of_fieldMember heq), hv⟩
    · have hbefore : f ∈ l :=
        (List.mem_append.mp hf).resolve_right fun hf' => hlast ⟨f, hf', rfl⟩
      rcases h.valued f hbefore with ⟨g, hg, hsignature, v, hv, hvalue⟩
      refine ⟨g, List.mem_append_left l' hg, hsignature, v, ?_,
        Field.valueIn?_of_extends h'.heap hvalue⟩
      rw [h'.others _ fun f' hf' heq => hlast ⟨f', hf', heq⟩, hv]

/-- Only the class that the fields belong to has other values afterwards. -/
theorem Starts.of_owner_ne (h : s.Starts c l t) {key : Member} (hkey : key.owner ≠ c.name) :
    t.statics[key]? = s.statics[key]? :=
  h.others key fun _ _ heq => hkey (by rw [← heq]; rfl)

/-- Every field that has been started has a value. -/
theorem Starts.isSome (h : s.Starts c l t) {f : Field} (hf : f ∈ l) :
    (t.statics[c.fieldMember f]?).isSome = true := by
  rcases h.valued f hf with ⟨-, -, -, v, hv, -⟩
  rw [hv]
  rfl

/-- A field that is the only one of its name and descriptor has its own value. -/
theorem Starts.valued_of_nodup (h : s.Starts c l t) (hl : (l.map (·.signature)).Nodup) {f : Field}
    (hf : f ∈ l) : ∃ v, t.statics[c.fieldMember f]? = some v ∧ f.valueIn? t.heap = some v := by
  rcases h.valued f hf with ⟨g, hg, hsignature, hv⟩
  cases List.inj_on_of_nodup_map hl hg hf hsignature
  exact hv

/-- The same fields start with matching values. -/
theorem Starts.valued_matches (h : s.Starts c l t) (h' : s.Starts c l u)
    (hl : (l.map (·.signature)).Nodup) {f : Field} (hf : f ∈ l) :
    ∃ v w, t.statics[c.fieldMember f]? = some v ∧ u.statics[c.fieldMember f]? = some w ∧
      s.heap.Matches t.heap u.heap v w := by
  rcases h.valued_of_nodup hl hf with ⟨v, hv, hvalue⟩
  rcases h'.valued_of_nodup hl hf with ⟨w, hw, hvalue'⟩
  refine ⟨v, w, hv, hw, ?_⟩
  unfold Field.valueIn? at hvalue hvalue'
  -- A field without a constant starts with the default of its type.
  cases hconstant : f.constant with
  | some k =>
      rw [hconstant] at hvalue hvalue'
      exact h.heap.value?_matches h'.heap hvalue hvalue'
  | none =>
      rw [hconstant] at hvalue hvalue'
      cases hvalue
      cases hvalue'
      exact .same fun r hr => absurd hr (Value.defaultFor_ne_ref f.descriptor r)

end Machine

end Starts

namespace Emu

/-- The value that a static field starts with. -/
def startValue (f : Field) : Emu Value :=
  match f.constant with
  | some k => constant k
  | none => return Value.defaultFor f.descriptor

/-- A field that does not start with a constant of the pool starts with a value in every state. -/
theorem startValue_eq {f : Field} (hf : ∀ i, f.constant ≠ some (.pool i)) (s : Machine) :
    ∃ v heap, (∀ env, startValue f env s = .ok v { s with heap }) ∧ s.heap.Extends heap ∧
      f.valueIn? heap = some v := by
  unfold startValue Field.valueIn?
  cases hconstant : f.constant with
  | some k => exact constant_eq (fun i hi => hf i (hconstant.trans (congrArg some hi))) s
  | none => exact ⟨_, s.heap, fun _ => rfl, .refl _, rfl⟩

/-- The static fields are started in order. -/
theorem startStatics_def (c : ClassFile) :
    startStatics c = (c.fields.filter (·.isStatic)).forM fun f =>
      startValue f >>= setStatic (c.fieldMember f) := by
  have hstore (f : Field) : (do
      let v ← match f.constant with
        | some k => constant k
        | none => pure (Value.defaultFor f.descriptor)
      setStatic (c.fieldMember f) v) = startValue f >>= setStatic (c.fieldMember f) := by
    unfold startValue
    cases f.constant <;> rfl
  unfold startStatics
  exact congrArg _ (funext hstore)

/-- The static fields of a list get the values that they start with. -/
theorem forM_setStatic_eq {c : ClassFile} {l : List Field}
    (hl : ∀ f ∈ l, ∀ i, f.constant ≠ some (.pool i)) (s : Machine) :
    ∃ t : Machine,
      (∀ env, (l.forM fun f => startValue f >>= setStatic (c.fieldMember f)) env s = .ok () t) ∧
      t.executed = s.executed ∧ s.Starts c l t := by
  induction l generalizing s with
  | nil => exact ⟨s, fun _ => rfl, rfl, .nil c s⟩
  | cons f rest ih =>
      rcases List.forall_mem_cons.mp hl with ⟨hf, hrest⟩
      -- The first field gets its value, and the others start from there.
      rcases startValue_eq hf s with ⟨v, heap, hv, hextends, hvalue⟩
      let w : Machine := { s with heap, statics := s.statics.insert (c.fieldMember f) v }
      rcases ih hrest w with ⟨t, ht, hexecuted, hstarts⟩
      have hfirst : s.Starts c [f] w := .single hextends hvalue
      refine ⟨t, fun env => ?_, hexecuted, hfirst.append hstarts⟩
      change ((startValue f >>= setStatic (c.fieldMember f)) >>= fun _ =>
        rest.forM fun f => startValue f >>= setStatic (c.fieldMember f)) env s = .ok () t
      rw [bind_apply, bind_apply, hv env]
      exact ht env

/-- The static fields of a class get values, and nothing else changes but the heap. -/
theorem startStatics_eq {c : ClassFile}
    (hc : ∀ f ∈ c.fields, f.isStatic = true → ∀ i, f.constant ≠ some (.pool i)) (s : Machine) :
    ∃ t : Machine, (∀ env, startStatics c env s = .ok () t) ∧ t.executed = s.executed ∧
      s.Starts c (c.fields.filter (·.isStatic)) t := by
  rw [startStatics_def]
  exact forM_setStatic_eq (fun f hf => hc f (List.mem_of_mem_filter hf) (List.mem_filter.mp hf).2) s

/-- The constant of the pool that a field would have to start with. -/
def poolStart? (f : Field) : Option UInt16 :=
  match f.constant with
  | some (.pool i) => some i
  | _ => none

/-- A field starts without the pool if its constant is no index. -/
theorem poolStart?_eq_none {f : Field} :
    poolStart? f = none ↔ ∀ i, f.constant ≠ some (.pool i) := by
  unfold poolStart?
  split
  next i hi =>
    exact ⟨nofun, fun h => absurd hi (h i)⟩
  next h =>
    exact ⟨fun _ i hi => h i hi, fun _ => rfl⟩

theorem constant_ne_of_poolStart? {l : List Field} (h : l.findSome? poolStart? = none) :
    ∀ f ∈ l, ∀ i, f.constant ≠ some (.pool i) :=
  fun f hf => poolStart?_eq_none.mp (List.findSome?_eq_none_iff.mp h f hf)

/-- Fields cannot start with a constant of the pool. -/
theorem startStatics_of_pool {c : ClassFile} {i : UInt16}
    (h : (c.fields.filter (·.isStatic)).findSome? poolStart? = some i) (s : Machine) :
    ∃ t, ∀ env, startStatics c env s = .error (.unsupported (.poolConstant i)) t := by
  rw [startStatics_def]
  generalize c.fields.filter (·.isStatic) = l at h
  -- The fields in front of the first such field get their values, so the state is general.
  induction l generalizing s with
  | nil => cases h
  | cons f rest ih =>
      have hforM (env : Env) : ((f :: rest).forM fun f =>
          startValue f >>= setStatic (c.fieldMember f)) env s =
          ((startValue f >>= setStatic (c.fieldMember f)) >>= fun _ =>
            rest.forM fun f => startValue f >>= setStatic (c.fieldMember f)) env s := rfl
      rw [List.findSome?_cons] at h
      cases hf : poolStart? f with
      | none =>
          rw [hf] at h
          rcases startValue_eq (poolStart?_eq_none.mp hf) s with ⟨v, heap, hv, -, -⟩
          rcases ih { s with heap, statics := s.statics.insert (c.fieldMember f) v } h with ⟨t, ht⟩
          refine ⟨t, fun env => ?_⟩
          rw [hforM, bind_apply, bind_apply, hv env]
          exact ht env
      | some j =>
          rw [hf] at h
          cases h
          have hconstant : f.constant = some (.pool i) := by
            unfold poolStart? at hf
            split at hf
            next hconstant =>
              cases hf
              exact hconstant
            · cases hf
          refine ⟨s, fun env => ?_⟩
          have hfails : startValue f env s = .error (.unsupported (.poolConstant i)) s := by
            unfold startValue
            rw [hconstant]
            rfl
          rw [hforM, bind_apply, bind_apply, hfails]

section Start

variable {env : Env} {s : Machine} {c : ClassFile} {name : String}

/-- A class without an initializer runs none. -/
theorem runInitializer_of_none (h : (c.method? ClassFile.initializer).isSome = false) :
    runInitializer c name env s = .ok () s := by
  unfold runInitializer
  rw [h]
  rfl

/-- One with an initializer calls it. -/
theorem runInitializer_of_some (h : (c.method? ClassFile.initializer).isSome = true) :
    runInitializer c name env s =
      match call (.bytecode (ClassFile.initializer.on name)) [] env s with
      | .ok _ t => .ok () t
      | .error (.thrown exception) t =>
        raiseFromInitializer exception env
          { t with initialized := t.initialized.insert name .failed }
      | .error fault t =>
        .error fault { t with initialized := t.initialized.insert name .failed } := by
  unfold runInitializer
  rw [if_pos h, tryCatch_apply, bind_apply]
  cases call (.bytecode (ClassFile.initializer.on name)) [] env s with
  | ok v t => rfl
  | error fault t => cases fault <;> rfl

/-- The initialization of a class without its superclass. -/
def startSelf (c : ClassFile) (name : String) : Emu Unit := do
  startStatics c
  runInitializer c name
  setInitState name .done

/-- A class without a superclass starts at once. -/
theorem startClass_of_none (h : c.superName = none) :
    startClass c name env s =
      startSelf c name env { s with initialized := s.initialized.insert name .inProgress } := by
  unfold startClass
  rw [h]
  rfl

/-- Any other starts after its superclass. -/
theorem startClass_of_some {parent : String} (h : c.superName = some parent) :
    startClass c name env s =
      match initClass parent env
          { s with initialized := s.initialized.insert name .inProgress } with
      | .ok _ t => startSelf c name env t
      | .error fault t =>
        .error fault { t with initialized := t.initialized.insert name .failed } := by
  unfold startClass
  rw [h, bind_apply]
  change (tryCatch (initClass parent) (fun fault => do
      setInitState name .failed
      throw fault) >>= fun _ => startSelf c name) env
    { s with initialized := s.initialized.insert name .inProgress } = _
  rw [bind_apply, tryCatch_apply]
  cases initClass parent env { s with initialized := s.initialized.insert name .inProgress } with
  | ok v t => rfl
  | error fault t => rfl

end Start

section Follows

variable {u : Universe} {since : Nat → Prop} {k : Member} {v : Value} {o s : Machine}
variable {pending : List Engine.Store} {env env' : Env} {c : ClassFile} {name : String}

/-- The initializer keeps the invariant if its call does; where it returns, the class is still in
    progress. -/
theorem runInitializer_follows
    (hcall : ∀ (o s : Machine), s.Held u since k v o pending →
      Outcome.Follows False (fun t : Machine => t.Held u since k v o pending)
        (call (.bytecode (ClassFile.initializer.on name)) [] env s)
        (call (.bytecode (ClassFile.initializer.on name)) [] env' s))
    (hprogram : env'.program = env.program)
    (ho : o.initialized[name]? = none) (hname : .start name ∉ pending)
    (hs : s.Held u since k v o pending) (hprogress : s.initialized[name]? = some .inProgress) :
    runInitializer c name env' s = runInitializer c name env s ∧
      match runInitializer c name env s with
      | .ok _ t => t.Held u since k v o pending ∧ t.initialized[name]? = some .inProgress
      | .error _ t => t.Held u since k v o pending := by
  cases hinitializer : (c.method? ClassFile.initializer).isSome with
  | false =>
      rw [runInitializer_of_none hinitializer, runInitializer_of_none hinitializer]
      exact ⟨rfl, hs, hprogress⟩
  | true =>
      -- The call starts where the class is in progress, so it is compared with its own beginning.
      rcases (hcall s s hs.from_now).eq with ⟨heq, hstate⟩
      rw [runInitializer_of_some hinitializer, runInitializer_of_some hinitializer, heq]
      revert hstate
      cases call (.bytecode (ClassFile.initializer.on name)) [] env s with
      | ok x t => exact fun ht => ⟨rfl, hs.since_now ht, ht.kept hprogress⟩
      | error fault t =>
          intro ht
          have hfailed := Machine.Held.failed (s := t) (hs.since_now ht) ho hname (.inl rfl)
          cases fault with
          | thrown exception =>
              rcases raiseFromInitializer_eq (α := Unit) exception env
                { t with initialized := t.initialized.insert name .failed } with
                ⟨fault, heap, hraises⟩
              dsimp only
              rw [raiseFromInitializer_congr hprogram, hraises]
              exact ⟨rfl, hfailed.of_eq rfl rfl rfl⟩
          | _ => exact ⟨rfl, hfailed⟩

/-- Once the statics have their values the initializer runs. -/
theorem startSelf_of_startStatics {t : Machine} (h : startStatics c env s = .ok () t) :
    startSelf c name env s =
      match runInitializer c name env t with
      | .ok _ t => .ok () { t with initialized := t.initialized.insert name .done }
      | .error fault t => .error fault t := by
  unfold startSelf
  rw [bind_apply, h]
  dsimp only
  rw [bind_apply]
  cases runInitializer c name env t <;> rfl

/-- The class itself is initialized when its superclass is. -/
theorem startSelf_follows (hu : u.Sound) (hc : u.class? name = some c)
    (hcall : ∀ (o s : Machine), s.Held u since k v o pending →
      Outcome.Follows False (fun t : Machine => t.Held u since k v o pending)
        (call (.bytecode (ClassFile.initializer.on name)) [] env s)
        (call (.bytecode (ClassFile.initializer.on name)) [] env' s))
    (hprogram : env'.program = env.program)
    (ho : o.initialized[name]? = none) (hname : .start name ∉ pending)
    (hs : s.Held u since k v o (.start name :: pending)) :
    Outcome.Follows False (fun t : Machine => t.Held u since k v o pending)
      (startSelf c name env s) (startSelf c name env' s) := by
  rcases startStatics_eq (fun f hf _ => hu.constants hc f hf) s with ⟨t, ht, hexecuted, hstarts⟩
  have hheld : t.Held u since k v o pending := by
    refine hs.store (fun key hkey => hstarts.of_owner_ne ?_) (fun hd hf hstatic => ?_)
      hstarts.initialized hexecuted hu
    · rwa [hu.name_eq hc]
    · rw [hc] at hd
      cases hd
      exact hstarts.isSome (List.mem_filter.mpr ⟨hf, hstatic⟩)
  have hprogress : t.initialized[name]? = some .inProgress := by
    rw [hstarts.initialized]
    exact hs.waits List.mem_cons_self
  -- The statics are stored first, which settles what was pending for the class.
  rcases runInitializer_follows (c := c) hcall hprogram ho hname hheld hprogress with ⟨heq, hstate⟩
  rw [startSelf_of_startStatics (ht env), startSelf_of_startStatics (ht env'), heq]
  revert hstate
  cases runInitializer c name env t with
  | ok x w => exact fun hw => follows_of_eq (hw.1.done ho hname hw.2)
  | error fault w => exact fun hw => follows_of_eq hw

/-- The use of a class keeps the invariant if its superclass and its initializer do. -/
theorem useClass_follows (hu : u.Sound) (hclasses : env.program.classes = u)
    (hsuper : ∀ (parent : String) (o s : Machine), s.Held u since k v o (.start name :: pending) →
      Outcome.Follows False (fun t : Machine => t.Held u since k v o (.start name :: pending))
        (initClass parent env s) (initClass parent env' s))
    (hcall : ∀ (o s : Machine), s.Held u since k v o pending →
      Outcome.Follows False (fun t : Machine => t.Held u since k v o pending)
        (call (.bytecode (ClassFile.initializer.on name)) [] env s)
        (call (.bytecode (ClassFile.initializer.on name)) [] env' s))
    (hprogram : env'.program = env.program)
    (hs : s.Held u since k v o pending) :
    Outcome.Follows False (fun t : Machine => t.Held u since k v o pending)
      (useClass name env s) (useClass name env' s) := by
  cases hname : s.initialized[name]? with
  | some state =>
      cases state with
      | done =>
          rw [useClass_of_done hname, useClass_of_done hname]
          exact follows_of_eq hs
      | inProgress =>
          rw [useClass_of_inProgress hname, useClass_of_inProgress hname]
          exact follows_of_eq hs
      | failed =>
          rcases raise_eq (α := Unit) "java/lang/NoClassDefFoundError"
            (some ("Could not initialize class " ++ dotted name)) env s with ⟨r, heap, hraises⟩
          rw [useClass_of_failed hname, useClass_of_failed hname, raise_congr _ _ env' env, hraises]
          exact follows_of_eq (hs.of_eq rfl rfl rfl)
  | none =>
      have hfresh : .start name ∉ pending := fun hmem => by
        rw [hs.waits hmem] at hname
        cases hname
      -- What had begun when the comparison started has begun now, and this class has not.
      have ho : o.initialized[name]? = none := by
        cases ho : o.initialized[name]? with
        | none => rfl
        | some state => exact absurd (hs.kept ho) (by rw [hname]; nofun)
      have hbegin := hs.begin hname
      cases hc : u.class? name with
      | none =>
          rw [useClass_of_outside hname (by rw [hclasses, hc]),
            useClass_of_outside hname (by rw [hprogram, hclasses, hc])]
          exact follows_of_eq hs
      | some c =>
          rw [useClass_of_new hname (by rw [hclasses, hc]),
            useClass_of_new hname (by rw [hprogram, hclasses, hc])]
          have hself {t : Machine} (ht : t.Held u since k v o (.start name :: pending)) :=
            startSelf_follows hu hc hcall hprogram ho hfresh ht
          cases hparent : c.superName with
          | none =>
              rw [startClass_of_none hparent, startClass_of_none hparent]
              exact hself hbegin
          | some parent =>
              rcases (hsuper parent o _ hbegin).eq with ⟨heq, hstate⟩
              rw [startClass_of_some hparent, startClass_of_some hparent, heq]
              revert hstate
              cases initClass parent env _ with
              | ok x t => exact fun ht => hself ht
              | error fault t =>
                  intro ht
                  exact follows_of_eq (Machine.Held.failed (s := t) ht ho hfresh (.inr rfl))

/-- A class that is used is in progress or done if it is in the universe. -/
theorem progress_of_useClass {t : Machine} (hc : env.program.classes.class? name = some c)
    (h : useClass name env s = .ok () t) :
    t.initialized[name]? = some .inProgress ∨ t.initialized[name]? = some .done := by
  cases hname : s.initialized[name]? with
  | some state =>
      cases state with
      | done =>
          rw [useClass_of_done hname] at h
          cases h
          exact .inr hname
      | inProgress =>
          rw [useClass_of_inProgress hname] at h
          cases h
          exact .inl hname
      | failed =>
          rw [useClass_of_failed hname] at h
          exact absurd h raise_ne_ok
  | none =>
      -- The last thing an initialization does is to note that the class is done.
      have hself {w : Machine} (hself : startSelf c name env w = .ok () t) :
          t.initialized[name]? = some .done := by
        rcases bind_ok hself with ⟨_, _, _, hself⟩
        rcases bind_ok hself with ⟨_, _, _, hself⟩
        cases hself
        exact Std.HashMap.getElem?_insert_self
      rw [useClass_of_new hname hc] at h
      cases hparent : c.superName with
      | none =>
          rw [startClass_of_none hparent] at h
          exact .inr (hself h)
      | some parent =>
          rw [startClass_of_some hparent] at h
          split at h
          · exact .inr (hself h)
          · cases h

/-- A class that is used has begun if it is in the universe. -/
theorem begun_of_useClass {t : Machine} (hc : env.program.classes.class? name = some c)
    (h : useClass name env s = .ok () t) : (t.initialized[name]?).isSome = true := by
  rcases progress_of_useClass hc h with h | h
  all_goals
    rw [h]
    rfl

end Follows

end Emu

end JvmFold
