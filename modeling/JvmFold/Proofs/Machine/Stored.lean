import JvmFold.Proofs.ClassFile.Emission
import JvmFold.Proofs.Machine.Watching
import JvmFold.Proofs.Universe.Searches

/-!
# Static Fields That Have Values

When the initialization of a class begins, its superclass is initialized first,
and only then the fields of the class get the values they start with. In
between anything can run, the methods of the class included. So there are two
kinds of classes whose initialization has begun: those that wait for their
superclass, whose fields have no values yet, and all others, whose static
fields have values.

`Stored` says this of a state and of what is still going to be stored. `Held`
adds one field that keeps its value from some number of instructions on. Every
change that the machine makes to static fields or to the progress of a class is
stated here as a lemma about `Held`; that operations make no other changes is
known from the way they are put together.

## Main definitions

* `Universe.Sound`: Classes stand under their names and their constants are values.
* `Engine.Store.Targets`: Whether a field is going to be stored to.
* `Machine.Stored`: The classes that have begun and do not wait have values in their fields.
* `Machine.Held`: In addition, a field keeps its value.

## Theorems

* `Universe.Sound.insert`: A universe stays sound when a class is added.
* `Machine.Held.begin`, `Machine.Held.store`, `Machine.Held.done`, `Machine.Held.failed`: The steps
  of a class.
* `Machine.Held.tick`, `Machine.Held.write`: The steps of an instruction that writes.
-/

namespace JvmFold

/-- The classes stand under their own names, and the constants of their fields are values. -/
structure Universe.Sound (u : Universe) : Prop where
  name_eq : ∀ {name c}, u.class? name = some c → c.name = name
  constants : ∀ {name c}, u.class? name = some c → ∀ f ∈ c.fields, ∀ i, f.constant ≠ some (.pool i)

namespace Universe

variable {u : Universe}

/-- An empty universe is sound. -/
theorem sound_empty : ({} : Universe).Sound := by
  refine ⟨fun h => ?_, fun h => ?_⟩
  all_goals
    rw [class?_empty] at h
    cases h

-- So is one with a sound class more.
theorem Sound.place (h : u.Sound) {e : ClassEntry}
    (he : ∀ f ∈ e.outline.fields, ∀ i, f.constant ≠ some (.pool i)) : (u.place e).Sound := by
  have hclass {name : String} {c : ClassFile} (hc : (u.place e).class? name = some c) :
      c = e.outline ∧ name = e.outline.name ∨ u.class? name = some c := by
    rw [class?, entry?_place] at hc
    split at hc
    next hname =>
      cases hc
      exact .inl ⟨rfl, hname.symm⟩
    · exact .inr hc
  constructor
  · intro name c hc
    rcases hclass hc with ⟨rfl, rfl⟩ | hc
    · rfl
    · exact h.name_eq hc
  · intro name c hc
    rcases hclass hc with ⟨rfl, -⟩ | hc
    · exact he
    · exact h.constants hc

/-- A universe stays sound when a class is added. -/
theorem Sound.insert (h : u.Sound) {input : ClassInput} {primary : Bool} {v : Universe}
    (hv : u.insert input primary = .ok v) : v.Sound := by
  rcases except_bind_ok hv with ⟨e, he, hv⟩
  have hplace : (u.place e).Sound := by
    rcases except_bind_ok he with ⟨outline, houtline, he⟩
    cases he
    exact h.place (ClassFile.readable_of_parse houtline).values
  rcases eq_of_insertEntry hv with rfl | rfl
  · exact hplace
  · exact h

end Universe

/-- The owner of a field is a class of the universe. -/
theorem Universe.isSome_class?_of_fieldOwner? {u : Universe} {f : Member} {owner : String}
    (h : u.fieldOwner? f = some owner) : (u.class? owner).isSome = true := by
  -- The search may not end, so what it answers is told by partial correctness.
  have hsearch := fieldSearch.partial_correctness u f.signature
    (fun _ answer => ∀ owner ∈ answer, (u.class? owner).isSome = true)
  refine hsearch ?_ f.owner (some owner) (Option.join_eq_some_iff.mp h) owner rfl
  intro search ih name answer hanswer owner howner
  subst howner
  cases hc : u.class? name with
  | none =>
      rw [hc] at hanswer
      cases hanswer
  | some c =>
      rw [hc] at hanswer
      dsimp only at hanswer
      split at hanswer
      · cases hanswer
        rw [hc]
        rfl
      · rcases findSomeM?_eq_some.mp hanswer with ⟨-, link, -, -, -, hlink⟩
        exact ih link _ hlink owner rfl

/-- The field as the class that declares it names it. -/
def Universe.declaration? (u : Universe) (f : Member) : Option Member :=
  (u.fieldOwner? f).map f.withOwner

/-- Whether a field is going to be stored to. -/
def Engine.Store.Targets (u : Universe) (k : Member) : Engine.Store → Prop
  | .start name => k.owner = name
  | .write f => u.declaration? f = some k

/-- Whether the initialization of a class has begun and has not failed. -/
def Machine.HasBegun (s : Machine) (name : String) : Prop :=
  s.initialized[name]? = some .inProgress ∨ s.initialized[name]? = some .done

/-- The static fields of all classes that have begun and are not waiting for their superclass have
    values. -/
structure Machine.Stored (u : Universe) (pending : List Engine.Store) (s : Machine) : Prop where
  valued : ∀ {name c f}, u.class? name = some c → s.HasBegun name → .start name ∉ pending →
    f ∈ c.fields → f.isStatic = true → (s.statics[c.fieldMember f]?).isSome = true
  waits : ∀ {name}, .start name ∈ pending → s.initialized[name]? = some .inProgress
  begun : ∀ {k : Member}, (s.statics[k]?).isSome = true → (s.initialized[k.owner]?).isSome = true

/-- The static fields are stored, and from some number of instructions on a field has a value and is
    not going to be stored to. No class that had begun in the state `o` has come further since. -/
structure Machine.Held (u : Universe) (since : Nat → Prop) (k : Member) (v : Value) (s o : Machine)
    (pending : List Engine.Store) : Prop extends s.Stored u pending where
  held : since s.executed → s.statics[k]? = some v ∧ ∀ x ∈ pending, ¬x.Targets u k
  kept : ∀ {name : String} {state : InitState},
    o.initialized[name]? = some state → s.initialized[name]? = some state

namespace Machine

variable {u : Universe} {since : Nat → Prop} {k : Member} {v : Value} {o s t : Machine}
variable {pending : List Engine.Store}

/-- No class has begun at the start. -/
theorem stored_start (u : Universe) : ({} : Machine).Stored u [] := by
  have hinitialized (name : String) : ({} : Machine).initialized[name]? = none :=
    Std.HashMap.getElem?_empty
  have hstatics (key : Member) : ({} : Machine).statics[key]? = none :=
    Std.HashMap.getElem?_empty
  refine ⟨fun _ hbegun => ?_, fun hmem => absurd hmem List.not_mem_nil, fun hkey => ?_⟩
  · unfold HasBegun at hbegun
    rw [hinitialized] at hbegun
    rcases hbegun with hbegun | hbegun <;> cases hbegun
  · rw [hstatics] at hkey
    cases hkey

/-- Only static fields, the progress of classes and the count of instructions matter. -/
theorem Held.of_eq (h : s.Held u since k v o pending) (hstatics : t.statics = s.statics)
    (hinitialized : t.initialized = s.initialized) (hexecuted : t.executed = s.executed) :
    t.Held u since k v o pending := by
  rcases t with ⟨heap, statics, initialized, answers, executed⟩
  cases hstatics
  cases hinitialized
  cases hexecuted
  exact ⟨⟨h.valued, h.waits, h.begun⟩, h.held, h.kept⟩

/-- What holds of the statics lasts, as long as none is written. -/
theorem lasting_held : Emu.Lasting false (fun s : Machine => s.Held u since k v o pending) where
  heap := fun h _ => h.of_eq rfl rfl rfl
  statics := nofun
  initialized := nofun

/-- The classes that had begun earlier are among those that have begun now. -/
theorem Held.since_now (h : s.Held u since k v o pending) (ht : t.Held u since k v s pending) :
    t.Held u since k v o pending :=
  { ht with kept := fun ho => ht.kept (h.kept ho) }

/-- It can be looked at from any later machine. -/
theorem Held.from_now (h : s.Held u since k v o pending) : s.Held u since k v s pending :=
  { h with kept := id }

/-- A class begins and waits for its superclass. -/
theorem Held.begin (h : s.Held u since k v o pending) {name : String}
    (hname : s.initialized[name]? = none) :
    { s with initialized := s.initialized.insert name .inProgress : Machine }.Held u since k v o
      (.start name :: pending) := by
  -- The class was not touched before, so no other entry is lost.
  have hother {other : String} {state : InitState} (hother : s.initialized[other]? = some state) :
      (s.initialized.insert name .inProgress)[other]? = some state := by
    rw [Std.HashMap.getElem?_insert, if_neg fun heq => ?_, hother]
    rw [← eq_of_beq heq, hname] at hother
    cases hother
  refine { valued := ?valued, waits := ?waits, begun := ?begun, held := ?held,
           kept := fun ho => hother (h.kept ho) }
  case valued =>
    intro other c f hc hbegun hpending hf hstatic
    rcases not_or.mp (fun h => hpending (List.mem_cons.mpr h)) with ⟨hne, hpending⟩
    have hne : ¬(name == other) = true := fun heq => hne (by rw [eq_of_beq heq])
    refine h.valued hc ?_ hpending hf hstatic
    unfold HasBegun at hbegun ⊢
    simpa only [Std.HashMap.getElem?_insert, if_neg hne] using hbegun
  case waits =>
    intro other hpending
    rcases List.mem_cons.mp hpending with heq | hpending
    · cases heq
      exact Std.HashMap.getElem?_insert_self
    · exact hother (h.waits hpending)
  case begun =>
    intro key hkey
    rcases Option.isSome_iff_exists.mp (h.begun hkey) with ⟨state, hstate⟩
    rw [hother hstate]
    rfl
  case held =>
    intro hsince
    rcases h.held hsince with ⟨hvalue, htargets⟩
    refine ⟨hvalue, List.forall_mem_cons.mpr ⟨fun heq => ?_, htargets⟩⟩
    have hbegun := h.begun (k := k) (by rw [hvalue]; rfl)
    change k.owner = name at heq
    rw [heq, hname] at hbegun
    cases hbegun

/-- A class that was not touched before comes further. Its fields have values unless it fails. -/
theorem Held.setInitState {waiting : List Engine.Store} (h : s.Held u since k v o waiting)
    {name : String} {state : InitState} (ho : o.initialized[name]? = none)
    (hname : .start name ∉ pending)
    (hwaiting : waiting = pending ∨ waiting = .start name :: pending)
    (hvalued : state ≠ .failed → ∀ {c f}, u.class? name = some c → f ∈ c.fields →
      f.isStatic = true → (s.statics[c.fieldMember f]?).isSome = true) :
    { s with initialized := s.initialized.insert name state : Machine }.Held u since k v o
      pending := by
  have hother {other : String} (hne : other ≠ name) :
      (s.initialized.insert name state)[other]? = s.initialized[other]? := by
    rw [Std.HashMap.getElem?_insert, if_neg fun heq => hne (eq_of_beq heq).symm]
  -- The two lists of stores differ in the start of this class at most.
  have hmore {x : Engine.Store} (hx : x ∈ pending) : x ∈ waiting := by
    rcases hwaiting with rfl | rfl
    · exact hx
    · exact List.mem_cons_of_mem _ hx
  have hless {x : Engine.Store} (hx : x ∈ waiting) : x ∈ pending ∨ x = .start name := by
    rcases hwaiting with rfl | rfl
    · exact .inl hx
    · exact (List.mem_cons.mp hx).symm
  refine { valued := ?valued, waits := ?waits, begun := ?begun, held := ?held, kept := ?kept }
  case valued =>
    intro other c f hc hbegun hpending hf hstatic
    by_cases heq : other = name
    · subst heq
      refine hvalued ?_ hc hf hstatic
      rintro rfl
      unfold HasBegun at hbegun
      rw [Std.HashMap.getElem?_insert_self] at hbegun
      rcases hbegun with hbegun | hbegun <;> cases hbegun
    · refine h.valued hc ?_ (fun hmem => ?_) hf hstatic
      · unfold HasBegun at hbegun ⊢
        rwa [hother heq] at hbegun
      · rcases hless hmem with hmem | hmem
        · exact hpending hmem
        · cases hmem
          exact heq rfl
  case waits =>
    intro other hpending
    have hne : other ≠ name := fun heq => hname (heq ▸ hpending)
    rw [hother hne]
    exact h.waits (hmore hpending)
  case begun =>
    intro key hkey
    change ((s.initialized.insert name state)[key.owner]?).isSome = true
    rw [Std.HashMap.getElem?_insert]
    split
    · rfl
    · exact h.begun hkey
  case held =>
    intro hsince
    rcases h.held hsince with ⟨hvalue, htargets⟩
    exact ⟨hvalue, fun x hx => htargets x (hmore hx)⟩
  case kept =>
    intro other found hfound
    have hne : other ≠ name := by
      rintro rfl
      rw [ho] at hfound
      cases hfound
    rw [hother hne]
    exact h.kept hfound

/-- A class in progress whose fields have values is done. -/
theorem Held.done (h : s.Held u since k v o pending) {name : String}
    (ho : o.initialized[name]? = none) (hname : .start name ∉ pending)
    (hprogress : s.initialized[name]? = some .inProgress) :
    { s with initialized := s.initialized.insert name .done : Machine }.Held u since k v o
      pending :=
  h.setInitState ho hname (.inl rfl) fun _ _ _ hc hf hstatic =>
    h.valued hc (.inl hprogress) hname hf hstatic

/-- A class has failed, whether it was still waiting or not. -/
theorem Held.failed {waiting : List Engine.Store} (h : s.Held u since k v o waiting)
    {name : String} (ho : o.initialized[name]? = none) (hname : .start name ∉ pending)
    (hwaiting : waiting = pending ∨ waiting = .start name :: pending) :
    { s with initialized := s.initialized.insert name .failed : Machine }.Held u since k v o
      pending :=
  h.setInitState ho hname hwaiting fun hne => absurd rfl hne

/-- The fields of a class that has waited get values, and no others change. -/
theorem Held.store {name : String} (h : s.Held u since k v o (.start name :: pending))
    (hstatics : ∀ key : Member, key.owner ≠ name → t.statics[key]? = s.statics[key]?)
    (hvalued : ∀ {c f}, u.class? name = some c → f ∈ c.fields → f.isStatic = true →
      (t.statics[c.fieldMember f]?).isSome = true)
    (hinitialized : t.initialized = s.initialized) (hexecuted : t.executed = s.executed)
    (hu : u.Sound) : t.Held u since k v o pending := by
  have hwaits : s.initialized[name]? = some .inProgress := h.waits List.mem_cons_self
  refine { valued := ?valued, waits := ?waits, begun := ?begun, held := ?held, kept := ?kept }
  case valued =>
    intro other c f hc hbegun hpending hf hstatic
    by_cases heq : other = name
    · subst heq
      exact hvalued hc hf hstatic
    · -- The other classes have kept their fields.
      have howner : (c.fieldMember f).owner ≠ name := fun howner =>
        heq ((hu.name_eq hc).symm.trans howner)
      rw [hstatics _ howner]
      have hother : .start other ∉ .start name :: pending :=
        List.not_mem_cons_of_ne_of_not_mem (fun hstart => heq (by cases hstart; rfl)) hpending
      refine h.valued hc ?_ hother hf hstatic
      unfold HasBegun at hbegun ⊢
      rwa [hinitialized] at hbegun
  case waits =>
    intro other hpending
    rw [hinitialized]
    exact h.waits (List.mem_cons_of_mem _ hpending)
  case begun =>
    intro key hkey
    rw [hinitialized]
    by_cases howner : key.owner = name
    · rw [howner, hwaits]
      rfl
    · rw [hstatics key howner] at hkey
      exact h.begun hkey
  case held =>
    intro hsince
    rw [hexecuted] at hsince
    rcases h.held hsince with ⟨hvalue, htargets⟩
    rcases List.forall_mem_cons.mp htargets with ⟨howner, htargets⟩
    refine ⟨?_, htargets⟩
    rw [hstatics k howner]
    exact hvalue
  case kept =>
    intro other found hfound
    rw [hinitialized]
    exact h.kept hfound

/-- An instruction writes the field that it was going to write. -/
theorem Held.write {f key : Member} (h : s.Held u since k v o (.write f :: pending))
    (hkey : u.declaration? f = some key) (hbegun : (s.initialized[key.owner]?).isSome = true)
    (w : Value) :
    { s with statics := s.statics.insert key w : Machine }.Held u since k v o pending := by
  refine { valued := ?valued, waits := ?waits, begun := ?begun, held := ?held, kept := h.kept }
  case valued =>
    intro other c g hc hother hpending hg hstatic
    have hvalue := h.valued hc hother (List.not_mem_cons_of_ne_of_not_mem nofun hpending) hg hstatic
    change ((s.statics.insert key w)[_]?).isSome = true
    rw [Std.HashMap.getElem?_insert]
    split
    · rfl
    · exact hvalue
  case waits =>
    exact fun hpending => h.waits (List.mem_cons_of_mem _ hpending)
  case begun =>
    intro other hother
    change ((s.statics.insert key w)[other]?).isSome = true at hother
    rw [Std.HashMap.getElem?_insert] at hother
    split at hother
    next heq =>
      rw [← eq_of_beq heq]
      exact hbegun
    · exact h.begun hother
  case held =>
    intro hsince
    rcases h.held hsince with ⟨hvalue, htargets⟩
    rcases List.forall_mem_cons.mp htargets with ⟨htarget, htargets⟩
    refine ⟨?_, htargets⟩
    change (s.statics.insert key w)[k]? = some v
    rw [Std.HashMap.getElem?_insert, if_neg fun heq => ?_, hvalue]
    -- The field that is held is none that this instruction was going to write.
    exact htarget (hkey.trans (by rw [eq_of_beq heq]))

/-- An instruction has ended without writing its field. -/
theorem Held.drop {f : Member} (h : s.Held u since k v o (.write f :: pending)) :
    s.Held u since k v o pending where
  valued := fun hc hbegun hpending =>
    h.valued hc hbegun (List.not_mem_cons_of_ne_of_not_mem nofun hpending)
  waits := fun hpending => h.waits (List.mem_cons_of_mem _ hpending)
  begun := h.begun
  held := fun hsince => ⟨(h.held hsince).1, (List.forall_mem_cons.mp (h.held hsince).2).2⟩
  kept := h.kept

/-- An instruction has ended. -/
theorem Held.after {i : Option Instruction}
    (h : s.Held u since k v o (Engine.pendingDuring pending i)) : s.Held u since k v o pending := by
  unfold Engine.pendingDuring at h
  cases hi : i.bind Instruction.staticWrite? with
  | none => rwa [hi] at h
  | some f =>
      rw [hi] at h
      exact h.drop

/-- An instruction is counted and is in progress from now on. -/
theorem Held.tick (h : s.Held u since k v o pending) (i : Instruction)
    (hheld : since s.ticked.executed →
      s.statics[k]? = some v ∧ ∀ x ∈ Engine.pendingDuring pending (some i), ¬x.Targets u k) :
    s.ticked.Held u since k v o (Engine.pendingDuring pending (some i)) where
  valued := fun hc hbegun hpending =>
    h.valued hc hbegun fun hmem => hpending (List.mem_append_right _ hmem)
  waits := by
    intro name hmem
    rcases List.mem_append.mp hmem with hmem | hmem
    · rcases Option.map_eq_some_iff.mp (Option.mem_toList.mp hmem) with ⟨f, -, hf⟩
      cases hf
    · exact h.waits hmem
  begun := h.begun
  held := hheld
  kept := h.kept

end Machine

end JvmFold
