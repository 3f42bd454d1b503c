import JvmFold.Proofs.Machine.Starting

/-!
# Static Fields Throughout a Run

The fields of a class can be read at every point of a run at which the class has
begun and does not wait for its superclass. A class that waits is the exception:
its fields cannot be read, and what is written to them is lost when they get the
values they start with. Apart from that a field keeps its value from each
instruction to the next one that writes it.

Both statements are about all points of a run, so they are carried through it by
`Held`: an instruction that writes keeps it, every other instruction changes
static fields only through the tasks that it runs, and a task keeps it if all
tasks below it do. The induction is on the levels that a task is allowed.

## Main definitions

* `Engine.Point.Readable`: The fields of classes that do not wait can be read.
* `Engine.Watch.Until`: A run that is stopped before a field is written.

## Theorems

* `Engine.held_watched`: Every task keeps the invariant.
* `Engine.getStatic_of_waiting`: The fields of a class that waits cannot be read.
* `Engine.statics_kept`: Where the fields can be read, and how long they keep their values.
-/

namespace JvmFold

namespace Emu

section Follows

variable {u : Universe} {since : Nat → Prop} {k : Member} {v : Value} {o s : Machine}
variable {pending : List Engine.Store} {env env' : Env} {c : ClassFile}

/-- Writing a field keeps the invariant if the initialization of its class does. -/
theorem putStatic_follows {f : Member} (w : Value) (hclasses : env.program.classes = u)
    (hclasses' : env'.program.classes = u)
    (hfollows : env.Follows False
      (fun t : Machine => t.Held u since k v o (.write f :: pending)) env')
    (hbegins : ∀ {owner t}, (u.class? owner).isSome = true → initClass owner env s = .ok () t →
      (t.initialized[owner]?).isSome = true)
    (hs : s.Held u since k v o (.write f :: pending)) :
    Outcome.Follows False (fun t : Machine => t.Held u since k v o pending)
      (putStatic f w env s) (putStatic f w env' s) := by
  subst hclasses
  cases howner : env.program.classes.fieldOwner? f with
  | none =>
      rw [putStatic_of_none howner, putStatic_of_none (by rw [hclasses', howner])]
      exact follows_of_eq hs.drop
  | some owner =>
      have howner' : env'.program.classes.fieldOwner? f = some owner := by rw [hclasses', howner]
      have hcomposed : Composed false (initClass owner) := inferInstance
      -- The class is initialized first, while the field is still to be written.
      rcases (hcomposed.follows Machine.lasting_held hfollows s hs).eq with ⟨heq, hstate⟩
      cases hinit : initClass owner env s with
      | ok x t =>
          rw [hinit] at heq hstate
          rw [putStatic_of_initClass howner hinit, putStatic_of_initClass howner' heq]
          refine follows_of_eq (Machine.Held.write (s := t) hstate ?_ ?_ w)
          · unfold Universe.declaration?
            rw [howner]
            rfl
          · exact hbegins (Universe.isSome_class?_of_fieldOwner? howner) hinit
      | error fault t =>
          rw [hinit] at heq hstate
          rw [putStatic_of_initClass_error howner hinit,
            putStatic_of_initClass_error howner' heq]
          exact follows_of_eq (Machine.Held.drop (s := t) hstate)

/-- An instruction keeps the invariant if the parts of the program that it runs do. -/
theorem step_follows (i : Instruction) (a : Activation) (hclasses : env.program.classes = u)
    (hclasses' : env'.program.classes = u)
    (hfollows : env.Follows False
      (fun t : Machine => t.Held u since k v o (Engine.pendingDuring pending (some i))) env')
    (hbegins : ∀ {owner s t}, (u.class? owner).isSome = true → initClass owner env s = .ok () t →
      (t.initialized[owner]?).isSome = true)
    (hs : s.Held u since k v o (Engine.pendingDuring pending (some i))) :
    Outcome.Follows False (fun t : Machine => t.Held u since k v o pending)
      (step c i a env s) (step c i a env' s) := by
  cases hwrite : i.staticWrite? with
  | none =>
      -- An instruction that writes no static field leaves what is pending as it is.
      have hpending : Engine.pendingDuring pending (some i) = pending := by
        unfold Engine.pendingDuring
        rw [Option.bind_some, hwrite]
        rfl
      rw [hpending] at hs hfollows
      exact (composed_step c (fun _ => hwrite) a).follows Machine.lasting_held hfollows s hs
  | some f =>
      rcases Instruction.eq_of_staticWrite? hwrite with rfl
      cases hpop : Stack.pop a.stack with
      | error fault =>
          rw [step_putstatic_of_error hpop, step_putstatic_of_error hpop]
          exact follows_of_eq hs.drop
      | ok x =>
          rw [step_putstatic hpop, bind_apply, bind_apply]
          rcases (putStatic_follows x.1 hclasses hclasses' hfollows hbegins hs).eq with
            ⟨heq, hstate⟩
          rw [heq]
          revert hstate
          cases putStatic f x.1 env s with
          | ok _ t => exact fun ht => follows_of_eq ht
          | error fault t => exact fun ht => follows_of_eq ht

/-- So does an instruction in its place, when it has been counted. -/
theorem advance_follows {p : Prepared} {position : Nat} (a : Activation)
    (hclasses : env.program.classes = u) (hclasses' : env'.program.classes = u)
    (hlimits : env.limits = env'.limits)
    (hfollows : env.Follows False (fun t : Machine =>
      t.Held u since k v o (Engine.pendingDuring pending (Engine.instructionAt? p position))) env')
    (hbegins : ∀ {owner s t}, (u.class? owner).isSome = true → initClass owner env s = .ok () t →
      (t.initialized[owner]?).isSome = true)
    (hs : s.Held u since k v o pending)
    (hticked : ∀ i, Engine.instructionAt? p position = some i →
      s.ticked.Held u since k v o (Engine.pendingDuring pending (some i))) :
    Outcome.Follows False (fun t : Machine => t.Held u since k v o pending)
      (advance p a position env s) (advance p a position env' s) := by
  cases hget : p.code[position]? with
  | none =>
      rw [advance_end hget, advance_end hget]
      exact follows_of_eq hs
  | some i =>
      cases hi : i.isPseudo with
      | true =>
          rw [advance_mark hget hi, advance_mark hget hi]
          exact follows_of_eq hs
      | false =>
          have hat : Engine.instructionAt? p position = some i := by
            unfold Engine.instructionAt?
            rw [hget, Option.filter_some, hi]
            rfl
          have hticked := hticked i hat
          rw [hat] at hfollows
          have htick : tick env' s = tick env s := (tick_congr hlimits s).symm
          -- Where the method goes on depends on the universe only, and that is the same.
          have hresume (r : Outcome Flow) :
              p.resume a position env' r = p.resume a position env r := by
            unfold Prepared.resume
            rw [hclasses, hclasses']
            split
            · exact lift_congr _ env' env _
            · rfl
            · rfl
          rw [advance_real hget hi, advance_real hget hi, htick]
          rcases tick_cases env s with h | ⟨fault, h⟩
          · rcases (step_follows (c := p.owner) i a hclasses hclasses' hfollows hbegins hticked).eq
              with ⟨heq, hstate⟩
            rw [h]
            dsimp only
            rw [heq, hresume]
            refine follows_of_eq ?_
            rw [state_resume]
            exact hstate
          · rw [h]
            exact follows_of_eq (Machine.Held.after hticked)

end Follows

end Emu

namespace Engine

section Held

variable {u : Universe} {since : Nat → Prop} {k : Member} {v : Value}

/-- Environments for what is going to be stored, in which the parts of the program keep the
    invariant. -/
structure Guides (u : Universe) (since : Nat → Prop) (k : Member) (v : Value)
    (enter enter' : List Store → Env) : Prop where
  classes : ∀ pending, (enter pending).program.classes = u
  classes' : ∀ pending, (enter' pending).program.classes = u
  follows : ∀ pending o, (enter pending).Follows False
    (fun t : Machine => t.Held u since k v o pending) (enter' pending)
  begins : ∀ pending {owner s t}, (u.class? owner).isSome = true →
    Emu.initClass owner (enter pending) s = .ok () t → (t.initialized[owner]?).isSome = true

variable {watch stop : Watch}

/-- A method keeps the invariant if nothing else stops it than what is watched for. -/
theorem watchedExecute_follows {enter enter' : List Store → Env}
    (henter : Guides u since k v enter enter')
    (hwatch : ∀ {pending i} {s o : Machine}, s.Held u since k v o pending →
      watch ⟨pending, i, s⟩ = stop ⟨pending, i, s⟩)
    (hstop : ∀ {pending i} {s o : Machine}, s.Held u since k v o pending →
      stop ⟨pending, some i, s⟩ = none →
        s.ticked.Held u since k v o (pendingDuring pending (some i)))
    (m : Prepared) {o : Machine} {pending : List Store} (steps : Nat) (a : Activation)
    (position : Nat) (s : Machine) (hs : s.Held u since k v o pending) :
    Emu.Outcome.Follows False (fun t : Machine => t.Held u since k v o pending)
      (watchedExecute stop enter pending m steps a position s)
      (watchedExecute watch enter' pending m steps a position s) := by
  induction steps generalizing a position s with
  | zero => exact Emu.follows_of_eq hs
  | succ steps ih =>
      rw [watchedExecute, watchedExecute, hwatch hs]
      cases hstopped : stop ⟨pending, instructionAt? m position, s⟩ with
      | some fault => exact Emu.follows_of_eq hs
      | none =>
          -- The watch has let the instruction through, so the invariant holds while it is carried
          -- out.
          have hticked (i : Instruction) (hi : instructionAt? m position = some i) :
              s.ticked.Held u since k v o (pendingDuring pending (some i)) := by
            rw [hi] at hstopped
            exact hstop hs hstopped
          have hfollows := henter.follows (pendingDuring pending (instructionAt? m position)) o
          rcases (Emu.advance_follows a (henter.classes _) (henter.classes' _) hfollows.limits
            hfollows (henter.begins _) hs hticked).eq with ⟨heq, hstate⟩
          rw [heq]
          revert hstate
          cases Emu.advance m a position _ s with
          | error fault t => exact fun ht => Emu.follows_of_eq ht
          | ok progress t =>
              cases progress with
              | finished x => exact fun ht => Emu.follows_of_eq ht
              | running b next => exact fun ht => ih b next t ht

/-- How everything below a task is run, with the invariant kept. -/
structure Dispatches (u : Universe) (since : Nat → Prop) (k : Member) (v : Value)
    (dispatch dispatch' : List Store → Nat → Task → Machine → Emu.Outcome (Option Value)) :
    Prop where
  follows : ∀ {pending o s} depth task, Machine.Held u since k v s o pending →
    Emu.Outcome.Follows False (fun t : Machine => t.Held u since k v o pending)
      (dispatch pending depth task s) (dispatch' pending depth task s)
  begins : ∀ {pending depth owner s x t}, (u.class? owner).isSome = true →
    dispatch pending depth (.initClass owner) s = .ok x t → (t.initialized[owner]?).isSome = true

variable {p : Program} {limits : Limits}
variable {dispatch dispatch' : List Store → Nat → Task → Machine → Emu.Outcome (Option Value)}

/-- Initializing a class is a task one level down. -/
theorem initClass_beneath (task : Task) (depth : Nat) (pending : List Store) (name : String)
    (s : Machine) :
    Emu.initClass name (beneath p limits dispatch task depth pending) s =
      match dispatch (pendingWithin pending task (.initClass name)) depth (.initClass name) s with
      | .ok _ t => .ok () t
      | .error fault t => .error fault t := by
  have hrun : Emu.run (.initClass name) (beneath p limits dispatch task depth pending) s =
      dispatch (pendingWithin pending task (.initClass name)) depth (.initClass name) s := rfl
  unfold Emu.initClass
  rw [Emu.bind_apply, hrun]
  cases dispatch (pendingWithin pending task (.initClass name)) depth (.initClass name) s <;> rfl

/-- It keeps the statics if the tasks below do. -/
theorem initClass_follows (hdispatch : Dispatches u since k v dispatch dispatch') (task : Task)
    (depth : Nat) {pending : List Store} (name : String) {o s : Machine}
    (hs : s.Held u since k v o (pendingWithin pending task (.initClass name))) :
    Emu.Outcome.Follows False
      (fun t : Machine => t.Held u since k v o (pendingWithin pending task (.initClass name)))
      (Emu.initClass name (beneath p limits dispatch task depth pending) s)
      (Emu.initClass name (beneath p limits dispatch' task depth pending) s) := by
  rcases (hdispatch.follows depth (.initClass name) hs).eq with ⟨heq, hstate⟩
  rw [initClass_beneath, initClass_beneath, heq]
  revert hstate
  cases dispatch _ depth (.initClass name) s with
  | ok x t => exact fun ht => Emu.follows_of_eq ht
  | error fault t => exact fun ht => Emu.follows_of_eq ht

/-- A call leaves what is going to be stored to the instructions. -/
theorem guides_beneath (hp : p.classes = u) (hdispatch : Dispatches u since k v dispatch dispatch')
    (target : Target) (arguments : List Value) (depth : Nat) :
    Guides u since k v (beneath p limits dispatch (.call target arguments) depth)
      (beneath p limits dispatch' (.call target arguments) depth) where
  classes := fun _ => hp
  classes' := fun _ => hp
  follows := fun _ _ => ⟨⟨Universe.alike_refl _, rfl, rfl⟩, rfl, fun depth task _ hs =>
    hdispatch.follows depth task hs⟩
  begins := by
    intro pending owner s t howner hinit
    rw [initClass_beneath] at hinit
    split at hinit
    next hdispatched =>
      cases hinit
      exact hdispatch.begins howner hdispatched
    · cases hinit

/-- A task keeps the invariant if everything below it does. -/
theorem watchedTask_follows (hu : u.Sound) (hp : p.classes = u)
    (hdispatch : Dispatches u since k v dispatch dispatch')
    (hwatch : ∀ {pending i} {s o : Machine}, s.Held u since k v o pending →
      watch ⟨pending, i, s⟩ = stop ⟨pending, i, s⟩)
    (hstop : ∀ {pending i} {s o : Machine}, s.Held u since k v o pending →
      stop ⟨pending, some i, s⟩ = none →
        s.ticked.Held u since k v o (pendingDuring pending (some i)))
    (depth : Nat) (task : Task) {o s : Machine} {pending : List Store}
    (hs : s.Held u since k v o pending) :
    Emu.Outcome.Follows False (fun t : Machine => t.Held u since k v o pending)
      (watchedTask stop p limits dispatch depth pending task s)
      (watchedTask watch p limits dispatch' depth pending task s) := by
  unfold watchedTask
  dsimp only
  -- A class is used or a method is called, each one level down.
  cases task with
  | initClass name =>
      have huse : Emu.Outcome.Follows False (fun t : Machine => t.Held u since k v o pending)
          (Emu.useClass name (beneath p limits dispatch (.initClass name) depth pending) s)
          (Emu.useClass name (beneath p limits dispatch' (.initClass name) depth pending) s) :=
        Emu.useClass_follows hu hp
          (fun parent o s hs => initClass_follows hdispatch (.initClass name) depth parent hs)
          (fun o s hs => hdispatch.follows depth _ hs)
          rfl hs
      rcases huse.eq with ⟨heq, hstate⟩
      dsimp only
      rw [heq]
      revert hstate
      cases Emu.useClass name _ s with
      | ok x t => exact fun ht => Emu.follows_of_eq ht
      | error fault t => exact fun ht => Emu.follows_of_eq ht
  | call target arguments =>
      have hguides (depth : Nat) : Guides u since k v
          (beneath p limits dispatch (.call target arguments) depth)
          (beneath p limits dispatch' (.call target arguments) depth) :=
        guides_beneath hp hdispatch target arguments depth
      have hcomposed {x : Emu (Option Value)} (depth : Nat) (hx : Emu.Composed false x) :
          Emu.Outcome.Follows False (fun t : Machine => t.Held u since k v o pending)
            (x (beneath p limits dispatch (.call target arguments) depth pending) s)
            (x (beneath p limits dispatch' (.call target arguments) depth pending) s) :=
        hx.follows Machine.lasting_held ((hguides depth).follows pending o) s hs
      dsimp only
      split
      · exact hcomposed depth inferInstance
      · cases target with
        | native m =>
            dsimp only
            split
            next native hnative =>
              exact hcomposed (depth + 1) (Natives.composed_find? hnative arguments)
            · exact Emu.follows_of_eq hs
        | bytecode m =>
            dsimp only
            split
            · exact Emu.follows_of_eq hs
            · exact watchedExecute_follows (hguides (depth + 1)) hwatch hstop _ _ _ _ _ hs

/-- A class has begun when the task that initializes it has ended well. -/
theorem begun_of_watched (hp : p.classes = u) (levels : Nat) {pending : List Store} {depth : Nat}
    {owner : String} {s t : Machine} {x : Option Value} (howner : (u.class? owner).isSome = true)
    (h : watched stop p limits levels pending depth (.initClass owner) s = .ok x t) :
    (t.initialized[owner]?).isSome = true := by
  rcases Option.isSome_iff_exists.mp howner with ⟨c, hc⟩
  -- Without a level nothing is run; on one the class is used.
  cases levels with
  | zero => cases h
  | succ levels =>
      rw [watched] at h
      split at h
      · cases h
      · dsimp only at h
        split at h
        · cases h
        · unfold watchedTask at h
          dsimp only at h
          split at h
          next huse =>
            cases h
            exact Emu.begun_of_useClass (by rw [← hp] at hc; exact hc) huse
          · cases h

/-- Every task keeps the invariant, whatever else stops it, if only where the invariant does not
    hold. -/
theorem held_watched (hu : u.Sound) (hp : p.classes = u)
    (hwatch : ∀ {pending i} {s o : Machine}, s.Held u since k v o pending →
      watch ⟨pending, i, s⟩ = stop ⟨pending, i, s⟩)
    (hstop : ∀ {pending i} {s o : Machine}, s.Held u since k v o pending →
      stop ⟨pending, some i, s⟩ = none →
        s.ticked.Held u since k v o (pendingDuring pending (some i)))
    (levels depth : Nat) (task : Task) {o s : Machine} {pending : List Store}
    (hs : s.Held u since k v o pending) :
    Emu.Outcome.Follows False (fun t : Machine => t.Held u since k v o pending)
      (watched stop p limits levels pending depth task s)
      (watched watch p limits levels pending depth task s) := by
  -- The induction is on the levels; what is pending above is known below.
  induction levels generalizing depth task o s pending with
  | zero => exact Emu.follows_of_eq hs
  | succ levels ih =>
      have hdispatch : Dispatches u since k v (watched stop p limits levels)
          (watched watch p limits levels) :=
        ⟨fun depth task hs => ih depth task hs, fun howner h => begun_of_watched hp levels howner h⟩
      rw [watched, watched, hwatch hs]
      cases stop ⟨pending, none, s⟩ with
      | some fault => exact Emu.follows_of_eq hs
      | none =>
          rcases (watchedTask_follows hu hp hdispatch hwatch hstop depth task hs).eq with
            ⟨heq, hstate⟩
          dsimp only
          rw [heq, hwatch hstate]
          cases stop _ with
          | some fault => exact Emu.follows_of_eq hstate
          | none => exact Emu.follows_of_eq hstate

end Held

section Statics

variable {u : Universe} {p : Program} {limits : Limits}

/-- A static field of a class that has begun and does not wait can be read, and that changes
    nothing. -/
theorem getStatic_of_stored (hu : p.classes.Sound) {pending : List Store} {s : Machine}
    (hs : s.Stored p.classes pending) {f : Member} {owner : String} {c : ClassFile} {g : Field}
    (howner : p.classes.fieldOwner? f = some owner) (hc : p.classes.class? owner = some c)
    (hg : g ∈ c.fields) (hstatic : g.isStatic = true) (hsignature : g.signature = f.signature)
    (hbegun : s.HasBegun owner) (hwaits : .start owner ∉ pending) :
    ∃ v, s.statics[f.withOwner owner]? = some v ∧ ∀ levels depth,
      Emu.getStatic f (inside p limits (levels + 1) depth) s = .ok v s := by
  have hkey : c.fieldMember g = f.withOwner owner := by
    change g.signature.on c.name = f.signature.on owner
    rw [hsignature, hu.name_eq hc]
  rcases Option.isSome_iff_exists.mp (hs.valued hc hbegun hwaits hg hstatic) with ⟨v, hv⟩
  rw [hkey] at hv
  refine ⟨v, hv, fun levels depth => Emu.getStatic_of_initClass howner ?_ hv⟩
  rw [Emu.initClass_eq]
  rcases hbegun with hbegun | hbegun
  · rw [Emu.useClass_of_inProgress hbegun]
  · rw [Emu.useClass_of_done hbegun]

/-- A class that has just begun waits for its superclass, and its fields cannot be read. -/
theorem getStatic_of_waiting {pending : List Store} {s : Machine} (hs : s.Stored p.classes pending)
    {f : Member} {owner : String} (howner : p.classes.fieldOwner? f = some owner)
    (hnew : s.initialized[owner]? = none) (levels depth : Nat) :
    Emu.getStatic f (inside p limits (levels + 1) depth)
        { s with initialized := s.initialized.insert owner .inProgress } =
      .error (.noSuchField (f.withOwner owner))
        { s with initialized := s.initialized.insert owner .inProgress } := by
  have hnone : s.statics[f.withOwner owner]? = none := by
    cases hvalue : s.statics[f.withOwner owner]? with
    | none => rfl
    | some v =>
        have hbegun := hs.begun (k := f.withOwner owner) (by rw [hvalue]; rfl)
        change (s.initialized[owner]?).isSome = true at hbegun
        rw [hnew] at hbegun
        cases hbegun
  refine Emu.getStatic_of_missing howner ?_ hnone
  rw [Emu.initClass_eq, Emu.useClass_of_inProgress Std.HashMap.getElem?_insert_self]

/-- A run that is stopped at an instruction unless a field has a value there and is not going to be
    stored to, and afterwards before every instruction that writes the field. -/
structure Watch.Until (stop : Watch) (u : Universe) (n : Nat) (k : Member) (v : Value) : Prop where
  value : ∀ {point i}, point.instruction = some i → stop point = none → point.state.executed = n →
    point.state.statics[k]? = some v ∧ ∀ x ∈ point.pending, ¬x.Targets u k
  write : ∀ {point i f}, point.instruction = some i → stop point = none →
    n ≤ point.state.executed → i.staticWrite? = some f → u.declaration? f ≠ some k

/-- The static fields of the classes that have begun and do not wait for their superclass can be
    read, and reading changes nothing. -/
def Point.Readable (p : Program) (limits : Limits) (point : Point) : Prop :=
  ∀ {f owner c}, p.classes.fieldOwner? f = some owner → p.classes.class? owner = some c →
    (∃ g ∈ c.fields, g.isStatic = true ∧ g.signature = f.signature) →
    point.state.HasBegun owner → .start owner ∉ point.pending →
    ∃ v, point.state.statics[f.withOwner owner]? = some v ∧ ∀ levels depth,
      Emu.getStatic f (inside p limits (levels + 1) depth) point.state = .ok v point.state

/-- At every point of a run the fields of the classes that do not wait can be read, and the run
    leaves such a state. From one instruction on a field keeps its value until an instruction writes
    it, unless it was going to be stored to. -/
theorem statics_kept (hu : p.classes.Sound) (levels depth : Nat) (task : Task)
    {pending : List Store} {s : Machine} (hs : s.Stored p.classes pending) :
    Always p limits (fun _ => none) levels pending depth task s (Point.Readable p limits) ∧
    (Emu.Outcome.state (run p limits levels depth task s)).Stored p.classes pending ∧
    ∀ {n k v} {stop : Watch}, s.executed ≤ n → stop.Until p.classes n k v →
      Always p limits stop levels pending depth task s fun point =>
        n < point.state.executed → point.state.statics[k]? = some v := by
  have hany {watch : Watch} (hwatch : ∀ point, point.Readable p limits → watch point = none) :
      Emu.Outcome.Follows False (fun t : Machine =>
        t.Held p.classes (fun _ => False) ⟨"", "", ""⟩ .null s pending)
        (watched (fun _ => none) p limits levels pending depth task s)
        (watched watch p limits levels pending depth task s) := by
    refine held_watched hu rfl (fun ht => hwatch _ ?_) (fun ht _ => ht.tick _ False.elim) levels
      depth task ⟨hs, False.elim, id⟩
    rintro f owner c howner hc ⟨g, hg, hstatic, hsignature⟩ hbegun hwaits
    exact getStatic_of_stored hu ht.toStored howner hc hg hstatic hsignature hbegun hwaits
  refine ⟨fun watch hwatch => (hany hwatch).eq.1, ?_, ?_⟩
  · have hheld := (hany fun _ _ => rfl).eq.2
    rw [watched_none] at hheld
    exact hheld.toStored
  · intro n k v stop hn hstop watch hwatch
    have hheld : s.Held p.classes (n < ·) k v s pending :=
      ⟨hs, fun hlt => absurd hlt (Nat.not_lt.mpr hn), id⟩
    refine (held_watched hu rfl (fun ht => hwatch _ fun hlt => (ht.held hlt).1)
      (fun {waiting _ t _} ht hnone => ?_) levels depth task hheld).eq.1
    refine ht.tick _ fun hlt => ?_
    have hle := Nat.le_of_lt_succ hlt
    -- The field has had its value since an earlier instruction, or it is read off at this one.
    have hvalue : t.statics[k]? = some v ∧ ∀ x ∈ waiting, ¬x.Targets p.classes k := by
      rcases Nat.lt_or_eq_of_le hle with hlt | heq
      · exact ht.held hlt
      · exact hstop.value rfl hnone heq.symm
    refine ⟨hvalue.1, fun x hx => ?_⟩
    rcases List.mem_append.mp hx with hx | hx
    · rcases Option.map_eq_some_iff.mp (Option.mem_toList.mp hx) with ⟨f, hf, rfl⟩
      exact hstop.write rfl hnone hle hf
    · exact hvalue.2 x hx

end Statics

namespace Levels

/-- A class of two, one below the other. -/
def classFile (name : String) (superName : Option String) (fields : List Field) : ClassFile where
  name := name
  superName := superName
  fields := fields

/-- The field of the class below. -/
def level : Field where
  access := ⟨8⟩
  name := "LEVEL"
  descriptor := "I"
  constant := some (.int 7)

/-- The superclass of the example, whose initializer does nothing. -/
def parent : ClassFile :=
  classFile "demo/Parent" none []

/-- A class with a constant field. -/
def child : ClassFile :=
  classFile "demo/Child" (some "demo/Parent") [level]

abbrev program : Program :=
  .ofUniverse (.ofClasses [parent, child])

/-- No class of the example has a constant of the pool. -/
theorem sound_program : program.classes.Sound := by
  refine (Universe.sound_empty.place (e := .ofClass parent) nofun).place (e := .ofClass child) ?_
  intro f hf i
  rw [List.mem_singleton.mp hf]
  nofun

theorem statics_kept_levels :
    program.classes.Sound ∧ ({} : Machine).Stored program.classes [] ∧
      Always program {} (fun _ => none) 3 [] 0 (.initClass "demo/Child") {}
        (Point.Readable program {}) ∧
      (Emu.Outcome.state (run program {} 3 0 (.initClass "demo/Child") {})).Stored
        program.classes [] ∧
      ∀ {n k v} {stop : Watch}, 0 ≤ n → stop.Until program.classes n k v →
        Always program {} stop 3 [] 0 (.initClass "demo/Child") {} fun point =>
          n < point.state.executed → point.state.statics[k]? = some v :=
  ⟨sound_program, Machine.stored_start _,
    statics_kept sound_program 3 0 (.initClass "demo/Child") (Machine.stored_start _)⟩

/-- The field belongs to the class itself. -/
theorem fieldOwner?_level :
    program.classes.fieldOwner? ⟨"demo/Child", "LEVEL", "I"⟩ = some "demo/Child" := by
  have hclass : program.classes.class? "demo/Child" = some child :=
    Universe.class?_place.trans (if_pos rfl)
  exact Universe.fieldOwner?_of_field? hclass rfl

/-- The superclass is initialized in a state in which the class below has begun and its field cannot
    be read. -/
theorem level_unreadable :
    child.superName = some "demo/Parent" ∧
      Emu.startClass child "demo/Child" (inside program {} 1 0) {} =
        (match Emu.initClass "demo/Parent" (inside program {} 1 0)
            { initialized := (∅ : Std.HashMap String InitState).insert "demo/Child" .inProgress }
          with
          | .ok _ t => Emu.startSelf child "demo/Child" (inside program {} 1 0) t
          | .error fault t =>
            .error fault { t with initialized := t.initialized.insert "demo/Child" .failed }) ∧
      Emu.getStatic ⟨"demo/Child", "LEVEL", "I"⟩ (inside program {} 1 0)
          { initialized := (∅ : Std.HashMap String InitState).insert "demo/Child" .inProgress } =
        .error (.noSuchField ⟨"demo/Child", "LEVEL", "I"⟩)
          { initialized := (∅ : Std.HashMap String InitState).insert "demo/Child" .inProgress } :=
  ⟨rfl, Emu.startClass_of_some rfl, getStatic_of_waiting (Machine.stored_start _)
    fieldOwner?_level Std.HashMap.getElem?_empty 0 0⟩

end Levels

end Engine

end JvmFold
