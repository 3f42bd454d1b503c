import JvmFold.Fold.InitOrder
import JvmFold.Proofs.Machine.Calls
import JvmFold.Proofs.Universe.Searches

/-!
# Reading Behind the First Assignment

While a class is initialized, a read of one of its fields is taken for the
final value if it stands behind the first assignment to the field. The check
compares positions in the code, and what counts is the order in which they are
executed. Where the code only goes on from one instruction to the next the two
are the same, and a loop or a branch does no harm as long as it stays on one
side of the assignment. A branch or a handler that leads from in front of the
assignment to behind it does: the read is then reached and the field has no
value yet.

So the check is right if nothing leads over the first assignment, and this is
the condition that is missing.

## Main definitions

* `Emu.Completes`: An instruction that is carried out without an exception.
* `Prepared.Leads`: The ways of a method other than to the next instruction.
* `Prepared.Crosses`: A way over a position.
* `Emu.Executed`: A run that has carried out the instruction at a position.

## Theorems

* `Emu.advance_cases`: Where an instruction goes on.
* `Emu.Reaches.executed`: A run to behind a position that nothing leads over has executed it.
* `InitOrder.executed_of_accepted`: A field that is read has been assigned.
-/

namespace JvmFold

/-- The method goes from a position to another by a branch or to a handler. -/
def Prepared.Leads (p : Prepared) (i j : Nat) : Prop :=
  (∃ m l, p.code[i]? = some m ∧ l ∈ m.targets ∧ p.target l = .ok j) ∨
    ∃ g ∈ p.guards, g.start ≤ i ∧ i < g.stop ∧ g.target = j

/-- A branch or handler leads over a position: from there or in front of it to behind it. -/
def Prepared.Crosses (p : Prepared) (k : Nat) : Prop :=
  ∃ i j, i ≤ k ∧ k < j ∧ p.Leads i j

namespace Emu

/-- The instruction at a position is carried out without an exception. -/
def Completes (p : Prepared) (env : Env) (a : Activation) (i : Nat) (s : Machine) : Prop :=
  ∃ m flow t u, p.code[i]? = some m ∧ tick env s = .ok () t ∧ step p.owner m a env t = .ok flow u

/-- A run from one place to another that has carried out the instruction at a position. -/
def Executed (p : Prepared) (env : Env) (k : Nat) (a : Activation) (i : Nat) (s : Machine)
    (b : Activation) (j : Nat) (t : Machine) : Prop :=
  ∃ c u d v, Reaches p env a i s c k u ∧ Completes p env c k u ∧
    advance p c k env u = .ok (.running d (k + 1)) v ∧ Reaches p env d (k + 1) v b j t

section Ways

variable {p : Prepared} {env : Env} {a b : Activation} {i j k : Nat} {s t : Machine}

/-- A handler that is found covers the position and leads to its target. -/
theorem exists_guard {u : Universe} {name : String} (h : p.handler? u i name = some j) :
    ∃ g ∈ p.guards, g.start ≤ i ∧ i < g.stop ∧ g.target = j := by
  unfold Prepared.handler? at h
  rcases Option.map_eq_some_iff.mp h with ⟨g, hfind, htarget⟩
  have hcovers := List.find?_some hfind
  simp only [Bool.and_eq_true, decide_eq_true_eq] at hcovers
  exact ⟨g, List.mem_of_find?_eq_some hfind, hcovers.1.1, hcovers.1.2, htarget⟩

/-- A method goes on to the next position, or where a branch or a handler leads. -/
theorem advance_cases (h : advance p a i env s = .ok (.running b j) t) :
    (j = i + 1 ∧ (Completes p env a i s ∨ ∃ m, p.code[i]? = some m ∧ m.isPseudo = true)) ∨
      p.Leads i j := by
  cases advances_of_ok h with
  | @mark m hget hm => exact Or.inl ⟨rfl, Or.inr ⟨m, hget, hm⟩⟩
  | caught _ _ _ hhandler => exact Or.inr (Or.inr (exists_guard hhandler))
  | @done m flow _ u _ hget htick hstep hflow =>
      cases flow with
      -- These two go on to the next position, and the instruction has been carried out.
      | next stack | store index v stack =>
          cases hflow
          exact Or.inl ⟨rfl, Or.inl ⟨m, _, u, t, hget, htick, hstep⟩⟩
      | finish v => cases hflow
      | jump l stack =>
          rcases Flow.progress_jump hflow with ⟨target, hl, hnext⟩
          cases hnext
          exact Or.inr (Or.inl ⟨m, l, hget, step_jump hstep, hl⟩)

/-- A run to behind a position that nothing leads over has carried out the instruction there. -/
theorem Reaches.executed {m : Instruction} (h : Reaches p env a i s b j t)
    (hm : p.code[k]? = some m) (hreal : m.isPseudo = false) (hcross : ¬p.Crosses k) (hi : i ≤ k)
    (hj : k < j) : Executed p env k a i s b j t := by
  induction h with
  | refl => omega
  | @step a b c i j' j s t u hadvance hrest ih =>
      by_cases hle : j' ≤ k
      · -- The next position is still in front.
        rcases ih hle hj with ⟨d, v, d', v', hreach, hdone, hnext, hafter⟩
        exact ⟨d, v, d', v', Reaches.step hadvance hreach, hdone, hnext, hafter⟩
      · rcases advance_cases hadvance with ⟨rfl, hdone⟩ | hleads
        · have hk : i = k := by omega
          subst hk
          refine ⟨a, s, b, t, Reaches.refl, ?_, hadvance, hrest⟩
          rcases hdone with hdone | ⟨m', hm', hpseudo⟩
          · exact hdone
          · rw [hm] at hm'
            cases hm'
            rw [hreal] at hpseudo
            cases hpseudo
        · exact absurd ⟨i, j', hi, by omega, hleads⟩ hcross

end Ways

end Emu

namespace InitOrder

variable {u : Universe} {c : ClassFile} {m : Method} {f : Member}

/-- What is looked up in a list is in it. -/
theorem mem_of_lookup {l : List (Member × Nat)} {k : Nat} (h : l.lookup f = some k) :
    (f, k) ∈ l := by
  induction l with
  | nil => cases h
  | cons x l ih =>
      rw [List.lookup_cons] at h
      split at h
      next heq =>
        cases h
        rw [eq_of_beq heq]
        exact List.mem_cons_self
      · exact List.mem_cons_of_mem _ (ih h)

/-- The assignments of a body are its `putstatic` instructions, by the field that they resolve to.
    -/
theorem mem_putsOf {code : List Instruction} {k : Nat} :
    (f, k) ∈ putsOf u code ↔
      ∃ g, code[k]? = some (.field .putstatic g) ∧ u.declaredField g = f := by
  unfold putsOf
  rw [List.mem_filterMap]
  constructor
  · rintro ⟨⟨i, n⟩, hmem, hput⟩
    split at hput
    -- Only a `putstatic` is kept of the numbered instructions.
    next g n' heq =>
      cases hput
      cases heq
      exact ⟨g, List.mem_zipIdx_iff_getElem?.mp hmem, rfl⟩
    · cases hput
  · rintro ⟨g, hg, rfl⟩
    exact ⟨(.field .putstatic g, k), List.mem_zipIdx_iff_getElem?.mpr hg, rfl⟩

/-- The first assignment to a field is one. -/
theorem exists_putstatic {code : List Instruction} {k : Nat}
    (h : (ofMethod u c m code).firstPut? f = some k) :
    ∃ g, code[k]? = some (.field .putstatic g) ∧ u.declaredField g = f := by
  unfold firstPut? ofMethod at h
  split at h
  · exact mem_putsOf.mp (mem_of_lookup h)
  · cases h

/-- A field of the class that does not start with its value is readable in the initializer behind
    its first assignment only. -/
theorem exists_firstPut {code : List Instruction} {i : Nat} (hm : m.name = "<clinit>")
    (howner : f.owner = c.name)
    (hconstant : ∀ x ∈ c.fields, x.isStatic = true → x.constant.isSome = true →
      c.fieldMember x ≠ f)
    (h : (ofMethod u c m code).isReadable f i = true) :
    ∃ k, (ofMethod u c m code).firstPut? f = some k ∧ k < i := by
  have hinit : (ofMethod u c m code).initializing = some f.owner := by
    rw [ofMethod, if_pos hm, howner]
  -- A field without a constant is not among those that are readable from the start.
  have hfresh : (ofMethod u c m code).constants.contains f = false := by
    rw [ofMethod, if_pos hm, List.contains_eq_mem, decide_eq_false_iff_not]
    intro hmem
    rcases List.mem_map.mp hmem with ⟨x, hx, hf⟩
    rcases List.mem_filter.mp hx with ⟨hx, hstatic⟩
    rw [Bool.and_eq_true] at hstatic
    exact hconstant x hx hstatic.1 hstatic.2 hf
  unfold isReadable at h
  rw [if_pos hinit, hfresh, Bool.false_or] at h
  cases hput : (ofMethod u c m code).firstPut? f with
  | none =>
      rw [hput] at h
      cases h
  | some k =>
      rw [hput] at h
      exact ⟨k, rfl, of_decide_eq_true h⟩

/-- In an initializer where no branch or handler leads over the first assignment to a field, the
    field has been assigned in every run that comes to where it is taken to be readable or
    reusable. -/
theorem executed_of_accepted {b : Body} {member : Member} {p : Prepared} {env : Env} {i : Nat}
    {a a' : Activation} {s s' : Machine} (hm : m.name = "<clinit>")
    (hp : Prepared.ofBody c member b = .ok p) (howner : f.owner = c.name)
    (hconstant : ∀ x ∈ c.fields, x.isStatic = true → x.constant.isSome = true →
      c.fieldMember x ≠ f)
    (haccept : (ofMethod u c m b.instructions).isReadable f i = true ∨
      (ofMethod u c m b.instructions).isReusable u f i = true)
    (hcross : ∀ k, (ofMethod u c m b.instructions).firstPut? f = some k → ¬p.Crosses k)
    (hreach : Emu.Reaches p env a 0 s a' i s') :
    ∃ k g, b.instructions[k]? = some (.field .putstatic g) ∧ u.declaredField g = f ∧
      Emu.Executed p env k a 0 s a' i s' := by
  have hreadable : (ofMethod u c m b.instructions).isReadable f i = true := by
    rcases haccept with h | h
    · exact h
    · exact (Bool.and_eq_true_iff.mp h).1
  -- The order knows the first assignment of the field, and it stands in front of the read.
  rcases exists_firstPut hm howner hconstant hreadable with ⟨k, hk, hlt⟩
  rcases exists_putstatic hk with ⟨g, hg, hdeclared⟩
  refine ⟨k, g, hg, hdeclared, ?_⟩
  have hcode : p.code[k]? = some (.field .putstatic g) := by
    rw [Prepared.code_of_ofBody hp, List.getElem?_toArray]
    exact hg
  exact hreach.executed hcode rfl (hcross k hk) (Nat.zero_le k) hlt

section Demo

/-- A static field of the class `demo/A`. -/
def demoField (name : String) : Member :=
  ⟨"demo/A", name, "I"⟩

/-- The class `demo/A` with two static final fields. -/
def demoClass : ClassFile where
  name := "demo/A"
  fields := [⟨⟨24⟩, "F", "I", none, [], []⟩, ⟨⟨24⟩, "G", "I", none, [], []⟩]

/-- A universe with no other class. -/
def demoUniverse : Universe :=
  .ofClasses [demoClass]

/-- An environment in which the class is being initialized, so that nothing is left to be done for
    it to be used. -/
def demoEnv : Env where
  program := Program.ofUniverse demoUniverse
  limits := {}
  isNative := fun _ => false
  depth := 1
  dispatch := fun _ _ s => .ok none s

/-- The initializer of the class with a body. -/
def demoInitializer (b : Body) : Method where
  access := ⟨8⟩
  name := "<clinit>"
  descriptor := "()V"
  body := some b

/-- The order of a body as the initializer of the class. -/
def demoOrder (b : Body) : InitOrder :=
  ofMethod demoUniverse demoClass (demoInitializer b) b.instructions

/-- A body without handlers and local variables as the initializer of the class, made ready. -/
def demoPrepared (b : Body) : Prepared :=
  .unguarded demoClass ⟨"demo/A", "<clinit>", "()V"⟩ b

/-- Assigns the first field, and reads it for the second one. -/
def straightInitializer : Body where
  maxStack := 1
  maxLocals := 0
  instructions := [.push .bipush 5, .field .putstatic (demoField "F"),
    .field .getstatic (demoField "F"), .field .putstatic (demoField "G"), .simple .voidReturn]

/-- The same, but for branches by which the read comes first. -/
def twistedInitializer : Body where
  maxStack := 1
  maxLocals := 0
  instructions := [.jump .goto ⟨0⟩, .label ⟨1⟩, .push .bipush 5,
    .field .putstatic (demoField "F"), .simple .voidReturn, .label ⟨0⟩,
    .field .getstatic (demoField "F"), .field .putstatic (demoField "G"), .jump .goto ⟨1⟩]

/-- The class declares both fields. -/
theorem declaredField_demo {name : String} (h : name = "F" ∨ name = "G") :
    demoUniverse.declaredField (demoField name) = demoField name := by
  have hclass : demoUniverse.class? "demo/A" = some demoClass := rfl
  rcases h with rfl | rfl
  · exact Universe.declaredField_of_field? (f := demoField "F") hclass rfl
  · exact Universe.declaredField_of_field? (f := demoField "G") hclass rfl

/-- The first field is assigned at 1, the second at 3. -/
theorem demoOrder_straight : demoOrder straightInitializer =
    { initializing := some "demo/A", puts := [(demoField "F", 1), (demoField "G", 3)] } := by
  have hputs : putsOf demoUniverse straightInitializer.instructions
      = [(demoField "F", 1), (demoField "G", 3)] := by
    simp [putsOf, straightInitializer, declaredField_demo]
  change InitOrder.mk _ (putsOf demoUniverse straightInitializer.instructions) _ = _
  rw [hputs]
  rfl

/-- The first field is assigned at 3, the second at 7. -/
theorem demoOrder_twisted : demoOrder twistedInitializer =
    { initializing := some "demo/A", puts := [(demoField "F", 3), (demoField "G", 7)] } := by
  have hputs : putsOf demoUniverse twistedInitializer.instructions
      = [(demoField "F", 3), (demoField "G", 7)] := by
    simp [putsOf, twistedInitializer, declaredField_demo]
  change InitOrder.mk _ (putsOf demoUniverse twistedInitializer.instructions) _ = _
  rw [hputs]
  rfl

/-- In the straight initializer the first field has been assigned where it is read. -/
theorem executed_of_accepted_straight :
    (demoOrder straightInitializer).isReadable (demoField "F") 2 = true ∧
      ∃ a t, Emu.Reaches (demoPrepared straightInitializer) demoEnv {} 0 {} a 2 t ∧
        ∃ k g, straightInitializer.instructions[k]? = some (.field .putstatic g) ∧
          demoUniverse.declaredField g = demoField "F" ∧
          Emu.Executed (demoPrepared straightInitializer) demoEnv k {} 0 {} a 2 t := by
  have hreadable : (demoOrder straightInitializer).isReadable (demoField "F") 2 = true := by
    rw [demoOrder_straight]
    decide
  -- Nothing in it branches and there is no handler.
  have hcross : ∀ k, ¬(demoPrepared straightInitializer).Crosses k := by
    have htargets : ∀ m ∈ straightInitializer.instructions, m.targets = [] := by decide
    rintro k ⟨i, j, _, _, ⟨m, l, hm, hl, _⟩ | ⟨g, hg, _⟩⟩
    · change straightInitializer.instructions.toArray[i]? = some m at hm
      rw [List.getElem?_toArray] at hm
      rw [htargets m (List.mem_of_getElem? hm)] at hl
      cases hl
    · cases hg
  have howner : demoEnv.program.classes.fieldOwner? (demoField "F") = some "demo/A" :=
    Universe.fieldOwner?_of_field? (c := demoClass) rfl rfl
  have hstore (s : Machine) :
      Emu.advance (demoPrepared straightInitializer) (Activation.withStack {} [.int 5]) 1 demoEnv s
        = .ok (.running {} 2)
            { s.ticked with statics := s.statics.insert (demoField "F") (.int 5) } := by
    rw [Emu.advance_real (i := .field .putstatic (demoField "F")) rfl rfl,
      Emu.tick_of_no_limit rfl]
    dsimp only
    rw [Emu.step_putstatic (x := (.int 5, [])) rfl, Emu.bind_apply,
      Emu.putStatic_of_initClass howner (t := s.ticked) rfl]
    rfl
  have hreach : ∃ a t, Emu.Reaches (demoPrepared straightInitializer) demoEnv {} 0 {} a 2 t :=
    ⟨_, _, Emu.Reaches.step (j := 1) rfl
      (Emu.Reaches.step (j := 2) (hstore _) Emu.Reaches.refl)⟩
  rcases hreach with ⟨a, t, hreach⟩
  exact ⟨hreadable, a, t, hreach,
    executed_of_accepted (m := demoInitializer straightInitializer) rfl
      (Prepared.ofBody_unguarded rfl) rfl
      (by decide) (Or.inl hreadable) (fun k _ => hcross k) hreach⟩

/-- From the `return` of the twisted initializer nothing else is reached. -/
theorem not_reaches_of_return {a b : Activation} {s t : Machine} :
    ¬Emu.Reaches (demoPrepared twistedInitializer) demoEnv a 4 s b 6 t := by
  intro h
  cases h with
  | step hadvance _ =>
      rw [Emu.advance_real (i := .simple .voidReturn) rfl rfl] at hadvance
      cases hadvance

/-- The first branch leads behind the assignment of the first field. -/
theorem target_twisted : (demoPrepared twistedInitializer).target ⟨0⟩ = .ok 5 := by
  simp [demoPrepared, Prepared.unguarded, twistedInitializer, Prepared.target, Prepared.position,
    Prepared.labelPositions]

/-- In the twisted initializer the read is accepted and reached, and the field has not been
    assigned. -/
theorem accepted_not_executed :
    (demoOrder twistedInitializer).isReadable (demoField "F") 6 = true ∧
      (demoOrder twistedInitializer).isReusable demoUniverse (demoField "F") 6 = true ∧
      ∃ a t, Emu.Reaches (demoPrepared twistedInitializer) demoEnv {} 0 {} a 6 t ∧
        ∀ k g, twistedInitializer.instructions[k]? = some (.field .putstatic g) →
          demoUniverse.declaredField g = demoField "F" →
          ¬Emu.Executed (demoPrepared twistedInitializer) demoEnv k {} 0 {} a 6 t := by
  have hjump : Emu.advance (demoPrepared twistedInitializer) {} 0 demoEnv {}
      = .ok (.running {} 5) { executed := 1 } := by
    rw [Emu.advance_real (i := .jump .goto ⟨0⟩) rfl rfl]
    change Emu.lift (((demoPrepared twistedInitializer).target ⟨0⟩).map _) _ _ = _
    rw [target_twisted]
    rfl
  have hreach : ∃ a t, Emu.Reaches (demoPrepared twistedInitializer) demoEnv {} 0 {} a 6 t :=
    ⟨_, _, Emu.Reaches.step hjump (Emu.Reaches.step (j := 6) rfl Emu.Reaches.refl)⟩
  rcases hreach with ⟨a, t, hreach⟩
  have hputs : putsOf demoUniverse twistedInitializer.instructions
      = [(demoField "F", 3), (demoField "G", 7)] := congrArg puts demoOrder_twisted
  rw [demoOrder_twisted]
  refine ⟨by decide, by decide, a, t, hreach, ?_⟩
  rintro k g hg hf ⟨c, u, d, v, _, _, _, hafter⟩
  -- The only assignment to the field is at 3, and behind it the initializer returns.
  have hmem : (demoField "F", k) ∈ putsOf demoUniverse twistedInitializer.instructions :=
    mem_putsOf.mpr ⟨g, hg, hf⟩
  have hk : k = 3 := by
    rw [hputs] at hmem
    simpa [demoField] using hmem
  subst hk
  exact not_reaches_of_return hafter

end Demo

end InitOrder

end JvmFold
