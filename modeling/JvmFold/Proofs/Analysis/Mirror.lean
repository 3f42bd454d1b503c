import JvmFold.Proofs.Analysis.Balance
import JvmFold.Proofs.Analysis.Landing

/-!
# Values that Are Known Again

Two stacks of the same height, and what is known of the first one is known of
the second: where the first one has a value, the second one has a value from the
same span that is equal to it. The second one may have values where nothing is
known of the first one.

An instruction that meets both stacks asks both times for the same. Operands
that are all known on the first stack are so on the second one, from the same
spans; whether they can be evaluated does not depend on anything else, as long
as their objects are still of the same kind. A read and a cast find again what
they found, as long as what they read is still there.

## Main definitions

* `Fold.Like`: Two values from the same span that are equal.
* `Slot.Below`: What is known of a slot is known of another one.
* `Fold.ReadAgain`: What a value was read from has not changed.
* `Subject.inPass`: The same body in another pass.

## Theorems

* `foundStatic_again`, `foundField_again`, `foundCast_again`: What was found is found again.
* `taking?_again`: What is followed as a call is so again.
* `requestOf?_again`: What was asked for is asked for again.
-/

namespace JvmFold

/-- Two values from the same span that are equal. -/
structure Fold.Like (f g : Fold) : Prop where
  start_eq : g.start = f.start
  stop_eq : g.stop = f.stop
  value_eq : g.value = f.value
  isRead_eq : g.isRead = f.isRead

theorem Fold.Like.refl (f : Fold) : f.Like f :=
  ⟨rfl, rfl, rfl, rfl⟩

/-- What is known of a slot is known of another one. A slot of which nothing is known may be a slot
    of a value. -/
inductive Slot.Below : Slot → Slot → Prop where
  | unknown : Below .unknown .unknown
  | found (g : Fold) : Below .unknown (.known g)
  | foundUpper : Below .unknown .upper
  | upper : Below .upper .upper
  | uninitialized (u : Uninitialized) : Below (.uninitialized u) (.uninitialized u)
  | known {f g : Fold} (h : f.Like g) : Below (.known f) (.known g)

/-- What is known of an operand is known of another one. -/
inductive Operand.Below : Operand → Operand → Prop where
  | unknown : Below .unknown .unknown
  | found (g : Fold) : Below .unknown (.known g)
  | uninitialized (u : Uninitialized) : Below (.uninitialized u) (.uninitialized u)
  | known {f g : Fold} (h : f.Like g) : Below (.known f) (.known g)

/-- What is known of the slots of a stack is known of another one of the same height. -/
abbrev Stacks.Below (a b : List Slot) : Prop :=
  List.Forall₂ Slot.Below a b

section Slots

variable {a b : List Slot} {f g : Fold}

/-- A value that is known of one stack is known of the other. -/
theorem Stacks.Below.exists_known (hab : Stacks.Below a b) (hf : .known f ∈ a) :
    ∃ g, .known g ∈ b ∧ f.Like g := by
  induction hab with
  | nil => cases hf
  | cons hslot _ ih =>
      rcases List.mem_cons.mp hf with hf | hf
      · cases hf
        cases hslot with
        | known h => exact ⟨_, List.mem_cons_self, h⟩
      · rcases ih hf with ⟨g, hg, h⟩
        exact ⟨g, List.mem_cons_of_mem _ hg, h⟩

theorem Stacks.Below.drop (hab : Stacks.Below a b) (n : Nat) :
    Stacks.Below (a.drop n) (b.drop n) :=
  List.forall₂_drop n hab

/-- Slots that are not known on both stacks. -/
theorem Stacks.Below.unknowns (hab : Stacks.Below a b) (k : Nat) :
    Stacks.Below (List.replicate k .unknown ++ a) (List.replicate k .unknown ++ b) := by
  induction k with
  | zero => exact hab
  | succ k ih => exact .cons .unknown ih

/-- Slots of which nothing is known, where the other stack has a value. -/
theorem Stacks.Below.found (hab : Stacks.Below a b) (g : Fold) :
    Stacks.Below (List.replicate g.value.slots .unknown ++ a) (onStack g b) := by
  have hslots : g.value.slots = 1 ∨ g.value.slots = 2 := by
    cases g.value <;> simp [Value.slots]
  unfold onStack
  rcases hslots with hone | htwo
  · rw [if_neg (by omega), hone]
    exact .cons (.found g) hab
  · rw [if_pos htwo, htwo]
    exact .cons .foundUpper (.cons (.found g) hab)

/-- Values that are alike on both stacks. -/
theorem Stacks.Below.onStack (hab : Stacks.Below a b) (hfg : f.Like g) :
    Stacks.Below (onStack f a) (onStack g b) := by
  unfold JvmFold.onStack
  rw [hfg.value_eq]
  split
  · exact .cons .upper (.cons (.known hfg) hab)
  · exact .cons (.known hfg) hab

/-- The object is settled on both stacks alike. -/
theorem Stacks.Below.settle (hab : Stacks.Below a b) (u : Uninitialized)
    {top top' others others' : Slot} (htop : top.Below top') (hothers : others.Below others') :
    Stacks.Below (Analysis.settle u top others a) (Analysis.settle u top' others' b) := by
  induction hab generalizing top top' with
  | nil => exact .nil
  | cons hslot hrest ih =>
      -- Only a reference to the object itself is exchanged, and then it is on both stacks.
      cases hslot with
      | uninitialized v =>
          rw [Analysis.settle, Analysis.settle]
          split
          · exact .cons htop (ih hothers)
          · exact .cons (.uninitialized v) (ih htop)
      | unknown => exact .cons .unknown (ih htop)
      | found g => exact .cons (.found g) (ih htop)
      | foundUpper => exact .cons .foundUpper (ih htop)
      | upper => exact .cons .upper (ih htop)
      | known hlike => exact .cons (.known hlike) (ih htop)

/-- A value is laid where an equal one is, and where nothing is known a value of the same width. -/
theorem Stacks.Below.lay (hab : Stacks.Below a b) (place : Request.Place)
    {found found' : Option Fold}
    (hagain : ∀ f ∈ found, ∃ g ∈ found', f.Like g)
    (hwidth : ∀ k g, place = .top k → g ∈ found' → g.value.slots = k) :
    Stacks.Below (place.lay found a) (place.lay found' b) := by
  cases found with
  | some f =>
      rcases hagain f rfl with ⟨g, hg, hfg⟩
      cases hg
      cases place with
      | top k => exact hab.onStack hfg
      | object u => exact hab.settle u (.known hfg) .unknown
  | none =>
      cases found' with
      | none =>
          cases place with
          | top k => exact hab.unknowns k
          | object u => exact hab.settle u .unknown .unknown
      -- Only here the two differ: a value was found where nothing was known before.
      | some g =>
          cases place with
          | top k =>
              have hk := hwidth k g rfl rfl
              subst hk
              exact hab.found g
          | object u => exact hab.settle u (.found g) .unknown

theorem Stacks.Below.stackBehind (hab : Stacks.Below a b) (i : Instruction) :
    Stacks.Below (stackBehind i a) (stackBehind i b) := by
  unfold JvmFold.stackBehind
  cases i.stackEffect? with
  | none => exact .nil
  | some effect => exact (hab.drop effect.1).unknowns effect.2

theorem Stacks.Below.stackCopied (hab : Stacks.Below a b) (p : Nat) :
    Stacks.Below (stackCopied p a) (stackCopied p b) := by
  cases hab with
  | nil => exact Stacks.Below.stackBehind .nil (.simple .dup)
  | cons hslot hrest =>
      cases hslot with
      | uninitialized u => exact .cons (.uninitialized _) (.cons (.uninitialized _) hrest)
      | unknown => exact Stacks.Below.stackBehind (.cons .unknown hrest) (.simple .dup)
      | found g => exact Stacks.Below.stackBehind (.cons (.found g) hrest) (.simple .dup)
      | foundUpper => exact Stacks.Below.stackBehind (.cons .foundUpper hrest) (.simple .dup)
      | upper => exact Stacks.Below.stackBehind (.cons .upper hrest) (.simple .dup)
      | known h => exact Stacks.Below.stackBehind (.cons (.known h) hrest) (.simple .dup)

theorem Stacks.Below.holds_eq (hab : Stacks.Below a b) (u : Uninitialized) :
    Analysis.holds u b = Analysis.holds u a := by
  unfold Analysis.holds
  induction hab with
  | nil => rfl
  | cons hslot _ ih =>
      rw [List.any_cons, List.any_cons, ih]
      cases hslot <;> rfl

theorem Stacks.Below.operandOn (hab : Stacks.Below a b) (w : Nat) :
    (operandOn w a).Below (operandOn w b) := by
  unfold JvmFold.operandOn
  split
  · cases hab with
    | nil => exact .unknown
    | cons hfirst hrest =>
        cases hrest with
        | nil => cases hfirst <;> exact .unknown
        | cons hsecond _ =>
            -- Two slots are an operand only as the upper slot of a value with the value below it.
            cases hfirst <;> cases hsecond <;>
              first | exact .unknown | exact .found _ | exact .known ‹_›
  · cases hab with
    | nil => exact .unknown
    | cons hfirst _ =>
        cases hfirst with
        | known hlike => exact .known hlike
        | unknown => exact .unknown
        | found g => exact .found g
        | foundUpper => exact .unknown
        | upper => exact .unknown
        | uninitialized u => exact .uninitialized u

theorem Stacks.Below.slotsUnder (hab : Stacks.Below a b) (ws : List Nat) :
    Stacks.Below (slotsUnder ws a) (slotsUnder ws b) := by
  induction ws with
  | nil => exact hab
  | cons w ws ih => exact ih.drop _

theorem Stacks.Below.operandsOn (hab : Stacks.Below a b) (ws : List Nat) :
    List.Forall₂ Operand.Below (operandsOn ws a) (operandsOn ws b) := by
  induction ws with
  | nil => exact .nil
  | cons w ws ih => exact .cons ((hab.slotsUnder ws).operandOn w) ih

end Slots

namespace Subject

variable (s : Subject) (pass : Nat)

/-- The same body in another pass. -/
def inPass : Subject :=
  { s with pass := pass }

/-- The pass has no part in where the next real instruction is. -/
@[simp]
theorem nextReal_inPass (p : Nat) : (s.inPass pass).nextReal p = s.nextReal p := by
  fun_induction s.nextReal p with
  | case1 p hlt hpseudo ih =>
      rw [nextReal]
      exact (dif_pos hlt).trans ((if_pos hpseudo).trans ih)
  | case2 p hlt hreal =>
      rw [nextReal]
      exact (dif_pos hlt).trans (if_neg hreal)
  | case3 p hge =>
      rw [nextReal]
      exact dif_neg hge

@[simp]
theorem isContiguous_inPass (p : Nat) (cursor : Option Nat) (folds : List Fold) :
    (s.inPass pass).isContiguous p cursor folds = s.isContiguous p cursor folds := by
  induction folds generalizing cursor with
  | nil => rfl
  | cons f rest ih => rw [isContiguous, isContiguous, nextReal_inPass, ih]

-- Nor in what can be evaluated.
@[simp]
theorem evaluable?_inPass (h : Heap) (p : Nat) (cursor : Option Nat) (operands : List Operand) :
    (s.inPass pass).evaluable? h p cursor operands = s.evaluable? h p cursor operands := by
  unfold evaluable?
  simp only [isContiguous_inPass]
  rfl

-- Nor in what a method call takes.
@[simp]
theorem takingMethod_inPass (p : Nat) (m : Member) (kind : InvokeKind) (type : MethodType)
    (arguments : List Operand) (receiver : Option Operand) (rest : List Slot) :
    (s.inPass pass).takingMethod p m kind type arguments receiver rest
      = s.takingMethod p m kind type arguments receiver rest := by
  unfold takingMethod
  simp only [nextReal_inPass]
  rfl

-- Nor in what any instruction takes.
@[simp]
theorem taking?_inPass (p : Nat) (stack : List Slot) (i : Instruction) :
    (s.inPass pass).taking? p stack i = s.taking? p stack i := by
  cases i with
  | invoke op m isInterface =>
      unfold taking?
      simp only [takingMethod_inPass]
  | _ => rfl

-- Nor in what is asked for.
@[simp]
theorem requestOf?_inPass (h : Heap) (p : Nat) (taking : Taking) :
    (s.inPass pass).requestOf? h p taking = s.requestOf? h p taking := by
  unfold requestOf?
  simp only [evaluable?_inPass]

-- Nor in what a read of a static field finds.
@[simp]
theorem foundStatic_inPass (resolved : Std.TreeSet Member) (env : Env) (m : Machine) (p : Nat)
    (f : Member) (type : FieldType) :
    (s.inPass pass).foundStatic resolved env m p f type = s.foundStatic resolved env m p f type :=
  rfl

@[simp]
theorem foundField_inPass (env : Env) (m : Machine) (p : Nat) (f : Member) (type : FieldType)
    (receiver : Operand) :
    (s.inPass pass).foundField env m p f type receiver = s.foundField env m p f type receiver := by
  unfold foundField
  simp only [isContiguous_inPass]
  rfl

@[simp]
theorem foundCast_inPass (h : Heap) (p : Nat) (name : String) (operand : Operand) :
    (s.inPass pass).foundCast h p name operand = s.foundCast h p name operand := by
  unfold foundCast
  simp only [isContiguous_inPass]
  rfl

end Subject

/-- What a value was read from is in a later state what it was when it was read. -/
structure Fold.ReadAgain (f : Fold) (m m' : Machine) : Prop where
  statics : f.origin = .staticField → ∀ d ∈ f.member, m'.statics[d]? = m.statics[d]?
  fields : f.origin = .field → ∀ d ∈ f.member, ∀ g ∈ f.children, ∀ r, g.value = .ref r →
    m'.heap.field? r d = m.heap.field? r d

section Found

variable {s : Subject} {p : Nat} {f g : Fold} {folds folds' : List Fold}

/-- Values that are alike lie in the same row. -/
theorem isContiguous_again (hfolds : List.Forall₂ Fold.Like folds folds') (cursor : Option Nat) :
    s.isContiguous p cursor folds' = s.isContiguous p cursor folds := by
  induction hfolds generalizing cursor with
  | nil => rfl
  | cons hfg _ ih =>
      rw [Subject.isContiguous, Subject.isContiguous, hfg.start_eq, hfg.stop_eq, ih]

/-- Whether a value has a state is a matter of its kind. -/
theorem Heap.SameKind.hasState {c : Config} {h h' : Heap} {v : Value} (hv : h.SameKind h' v) :
    Analysis.hasState c h' v = Analysis.hasState c h v := by
  unfold Analysis.hasState
  cases v with
  | ref r =>
      have hkind := hv r rfl
      dsimp only [Value.reference?]
      rw [← HeapObject.isMutable_kind, ← HeapObject.className_kind, hkind,
        HeapObject.isMutable_kind, HeapObject.className_kind]
  | _ => rfl

theorem knownFolds?_map (folds : List Fold) : knownFolds? (folds.map .known) = some folds := by
  unfold knownFolds?
  induction folds with
  | nil => rfl
  | cons f rest ih => rw [List.map_cons, List.mapM_cons, ih]; rfl

/-- Operands all of which are known are known again. -/
theorem known_again {l : List Operand} (h : List.Forall₂ Operand.Below (folds.map .known) l) :
    ∃ folds', l = folds'.map .known ∧ List.Forall₂ Fold.Like folds folds' := by
  induction folds generalizing l with
  | nil =>
      cases h
      exact ⟨[], rfl, .nil⟩
  | cons f rest ih =>
      cases h with
      | cons hfirst hrest =>
          cases hfirst with
          | known hfg =>
              rcases ih hrest with ⟨rest', rfl, hlike⟩
              exact ⟨_ :: rest', rfl, .cons hfg hlike⟩

/-- Objects that an evaluation could not change cannot be changed by a later one either. -/
theorem hasState_again {c : Config} {h h' : Heap} (hfolds : List.Forall₂ Fold.Like folds folds')
    (hkinds : ∀ f ∈ folds, h.SameKind h' f.value) :
    (folds'.any fun f => f.isRead && Analysis.hasState c h' f.value)
      = folds.any fun f => f.isRead && Analysis.hasState c h f.value := by
  induction hfolds with
  | nil => rfl
  | cons hfg _ ih =>
      rcases List.forall_mem_cons.mp hkinds with ⟨hfirst, hrest⟩
      rw [List.any_cons, List.any_cons, hfg.isRead_eq, hfg.value_eq, hfirst.hasState, ih hrest]

/-- Operands that can be evaluated can be evaluated again. -/
theorem evaluable?_again {h h' : Heap} {cursor : Option Nat} {l l' : List Operand}
    (hl : List.Forall₂ Operand.Below l l') (hkinds : ∀ f, .known f ∈ l → h.SameKind h' f.value)
    (hfolds : s.evaluable? h p cursor l = some folds) :
    ∃ folds', s.evaluable? h' p cursor l' = some folds' ∧ List.Forall₂ Fold.Like folds folds' := by
  rcases Option.filter_eq_some_iff.mp hfolds with ⟨hknown, hfree⟩
  rw [eq_map_known hknown] at hl hkinds
  rcases known_again hl with ⟨folds', rfl, hlike⟩
  refine ⟨folds', Option.filter_eq_some_iff.mpr ⟨knownFolds?_map folds', ?_⟩, hlike⟩
  rw [isContiguous_again hlike,
    hasState_again hlike fun f hf => hkinds f (List.mem_map_of_mem hf)]
  exact hfree

theorem areReads_singleton (f : Fold) : Fold.areReads [f] = f.isRead := by
  rw [Fold.areReads, Fold.areReads, Bool.and_true]

section Reads

variable {m m' : Machine} {member : Member} {type : FieldType} {o o' : Operand}

/-- A value that a cast found is found again. -/
theorem foundCast_again {h h' : Heap} {name : String} (ho : o.Below o')
    (hkinds : ∀ f, o = .known f → h.SameKind h' f.value) :
    ∀ f ∈ s.foundCast h p name o, ∃ g ∈ s.foundCast h' p name o', f.Like g := by
  intro f hf
  cases ho with
  | @known a b hlike =>
      unfold Subject.foundCast at hf ⊢
      dsimp only at hf ⊢
      -- A cast looks at the class of the object alone, which is the same.
      have hpasses : Analysis.passesCast s.config.classes h' b.value name
          = Analysis.passesCast s.config.classes h a.value name := by
        unfold Analysis.passesCast
        rw [hlike.value_eq, (hkinds a rfl).runtimeClass?]
      rw [isContiguous_again (.cons hlike .nil), hpasses]
      split at hf
      next hcond =>
        rw [if_pos hcond]
        cases hf
        refine ⟨_, rfl, ⟨hlike.start_eq, rfl, hlike.value_eq, ?_⟩⟩
        rw [Fold.isRead, Fold.isRead, areReads_singleton, areReads_singleton, hlike.isRead_eq]
      · cases hf
  | _ => cases hf

variable {program : Program} {limits : Limits}

/-- A value that a read of a static field found is found again, if it is still there. -/
theorem foundStatic_again {resolved resolved' : Std.TreeSet Member} {n : Machine}
    (hclasses : program.classes = s.config.classes)
    (hf : s.foundStatic resolved (Engine.env program limits) m p member type = some f)
    (hread : Emu.getStatic member (Engine.env program limits) { m with executed := 0 }
      = .ok f.value n)
    (hlater : n.Precedes m') (hresolved : ∀ d ∈ resolved, d ∈ resolved')
    (hstays : f.ReadAgain n m') :
    ∃ g, s.foundStatic resolved' (Engine.env program limits) m' p member type = some g ∧
      f.Like g := by
  have hnamed : ∃ value, value = f.value := ⟨_, rfl⟩
  rcases hnamed with ⟨value, hvalue⟩
  rw [← hvalue] at hread
  unfold Subject.foundStatic at hf ⊢
  dsimp only at hf ⊢
  rw [hread] at hf
  split at hf
  next hcond =>
    cases hf
    rw [Bool.and_eq_true, Bool.or_eq_true] at hcond
    -- Fields only become known, so what could be read can be read again.
    have hcond' : ((s.config.isConstantField (s.config.classes.declaredField member)
        || resolved'.contains (s.config.classes.declaredField member))
        && s.order.isReadable (s.config.classes.declaredField member) p) = true := by
      rw [Bool.and_eq_true, Bool.or_eq_true]
      exact ⟨hcond.1.imp id fun h => hresolved _ h, hcond.2⟩
    rw [if_pos hcond']
    have hkept := hstays.statics rfl _ rfl
    rw [← hclasses] at hkept
    have hlater' : n.Precedes { m' with executed := 0 } := ⟨hlater.heap, hlater.initialized⟩
    rw [Emu.getStatic_again hread hlater' hkept]
    exact ⟨_, rfl, .refl _⟩
  · cases hf

/-- A value that a read of a field found is found again, if it is still there. -/
theorem foundField_again (hclasses : program.classes = s.config.classes) (ho : o.Below o')
    (hf : s.foundField (Engine.env program limits) m p member type o = some f)
    (hkinds : ∀ f, o = .known f → m.heap.SameKind m'.heap f.value)
    (hstays : f.origin = .field → ∀ d ∈ f.member, ∀ g ∈ f.children, ∀ r, g.value = .ref r →
      m'.heap.field? r d = m.heap.field? r d) :
    ∃ g, s.foundField (Engine.env program limits) m' p member type o' = some g ∧ f.Like g := by
  cases ho with
  | @known a b hlike =>
      unfold Subject.foundField at hf ⊢
      dsimp only at hf ⊢
      rw [isContiguous_again (.cons hlike .nil)]
      split at hf
      next hcond =>
        rw [if_pos hcond, hlike.value_eq]
        cases hread : Emu.getField a.value member (Engine.env program limits)
            { m with executed := 0 } with
        | error fault n =>
            rw [hread] at hf
            cases hf
        | ok value n =>
            rw [hread] at hf
            cases hf
            -- The field was read, so the object is one with fields, and it holds the same value
            -- still.
            rcases Emu.getField_ok hread with ⟨r, name, fields, hr, -⟩
            have hkept := hstays rfl _ rfl a List.mem_cons_self r hr
            rw [← hclasses] at hkept
            rw [hr] at hread ⊢
            have hagain : Emu.getField (.ref r) member (Engine.env program limits)
                { m' with executed := 0 } = .ok value { m' with executed := 0 } :=
              Emu.getField_again hread (hkinds a rfl r hr) hkept
            rw [hagain]
            refine ⟨_, rfl, ⟨hlike.start_eq, rfl, rfl, ?_⟩⟩
            rw [Fold.isRead, Fold.isRead, areReads_singleton, areReads_singleton,
              hlike.isRead_eq]
      · cases hf
  | _ => cases hf

end Reads

/-- What a call takes off is known of what it takes off again. -/
structure Taking.Below (a b : Taking) : Prop where
  operands : List.Forall₂ Operand.Below a.operands b.operands
  rest : Stacks.Below a.rest b.rest
  cursor_eq : b.cursor = a.cursor
  place_eq : b.place = a.place
  request_eq : b.request? = a.request?

section Calls

variable {a b : List Slot} {i : Instruction} {taking taking' : Taking}

/-- A method call takes operands that are alike from stacks that are. -/
theorem takingMethod_again {m : Member} {kind : InvokeKind} {type : MethodType}
    {arguments arguments' : List Operand} {receiver receiver' : Option Operand}
    (harguments : List.Forall₂ Operand.Below arguments arguments')
    (hreceiver : List.Forall₂ Operand.Below receiver.toList receiver'.toList)
    (hab : Stacks.Below a b) :
    (s.takingMethod p m kind type arguments receiver a).Below
      (s.takingMethod p m kind type arguments' receiver' b) := by
  unfold Subject.takingMethod
  split
  · cases receiver with
    | none =>
        cases receiver' with
        | none => exact ⟨.nil, hab, rfl, rfl, rfl⟩
        | some o' => cases hreceiver
    | some o =>
        cases receiver' with
        | none => cases hreceiver
        | some o' =>
            cases hreceiver with
            | cons ho _ =>
                -- Nothing is asked for unless both receivers are objects that are not initialized,
                -- and then they are the same.
                cases ho with
                | uninitialized u =>
                    refine ⟨harguments, hab, rfl, rfl, ?_⟩
                    dsimp only
                    rw [hab.holds_eq]
                | unknown => exact ⟨.nil, hab, rfl, rfl, rfl⟩
                | found g => exact ⟨.nil, hab, rfl, rfl, rfl⟩
                | known h => exact ⟨.nil, hab, rfl, rfl, rfl⟩
  · exact ⟨List.rel_append hreceiver harguments, hab, rfl, rfl, rfl⟩

/-- What is followed as a call is so again. -/
theorem taking?_again (hab : Stacks.Below a b) :
    Option.Rel Taking.Below (s.taking? p a i) (s.taking? p b i) := by
  cases i with
  | invoke op m isInterface =>
      unfold Subject.taking?
      dsimp only
      split
      next kind type _ _ =>
        -- A receiver lies below the arguments, if there is one.
        have hbelow := hab.slotsUnder (type.parameters.map FieldType.slots)
        have harguments := hab.operandsOn (type.parameters.map FieldType.slots)
        refine .some ?_
        split
        · exact takingMethod_again harguments (.cons (hbelow.operandOn 1) .nil) (hbelow.drop 1)
        · exact takingMethod_again harguments .nil hbelow
      · exact .none
  | invokeDynamic bootstrap name descriptor =>
      unfold Subject.taking?
      dsimp only
      split
      next type _ =>
        split
        · exact .some ⟨hab.operandsOn _, hab.slotsUnder _, rfl, rfl, rfl⟩
        · exact .none
      · exact .none
  | _ => exact .none

/-- Two evaluations of equal spans on equal values. -/
structure Request.Like (q q' : Request) : Prop where
  start_eq : q'.start = q.start
  operands : List.Forall₂ Fold.Like q.operands q'.operands

/-- Requests that are alike have the same values. -/
theorem Request.Like.values_eq {q q' : Request} (h : q.Like q') :
    q'.operands.map Fold.value = q.operands.map Fold.value := by
  have hoperands := h.operands
  generalize q.operands = l at hoperands ⊢
  generalize q'.operands = l' at hoperands ⊢
  induction hoperands with
  | nil => rfl
  | cons hfg _ ih => rw [List.map_cons, List.map_cons, hfg.value_eq, ih]

/-- The instruction with which the span of a call starts. -/
def Request.Place.startOf (p : Nat) (folds : List Fold) : Request.Place → Nat
  | .top _ => (folds.head?.map Fold.start).getD p
  | .object u => u.start

/-- What a call asks for: an evaluation of its operands, with a span that they and the place of its
    value give. -/
def Taking.Asks (p : Nat) (taking : Taking) : Prop :=
  ∀ request, taking.request? = some request → ∀ folds, (request folds).operands = folds ∧
    (request folds).place = taking.place ∧ (request folds).start = taking.place.startOf p folds

/-- A method call asks for what is made of its operands, at its own place. -/
theorem takingMethod_asks (m : Member) (kind : InvokeKind) (type : MethodType)
    (arguments : List Operand) (receiver : Option Operand) (rest : List Slot) :
    (s.takingMethod p m kind type arguments receiver rest).Asks p := by
  unfold Subject.takingMethod
  split
  · -- A constructor gives its object a value, and another call pushes one.
    rcases receiver with _ | _ | u | f
    · exact nofun
    · exact nofun
    · intro request hrequest
      dsimp only at hrequest
      split at hrequest
      · cases hrequest
        exact fun folds => ⟨rfl, rfl, rfl⟩
      · cases hrequest
    · exact nofun
  · intro request hrequest folds
    rcases Option.map_eq_some_iff.mp hrequest with ⟨result, hresult, rfl⟩
    refine ⟨rfl, ?_, rfl⟩
    dsimp only [Analysis.callRequest]
    rw [MethodType.resultSlots, hresult]
    rfl

-- So does every instruction that asks for something.
theorem taking?_asks (h : s.taking? p a i = some taking) : taking.Asks p := by
  cases s.taking?_eq_some_iff.mp h with
  | method hk hd => exact takingMethod_asks _ _ _ _ _ _
  | site hd hfolds =>
      intro request hrequest folds
      cases hrequest
      exact ⟨rfl, rfl, rfl⟩

/-- A request has the place that was taken for it. -/
theorem requestOf?_place {h : Heap} {q : Request} (htaking : s.taking? p a i = some taking)
    (hq : s.requestOf? h p taking = some q) : q.place = taking.place := by
  rcases Option.bind_eq_some_iff.mp hq with ⟨request, hrequest, hq⟩
  rcases Option.map_eq_some_iff.mp hq with ⟨folds, -, rfl⟩
  exact (taking?_asks htaking request hrequest folds).2.1

/-- The value of a call that is evaluated takes the slots that the descriptor declares, unless it
    is an object. -/
theorem declaredSlots?_of_taking {h : Heap} {q : Request} {k : Nat}
    (htaking : s.taking? p a i = some taking) (hq : s.requestOf? h p taking = some q)
    (hplace : q.place = .top k) : i.declaredSlots? = some k := by
  rcases Analysis.known_of_requestOf hq with ⟨hasks, -⟩
  rw [requestOf?_place htaking hq] at hplace
  cases s.taking?_eq_some_iff.mp htaking with
  | @method op m _ kind type hk hd =>
      unfold Subject.takingMethod at hasks hplace
      split at hplace
      next hconstructor =>
        -- A constructor gives its value to its object, and asks for nothing without one.
        rw [if_pos hconstructor] at hasks
        split at hplace
        · cases hplace
        next hreceiver =>
          split at hasks
          next u hobject =>
            exact absurd hobject (hreceiver u)
          · exact absurd rfl hasks
      next hconstructor =>
        cases hplace
        rw [Instruction.declaredSlots?, if_neg, hd]
        · rfl
        · rintro ⟨rfl, hctor⟩
          cases hk
          exact hconstructor (by rw [hctor]; rfl)
  | site hd hfolds =>
      cases hplace
      rw [Instruction.declaredSlots?, hd]
      rfl

/-- The operands of a method call are its arguments and its receiver. -/
theorem mem_of_mem_takingMethod {m : Member} {kind : InvokeKind} {type : MethodType}
    {arguments : List Operand} {receiver : Option Operand} {rest : List Slot}
    (hf : .known f ∈ (s.takingMethod p m kind type arguments receiver rest).operands) :
    .known f ∈ receiver.toList ∨ .known f ∈ arguments := by
  unfold Subject.takingMethod at hf
  split at hf
  · rcases receiver with _ | _ | u | f
    · cases hf
    · cases hf
    · exact .inr hf
    · cases hf
  · exact List.mem_append.mp hf

theorem mem_of_mem_receiverOn {kind : InvokeKind}
    (hf : .known f ∈ (kind.receiverOn a).toList) : .known f ∈ a := by
  unfold InvokeKind.receiverOn at hf
  split at hf
  · exact mem_of_operandOn (List.mem_singleton.mp hf).symm
  · cases hf

/-- The operands of a call were on the stack. -/
theorem mem_of_mem_taking (htaking : s.taking? p a i = some taking)
    (hf : .known f ∈ taking.operands) : .known f ∈ a := by
  cases s.taking?_eq_some_iff.mp htaking with
  | method hk hd =>
      rcases mem_of_mem_takingMethod hf with hf | hf
      · exact mem_of_mem_slotsUnder (mem_of_mem_receiverOn hf)
      · exact mem_of_mem_operandsOn hf
  | site hd hfolds => exact mem_of_mem_operandsOn hf

/-- Operands that are known are known on the other stack as well. -/
theorem Taking.Below.known (h : taking.Below taking') (hknown : .unknown ∉ taking.operands) :
    .unknown ∉ taking'.operands := by
  rcases h with ⟨hoperands, -⟩
  -- The induction is on how the two lists of operands lie below each other.
  generalize taking.operands = l at hoperands hknown
  generalize taking'.operands = l' at hoperands ⊢
  induction hoperands with
  | nil => exact List.not_mem_nil
  | cons hfirst _ ih =>
      rw [List.mem_cons, not_or] at hknown ⊢
      refine ⟨?_, ih hknown.2⟩
      cases hfirst with
      | unknown => exact absurd rfl hknown.1
      | found g => nofun
      | uninitialized u => nofun
      | known h => nofun

/-- A value that is made again of the same outcome. -/
theorem Request.Like.made {q q' : Request} (h : q.Like q') {heap heap' : Heap}
    {outcome : Except Failure (Member × Value)} :
    ∀ f ∈ q.made p heap outcome, ∃ g ∈ q'.made p heap' outcome, f.Like g := by
  intro f hf
  cases outcome with
  | error failure => cases hf
  | ok r =>
      cases hf
      refine ⟨_, rfl, ⟨h.start_eq, rfl, rfl, ?_⟩⟩
      rw [Fold.isRead, Fold.isRead]
      all_goals nofun

/-- What was asked for is asked for again. -/
theorem requestOf?_again {h h' : Heap} {q : Request}
    (htaking : s.taking? p a i = some taking) (hbelow : taking.Below taking')
    (hkinds : ∀ f, .known f ∈ taking.operands → h.SameKind h' f.value)
    (hq : s.requestOf? h p taking = some q) :
    ∃ q', s.requestOf? h' p taking' = some q' ∧ q.Like q' := by
  rcases Option.bind_eq_some_iff.mp hq with ⟨request, hrequest, hq⟩
  rcases Option.map_eq_some_iff.mp hq with ⟨folds, hfolds, rfl⟩
  rcases evaluable?_again hbelow.operands hkinds hfolds with ⟨folds', hfolds', hlike⟩
  rcases taking?_asks htaking request hrequest folds with ⟨hoperands, -, hstart⟩
  rcases taking?_asks htaking request hrequest folds' with ⟨hoperands', -, hstart'⟩
  refine ⟨request folds', ?_, ?_, ?_⟩
  · unfold Subject.requestOf?
    rw [hbelow.request_eq, hrequest, hbelow.cursor_eq, Option.bind_some, hfolds', Option.map_some]
  · rw [hstart, hstart']
    -- A request on top of the stack starts with its first operand, which starts at the same place.
    cases taking.place with
    | object u => rfl
    | top k =>
        cases hlike with
        | nil => rfl
        | cons hfg _ => exact hfg.start_eq
  · rw [hoperands, hoperands']
    exact hlike

/-- A request on top of the stack takes the slots that the instruction declares. -/
theorem declaredSlots?_of_request {t t₁ : Tracker} {env : Env} {m m₁ : Machine} {q : Request}
    {k : Nat} (hq : Analysis.request? p i s t env m = ((some q, t₁), m₁))
    (hplace : q.place = .top k) : i.declaredSlots? = some k := by
  rcases Analysis.exists_taking_of_request hq with ⟨taking, htaking⟩
  rcases Analysis.taking_apply (m := m) env htaking with ⟨u, n, hrequest, -⟩
  rw [hrequest, Prod.mk.injEq, Prod.mk.injEq] at hq
  exact declaredSlots?_of_taking htaking hq.1.1 hplace

/-- What a call takes off it takes off again. -/
theorem exists_taking_again (hab : Stacks.Below a b) (h : s.taking? p a i = some taking) :
    ∃ taking', s.taking? p b i = some taking' ∧ taking.Below taking' := by
  have hrel := taking?_again (s := s) (p := p) (i := i) hab
  rw [h] at hrel
  generalize s.taking? p b i = again at hrel ⊢
  cases hrel with
  | some hbelow => exact ⟨_, rfl, hbelow⟩

/-- What takes nothing from one stack takes nothing from the other. -/
theorem taking?_eq_none_again (hab : Stacks.Below a b) (h : s.taking? p a i = none) :
    s.taking? p b i = none := by
  have hrel := taking?_again (s := s) (p := p) (i := i) hab
  rw [h] at hrel
  generalize s.taking? p b i = again at hrel ⊢
  cases hrel
  rfl

/-- What an instruction asked for it asks for again, in any later state in which the objects of its
    operands are of the same kind. The machine is not needed for that. -/
theorem request?_again {t t₁ t' : Tracker} {env : Env} (env' : Env) {m m₁ m' : Machine}
    {q : Request} (pass : Nat) (hab : Stacks.Below t.stack t'.stack)
    (hkinds : ∀ f, .known f ∈ t.stack → m.heap.SameKind m'.heap f.value)
    (hq : Analysis.request? p i s t env m = ((some q, t₁), m₁)) :
    t₁.progress = t.progress ∧ ∃ q' t₂, Analysis.request? p i (s.inPass pass) t' env' m'
        = ((some q', t₂), m') ∧
      t₂.progress = t'.progress ∧ Stacks.Below t₁.stack t₂.stack ∧ q.Like q' ∧
      q'.place = q.place := by
  rcases Analysis.exists_taking_of_request hq with ⟨taking, htaking⟩
  rcases exists_taking_again hab htaking with ⟨taking', htaking', hbelow⟩
  rcases Analysis.taking_apply (m := m) env htaking with ⟨u, n, hrequest, hrest, hquiet, -⟩
  rcases Analysis.taking_apply (s := s.inPass pass) (t := t') (m := m') env'
    (by rwa [Subject.taking?_inPass]) with ⟨u', n', hrequest', hrest', hquiet', -⟩
  rw [Subject.requestOf?_inPass] at hrequest'
  rw [hrequest, Prod.mk.injEq, Prod.mk.injEq] at hq
  rcases hq with ⟨⟨hq, rfl⟩, rfl⟩
  -- The operands are known, and so popping them gives nothing up in either run.
  rcases Analysis.known_of_requestOf hq with ⟨hasks, hknown⟩
  rcases hquiet hasks hknown with ⟨hprogress, rfl⟩
  rcases hquiet' (hbelow.request_eq ▸ hasks) (hbelow.known hknown) with ⟨hprogress', rfl⟩
  rcases requestOf?_again htaking hbelow (fun f hf => hkinds f (mem_of_mem_taking htaking hf)) hq
    with ⟨q', hq', hlike⟩
  refine ⟨hprogress, q', u', ?_, hprogress', ?_, hlike, ?_⟩
  · rw [hrequest', hq']
  · rw [hrest, hrest']
    exact hbelow.rest
  · exact (requestOf?_place htaking' hq').trans
      (hbelow.place_eq.trans (requestOf?_place htaking hq).symm)

end Calls

end Found

end JvmFold
