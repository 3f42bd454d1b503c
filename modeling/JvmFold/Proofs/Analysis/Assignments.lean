import JvmFold.Proofs.Run.Following

/-!
# Assignments that Resolve Fields

A static final field becomes resolved when an assignment to it is followed
whose operand is known. Nothing else in the analysis of a body resolves
anything, so the fields that a body resolves are told by its assignments and by
what stands on the stack in front of them.

`Unresolving` is a class: what is put together from computations that resolve
nothing resolves nothing, and the instances put this together along with the
definitions. Where a definition matches on a value, its cases are split first.

## Main definitions

* `Analysis.Unresolving`: A computation that resolves no field.
* `Analysis.knownTop?`: The known value on top of the stack.
* `Subject.AssignsAt`: An assignment of a value that is known.
* `Subject.ResolvesAt`: An assignment that resolves a field.

## Theorems

* `Analysis.advance_unresolving`: Only assignments resolve fields.
* `Analysis.mem_resolved_putStatic`: What an assignment resolves.
* `Analysis.mem_resolved_replacements`: What the analysis of a body resolves.
-/

namespace JvmFold

namespace Analysis

/-- A computation that resolves no field. -/
class Unresolving {α : Type} (x : Analysis α) : Prop where
  resolved_eq : ∀ s t env m, (x s t env m).1.2.progress.resolved = t.progress.resolved

section Rules

variable {α β : Type}

instance (a : α) : Unresolving (pure a : Analysis α) :=
  ⟨fun _ _ _ _ => rfl⟩

/-- What assigns no field in its parts assigns none as a whole. -/
theorem Unresolving.bind {x : Analysis α} {f : α → Analysis β} (hx : Unresolving x)
    (hf : ∀ a, Unresolving (f a)) : Unresolving (x >>= f) :=
  ⟨fun s t env m => ((hf _).resolved_eq s _ env _).trans (hx.resolved_eq s t env m)⟩

instance (x : Analysis α) (f : α → Analysis β) [hx : Unresolving x] [hf : ∀ a, Unresolving (f a)] :
    Unresolving (x >>= f) :=
  hx.bind hf

instance (x : Analysis α) (f : α → β) [hx : Unresolving x] : Unresolving (f <$> x) :=
  ⟨fun s t env m => hx.resolved_eq s t env m⟩

instance : Unresolving (read : Analysis Subject) :=
  ⟨fun _ _ _ _ => rfl⟩

instance : Unresolving (get : Analysis Tracker) :=
  ⟨fun _ _ _ _ => rfl⟩

instance (p : Probe α) : Unresolving (probe p) :=
  ⟨fun _ _ _ _ => rfl⟩

instance (c : Prop) [Decidable c] (x y : Analysis α) [hx : Unresolving x] [hy : Unresolving y] :
    Unresolving (if c then x else y) := by
  split
  · exact hx
  · exact hy

theorem unresolving_modify {f : Tracker → Tracker}
    (h : ∀ t, (f t).progress.resolved = t.progress.resolved) :
    Unresolving (modify f : Analysis PUnit) :=
  ⟨fun _ t _ _ => h t⟩

theorem unresolving_modifyGet {f : Tracker → α × Tracker}
    (h : ∀ t, (f t).2.progress.resolved = t.progress.resolved) :
    Unresolving (modifyGet f : Analysis α) :=
  ⟨fun _ t _ _ => h t⟩

theorem unresolving_forM {f : α → Analysis PUnit} {l : List α} (h : ∀ a ∈ l, Unresolving (f a)) :
    Unresolving (l.forM f) := by
  induction l with
  | nil => exact inferInstanceAs (Unresolving (pure PUnit.unit))
  | cons a rest ih =>
      have hrest := ih fun b hb => h b (List.mem_cons_of_mem a hb)
      exact (h a List.mem_cons_self).bind fun _ => hrest

end Rules

instance (kind : EventKind) (p : Nat) (m : Option Member) (text : String) :
    Unresolving (note kind p m text) :=
  Unresolving.bind inferInstance fun _ => unresolving_modify fun _ => rfl

instance (p : Nat) (m : Member) (f : Failure) : Unresolving (report p m f) := by
  unfold report
  split <;> infer_instance

instance (f : Fold) (code : List Instruction) (kind : EventKind) (recipe : Option String) :
    Unresolving (replace f code kind recipe) := by
  have hpush (r : Replacement) : Unresolving
      (modify fun t => { t with replacements := t.replacements.push r } : Analysis PUnit) :=
    unresolving_modify fun _ => rfl
  unfold replace
  infer_instance

instance (f : Fold) : Unresolving (writeBack f) := by
  refine Unresolving.bind inferInstance fun s => Unresolving.bind inferInstance fun h => ?_
  split
  · infer_instance
  · split
    · infer_instance
    · refine Unresolving.bind inferInstance fun found => ?_
      split <;> infer_instance

mutual
/-- Giving a value up makes no field known. -/
theorem flush_unresolving (f : Fold) : Unresolving (flush f) := by
  by_cases horigin : f.origin = .literal
  · rw [flush_literal f horigin]
    infer_instance
  · have hchildren := flushAll_unresolving f.children
    rw [flush_eq f horigin]
    infer_instance
termination_by sizeOf f
decreasing_by
  rcases f with ⟨⟩
  simp +arith

theorem flushAll_unresolving (l : List Fold) : Unresolving (flushAll l) := by
  rcases l with _ | ⟨f, rest⟩
  · rw [flushAll]
    infer_instance
  · rw [flushAll]
    exact (flush_unresolving f).bind fun _ => flushAll_unresolving rest
termination_by sizeOf l
end

instance (f : Fold) : Unresolving (flush f) :=
  flush_unresolving f

instance (l : List Operand) : Unresolving (release l) :=
  flushAll_unresolving _

instance (slot : Slot) : Unresolving (discard slot) := by
  unfold discard
  split <;> infer_instance

instance (slot : Slot) : Unresolving (push slot) :=
  unresolving_modify fun _ => rfl

instance (n : Nat) : Unresolving (pushUnknown n) :=
  unresolving_modify fun _ => rfl

instance (f : Fold) : Unresolving (pushFold f) := by
  unfold pushFold
  infer_instance

instance : Unresolving pop := by
  refine unresolving_modifyGet fun t => ?_
  split <;> rfl

instance (n : Nat) : Unresolving (popOperand n) := by
  unfold popOperand
  split
  · refine Unresolving.bind inferInstance fun high => Unresolving.bind inferInstance fun low => ?_
    split <;> infer_instance
  · refine Unresolving.bind inferInstance fun slot => ?_
    split <;> infer_instance

instance (l : List FieldType) : Unresolving (popOperands l) := by
  induction l with
  | nil => exact inferInstanceAs (Unresolving (pure _))
  | cons t rest ih =>
      unfold popOperands
      infer_instance

instance : Unresolving endBlock := by
  refine Unresolving.bind inferInstance fun t => ?_
  refine Unresolving.bind (unresolving_modify fun _ => rfl) fun _ => ?_
  exact unresolving_forM fun _ _ => inferInstance

instance (n : Nat) : Unresolving (dropSlots n) := by
  induction n with
  | zero => exact inferInstanceAs (Unresolving (pure _))
  | succ n ih =>
      unfold dropSlots
      infer_instance

instance (i : Instruction) : Unresolving (generic i) := by
  unfold generic
  split <;> infer_instance

instance (p : Nat) (cursor : Option Nat) (l : List Operand) :
    Unresolving (evaluable? p cursor l) := by
  unfold evaluable? touchesSharedState
  split <;> infer_instance

instance (start stop : Nat) (e : Evaluation (Member × Value)) :
    Unresolving (evaluate start stop e) := by
  refine Unresolving.bind inferInstance fun s => Unresolving.bind inferInstance fun t => ?_
  split
  · infer_instance
  · refine Unresolving.bind inferInstance fun outcome => ?_
    exact Unresolving.bind (unresolving_modify fun _ => rfl) fun _ => inferInstance

instance (p : Nat) (f : Member) : Unresolving (getStatic p f) := by
  -- Whichever way the construction goes, the tracker loses at most slots of its stack.
  refine Unresolving.bind inferInstance fun s => ?_
  split
  · infer_instance
  · refine Unresolving.bind inferInstance fun t => ?_
    dsimp only
    split
    · refine Unresolving.bind inferInstance fun outcome => ?_
      split <;> infer_instance
    · infer_instance

instance (p : Nat) (f : Member) : Unresolving (getField p f) := by
  refine Unresolving.bind inferInstance fun s => Unresolving.bind inferInstance fun receiver => ?_
  split
  · infer_instance
  · split
    · dsimp only
      split
      · refine Unresolving.bind inferInstance fun outcome => ?_
        split <;> infer_instance
      · infer_instance
    · infer_instance

instance (p : Nat) (name : String) : Unresolving (checkCast p name) := by
  refine Unresolving.bind inferInstance fun s => Unresolving.bind inferInstance fun operand => ?_
  split <;> infer_instance

instance (p : Nat) (l : List Operand) (m : Member) (type : FieldType) (slots : Nat)
    (e : List Value → Evaluation (Member × Value)) : Unresolving (call p l m type slots e) := by
  refine Unresolving.bind inferInstance fun folds => ?_
  split
  · infer_instance
  · refine Unresolving.bind inferInstance fun outcome => ?_
    split <;> infer_instance

instance (p : Nat) (m : Member) (u : Uninitialized) (l : List Operand) :
    Unresolving (construct p m u l) := by
  have hsettle (a b : Slot) : Unresolving
      (modify fun t => { t with stack := settle u a b t.stack } : Analysis PUnit) :=
    unresolving_modify fun _ => rfl
  refine Unresolving.bind inferInstance fun s => ?_
  dsimp only
  refine Unresolving.bind inferInstance fun folds => ?_
  split
  · infer_instance
  · refine Unresolving.bind inferInstance fun t => ?_
    split
    · infer_instance
    · refine Unresolving.bind inferInstance fun outcome => ?_
      split <;> infer_instance

instance (kind : InvokeKind) (type : MethodType) : Unresolving (popCall kind type) := by
  unfold popCall
  refine Unresolving.bind inferInstance fun arguments => ?_
  dsimp only
  split <;> infer_instance

instance (p : Nat) (m : Member) (kind : InvokeKind) (type : MethodType) (arguments : List Operand)
    (receiver : Option Operand) :
    Unresolving (followMethod p m kind type arguments receiver) := by
  unfold followMethod
  split <;> split <;> infer_instance

instance (p : Nat) (i : Instruction) (op : Opcode) (m : Member) :
    Unresolving (invoke p i op m) := by
  rcases invoke_cases p i op m with ⟨kind, type, -, -, heq⟩ | heq
  all_goals
    rw [heq]
    infer_instance

instance (p : Nat) (i : Instruction) (bootstrap : UInt16) (descriptor : String) :
    Unresolving (invokeDynamic p i bootstrap descriptor) := by
  refine Unresolving.bind inferInstance fun s => ?_
  split <;> infer_instance

instance (p : Nat) (v : Value) (type : FieldType) : Unresolving (pushLiteral p v type) :=
  inferInstanceAs (Unresolving (pushFold _))

instance (p : Nat) : Unresolving (dup p) := by
  refine Unresolving.bind inferInstance fun t => ?_
  split
  · exact unresolving_modify fun _ => rfl
  · infer_instance

/-- Only an assignment can make a field known. -/
theorem step_unresolving (p : Nat) {i : Instruction} (h : ∀ f, i ≠ .field .putstatic f) :
    Unresolving (step p i) := by
  unfold step
  split
  · refine Unresolving.bind inferInstance fun outcome => ?_
    split <;> infer_instance
  · split
    all_goals first | infer_instance | exact absurd rfl (h _)

/-- Only assignments resolve fields. -/
theorem advance_unresolving (p : Nat) {i : Instruction} (h : ∀ f, i ≠ .field .putstatic f) :
    Unresolving (advance p i) := by
  have hstep := step_unresolving p h
  unfold advance
  split <;> infer_instance

/-- The number of slots of the operand of an assignment to a field. -/
def putSlots (f : Member) : Nat :=
  ((FieldType.parse f.descriptor).toOption.map FieldType.slots).getD 1

/-- The known value on top of the stack, if the given number of slots holds one. -/
def knownTop? (slots : Nat) : List Slot → Option Fold
  | .upper :: .known f :: _ => if slots = 2 then some f else none
  | .known f :: _ => if slots = 2 then none else some f
  | _ => none

section Assignments

variable {s : Subject} {t : Tracker} {env : Env} {m : Machine}

/-- A known value on top of the stack is the operand. -/
theorem popOperand_known {slots : Nat} {f : Fold} (h : knownTop? slots t.stack = some f) :
    ∃ stack, popOperand slots s t env m = ((.known f, { t with stack }), m) := by
  rcases t with ⟨progress, runLog, passLog, stack, replacements⟩
  dsimp only at h
  -- The top is known as it is, or as the lower half of a value of two slots.
  unfold knownTop? at h
  split at h
  next rest =>
    split at h
    next hslots =>
      cases h
      subst hslots
      exact ⟨rest, rfl⟩
    next => cases h
  next rest =>
    split at h
    next => cases h
    next hslots =>
      cases h
      refine ⟨rest, ?_⟩
      rw [popOperand, if_neg hslots]
      rfl
  next => cases h

/-- The operand is known only if it is the known value on top of the stack. -/
theorem knownTop?_of_popOperand {slots : Nat} {f : Fold}
    (h : (popOperand slots s t env m).1.1 = .known f) : knownTop? slots t.stack = some f := by
  rcases popOperand_pops (s := s) (t := t) slots env m with ⟨lost, hpops, -⟩
  rw [h] at hpops
  generalize t.stack = stack at hpops ⊢
  cases hpops with
  | narrow hslots => exact if_neg hslots
  | wide => rfl

/-- A field becomes known if it is a final field of the class itself and what it holds has no state.
    -/
theorem resolved_resolve (p : Nat) (f : Member) (v : Value) :
    (resolve p f v s t env m).1.2.progress.resolved =
      if isOwnFinal s.owner f && !hasState s.config m.heap v && !t.progress.resolved.contains f
      then t.progress.resolved.insert f else t.progress.resolved := by
  unfold resolve
  rw [bind_at, bind_at, bind_at]
  dsimp only
  split
  next h => exact (if_pos h).symm
  next h => exact (if_neg h).symm

/-- A field is known behind an assignment if it was known before or is the one assigned. -/
theorem mem_resolved_resolve (p : Nat) (f declared : Member) (v : Value) :
    declared ∈ (resolve p f v s t env m).1.2.progress.resolved ↔
      declared ∈ t.progress.resolved ∨
        f = declared ∧ isOwnFinal s.owner f = true ∧ hasState s.config m.heap v = false := by
  rw [resolved_resolve]
  split
  -- The field is the assigned one, or it was in the set before.
  next h =>
    simp only [Bool.and_eq_true, Bool.not_eq_true'] at h
    rw [Std.TreeSet.mem_insert, Std.compare_eq_iff_eq]
    tauto
  next h =>
    simp only [Bool.and_eq_true, Bool.not_eq_true', ← Std.TreeSet.contains_iff_mem] at h ⊢
    refine ⟨.inl, ?_⟩
    rintro (hmem | ⟨rfl, hown, hstate⟩)
    · exact hmem
    · simpa [hown, hstate] using h

/-- An assignment of a value that is known makes the field known and gives the value up. -/
theorem putStatic_of_known {p : Nat} {f : Member} {fold : Fold} {u : Tracker}
    (h : popOperand (putSlots f) s t env m = ((.known fold, u), m)) :
    putStatic p f s t env m =
      (resolve p (s.config.classes.declaredField f) fold.value >>= fun _ =>
        release [.known fold]) s u env m := by
  unfold putSlots at h
  unfold putStatic
  rw [bind_at, h]
  rfl

/-- An assignment of anything else only gives it up. -/
theorem putStatic_of_unknown {p : Nat} {f : Member} {operand : Operand} {u : Tracker}
    {m' : Machine} (h : popOperand (putSlots f) s t env m = ((operand, u), m'))
    (hoperand : ∀ fold, operand ≠ .known fold) :
    putStatic p f s t env m = release [operand] s u env m' := by
  unfold putSlots at h
  unfold putStatic
  rw [bind_at, h]
  cases operand with
  | known fold => exact absurd rfl (hoperand fold)
  | unknown => rfl
  | uninitialized u => rfl

/-- What an assignment to a field resolves: the field, if it is a final one of the class and the
    operand is known and no object that can change. -/
theorem mem_resolved_putStatic (p : Nat) (f declared : Member) :
    declared ∈ (putStatic p f s t env m).1.2.progress.resolved ↔
      declared ∈ t.progress.resolved ∨
        s.config.classes.declaredField f = declared ∧
          isOwnFinal s.owner (s.config.classes.declaredField f) = true ∧
          ∃ fold, knownTop? (putSlots f) t.stack = some fold ∧
            hasState s.config m.heap fold.value = false := by
  have hrelease (l : List Operand) := (inferInstance : Unresolving (release l)).resolved_eq
  cases htop : knownTop? (putSlots f) t.stack with
  | some fold =>
      have hpops : ∃ stack, popOperand (putSlots f) s t env m
          = ((.known fold, { t with stack }), m) := popOperand_known htop
      rcases hpops with ⟨stack, hpop⟩
      rw [putStatic_of_known hpop, bind_at, hrelease, mem_resolved_resolve]
      simp
  | none =>
      have hkept := (inferInstance : Unresolving (popOperand (putSlots f))).resolved_eq s t env m
      rcases hpop : popOperand (putSlots f) s t env m with ⟨⟨operand, u⟩, m'⟩
      -- What is popped without being known resolves nothing, whatever the field.
      have hunknown : ∀ fold, operand ≠ .known fold := by
        rintro fold rfl
        rw [knownTop?_of_popOperand (congrArg (·.1.1) hpop)] at htop
        cases htop
      rw [hpop] at hkept
      rw [putStatic_of_unknown hpop hunknown, hrelease, hkept]
      simp

/-- What an instruction resolves. -/
theorem mem_resolved_advance (p : Nat) (i : Instruction) (declared : Member) :
    declared ∈ (advance p i s t env m).1.2.progress.resolved ↔
      declared ∈ t.progress.resolved ∨
        ∃ f fold, i = .field .putstatic f ∧ s.config.classes.declaredField f = declared ∧
          isOwnFinal s.owner declared = true ∧ knownTop? (putSlots f) t.stack = some fold ∧
          hasState s.config m.heap fold.value = false := by
  -- Only an assignment resolves; every other instruction leaves the set as it was.
  by_cases hput : ∃ f, i = .field .putstatic f
  · rcases hput with ⟨f, rfl⟩
    change declared ∈ (putStatic p f s t env m).1.2.progress.resolved ↔ _
    rw [mem_resolved_putStatic]
    refine or_congr_right ⟨?_, ?_⟩
    · rintro ⟨rfl, hown, fold, htop, hstate⟩
      exact ⟨f, fold, rfl, rfl, hown, htop, hstate⟩
    · rintro ⟨_, fold, hf, rfl, hown, htop, hstate⟩
      cases hf
      exact ⟨rfl, hown, fold, htop, hstate⟩
  · have hother (f : Member) : i ≠ .field .putstatic f := fun hf => hput ⟨f, hf⟩
    rw [(advance_unresolving p hother).resolved_eq]
    refine (or_iff_left ?_).symm
    rintro ⟨f, _, hf, _⟩
    exact hother f hf

end Assignments

end Analysis

/-- An assignment of a body gives a field a value that is known when the body is followed. -/
def Subject.AssignsAt (s : Subject) (t : Tracker) (env : Env) (m : Machine) (p : Nat)
    (declared : Member) (v : Value) : Prop :=
  ∃ f fold, s.code[p]? = some (.field .putstatic f) ∧ s.config.classes.declaredField f = declared ∧
    Analysis.knownTop? (Analysis.putSlots f) (Analysis.before s t env m p).1.stack = some fold ∧
    fold.value = v

/-- An assignment of a body resolves a field: the field is a final one of the class, and the value
    is known and no object that can change. -/
structure Subject.ResolvesAt (s : Subject) (t : Tracker) (env : Env) (m : Machine) (p : Nat)
    (declared : Member) (v : Value) : Prop where
  isOwnFinal : Analysis.isOwnFinal s.owner declared = true
  assigns : s.AssignsAt t env m p declared v
  unshared : Analysis.hasState s.config (Analysis.before s t env m p).2.heap v = false

theorem Subject.ResolvesAt.lt_size {s : Subject} {t : Tracker} {env : Env} {m : Machine} {p : Nat}
    {declared : Member} {v : Value} (h : s.ResolvesAt t env m p declared v) : p < s.code.size := by
  rcases h.assigns with ⟨f, _, hf, _⟩
  exact (Array.getElem?_eq_some_iff.mp hf).1

namespace Analysis

section Runs

variable (s : Subject) (t : Tracker) (env : Env) (m : Machine)

/-- The fields that are resolved in front of a position: those from the start, and those of the
    assignments that stand before. -/
theorem mem_resolved_before (k : Nat) (declared : Member) :
    declared ∈ (before s t env m k).1.progress.resolved ↔
      declared ∈ t.progress.resolved ∨ ∃ p < k, ∃ v, s.ResolvesAt t env m p declared v := by
  induction k with
  | zero => simp [before]
  | succ k ih =>
      -- The last position is taken off the range, and stands for the instruction that is added.
      have hsplit : (∃ p < k + 1, ∃ v, s.ResolvesAt t env m p declared v) ↔
          (∃ p < k, ∃ v, s.ResolvesAt t env m p declared v) ∨
            ∃ v, s.ResolvesAt t env m k declared v := by
        simp only [Nat.lt_succ_iff_lt_or_eq, or_and_right, exists_or, exists_eq_left]
      rw [hsplit, ← or_assoc, ← ih]
      cases hi : s.code[k]? with
      | none =>
          have hnext : before s t env m (k + 1) = before s t env m k := by rw [before, hi]
          rw [hnext]
          refine (or_iff_left ?_).symm
          rintro ⟨v, hv⟩
          -- Behind the code nothing is assigned.
          exact absurd hv.lt_size (Nat.not_lt.mpr (Array.getElem?_eq_none_iff.mp hi))
      | some i =>
          have hnext : before s t env m (k + 1)
              = ((advance k i s (before s t env m k).1 env (before s t env m k).2).1.2,
                (advance k i s (before s t env m k).1 env (before s t env m k).2).2) := by
            rw [before, hi]
          rw [hnext, mem_resolved_advance]
          refine or_congr_right ⟨?_, ?_⟩
          · rintro ⟨f, fold, rfl, hdeclared, hown, htop, hstate⟩
            exact ⟨fold.value, hown, ⟨f, fold, hi, hdeclared, htop, rfl⟩, hstate⟩
          · rintro ⟨v, hown, ⟨f, fold, hf, hdeclared, htop, rfl⟩, hstate⟩
            rw [hi] at hf
            cases hf
            exact ⟨f, fold, rfl, hdeclared, hown, htop, hstate⟩

/-- The fields that the analysis of a body leaves resolved. -/
theorem mem_resolved_replacements (declared : Member) :
    declared ∈ (replacements s t env m).1.2.progress.resolved ↔
      declared ∈ t.progress.resolved ∨ ∃ p v, s.ResolvesAt t env m p declared v := by
  have hend : (replacements s t env m).1.2.progress.resolved
      = (before s t env m s.code.size).1.progress.resolved := by
    change (followAll s (before s t env m 0).1 env (before s t env m 0).2).1.2.progress.resolved = _
    rw [followAll_eq]
    exact (inferInstance : Unresolving endBlock).resolved_eq _ _ _ _
  rw [hend, mem_resolved_before]
  refine or_congr_right ⟨?_, ?_⟩
  · rintro ⟨p, -, h⟩
    exact ⟨p, h⟩
  · rintro ⟨p, v, h⟩
    exact ⟨p, h.lt_size, v, h⟩

end Runs

end Analysis

end JvmFold
