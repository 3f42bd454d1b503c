import JvmFold.Proofs.Analysis.Codes
import JvmFold.Proofs.Analysis.Recorded
import JvmFold.Proofs.Analysis.Requests
import JvmFold.Proofs.Evaluation.Memo

/-!
# What an Analysis Keeps

An operation of an analysis does little to the state. It moves values on the
stack, it asks the machine, it notes why something cannot be folded, it adds a
replacement together with the event for it, it notes that a field has become
known, and it records the outcome of an evaluation that is not on record yet. A
relation between states that survives these survives every operation, by the
way the operation is put together, and so a whole body.

For most relations neither the stack nor the events matter. One of these is
that all replacements are free of marks. Another one is that nothing is
forgotten: what is known of fields, of evaluations and of the machine stays so.

## Main definitions

* `Analysis.Tracks`: A relation between states that what an analysis does keeps.
* `Analysis.Preserves`: One that does not depend on the stack and the events.
* `Analysis.Framed`: An operation that keeps every such relation.

## Theorems

* `Analysis.framed_advance`: Following an instruction is framed.
* `Analysis.Tracks.replacements`, `Analysis.Preserves.replacements`: So is following a body.
* `replacements_realCode`: All replacements of a body are without marks.
-/

namespace JvmFold

namespace EventKind

/-- Whether the event is about something that was folded. -/
def isFold : EventKind → Bool
  | .constantFolded | .instanceDeconstructed => true
  | _ => false

/-- Whether the event is about something that could not be folded. -/
def isSkip : EventKind → Bool
  | .foldSkipped | .memberInaccessible => true
  | _ => false

end EventKind

/-- An event of the pass at a position in the method. -/
def Subject.event (s : Subject) (kind : EventKind) (position : Nat) (member : Option Member)
    (message : String) : Event where
  kind := kind
  method := some s.method
  location := some position
  member := member
  message := message
  pass := some s.pass

namespace Analysis

/-- A relation between states that holds as long as the analysis of a body does what it may. -/
structure Tracks (env : Env) (s : Subject) (R : Tracker → Machine → Tracker → Machine → Prop) :
    Prop where
  trans : ∀ {t m u n v o}, R t m u n → R u n v o → R t m v o
  stack : ∀ (t : Tracker) (m : Machine) (stack : List Slot), R t m { t with stack } m
  machine : ∀ t, env.Keeps fun m n => R t m t n
  answers : ∀ t, Machine.KeepsAnswers fun m n => R t m t n
  skip : ∀ (t : Tracker) (m : Machine) {kind : EventKind} (p : Nat) (member : Option Member)
    (text : String), kind.isSkip = true →
    R t m { t with passLog := t.passLog.push (s.event kind p member text) } m
  /-- A replacement is added together with its event. -/
  fold : ∀ (t : Tracker) (m : Machine) {kind : EventKind} (r : Replacement)
    (member : Option Member) (text : String), kind.isFold = true → RealCode r.code →
    R t m { t with
      passLog := t.passLog.push (s.event kind r.start member text)
      replacements := t.replacements.push r } m
  resolve : ∀ (t : Tracker) (m : Machine) (p : Nat) (declared : Member) (text : String),
    R t m { t with
      progress.resolved := t.progress.resolved.insert declared
      runLog := t.runLog.push (s.event .fieldResolved p (some declared) text) } m

/-- A relation between states that holds as long as an analysis does what it may, and for which
    neither the stack nor the events matter. -/
structure Preserves (env : Env) (R : Tracker → Machine → Tracker → Machine → Prop) : Prop where
  trans : ∀ {t m u n v o}, R t m u n → R u n v o → R t m v o
  /-- Neither the stack nor the events matter. -/
  quiet : ∀ {t u : Tracker} (m : Machine), u.progress = t.progress →
    u.replacements = t.replacements → R t m u m
  machine : ∀ t, env.Keeps fun m n => R t m t n
  answers : ∀ t, Machine.KeepsAnswers fun m n => R t m t n
  replace : ∀ (t : Tracker) (m : Machine) (r : Replacement), RealCode r.code →
    R t m { t with replacements := t.replacements.push r } m
  resolve : ∀ (t : Tracker) (m : Machine) (declared : Member),
    R t m { t with progress.resolved := t.progress.resolved.insert declared } m

/-- A relation that holds as well when an outcome is recorded that is not on record yet. -/
def Records (R : Tracker → Machine → Tracker → Machine → Prop) : Prop :=
  ∀ (t : Tracker) (m : Machine) (site : EvaluationSite)
    (outcome : Except Failure (Member × Value)), t.progress.evaluated[site]? = none →
      R t m { t with progress.evaluated := t.progress.evaluated.insert site outcome } m

/-- An operation that keeps what an analysis may keep. Only one that may record outcomes changes
    the record. -/
class Framed (records : Bool) {α : Type} (x : Analysis α) : Prop where
  follows : ∀ {env : Env} {s : Subject} {R : Tracker → Machine → Tracker → Machine → Prop},
    Tracks env s R → (records = true → Records R) → ∀ (t : Tracker) (m : Machine),
      R t m (x s t env m).1.2 (x s t env m).2

variable {records : Bool}

section Rules

variable {α β : Type} {x : Analysis α} {env : Env} {s : Subject}
variable {R : Tracker → Machine → Tracker → Machine → Prop}

/-- A state is related to itself. -/
theorem Tracks.refl (h : Tracks env s R) (t : Tracker) (m : Machine) : R t m t m :=
  h.stack t m t.stack

theorem Preserves.refl (h : Preserves env R) (t : Tracker) (m : Machine) : R t m t m :=
  h.quiet m rfl rfl

theorem Preserves.tracks (h : Preserves env R) (s : Subject) : Tracks env s R where
  trans := h.trans
  stack _ m _ := h.quiet m rfl rfl
  machine := h.machine
  answers := h.answers
  skip _ m _ _ _ _ _ := h.quiet m rfl rfl
  fold t m _ r _ _ _ hr := h.trans (h.replace t m r hr) (h.quiet m rfl rfl)
  resolve t m _ declared _ := h.trans (h.resolve t m declared) (h.quiet m rfl rfl)

/-- An analysis that is framed keeps to every relation that is preserved. -/
theorem Framed.keeps (hx : Framed records x) (h : Preserves env R)
    (hr : records = true → Records R) (s : Subject) (t : Tracker) (m : Machine) :
    R t m (x s t env m).1.2 (x s t env m).2 :=
  hx.follows (h.tracks s) hr t m

instance (a : α) : Framed records (pure a : Analysis α) where
  follows h _ t m := h.refl t m

instance : Framed records (read : Analysis Subject) where
  follows h _ t m := h.refl t m

instance : Framed records (get : Analysis Tracker) where
  follows h _ t m := h.refl t m

instance (p : Probe α) [hp : Probe.Framed true p] : Framed records (probe p) where
  follows h _ t m := hp.keeps (h.machine t) (fun _ => h.answers t) m

instance {ε : Type} (e : ExceptT ε Probe α) [he : Trial.Framed true e] :
    Framed records (probe (ExceptT.run e)) where
  follows h _ t m := he.framed.keeps (h.machine t) (fun _ => h.answers t) m

/-- An analysis is framed if its parts are. -/
theorem Framed.bind {f : α → Analysis β} (hx : Framed records x) (hf : ∀ a, Framed records (f a)) :
    Framed records (x >>= f) where
  follows h hr t m := h.trans (hx.follows h hr t m) ((hf _).follows h hr _ _)

instance {f : α → Analysis β} [Framed records x] [∀ a, Framed records (f a)] :
    Framed records (x >>= f) :=
  Framed.bind inferInstance inferInstance

instance (f : α → β) [hx : Framed records x] : Framed records (f <$> x) where
  follows h hr t m := hx.follows h hr t m

instance (c : Prop) [Decidable c] {y : Analysis α} [Framed records x] [Framed records y] :
    Framed records (if c then x else y) := by
  split <;> infer_instance

/-- A change of the stack. -/
theorem framed_modify {f : Tracker → Tracker} (hf : ∀ t, f t = { t with stack := (f t).stack }) :
    Framed records (modify f : Analysis PUnit) where
  follows {_ _ R} h _ t m := by
    change R t m (f t) m
    rw [hf t]
    exact h.stack t m _

end Rules

/-- A note is added to the log of the pass and changes nothing else. -/
theorem note_apply (kind : EventKind) (p : Nat) (member : Option Member) (text : String)
    (s : Subject) (t : Tracker) (env : Env) (m : Machine) :
    note kind p member text s t env m
      = ((⟨⟩, { t with passLog := t.passLog.push (s.event kind p member text) }), m) :=
  rfl

/-- A note on something that was skipped is allowed everywhere. -/
theorem framed_note {kind : EventKind} (hkind : kind.isSkip = true) (p : Nat)
    (member : Option Member) (text : String) : Framed records (note kind p member text) where
  follows h _ t m := h.skip t m p member text hkind

instance (p : Nat) (member : Option Member) (text : String) :
    Framed records (note .foldSkipped p member text) :=
  framed_note rfl p member text

instance (p : Nat) (m : Member) (f : Failure) : Framed records (report p m f) := by
  cases f with
  | notConstant => exact inferInstanceAs (Framed records (pure PUnit.unit))
  | rejected _ => exact framed_note rfl _ _ _
  | inaccessible _ _ => exact framed_note rfl _ _ _
  | failed _ => exact framed_note rfl _ _ _

/-- One after a look at the machine, with what holds of the answer. -/
theorem Framed.bind_probe {α β : Type} {p : Probe α} {f : α → Analysis β} {P : α → Prop}
    [hprobe : Probe.Framed true p] (hp : ∀ env m, P (p env m).1)
    (hf : ∀ a, P a → Framed records (f a)) : Framed records (probe p >>= f) where
  follows {env _ _} h hr t m :=
    h.trans (hprobe.keeps (h.machine t) (fun _ => h.answers t) m)
      ((hf _ (hp env m)).follows h hr t _)

/-- A replacement is noted and added if there is no mark in its code. -/
theorem framed_replace (f : Fold) {code : List Instruction} (hcode : RealCode code)
    {kind : EventKind} (hkind : kind.isFold = true) (recipe : Option String) :
    Framed records (replace f code kind recipe) where
  follows {_ s _} h _ t m := by
    unfold replace
    rw [bind_at, read_apply]
    dsimp only
    by_cases hspan : s.realSpan f.start f.stop = code
    · rw [if_pos hspan]
      exact h.refl t m
    · rw [if_neg hspan, bind_at, heap_apply]
      dsimp only
      rw [bind_at, note_apply]
      exact h.fold t m ⟨f.start, f.stop, code, f.value.slots⟩ f.member _ hkind hcode

instance (f : Fold) : Framed records (writeBack f) := by
  unfold writeBack
  refine Framed.bind inferInstance fun s => Framed.bind inferInstance fun h => ?_
  split
  next load hload =>
    exact (framed_replace f (h.realCode_encoding hload) rfl none).bind fun _ =>
      inferInstance
  next r _ =>
    split
    · infer_instance
    · -- The search for the code of an object is the only part that runs code of the program.
      refine Framed.bind_probe (P := fun answer => ∀ found, answer = .ok found →
        RealCode found.code) ?_ fun answer hanswer => ?_
      · intro env m found hfound
        exact Rebuild.answers_within _ maxRebuildDepth [] r env { m with executed := 0 } found _
          (Prod.ext hfound rfl)
      · cases answer with
        | ok found =>
            have hcode := found.realCode_codeFor (hanswer found rfl) s.config.classes f.type
            exact (framed_replace f hcode rfl (some found.recipe)).bind fun _ =>
              inferInstance
        | error obstacle =>
            dsimp only
            infer_instance

mutual
/-- The recursion is that of the tree. -/
theorem framed_flush (f : Fold) : Framed records (flush f) := by
  by_cases horigin : f.origin = .literal
  · rw [flush_literal f horigin]
    infer_instance
  · have hchildren := framed_flushAll f.children
    rw [flush_eq f horigin]
    infer_instance
termination_by sizeOf f
decreasing_by
  rcases f with ⟨⟩
  simp +arith

theorem framed_flushAll (l : List Fold) : Framed records (flushAll l) := by
  match l with
  | [] =>
      rw [flushAll]
      infer_instance
  | f :: rest =>
      rw [flushAll]
      exact (framed_flush f).bind fun _ => framed_flushAll rest
termination_by sizeOf l
end

instance (f : Fold) : Framed records (flush f) :=
  framed_flush f

instance (l : List Fold) : Framed records (flushAll l) :=
  framed_flushAll l

instance (slot : Slot) : Framed records (discard slot) := by
  cases slot <;> (unfold discard; infer_instance)

instance (l : List Operand) : Framed records (release l) :=
  inferInstanceAs (Framed records (flushAll _))

instance (slot : Slot) : Framed records (push slot) :=
  framed_modify fun _ => rfl

instance (slots : Nat) : Framed records (pushUnknown slots) :=
  framed_modify fun _ => rfl

instance (f : Fold) : Framed records (pushFold f) := by
  unfold pushFold
  infer_instance

/-- Popping a slot changes the stack only. -/
theorem pop_apply (s : Subject) (t : Tracker) (env : Env) (m : Machine) :
    pop s t env m = ((t.stack.headD .unknown, { t with stack := t.stack.drop 1 }), m) := by
  rcases t with ⟨progress, runLog, passLog, stack, made⟩
  cases stack <;> rfl

instance : Framed records pop where
  follows h _ t m := by
    rw [pop_apply]
    exact h.stack t m _

instance (slots : Nat) : Framed records (popOperand slots) := by
  unfold popOperand
  split
  · refine Framed.bind inferInstance fun high => Framed.bind inferInstance fun low => ?_
    split <;> infer_instance
  · refine Framed.bind inferInstance fun slot => ?_
    split <;> infer_instance

instance (types : List FieldType) : Framed records (popOperands types) := by
  induction types with
  | nil => exact inferInstanceAs (Framed records (pure _))
  | cons type rest ih =>
      unfold popOperands
      infer_instance

instance {β : Type} (l : List β) (f : β → Analysis PUnit) [hf : ∀ b, Framed records (f b)] :
    Framed records (l.forM f) := by
  induction l with
  | nil => exact inferInstanceAs (Framed records (pure PUnit.unit))
  | cons b rest ih => exact (hf b).bind fun _ => ih

instance : Framed records endBlock :=
  Framed.bind inferInstance fun _ =>
    Framed.bind (framed_modify fun _ => rfl) fun _ => inferInstance

instance (n : Nat) : Framed records (dropSlots n) := by
  induction n with
  | zero => exact inferInstanceAs (Framed records (pure _))
  | succ n ih =>
      unfold dropSlots
      infer_instance

instance (i : Instruction) : Framed records (generic i) := by
  unfold generic
  split <;> infer_instance

instance (l : List Fold) : Framed records (touchesSharedState l) := by
  unfold touchesSharedState
  infer_instance

instance (p : Nat) (cursor : Option Nat) (operands : List Operand) :
    Framed records (evaluable? p cursor operands) := by
  unfold evaluable?
  split <;> infer_instance

/-- The outcome of an evaluation that is not on record. -/
theorem evaluate_of_new {start stop : Nat} {e : Evaluation (Member × Value)} {s : Subject}
    {t : Tracker} {env : Env} {m : Machine}
    (h : t.progress.evaluated[(⟨s.method, start, stop⟩ : EvaluationSite)]? = none) :
    evaluate start stop e s t env m =
      (((ExceptT.run e env m).1, { t with
        progress.evaluated :=
          t.progress.evaluated.insert ⟨s.method, start, stop⟩ (ExceptT.run e env m).1 }),
        (ExceptT.run e env m).2) := by
  unfold evaluate
  -- The site is looked up first; nothing is on record for it, so the evaluation runs.
  rw [bind_at, read_apply]
  dsimp only
  rw [bind_at, get_apply]
  dsimp only
  rw [h]
  rfl

instance (start stop : Nat) (e : Evaluation (Member × Value)) [he : Trial.Framed true e] :
    Framed true (evaluate start stop e) where
  follows {env s _} h hr t m := by
    cases hsite : t.progress.evaluated[(⟨s.method, start, stop⟩ : EvaluationSite)]? with
    | some outcome =>
        rw [evaluate_gives hsite]
        exact h.refl t m
    | none =>
        rw [evaluate_of_new hsite]
        exact h.trans (he.framed.keeps (h.machine t) (fun _ => h.answers t) m)
          (hr rfl t _ _ _ hsite)

instance (p : Nat) (f : Member) : Framed records (getStatic p f) := by
  unfold getStatic
  refine Framed.bind inferInstance fun s => ?_
  split
  · infer_instance
  · refine Framed.bind inferInstance fun t => ?_
    dsimp only
    split
    · refine Framed.bind inferInstance fun answer => ?_
      split <;> infer_instance
    · infer_instance

instance (p : Nat) (f : Member) : Framed records (getField p f) := by
  unfold getField
  refine Framed.bind inferInstance fun s => Framed.bind inferInstance fun receiver => ?_
  split
  · infer_instance
  · dsimp only
    split
    · split
      · refine Framed.bind inferInstance fun answer => ?_
        split <;> infer_instance
      · infer_instance
    · infer_instance

instance (p : Nat) (declared : Member) (v : Value) : Framed records (resolve p declared v) where
  follows h _ t m := by
    unfold resolve
    rw [bind_at, read_apply]
    dsimp only
    rw [bind_at, heap_apply]
    dsimp only
    rw [bind_at, get_apply]
    dsimp only
    split
    · exact h.resolve t m p declared _
    · exact h.refl t m

instance (p : Nat) (f : Member) : Framed records (putStatic p f) := by
  unfold putStatic
  refine Framed.bind inferInstance fun operand => ?_
  split <;> infer_instance

instance (p : Nat) (name : String) : Framed records (checkCast p name) := by
  unfold checkCast
  refine Framed.bind inferInstance fun s => Framed.bind inferInstance fun operand => ?_
  split <;> infer_instance

instance (p : Nat) (operands : List Operand) (named : Member) (type : FieldType) (slots : Nat)
    (evaluation : List Value → Evaluation (Member × Value))
    [∀ l, Trial.Framed true (evaluation l)] :
    Framed true (call p operands named type slots evaluation) := by
  unfold call
  refine Framed.bind inferInstance fun folds => ?_
  split
  · infer_instance
  · refine Framed.bind inferInstance fun outcome => ?_
    split <;> infer_instance

instance (p : Nat) (m : Member) (u : Uninitialized) (operands : List Operand) :
    Framed true (construct p m u operands) := by
  -- Three of the four ways give the construction up.
  have hgiveUp : Framed true (release operands >>= fun _ =>
      modify fun t => { t with stack := settle u .unknown .unknown t.stack }) :=
    Framed.bind inferInstance fun _ => framed_modify fun _ => rfl
  unfold construct
  refine Framed.bind inferInstance fun s => Framed.bind inferInstance fun folds => ?_
  split
  · exact hgiveUp
  · refine Framed.bind inferInstance fun t => ?_
    split
    · exact hgiveUp
    · refine Framed.bind inferInstance fun outcome => ?_
      split
      · exact Framed.bind inferInstance fun h => framed_modify fun _ => rfl
      · exact Framed.bind inferInstance fun _ => hgiveUp

instance (kind : InvokeKind) (type : MethodType) : Framed records (popCall kind type) := by
  unfold popCall
  refine Framed.bind inferInstance fun arguments => ?_
  dsimp only
  split <;> infer_instance

instance (p : Nat) (m : Member) (kind : InvokeKind) (type : MethodType) (arguments : List Operand)
    (receiver : Option Operand) :
    Framed true (followMethod p m kind type arguments receiver) := by
  unfold followMethod
  split <;> split <;> infer_instance

instance (p : Nat) (i : Instruction) (op : Opcode) (m : Member) :
    Framed true (invoke p i op m) := by
  rcases invoke_cases p i op m with ⟨kind, type, -, -, heq⟩ | heq
  all_goals
    rw [heq]
    infer_instance

instance (p : Nat) (i : Instruction) (bootstrap : UInt16) (descriptor : String) :
    Framed true (invokeDynamic p i bootstrap descriptor) := by
  unfold invokeDynamic
  refine Framed.bind inferInstance fun s => ?_
  split <;> infer_instance

instance (p : Nat) : Framed records (dup p) := by
  unfold dup
  refine Framed.bind inferInstance fun t => ?_
  split
  · exact framed_modify fun _ => rfl
  · infer_instance

instance (p : Nat) (v : Value) (type : FieldType) : Framed records (pushLiteral p v type) := by
  unfold pushLiteral
  infer_instance

instance (p : Nat) (i : Instruction) : Framed true (step p i) := by
  unfold step
  split
  · refine Framed.bind inferInstance fun answer => ?_
    split <;> infer_instance
  · split <;> infer_instance

instance framed_advance (p : Nat) (i : Instruction) : Framed true (advance p i) := by
  unfold advance
  split <;> infer_instance

instance : Framed true followAll := by
  unfold followAll
  infer_instance

section Requests

variable {s : Subject} {t t₁ : Tracker} {env : Env} {m m₁ : Machine} {p : Nat}

/-- Without a request the operands are given up and nothing is known of the result. -/
theorem call_of_no_request {l : List Operand} {named : Member} {type : FieldType} {slots : Nat}
    {evaluation : List Value → Evaluation (Member × Value)}
    (h : callRequest? p l named type slots evaluation s t env m = ((none, t₁), m₁)) :
    call p l named type slots evaluation s t env m
      = (release l >>= fun _ => pushUnknown slots) s t₁ env m₁ := by
  rcases hfolds : evaluable? p none l s t env m with ⟨⟨folds?, u⟩, n⟩
  rw [callRequest?, bind_at, hfolds] at h
  cases folds? with
  | none =>
      cases h
      rw [call, bind_at, hfolds]
  | some folds => cases h

/-- What becomes of an object whose constructor is not evaluated. -/
def giveUpObject (u : Uninitialized) (l : List Operand) : Analysis Unit := do
  release l
  modify fun t => { t with stack := settle u .unknown .unknown t.stack }

instance (u : Uninitialized) (l : List Operand) : Framed records (giveUpObject u l) :=
  Framed.bind inferInstance fun _ => framed_modify fun _ => rfl

/-- Without a request the object is given up with its operands. -/
theorem construct_of_no_request {l : List Operand} {c : Member} {u : Uninitialized}
    (h : constructRequest? p c u l s t env m = ((none, t₁), m₁)) :
    construct p c u l s t env m = giveUpObject u l s t₁ env m₁ := by
  rcases hfolds : evaluable? p (some (s.nextReal (u.stop + 1))) l s t env m with ⟨⟨folds?, v⟩, n⟩
  rw [constructRequest?, bind_at, read_apply] at h
  dsimp only at h
  rw [bind_at, hfolds] at h
  dsimp only at h
  rw [bind_at, get_apply] at h
  dsimp only at h
  rw [construct, bind_at, read_apply]
  dsimp only
  rw [bind_at, hfolds]
  cases folds? with
  | none =>
      -- Operands that are not all known leave no request, and their state is the one that is left.
      have hsame : v = t₁ ∧ n = m₁ := by split at h <;> cases h <;> exact ⟨rfl, rfl⟩
      rcases hsame with ⟨rfl, rfl⟩
      rfl
  | some folds =>
      split at h
      · cases h
      next hholds =>
        cases h
        dsimp only
        rw [bind_at, get_apply]
        simp only [hholds, Bool.not_false, if_true]
        rfl

/-- Only calls and call sites evaluate anything. -/
theorem framed_other {i : Instruction} (hmethod : ∀ op m isInterface, i ≠ .invoke op m isInterface)
    (hsite : ∀ bootstrap name descriptor, i ≠ .invokeDynamic bootstrap name descriptor) :
    Framed records (step p i) := by
  unfold step
  split
  · refine Framed.bind inferInstance fun answer => ?_
    split <;> infer_instance
  · split
    all_goals first
      | infer_instance
      | exact absurd rfl (hmethod _ _ _)
      | exact absurd rfl (hsite _ _ _)

/-- An instruction that asks for nothing is framed without an evaluation. -/
theorem Follows.of_no_request {ask : Analysis (Option Request)} {x : Analysis Unit}
    (hx : Follows p ask x) (h : ask s t env m = ((none, t₁), m₁)) :
    ∃ y : Analysis Unit, Framed false y ∧ x s t env m = y s t₁ env m₁ := by
  induction hx generalizing t m with
  | other i hmethod hsite =>
      cases h
      exact ⟨step p i, framed_other hmethod hsite, rfl⟩
  | generic i =>
      cases h
      exact ⟨_, inferInstance, rfl⟩
  | release operands =>
      cases h
      exact ⟨_, inferInstance, rfl⟩
  | call => exact ⟨_, inferInstance, call_of_no_request h⟩
  | construct => exact ⟨_, inferInstance, construct_of_no_request h⟩
  | bind take _ ih =>
      -- What is taken off the stack first is the same in both.
      rw [bind_at] at h ⊢
      exact ih _ h

/-- Without a request nothing is evaluated. -/
theorem step_of_no_request {i : Instruction}
    (h : request? p i s t env m = ((none, t₁), m₁)) :
    ∃ x : Analysis Unit, Framed false x ∧ step p i s t env m = x s t₁ env m₁ :=
  (follows_step p i).of_no_request h

instance (operands : List Operand) (named : Member) (type : FieldType) (slots : Nat)
    (evaluation : List Value → Evaluation (Member × Value)) :
    Framed records (callRequest? p operands named type slots evaluation) := by
  unfold callRequest?
  infer_instance

instance (c : Member) (u : Uninitialized) (operands : List Operand) :
    Framed records (constructRequest? p c u operands) := by
  unfold constructRequest?
  refine Framed.bind inferInstance fun s => Framed.bind inferInstance fun folds => ?_
  refine Framed.bind inferInstance fun t => ?_
  split <;> infer_instance

instance (c : Member) (kind : InvokeKind) (type : MethodType) (arguments : List Operand)
    (receiver : Option Operand) :
    Framed records (methodRequest? p c kind type arguments receiver) := by
  unfold methodRequest?
  split <;> split <;> infer_instance

instance (i : Instruction) : Framed records (request? p i) := by
  unfold request?
  split
  · split
    · refine Framed.bind inferInstance fun arguments => ?_
      dsimp only
      split <;> infer_instance
    · infer_instance
  · refine Framed.bind inferInstance fun s => ?_
    split
    · split <;> infer_instance
    · infer_instance
  · infer_instance

/-- Following an instruction that asks for nothing records nothing. -/
theorem Preserves.advance {R : Tracker → Machine → Tracker → Machine → Prop} (h : Preserves env R)
    {i : Instruction} (hq : (request? p i s t env m).1.1 = none) :
    R t m (advance p i s t env m).1.2 (advance p i s t env m).2 := by
  have hrequest : R t m (request? p i s t env m).1.2 (request? p i s t env m).2 :=
    (inferInstance : Framed false (request? p i)).keeps h (absurd · Bool.false_ne_true) s t m
  rcases hrun : request? p i s t env m with ⟨⟨q?, t₁⟩, m₁⟩
  rw [hrun] at hq hrequest
  cases hq
  rcases step_of_no_request hrun with ⟨x, hx, heq⟩
  -- What follows the instruction, the end of a block, evaluates nothing either.
  have hrest (y : Analysis Unit) [hy : Framed false y] :
      R t m ((x >>= fun _ => y) s t₁ env m₁).1.2 ((x >>= fun _ => y) s t₁ env m₁).2 :=
    h.trans hrequest ((hx.bind fun _ => hy).keeps h (absurd · Bool.false_ne_true) s t₁ m₁)
  have hstep (y : Analysis Unit) : (step p i >>= fun _ => y) s t env m
      = (x >>= fun _ => y) s t₁ env m₁ := by
    rw [bind_at, heq, bind_at]
  unfold Analysis.advance
  split
  · exact (inferInstance : Framed false _).keeps h (absurd · Bool.false_ne_true) s t m
  · exact h.refl t m
  · exact h.refl t m
  · rw [hstep]
    exact hrest _

end Requests

section Bodies

variable {env : Env} {R : Tracker → Machine → Tracker → Machine → Prop}
variable {s : Subject} {t : Tracker} {m : Machine}

/-- Following a body keeps what its operations keep. -/
theorem Tracks.replacements (h : Tracks env s R) (hr : Records R) :
    R { t with stack := [], replacements := #[] } m (replacements s t env m).1.2
      (replacements s t env m).2 :=
  (inferInstance : Framed true followAll).follows h (fun _ => hr)
    { t with stack := [], replacements := #[] } m

/-- A relation that is preserved holds from the start of an analysis to its end. -/
theorem Preserves.replacements (h : Preserves env R) (hr : Records R) :
    R { t with stack := [], replacements := #[] } m (replacements s t env m).1.2
      (replacements s t env m).2 :=
  (h.tracks s).replacements hr

/-- Behind the last instruction nothing changes any more. -/
theorem before_of_size_le {k : Nat} (hk : s.code.size ≤ k) :
    before s t env m k = before s t env m s.code.size := by
  induction k, hk using Nat.le_induction with
  | base => rfl
  | succ k hk ih =>
      rw [before, Array.getElem?_eq_none hk]
      exact ih

/-- A relation that is preserved holds from one position to every later one. -/
theorem Preserves.before_le (h : Preserves env R) (hr : Records R) {k l : Nat} (hkl : k ≤ l) :
    R (before s t env m k).1 (before s t env m k).2 (before s t env m l).1
      (before s t env m l).2 := by
  induction l, hkl using Nat.le_induction with
  | base => exact h.refl _ _
  | succ l _ ih =>
      refine h.trans ih ?_
      rw [before]
      split
      · exact (framed_advance l _).keeps h (fun _ => hr) s _ _
      · exact h.refl _ _

/-- A body is followed to its end from every position. -/
theorem Preserves.replacements_of_before (h : Preserves env R) (hr : Records R) (k : Nat) :
    R (before s t env m k).1 (before s t env m k).2 (Analysis.replacements s t env m).1.2
      (Analysis.replacements s t env m).2 := by
  have hend : R (before s t env m k).1 (before s t env m k).2 (before s t env m s.code.size).1
      (before s t env m s.code.size).2 := by
    rcases Nat.le_total k s.code.size with hk | hk
    · exact h.before_le hr hk
    · rw [before_of_size_le hk]
      exact h.refl _ _
  refine h.trans hend ?_
  change R _ _ (followAll s (before s t env m 0).1 env (before s t env m 0).2).1.2
    (followAll s (before s t env m 0).1 env (before s t env m 0).2).2
  rw [followAll_eq]
  exact (inferInstance : Framed true endBlock).keeps h (fun _ => hr) s _ _

end Bodies

/-- An operation adds replacements without marks only. -/
theorem keeps_realCode (env : Env) : Preserves env fun t _ u _ =>
    (∀ r ∈ t.replacements.toList, RealCode r.code) →
      ∀ r ∈ u.replacements.toList, RealCode r.code where
  trans h h' ht := h' (h ht)
  quiet _ _ hr ht := by rwa [hr]
  machine _ := ⟨fun _ => id, fun h h' ht => h' (h ht), fun _ => id, fun _ _ => id, fun _ _ _ => id⟩
  answers _ _ _ _ := id
  replace t _ r hr ht := by
    rw [Array.toList_push]
    exact List.forall_mem_append.2 ⟨ht, List.forall_mem_singleton.2 hr⟩
  resolve _ _ _ := id

end Analysis

/-- All replacements of a body are without marks. -/
theorem replacements_realCode (s : Subject) (t : Tracker) (env : Env) (m : Machine) :
    ∀ r ∈ (Analysis.replacements s t env m).1.1, RealCode r.code := by
  exact (Analysis.keeps_realCode env).replacements (fun _ _ _ _ _ => id)
    fun r hr => absurd hr List.not_mem_nil

end JvmFold
