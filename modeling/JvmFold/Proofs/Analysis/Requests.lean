import JvmFold.Proofs.Analysis.Stack

/-!
# What an Instruction Asks to Evaluate

An instruction that evaluates something does so in three parts. It takes its
operands off the stack and finds out whether they can be evaluated; it asks for
the evaluation, which is run unless its outcome is on record; and it makes a
value of the outcome or gives the operands up. The first part does not evaluate
anything, and what it answers says all that the other two need.

So a property of evaluations is a property of requests. The operands of a
request were on the stack, and no replacement was decided on the way to it.

## Main definitions

* `Request`: An evaluation that is asked for.
* `Analysis.request?`: The evaluation that an instruction asks for, if it does.
* `Analysis.Follows`: What is asked for and what is done begin alike.
* `Analysis.conclude`: What becomes of an outcome.

## Theorems

* `Analysis.step_of_request`: An instruction is its request, the evaluation and the conclusion.
* `Analysis.step_of_no_request`: Without a request nothing is evaluated.
* `Analysis.request?_operands`: The operands of a request were on the stack.
-/

namespace JvmFold

/-- Where the value of an evaluation goes. -/
inductive Request.Place where
  /-- On top of the stack, where it takes the given slots if nothing is known of it. -/
  | top (slots : Nat)
  /-- In the place of an object that was not initialized. -/
  | object (u : Uninitialized)

/-- An evaluation that an instruction asks for. -/
structure Request where
  /-- The first instruction of the span. -/
  start : Nat
  /-- The operands, in order. -/
  operands : List Fold
  /-- What failures are reported for. -/
  named : Member
  /-- The type that the body gives the value. -/
  type : FieldType
  /-- What runs. -/
  evaluation : Evaluation (Member × Value)
  /-- Where the value goes. -/
  place : Request.Place

/-- The operands of a request were on the stack, and nothing was decided when they came off it. -/
structure Request.Takes (q : Request) (t t' : Tracker) : Prop where
  operands : (q.operands ++ knownIn t'.stack).Perm (knownIn t.stack)
  replacements : t'.replacements = t.replacements

namespace Analysis

/-- Puts a value on the stack. -/
def put (f : Fold) : Request.Place → Analysis Unit
  | .top _ => pushFold f
  | .object u => modify fun t => { t with stack := settle u (.known f) .unknown t.stack }

/-- Leaves the stack without a value. -/
def leave : Request.Place → Analysis Unit
  | .top slots => pushUnknown slots
  | .object u => modify fun t => { t with stack := settle u .unknown .unknown t.stack }

/-- What becomes of the outcome of an evaluation: a value made from the operands, or the operands
    are given up. -/
def conclude (p : Nat) (q : Request) : Except Failure (Member × Value) → Analysis Unit
  | .ok (method, value) => do
    let children := q.operands.map (Fold.aged (← probe Probe.heap))
    put { origin := .call, start := q.start, stop := p, value, type := q.type,
          member := some method, children } q.place
  | .error failure => do
    report p q.named failure
    flushAll q.operands
    leave q.place

/-- The evaluation of a call. -/
def callRequest (p : Nat) (named : Member) (type : FieldType) (slots : Nat)
    (evaluation : List Value → Evaluation (Member × Value)) (folds : List Fold) : Request where
  start := (folds.head?.map Fold.start).getD p
  operands := folds
  named := named
  type := type
  evaluation := evaluation (folds.map Fold.value)
  place := .top slots

/-- The evaluation of a constructor. -/
def constructRequest (c : Config) (m : Member) (u : Uninitialized) (folds : List Fold) :
    Request where
  start := u.start
  operands := folds
  named := m
  type := .object m.owner
  evaluation := Evaluation.invoke c .special m (folds.map Fold.value)
  place := .object u

/-- The evaluation that a call asks for. -/
def callRequest? (p : Nat) (operands : List Operand) (named : Member) (type : FieldType)
    (slots : Nat) (evaluation : List Value → Evaluation (Member × Value)) :
    Analysis (Option Request) := do
  let folds? ← evaluable? p none operands
  return folds?.map (callRequest p named type slots evaluation)

/-- The evaluation that a constructor asks for: the object has to be on the stack still. -/
def constructRequest? (p : Nat) (m : Member) (u : Uninitialized) (operands : List Operand) :
    Analysis (Option Request) := do
  let s ← read
  let folds? ← evaluable? p (some (s.nextReal (u.stop + 1))) operands
  if holds u (← get).stack then return folds?.map (constructRequest s.config m u)
  else return none

/-- The evaluation that the call of a method with the given operands asks for, if it does. -/
def methodRequest? (p : Nat) (m : Member) (kind : InvokeKind) (type : MethodType)
    (arguments : List Operand) (receiver : Option Operand) : Analysis (Option Request) :=
  if m.isConstructor && kind == .special then
    match receiver with
    | some (.uninitialized u) => constructRequest? p m u arguments
    | _ => return none
  else
    match type.result with
    | none => return none
    | some result => do
      let c := (← read).config
      callRequest? p (receiver.toList ++ arguments) m result result.slots
        (Evaluation.invoke c kind m)

/-- The evaluation that an instruction asks for, if it does. The operands are taken off the
    stack. -/
def request? (p : Nat) : Instruction → Analysis (Option Request)
  | .invoke op m _ =>
    match InvokeKind.ofOpcode? op, MethodType.parse m.descriptor with
    | some kind, .ok type => do
      let arguments ← popOperands type.parameters
      let receiver ← if kind.hasReceiver then some <$> popOperand 1 else pure none
      methodRequest? p m kind type arguments receiver
    | _, _ => return none
  | .invokeDynamic bootstrap _ descriptor => do
    let s ← read
    match MethodType.parse descriptor with
    | .ok type =>
      if s.config.foldsConcat then
        let operands ← popOperands type.parameters
        callRequest? p operands Evaluation.concatSite (.object "java/lang/String")
          type.resultSlots (Evaluation.concat s.owner bootstrap type.parameters)
      else return none
    | .error _ => return none
  | _ => return none

/-- A method call pops its operands and then asks. -/
theorem request?_eq_methodRequest? {op : Opcode} {kind : InvokeKind} {m : Member}
    {type : MethodType} (hk : InvokeKind.ofOpcode? op = some kind)
    (hd : MethodType.parse m.descriptor = .ok type) (p : Nat) (isInterface : Bool) :
    request? p (.invoke op m isInterface)
      = popCall kind type >>= fun taken => methodRequest? p m kind type taken.1 taken.2 := by
  dsimp only [request?, popCall]
  rw [hk, hd]
  dsimp only
  cases kind.hasReceiver <;> rfl

/-- What is asked for and what is done begin alike, by taking the same operands. They part where a
    call or a constructor is evaluated, or where nothing is asked for. -/
inductive Follows (p : Nat) : Analysis (Option Request) → Analysis Unit → Prop where
  /-- No other instruction asks for anything. -/
  | other (i : Instruction) (hmethod : ∀ op m isInterface, i ≠ .invoke op m isInterface)
      (hsite : ∀ bootstrap name descriptor, i ≠ .invokeDynamic bootstrap name descriptor) :
      Follows p (pure none) (step p i)
  | generic (i : Instruction) : Follows p (pure none) (generic i)
  | release (operands : List Operand) : Follows p (pure none) (release operands)
  | call (operands : List Operand) (named : Member) (type : FieldType) (slots : Nat)
      (evaluation : List Value → Evaluation (Member × Value)) :
      Follows p (callRequest? p operands named type slots evaluation)
        (call p operands named type slots evaluation)
  | construct (m : Member) (u : Uninitialized) (operands : List Operand) :
      Follows p (constructRequest? p m u operands) (construct p m u operands)
  | bind {α : Type} (take : Analysis α) {ask : α → Analysis (Option Request)}
      {act : α → Analysis Unit} (h : ∀ a, Follows p (ask a) (act a)) :
      Follows p (take >>= ask) (take >>= act)

/-- What a method call does follows what it asks for. -/
theorem follows_method (p : Nat) (m : Member) (kind : InvokeKind) (type : MethodType)
    (arguments : List Operand) (receiver : Option Operand) :
    Follows p (methodRequest? p m kind type arguments receiver)
      (followMethod p m kind type arguments receiver) := by
  unfold methodRequest? followMethod
  by_cases hconstructor : (m.isConstructor && kind == .special) = true
  · rw [if_pos hconstructor, if_pos hconstructor]
    rcases receiver with _ | _ | u | f
    · exact .release _
    · exact .release _
    · exact .construct m u arguments
    · exact .release _
  · rw [if_neg hconstructor, if_neg hconstructor]
    cases type.result with
    | none => exact .release _
    | some result => exact .bind _ fun s => .call _ _ _ _ _

/-- An instruction is followed as its request says. -/
theorem follows_step (p : Nat) (i : Instruction) : Follows p (request? p i) (step p i) := by
  cases i with
  | invoke op named isInterface =>
      change Follows p _ (invoke p (.invoke op named isInterface) op named)
      cases hk : InvokeKind.ofOpcode? op with
      | none =>
          dsimp only [request?, invoke]
          rw [hk]
          exact .generic _
      | some kind =>
          cases hd : MethodType.parse named.descriptor with
          | error e =>
              dsimp only [request?, invoke]
              rw [hk, hd]
              exact .generic _
          | ok type =>
              rw [request?_eq_methodRequest? hk hd, invoke_eq_followMethod hk hd]
              -- Both pop the same operands first.
              exact .bind _ fun taken => follows_method p named kind type taken.1 taken.2
  | invokeDynamic bootstrap name descriptor =>
      change Follows p _ (invokeDynamic p (.invokeDynamic bootstrap name descriptor) bootstrap
        descriptor)
      dsimp only [request?, invokeDynamic]
      refine .bind _ fun s => ?_
      cases MethodType.parse descriptor with
      | error e => exact .generic _
      | ok type =>
          dsimp only
          split
          · exact .bind _ fun operands => .call _ _ _ _ _
          · exact .generic _
  | _ => exact .other _ (fun _ _ _ h => by cases h) (fun _ _ _ h => by cases h)

section Steps

variable {s : Subject} {t t₁ : Tracker} {env : Env} {m m₁ : Machine} {p : Nat} {q : Request}

/-- To release values is to give them up. -/
theorem release_known (folds : List Fold) :
    release (folds.map .known) = flushAll folds := by
  rw [release, filterMap_known]

/-- A call that is asked for is evaluated and its outcome dealt with. -/
theorem call_of_request {l : List Operand} {named : Member} {type : FieldType} {slots : Nat}
    {evaluation : List Value → Evaluation (Member × Value)}
    (h : callRequest? p l named type slots evaluation s t env m = ((some q, t₁), m₁)) :
    call p l named type slots evaluation s t env m
      = (evaluate q.start p q.evaluation >>= conclude p q) s t₁ env m₁ := by
  have hknown := (evaluable?_yields (s := s) (t := t) (p := p) none l env m).2
  rcases hfolds : evaluable? p none l s t env m with ⟨⟨folds?, u⟩, n⟩
  rw [hfolds] at hknown
  rw [callRequest?, bind_at, hfolds] at h
  cases folds? with
  | none => cases h
  | some folds =>
      cases h
      have hl : l = folds.map .known := eq_map_known (hknown folds rfl).1
      rw [call, bind_at, hfolds]
      dsimp only
      rw [bind_at, bind_at]
      dsimp only [callRequest]
      -- A value is pushed; after a failure the operands are given up, all of which are known.
      cases (evaluate _ p _ s u env n).1.1 with
      | ok r => rfl
      | error failure =>
          rw [hl, release_known]
          rfl

-- So is a constructor call.
theorem construct_of_request {l : List Operand} {c : Member} {u : Uninitialized}
    (h : constructRequest? p c u l s t env m = ((some q, t₁), m₁)) :
    construct p c u l s t env m
      = (evaluate q.start p q.evaluation >>= conclude p q) s t₁ env m₁ := by
  have hknown := (evaluable?_yields (s := s) (t := t) (p := p) (some (s.nextReal (u.stop + 1))) l
    env m).2
  rcases hfolds : evaluable? p (some (s.nextReal (u.stop + 1))) l s t env m with ⟨⟨folds?, v⟩, n⟩
  rw [hfolds] at hknown
  rw [constructRequest?, bind_at, read_apply] at h
  dsimp only at h
  rw [bind_at, hfolds] at h
  dsimp only at h
  rw [bind_at, get_apply] at h
  dsimp only at h
  split at h
  next hholds =>
    cases folds? with
    | none => cases h
    | some folds =>
        cases h
        have hl : l = folds.map .known := eq_map_known (hknown folds rfl).1
        rw [construct, bind_at, read_apply]
        dsimp only
        rw [bind_at, hfolds]
        dsimp only
        rw [bind_at, get_apply]
        simp only [hholds, Bool.not_true, Bool.false_eq_true, if_false]
        rw [bind_at, bind_at]
        dsimp only [constructRequest]
        -- The two agree once the operands are known to be values: then releasing them is flushing
        -- them.
        cases (evaluate _ p _ s t₁ env m₁).1.1 with
        | ok r => rfl
        | error failure =>
            rw [hl, release_known]
            rfl
  · cases h

/-- What follows a request evaluates it and deals with the outcome. -/
theorem Follows.of_request {ask : Analysis (Option Request)} {x : Analysis Unit}
    (hx : Follows p ask x) (h : ask s t env m = ((some q, t₁), m₁)) :
    x s t env m = (evaluate q.start p q.evaluation >>= conclude p q) s t₁ env m₁ := by
  induction hx generalizing t m with
  | other | generic | release => cases h
  | call => exact call_of_request h
  | construct => exact construct_of_request h
  | bind take _ ih =>
      rw [bind_at] at h ⊢
      exact ih _ h

/-- An instruction that asks for an evaluation is its request, the evaluation and what becomes of
    the outcome. -/
theorem step_of_request {i : Instruction}
    (h : request? p i s t env m = ((some q, t₁), m₁)) :
    step p i s t env m = (evaluate q.start p q.evaluation >>= conclude p q) s t₁ env m₁ :=
  (follows_step p i).of_request h

/-- Operands all of which are known came off the stack without giving anything up. -/
theorem takes_of_pops {ws : List Nat} {l : List Operand} {lost folds : List Fold} {u : Tracker}
    (hpops : Pops ws t.stack l u.stack lost) (hwrote : Wrote t lost u) (hlost : lost = [])
    (hl : l.filterMap Operand.fold? = folds) (hq : q.operands = folds) : q.Takes t u := by
  subst hlost hl
  constructor
  · rw [hq]
    exact hpops.known_perm
  · rcases hwrote with ⟨new, he, _, hr⟩
    cases he
    rw [List.append_nil] at hr
    exact Array.toList_inj.1 hr

/-- The operands of a call that is asked for. -/
theorem callRequest?_takes {ws : List Nat} {l : List Operand} {lost : List Fold} {u : Tracker}
    (hpops : Pops ws t.stack l u.stack lost) (hwrote : Wrote t lost u) (named : Member)
    (type : FieldType) (slots : Nat) (evaluation : List Value → Evaluation (Member × Value)) :
    Yields (callRequest? p l named type slots evaluation) s u fun r v =>
      ∀ q, r = some q → q.Takes t v := by
  refine yields_bind ((evaluable?_yields none l).mono fun folds? v hv => ?_)
  rcases hv with ⟨rfl, hfolds⟩
  refine yields_pure fun q hq => ?_
  rcases Option.map_eq_some_iff.1 hq with ⟨folds, rfl, rfl⟩
  have hl := eq_map_known (hfolds folds rfl).1
  refine takes_of_pops hpops hwrote (hpops.lost_eq_nil hl) ?_ rfl
  rw [hl]
  exact filterMap_known folds

/-- The operands of a constructor that is asked for. The object itself has no value yet. -/
theorem constructRequest?_takes {ws : List Nat} {l : List Operand} {lost : List Fold} {u : Tracker}
    {o : Uninitialized} (hpops : Pops ws t.stack (.uninitialized o :: l) u.stack lost)
    (hwrote : Wrote t lost u) (c : Member) :
    Yields (constructRequest? p c o l) s u fun r v => ∀ q, r = some q → q.Takes t v := by
  refine yields_bind (yields_read ?_)
  refine yields_bind ((evaluable?_yields _ l).mono fun folds? v hv => ?_)
  rcases hv with ⟨rfl, hfolds⟩
  refine yields_bind (yields_get ?_)
  split
  · refine yields_pure fun q hq => ?_
    rcases Option.map_eq_some_iff.1 hq with ⟨folds, rfl, rfl⟩
    have hl := eq_map_known (hfolds folds rfl).1
    refine takes_of_pops hpops hwrote ?_ ?_ rfl
    · cases hpops with
      | cons hrest hone =>
          -- The object is no value, so nothing was lost with it.
          rw [hrest.lost_eq_nil hl]
          cases hone
          rfl
    · rw [hl]
      exact filterMap_known folds
  · exact yields_pure nofun

/-- A method call takes its operands off the stack and nothing else. -/
theorem methodRequest?_takes {ws : List Nat} {named : Member} {kind : InvokeKind}
    {type : MethodType} {arguments : List Operand} {receiver : Option Operand} {lost : List Fold}
    {u : Tracker} (hpops : Pops ws t.stack (receiver.toList ++ arguments) u.stack lost)
    (hwrote : Wrote t lost u) :
    Yields (methodRequest? p named kind type arguments receiver) s u fun r v =>
      ∀ q, r = some q → q.Takes t v := by
  unfold methodRequest?
  split
  · split
    · exact constructRequest?_takes hpops hwrote named
    · exact yields_pure nofun
  · cases hresult : type.result with
    | none => exact yields_pure nofun
    | some result =>
        refine yields_bind (yields_read ?_)
        exact callRequest?_takes hpops hwrote _ _ _ _

/-- A request takes its operands off the stack and does nothing else. -/
theorem request?_takes (i : Instruction) :
    Yields (request? p i) s t fun r t' => ∀ q, r = some q → q.Takes t t' := by
  cases i with
  | invoke op named isInterface =>
      cases hk : InvokeKind.ofOpcode? op with
      | none =>
          simp only [request?, hk]
          exact yields_pure nofun
      | some kind =>
          cases hd : MethodType.parse named.descriptor with
          | error e =>
              -- A descriptor that cannot be read asks for nothing.
              simp only [request?, hk, hd]
              exact yields_pure nofun
          | ok type =>
              rw [request?_eq_methodRequest? hk hd]
              refine yields_bind ((popCall_pops kind type).mono fun taken u hu => ?_)
              rcases hu with ⟨lost, hpops, hwrote⟩
              exact methodRequest?_takes hpops hwrote
  | invokeDynamic bootstrap name descriptor =>
      refine yields_bind (yields_read ?_)
      split
      next type _ =>
        split
        · refine yields_bind ((popOperands_pops type.parameters).mono fun operands u hu => ?_)
          rcases hu with ⟨lost, hpops, hwrote⟩
          exact callRequest?_takes hpops hwrote _ _ _ _
        · exact yields_pure nofun
      · exact yields_pure nofun
  | _ => exact yields_pure nofun

/-- A method call goes on behind itself. -/
theorem isUnconditionalTransfer_of_kind {op : Opcode} {kind : InvokeKind}
    (h : InvokeKind.ofOpcode? op = some kind) : op.isUnconditionalTransfer = false := by
  unfold InvokeKind.ofOpcode? at h
  split at h
  all_goals first | rfl | cases h

/-- An instruction that asks for an evaluation does not end a block. -/
theorem advance_of_request {i : Instruction}
    (h : request? p i s t env m = ((some q, t₁), m₁)) :
    advance p i s t env m = (evaluate q.start p q.evaluation >>= conclude p q) s t₁ env m₁ := by
  have hstep := step_of_request h
  -- What asks for something ends no block.
  have hends : advance p i s t env m = (step p i >>= fun _ => pure ⟨⟩) s t env m := by
    cases i with
    | invoke op named isInterface =>
        cases hkind : InvokeKind.ofOpcode? op with
        | none =>
            simp only [request?, hkind] at h
            cases h
        | some kind =>
            change (step p (.invoke op named isInterface) >>= fun _ =>
              if op.isUnconditionalTransfer then endBlock else pure ⟨⟩) s t env m = _
            rw [isUnconditionalTransfer_of_kind hkind]
            rfl
    | invokeDynamic bootstrap name descriptor => rfl
    | _ => cases h
  rw [hends, bind_at, hstep]
  rfl

/-- A value that is put on the stack is all that is new there. -/
theorem put_known (f : Fold) (place : Request.Place) :
    Yields (put f place) s t fun _ t' =>
      t'.replacements = t.replacements ∧ (knownIn t'.stack).Subperm (f :: knownIn t.stack) := by
  cases place with
  | top slots =>
      refine (pushFold_onStack f).mono fun _ u hu => ⟨hu.2, ?_⟩
      rw [hu.1, knownIn_onStack]
      exact List.Subperm.refl _
  | object u => exact yields_modify ⟨rfl, knownIn_settle u f t.stack⟩

/-- Without a value nothing is new. -/
theorem leave_known (place : Request.Place) :
    Yields (leave place) s t fun _ t' =>
      t'.replacements = t.replacements ∧ knownIn t'.stack = knownIn t.stack := by
  cases place with
  | top slots =>
      refine (pushUnknown_stack slots).mono fun _ u hu => ⟨hu.2, ?_⟩
      rw [hu.1, knownIn_unknowns]
  | object u =>
      refine yields_modify ⟨rfl, ?_⟩
      dsimp only
      rw [settle_unknown, knownIn_without]

/-- To give up two lists is to give up one after the other. -/
theorem flushAll_append (a b : List Fold) :
    flushAll (a ++ b) = flushAll a >>= fun _ => flushAll b := by
  induction a with
  | nil => rfl
  | cons f rest ih =>
      rw [List.cons_append, flushAll, flushAll, ih]
      rfl

end Steps

end Analysis

end JvmFold
