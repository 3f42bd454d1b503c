import JvmFold.Proofs.Analysis.Frames
import JvmFold.Proofs.Machine.Lasting

/-!
# What an Instruction Leaves on the Stack

A move says what an instruction may do to the stack. Here it is said what it
does: the operands are those on top of the stack, and the value takes the place
that the instruction has for it, or as many slots of which nothing is known. So
the stack behind an instruction is a function of the stack in front of it and
of the value that was found, if one was.

Operands come off the stack without asking the machine as long as all of them
are known. Whether they can be evaluated then depends on their spans, and on
whether their objects could be changed.

## Main definitions

* `operandsOn`, `slotsUnder`: The operands on top of a stack, and the slots below them.
* `Subject.evaluable?`: The values of operands that can be evaluated.
* `Taking`: What a call takes off the stack.
* `Request.Place.lay`: A value in its place on a stack.

## Theorems

* `Analysis.popOperands_apply`: Operands that come off the stack.
* `Analysis.getStatic_lays`, `Analysis.getField_lays`, `Analysis.checkCast_lays`: The value that a
  read or a cast finds.
* `Subject.taking?_eq_some_iff`: What is followed as a call.
* `Analysis.taking_apply`: What a call takes off the stack and what it asks for.
* `Analysis.step_concludes`: What is left behind an evaluation.
* `Analysis.step_rule`: How an instruction is followed.
-/

namespace JvmFold

/-- The slots that an operand takes. -/
def slotsOff (w : Nat) : Nat :=
  if w = 2 then 2 else 1

/-- The operand of the given slots on top of a stack. -/
def operandOn (w : Nat) (stack : List Slot) : Operand :=
  if w = 2 then
    match stack with
    | .upper :: .known f :: _ => .known f
    | _ => .unknown
  else
    match stack with
    | .known f :: _ => .known f
    | .uninitialized u :: _ => .uninitialized u
    | _ => .unknown

/-- The slots below operands. -/
def slotsUnder : List Nat → List Slot → List Slot
  | [], stack => stack
  | w :: ws, stack => (slotsUnder ws stack).drop (slotsOff w)

/-- The operands on top of a stack, in order. -/
def operandsOn : List Nat → List Slot → List Operand
  | [], _ => []
  | w :: ws, stack => operandOn w (slotsUnder ws stack) :: operandsOn ws stack

section Operands

variable {w : Nat} {ws : List Nat} {stack : List Slot} {slot : Slot} {f : Fold}

/-- What is below the operands is on the stack. -/
theorem mem_of_mem_slotsUnder (h : slot ∈ slotsUnder ws stack) : slot ∈ stack := by
  induction ws with
  | nil => exact h
  | cons w ws ih => exact ih (List.mem_of_mem_drop h)

-- So is a value that is the operand on top.
theorem mem_of_operandOn (h : operandOn w stack = .known f) : .known f ∈ stack := by
  unfold operandOn at h
  split at h
  · split at h
    · cases h
      exact List.mem_cons_of_mem _ List.mem_cons_self
    · cases h
  · split at h
    · cases h
      exact List.mem_cons_self
    · cases h
    · cases h

-- So is each one among several operands.
theorem mem_of_mem_operandsOn (h : .known f ∈ operandsOn ws stack) : .known f ∈ stack := by
  induction ws with
  | nil => cases h
  | cons w ws ih =>
      rcases List.mem_cons.mp h with h | h
      · exact mem_of_mem_slotsUnder (mem_of_operandOn h.symm)
      · exact ih h

end Operands

namespace Request.Place

/-- A value in its place on a stack, or slots of which nothing is known. -/
def lay : Request.Place → Option Fold → List Slot → List Slot
  | .top slots, none, rest => List.replicate slots .unknown ++ rest
  | .top _, some f, rest => onStack f rest
  | .object u, none, rest => Analysis.settle u .unknown .unknown rest
  | .object u, some f, rest => Analysis.settle u (.known f) .unknown rest

end Request.Place

/-- The values of operands that can be evaluated. -/
def Subject.evaluable? (s : Subject) (h : Heap) (p : Nat) (cursor : Option Nat)
    (operands : List Operand) : Option (List Fold) :=
  (knownFolds? operands).filter fun folds => s.isContiguous p cursor folds &&
    !folds.any fun f => f.isRead && Analysis.hasState s.config h f.value

/-- The stack behind an instruction of which only the effect is known. -/
def stackBehind (i : Instruction) (stack : List Slot) : List Slot :=
  match i.stackEffect? with
  | none => []
  | some (popped, pushed) => List.replicate pushed .unknown ++ stack.drop popped

namespace Subject

variable (s : Subject)

/-- The value that a read of a static field finds. -/
def foundStatic (resolved : Std.TreeSet Member) (env : Env) (m : Machine) (p : Nat) (f : Member)
    (type : FieldType) : Option Fold :=
  let declared := s.config.classes.declaredField f
  if (s.config.isConstantField declared || resolved.contains declared)
      && s.order.isReadable declared p then
    match Emu.getStatic f env { m with executed := 0 } with
    | .ok value _ =>
      some { origin := .staticField, start := p, stop := p, value, type, member := some declared }
    | .error _ _ => none
  else none

/-- The value that a read of a field of an object finds. -/
def foundField (env : Env) (m : Machine) (p : Nat) (f : Member) (type : FieldType) :
    Operand → Option Fold
  | .known object =>
    let declared := s.config.classes.declaredField f
    if s.config.isConstantField declared && s.isContiguous p none [object] then
      match Emu.getField object.value f env { m with executed := 0 } with
      | .ok value _ =>
        some { origin := .field, start := object.start, stop := p, value, type,
               member := some declared, children := [object] }
      | .error _ _ => none
    else none
  | _ => none

/-- The value that a cast finds. -/
def foundCast (h : Heap) (p : Nat) (name : String) : Operand → Option Fold
  | .known f =>
    if Analysis.passesCast s.config.classes h f.value name && s.isContiguous p none [f] then
      some { origin := .cast, start := f.start, stop := p, value := f.value,
             type := Analysis.referenceType name, children := [f] }
    else none
  | _ => none

end Subject

/-- The stack behind a copy: only references to objects that are not initialized are copied. -/
def stackCopied (p : Nat) : List Slot → List Slot
  | .uninitialized u :: rest =>
    .uninitialized { u with stop := p } :: .uninitialized { u with stop := p } :: rest
  | stack => stackBehind (.simple .dup) stack

section Found

variable {s : Subject} {p : Nat} {f g : Fold}

/-- A value that is read from a static field ends at the read. -/
theorem stop_of_foundStatic {resolved : Std.TreeSet Member} {env : Env} {m : Machine}
    {member : Member} {type : FieldType}
    (h : s.foundStatic resolved env m p member type = some g) : g.stop = p := by
  unfold Subject.foundStatic at h
  dsimp only at h
  split at h
  · split at h <;> cases h
    rfl
  · cases h

-- So does one that is read from an instance field.
theorem stop_of_foundField {env : Env} {m : Machine} {member : Member} {type : FieldType}
    {o : Operand} (h : s.foundField env m p member type o = some g) : g.stop = p := by
  unfold Subject.foundField at h
  split at h
  · dsimp only at h
    split at h
    · split at h <;> cases h
      rfl
    · cases h
  · cases h

end Found

/-- The receiver that lies below the arguments, if the call has one. -/
def InvokeKind.receiverOn (kind : InvokeKind) (below : List Slot) : Option Operand :=
  if kind.hasReceiver then some (operandOn 1 below) else none

/-- The slots that are left below the arguments and the receiver. -/
def InvokeKind.slotsUnder (kind : InvokeKind) (below : List Slot) : List Slot :=
  if kind.hasReceiver then below.drop 1 else below

/-- A call that met a stack and took its operands off. -/
structure Taking where
  /-- The operands that are evaluated, in order. -/
  operands : List Operand
  /-- Where the first operand has to start, if something stands in front of it. -/
  cursor : Option Nat := none
  /-- The slots below the operands. -/
  rest : List Slot
  /-- Where the value goes. -/
  place : Request.Place
  /-- What the call asks for with values for its operands, unless it never asks for anything. -/
  request? : Option (List Fold → Request)

namespace Subject

variable (s : Subject)

/-- The call of a method that took its arguments and its receiver off. A constructor has no place
    for a value unless its object is known to be new, and neither has a method without a result. -/
def takingMethod (p : Nat) (m : Member) (kind : InvokeKind) (type : MethodType)
    (arguments : List Operand) (receiver : Option Operand) (rest : List Slot) : Taking :=
  if m.isConstructor && kind == .special then
    match receiver with
    | some (.uninitialized u) =>
      { operands := arguments, cursor := some (s.nextReal (u.stop + 1)), rest, place := .object u
        request? := if Analysis.holds u rest then some (Analysis.constructRequest s.config m u)
          else none }
    | _ => { operands := [], rest, place := .top 0, request? := none }
  else
    { operands := receiver.toList ++ arguments, rest, place := .top type.resultSlots
      request? := type.result.map fun result =>
        Analysis.callRequest p m result result.slots (Evaluation.invoke s.config kind m) }

/-- What is left below a method call is what was there below. -/
theorem takingMethod_rest (p : Nat) (m : Member) (kind : InvokeKind) (type : MethodType)
    (arguments : List Operand) (receiver : Option Operand) (rest : List Slot) :
    (s.takingMethod p m kind type arguments receiver rest).rest = rest := by
  unfold takingMethod
  split
  · rcases receiver with _ | _ | _ | _ <;> rfl
  · rfl

/-- What an instruction takes off a stack, if it is followed as a call. -/
def taking? (p : Nat) (stack : List Slot) : Instruction → Option Taking
  | .invoke op m _ =>
    match InvokeKind.ofOpcode? op, MethodType.parse m.descriptor with
    | some kind, .ok type =>
      let widths := type.parameters.map FieldType.slots
      let arguments := operandsOn widths stack
      let below := slotsUnder widths stack
      some (if kind.hasReceiver then
          s.takingMethod p m kind type arguments (some (operandOn 1 below)) (below.drop 1)
        else s.takingMethod p m kind type arguments none below)
    | _, _ => none
  | .invokeDynamic bootstrap _ descriptor =>
    match MethodType.parse descriptor with
    | .ok type =>
      let widths := type.parameters.map FieldType.slots
      if s.config.foldsConcat then
        some {
          operands := operandsOn widths stack
          rest := slotsUnder widths stack
          place := .top type.resultSlots
          request? := some (Analysis.callRequest p Evaluation.concatSite
            (.object "java/lang/String") type.resultSlots
            (Evaluation.concat s.owner bootstrap type.parameters)) }
      else none
    | .error _ => none
  | _ => none

/-- What comes off a stack by the call of a method, or at a call site that is followed. -/
inductive CallOn (p : Nat) (stack : List Slot) : Instruction → Taking → Prop where
  | method {op : Opcode} {m : Member} {isInterface : Bool} {kind : InvokeKind} {type : MethodType}
      (hk : InvokeKind.ofOpcode? op = some kind) (hd : MethodType.parse m.descriptor = .ok type) :
      CallOn p stack (.invoke op m isInterface)
        (s.takingMethod p m kind type (operandsOn (type.parameters.map FieldType.slots) stack)
          (kind.receiverOn (slotsUnder (type.parameters.map FieldType.slots) stack))
          (kind.slotsUnder (slotsUnder (type.parameters.map FieldType.slots) stack)))
  | site {bootstrap : UInt16} {name descriptor : String} {type : MethodType}
      (hd : MethodType.parse descriptor = .ok type) (hfolds : s.config.foldsConcat = true) :
      CallOn p stack (.invokeDynamic bootstrap name descriptor)
        { operands := operandsOn (type.parameters.map FieldType.slots) stack
          rest := slotsUnder (type.parameters.map FieldType.slots) stack
          place := .top type.resultSlots
          request? := some (Analysis.callRequest p Evaluation.concatSite
            (.object "java/lang/String") type.resultSlots
            (Evaluation.concat s.owner bootstrap type.parameters)) }

/-- What a method call takes, for an instruction that is one. -/
theorem taking?_invoke {p : Nat} {stack : List Slot} {op : Opcode} {m : Member}
    {isInterface : Bool} {kind : InvokeKind} {type : MethodType}
    (hk : InvokeKind.ofOpcode? op = some kind) (hd : MethodType.parse m.descriptor = .ok type) :
    s.taking? p stack (.invoke op m isInterface)
      = some (s.takingMethod p m kind type
          (operandsOn (type.parameters.map FieldType.slots) stack)
          (kind.receiverOn (slotsUnder (type.parameters.map FieldType.slots) stack))
          (kind.slotsUnder (slotsUnder (type.parameters.map FieldType.slots) stack))) := by
  simp only [taking?, hk, hd]
  unfold InvokeKind.receiverOn InvokeKind.slotsUnder
  split <;> rfl

/-- The instructions that take operands for a request are method calls and string concatenations. -/
theorem taking?_eq_some_iff {p : Nat} {stack : List Slot} {i : Instruction} {taking : Taking} :
    s.taking? p stack i = some taking ↔ s.CallOn p stack i taking := by
  constructor
  · intro h
    cases i with
    | invoke op m isInterface =>
        -- An opcode that invokes nothing takes nothing, nor does a descriptor that cannot be read.
        cases hk : InvokeKind.ofOpcode? op with
        | none => simp only [taking?, hk, reduceCtorEq] at h
        | some kind =>
            cases hd : MethodType.parse m.descriptor with
            | error e => simp only [taking?, hk, hd, reduceCtorEq] at h
            | ok type =>
                rw [s.taking?_invoke hk hd, Option.some.injEq] at h
                exact h ▸ .method hk hd
    | invokeDynamic bootstrap name descriptor =>
        unfold taking? at h
        dsimp only at h
        split at h
        next hd =>
          split at h
          next hfolds =>
            cases h
            exact .site hd hfolds
          · cases h
        · cases h
    | _ => cases h
  · -- ⟨hd, hfolds⟩) | The other way round both are read off the definition.
    rintro (⟨hk, hd⟩ | ⟨hd, hfolds⟩)
    · exact s.taking?_invoke hk hd
    · simp only [taking?, hd, if_pos hfolds]

/-- What a call asks for, if its operands can be evaluated. -/
def requestOf? (h : Heap) (p : Nat) (taking : Taking) : Option Request :=
  taking.request?.bind fun request =>
    (s.evaluable? h p taking.cursor taking.operands).map request

end Subject

/-- The value that is made of an outcome. -/
def Request.made (q : Request) (p : Nat) (h : Heap) : Except Failure (Member × Value) → Option Fold
  | .ok (method, value) =>
    some { origin := .call, start := q.start, stop := p, value, type := q.type,
           member := some method, children := q.operands.map (Analysis.Fold.aged h) }
  | .error _ => none

namespace Analysis

section Pops

variable (s : Subject) (t : Tracker) (env : Env) (m : Machine)

/-- An operand of one slot comes off the stack, and nothing else happens. -/
theorem popOperand_narrow {w : Nat} (hw : w ≠ 2) :
    popOperand w s t env m
      = ((operandOn w t.stack, { t with stack := t.stack.drop 1 }), m) := by
  rw [popOperand, if_neg hw, bind_at, pop_apply]
  unfold operandOn
  rw [if_neg hw]
  rcases t with ⟨progress, runLog, passLog, _ | ⟨slot, rest⟩, made⟩
  · rfl
  · cases slot <;> rfl

/-- An operand comes off the stack. The machine is asked only if the operand is not known. -/
theorem popOperand_apply (w : Nat) :
    ∃ u n, popOperand w s t env m = ((operandOn w t.stack, u), n) ∧
      u.stack = t.stack.drop (slotsOff w) ∧
      (operandOn w t.stack ≠ .unknown → u.progress = t.progress ∧ n = m) := by
  by_cases hw : w = 2
  · subst hw
    -- Two slots that are no value of two slots are given up one after the other.
    have hlost (low high : Slot) (u : Tracker) : ∃ v n,
        (do discard low; discard high; return Operand.unknown : Analysis Operand) s u env m
          = ((.unknown, v), n) ∧ v.stack = u.stack := by
      have hlow := discard_released (s := s) (t := u) low env m
      refine ⟨_, _, rfl, ?_⟩
      exact (discard_released (s := s) high env _).1.trans hlow.1
    rcases t with ⟨progress, runLog, passLog, stack, made⟩
    have hunknown (hon : operandOn 2 stack = .unknown)
        (h : popOperand 2 s ⟨progress, runLog, passLog, stack, made⟩ env m
          = (do discard ((stack.drop 1).headD .unknown); discard (stack.headD .unknown)
                return Operand.unknown : Analysis Operand) s
            ⟨progress, runLog, passLog, stack.drop 2, made⟩ env m) :
        ∃ u n, popOperand 2 s ⟨progress, runLog, passLog, stack, made⟩ env m
            = ((operandOn 2 stack, u), n) ∧ u.stack = stack.drop (slotsOff 2) ∧
          (operandOn 2 stack ≠ .unknown → u.progress = progress ∧ n = m) := by
      rcases hlost ((stack.drop 1).headD .unknown) (stack.headD .unknown)
        ⟨progress, runLog, passLog, stack.drop 2, made⟩ with ⟨v, n, hrun, hv⟩
      rw [h, hon]
      exact ⟨v, n, hrun, hv, fun hne => absurd rfl hne⟩
    -- What the machine is asked for a value of two slots, its two upper entries decide.
    rcases stack with _ | ⟨high, _ | ⟨low, rest⟩⟩
    · exact hunknown rfl rfl
    · cases high <;> exact hunknown rfl rfl
    · cases high with
      | upper =>
          cases low with
          | known f => exact ⟨_, _, rfl, rfl, fun _ => ⟨rfl, rfl⟩⟩
          | _ => exact hunknown rfl rfl
      | _ => cases low <;> exact hunknown rfl rfl
  · rw [popOperand_narrow s t env m hw]
    refine ⟨_, _, rfl, ?_, fun _ => ⟨rfl, rfl⟩⟩
    rw [slotsOff, if_neg hw]

/-- Operands come off the stack. The machine is asked only if one of them is not known. -/
theorem popOperands_apply (types : List FieldType) :
    ∃ u n, popOperands types s t env m
        = ((operandsOn (types.map FieldType.slots) t.stack, u), n) ∧
      u.stack = slotsUnder (types.map FieldType.slots) t.stack ∧
      (.unknown ∉ operandsOn (types.map FieldType.slots) t.stack →
        u.progress = t.progress ∧ n = m) := by
  induction types with
  | nil => exact ⟨t, m, rfl, rfl, fun _ => ⟨rfl, rfl⟩⟩
  | cons type rest ih =>
      -- The last parameter is on top, so the others are taken off what is left.
      rcases ih with ⟨u, n, hrest, hu, hquiet⟩
      rcases popOperand_apply s u env n type.slots with ⟨v, o, hone, hv, hquiet'⟩
      refine ⟨v, o, ?_, ?_, fun hknown => ?_⟩
      · rw [popOperands, bind_at, hrest]
        dsimp only
        rw [bind_at, hone, hu]
        rfl
      · rw [hv, hu]
        rfl
      · rw [List.map_cons, operandsOn, List.mem_cons, not_or] at hknown
        rw [hu] at hquiet'
        rcases hquiet hknown.2 with ⟨hprogress, hmachine⟩
        rcases hquiet' (Ne.symm hknown.1) with ⟨hprogress', hmachine'⟩
        exact ⟨hprogress'.trans hprogress, hmachine'.trans hmachine⟩

/-- The operands of a method call are popped from the top of the stack down, and nothing else is
    done as long as all are known. -/
theorem popCall_apply (kind : InvokeKind) (type : MethodType) :
    ∃ u n, popCall kind type s t env m
        = (((operandsOn (type.parameters.map FieldType.slots) t.stack,
            kind.receiverOn (slotsUnder (type.parameters.map FieldType.slots) t.stack)), u), n) ∧
      u.stack = kind.slotsUnder (slotsUnder (type.parameters.map FieldType.slots) t.stack) ∧
      (.unknown ∉ operandsOn (type.parameters.map FieldType.slots) t.stack →
        u.progress = t.progress ∧ n = m) := by
  rcases popOperands_apply s t env m type.parameters with ⟨u, n, hpops, hu, hquiet⟩
  unfold popCall InvokeKind.receiverOn InvokeKind.slotsUnder
  rw [bind_at, hpops, ← hu]
  dsimp only
  cases kind.hasReceiver with
  | true =>
      -- The receiver takes one slot, and the machine is not asked for such an operand.
      refine ⟨{ u with stack := u.stack.drop 1 }, n, ?_, rfl, hquiet⟩
      simp only [if_true]
      rw [bind_at]
      change ((((_, some (popOperand 1 s u env n).1.1), (popOperand 1 s u env n).1.2),
        (popOperand 1 s u env n).2) : _ × Machine) = _
      rw [popOperand_narrow s u env n (by decide)]
  | false => exact ⟨u, n, rfl, rfl, hquiet⟩

end Pops

section Steps

variable {s : Subject} {t : Tracker} {env : Env} {m : Machine} {p : Nat}

/-- The end of a block leaves nothing on the stack. -/
theorem endBlock_stack : (endBlock s t env m).1.2.stack = [] :=
  (endBlock_clears env m).1

/-- An instruction that is not looked into leaves what the table of effects says. -/
theorem generic_stack (i : Instruction) :
    (generic i s t env m).1.2.stack = stackBehind i t.stack := by
  unfold generic stackBehind
  cases i.stackEffect? with
  | none => exact endBlock_stack
  | some effect =>
      rcases effect with ⟨popped, pushed⟩
      dsimp only
      rw [bind_at, (pushUnknown_stack pushed env _).1, (dropSlots_released popped env m).1]

/-- A value is put where the request has its place. -/
theorem put_stack (f : Fold) (place : Request.Place) :
    (put f place s t env m).1.2.stack = place.lay (some f) t.stack := by
  cases place with
  | top slots => exact (pushFold_onStack f env m).1
  | object u => rfl

/-- Without a value the place is filled with slots that are not known. -/
theorem leave_stack (place : Request.Place) :
    (leave place s t env m).1.2.stack = place.lay none t.stack := by
  cases place with
  | top slots => exact (pushUnknown_stack slots env m).1
  | object u => rfl

/-- To give operands up is no matter of the stack. -/
theorem release_stack (l : List Operand) : (release l s t env m).1.2.stack = t.stack :=
  (release_released l env m).1

/-- Whether operands can be evaluated is asked without any effect. -/
theorem evaluable?_apply (cursor : Option Nat) (operands : List Operand) :
    evaluable? p cursor operands s t env m
      = ((s.evaluable? m.heap p cursor operands, t), m) := by
  unfold evaluable? Subject.evaluable?
  cases knownFolds? operands with
  | none => rfl
  | some folds =>
      rw [Option.filter_some]
      -- The program tests for a gap first, and for objects that can change only then.
      cases hcontiguous : s.isContiguous p cursor folds with
      | false =>
          change ((if !s.isContiguous p cursor folds then pure none else _ :
            Analysis (Option (List Fold))) s t env m) = _
          rw [hcontiguous]
          rfl
      | true =>
          change ((if !s.isContiguous p cursor folds then pure none else _ :
            Analysis (Option (List Fold))) s t env m) = _
          rw [hcontiguous]
          change ((if folds.any fun f => f.isRead && hasState s.config m.heap f.value then pure none
            else pure (some folds) : Analysis (Option (List Fold))) s t env m) = _
          cases folds.any fun f => f.isRead && hasState s.config m.heap f.value <;> rfl

/-- A value is pushed with all of its slots. -/
theorem pushFold_stack (f : Fold) : (pushFold f s t env m).1.2.stack = onStack f t.stack :=
  (pushFold_onStack f env m).1

theorem pushFold_machine (f : Fold) : (pushFold f s t env m).2 = m := by
  unfold pushFold
  rw [bind_at]
  split <;> rfl

/-- Slots that are not known are pushed as if for a request without a value. -/
theorem pushUnknown_lays (k : Nat) :
    (pushUnknown k s t env m).1.2.stack = (Request.Place.top k).lay none t.stack :=
  (pushUnknown_stack k env m).1

/-- A failure that is noted leaves the stack alone. -/
theorem report_stack (member : Member) (failure : Failure) :
    (report p member failure s t env m).1.2.stack = t.stack := by
  rcases report_eq p member failure s t env m with ⟨passLog, h⟩
  rw [h]

/-- A read that is guarded ends in a value or in a failure that names the member. -/
theorem probe_guarded {α : Type} (f : Member) (operation : Emu α) :
    probe (ExceptT.run (Evaluation.guarded f operation)) s t env m
      = match operation env m with
        | .ok a n => ((.ok a, t), n)
        | .error fault n => ((.error (.ofFault n.heap f fault), t), n) := by
  change (((Evaluation.guarded f operation env m).1, t),
    (Evaluation.guarded f operation env m).2) = _
  rw [Evaluation.guarded_eq]
  cases operation env m <;> rfl

/-- A static field is read by a machine that counts from zero. -/
theorem probe_readStatic (f : Member) :
    probe (ExceptT.run (Evaluation.readStatic f)) s t env m
      = match Emu.getStatic f env { m with executed := 0 } with
        | .ok value n => ((.ok value, t), n)
        | .error fault n => ((.error (.ofFault n.heap f fault), t), n) := by
  change probe (ExceptT.run (Evaluation.guarded f (Emu.getStatic f))) s t env
    { m with executed := 0 } = _
  rw [probe_guarded]
  cases Emu.getStatic f env { m with executed := 0 } <;> rfl

-- So is an instance field.
theorem probe_readField (object : Value) (f : Member) :
    probe (ExceptT.run (Evaluation.readField object f)) s t env m
      = match Emu.getField object f env { m with executed := 0 } with
        | .ok value n => ((.ok value, t), n)
        | .error fault n => ((.error (.ofFault n.heap f fault), t), n) := by
  change probe (ExceptT.run (Evaluation.guarded f (Emu.getField object f))) s t env
    { m with executed := 0 } = _
  rw [probe_guarded]
  cases Emu.getField object f env { m with executed := 0 } <;> rfl

section Reads

variable {f : Member} {type : FieldType}

variable (env) in
/-- A read of a static field leaves the value that it finds, and the machine that answered it. -/
theorem getStatic_lays (htype : FieldType.parse f.descriptor = .ok type) :
    (getStatic p f s t env m).1.2.stack = (Request.Place.top type.slots).lay
        (s.foundStatic t.progress.resolved env m p f type) t.stack ∧
      ∀ g ∈ s.foundStatic t.progress.resolved env m p f type,
        Emu.getStatic f env { m with executed := 0 }
          = .ok g.value (getStatic p f s t env m).2 := by
  unfold getStatic Subject.foundStatic
  rw [bind_at, read_apply]
  dsimp only
  rw [htype]
  dsimp only
  rw [bind_at, get_apply]
  dsimp only
  split
  · rw [bind_at, probe_readStatic]
    cases Emu.getStatic f env { m with executed := 0 } with
    | ok value n =>
        -- What was read is put on the stack, and the machine is the one that answered.
        refine ⟨pushFold_stack _, fun g hg => ?_⟩
        cases hg
        dsimp only
        rw [pushFold_machine]
    | error fault n =>
        dsimp only
        rw [bind_at, pushUnknown_lays, report_stack]
        exact ⟨rfl, nofun⟩
  · exact ⟨pushUnknown_lays _, nofun⟩

variable (env) in
/-- A read of a field leaves the value that it finds, and nothing happens to the heap. -/
theorem getField_lays (htype : FieldType.parse f.descriptor = .ok type) :
    (getField p f s t env m).1.2.stack = (Request.Place.top type.slots).lay
        (s.foundField env m p f type (operandOn 1 t.stack)) (t.stack.drop 1) ∧
      ∀ g ∈ s.foundField env m p f type (operandOn 1 t.stack),
        (getField p f s t env m).2.heap = m.heap := by
  unfold getField
  rw [bind_at, read_apply]
  dsimp only
  rw [bind_at, popOperand_narrow s t env m (by decide)]
  dsimp only
  rw [htype]
  dsimp only
  cases operandOn 1 t.stack with
  | unknown => exact ⟨pushUnknown_lays _, nofun⟩
  | uninitialized u => exact ⟨pushUnknown_lays _, nofun⟩
  | known object =>
      unfold Subject.foundField
      dsimp only
      split
      · rw [bind_at, probe_readField]
        cases hread : Emu.getField object.value f env { m with executed := 0 } with
        | ok value n =>
            -- A field is read without running any code, so the state is the same but for the count.
            rcases Emu.getField_ok hread with ⟨-, -, -, -, -, rfl, -⟩
            refine ⟨pushFold_stack _, fun _ _ => ?_⟩
            dsimp only
            rw [pushFold_machine]
        | error fault n =>
            dsimp only
            rw [bind_at, bind_at, pushUnknown_lays, (flush_released object _ env _).1,
              report_stack]
            exact ⟨rfl, nofun⟩
      · rw [bind_at, pushUnknown_lays, (flush_released object _ env m).1]
        exact ⟨rfl, nofun⟩

end Reads

/-- A cast leaves the value that it finds. -/
theorem checkCast_lays (name : String) :
    (checkCast p name s t env m).1.2.stack = (Request.Place.top 1).lay
      (s.foundCast m.heap p name (operandOn 1 t.stack)) (t.stack.drop 1) := by
  unfold checkCast
  rw [bind_at, read_apply]
  dsimp only
  rw [bind_at, popOperand_narrow s t env m (by decide)]
  dsimp only
  -- Only a known value can pass the cast; one that does not is given up.
  cases operandOn 1 t.stack with
  | unknown => exact pushUnknown_lays _
  | uninitialized u => exact pushUnknown_lays _
  | known f =>
      unfold Subject.foundCast
      dsimp only
      rw [bind_at, heap_apply]
      dsimp only
      split
      · exact pushFold_stack _
      · rw [bind_at, pushUnknown_lays, (flush_released f _ env m).1]

/-- An assignment to a static field takes its operand off. -/
theorem putStatic_stack (f : Member) :
    (putStatic p f s t env m).1.2.stack = t.stack.drop
      (slotsOff (((FieldType.parse f.descriptor).toOption.map FieldType.slots).getD 1)) := by
  rcases popOperand_apply s t env m
    (((FieldType.parse f.descriptor).toOption.map FieldType.slots).getD 1) with ⟨u, n, hpop, hu, -⟩
  unfold putStatic
  dsimp only
  rw [bind_at, hpop, ← hu]
  dsimp only
  -- A known value is assigned before it is given up, and both leave the stack as it is.
  cases operandOn (((FieldType.parse f.descriptor).toOption.map FieldType.slots).getD 1)
      t.stack with
  | known fold =>
      dsimp only
      rw [bind_at, read_apply, bind_at, release_stack, (resolve_quiet _ _ env n).1]
  | _ => exact release_stack _

variable (env) in
/-- A call is asked for exactly if its operands can be evaluated. -/
theorem callRequest?_apply (l : List Operand) (named : Member) (type : FieldType) (slots : Nat)
    (evaluation : List Value → Evaluation (Member × Value)) :
    callRequest? p l named type slots evaluation s t env m
      = (((s.evaluable? m.heap p none l).map (callRequest p named type slots evaluation), t),
          m) := by
  rw [callRequest?, bind_at, evaluable?_apply]
  rfl

/-- A constructor call is asked for if its object is still on the stack as well. -/
theorem constructRequest?_apply (c : Member) (u : Uninitialized) (l : List Operand) :
    constructRequest? p c u l s t env m
      = ((if holds u t.stack then
            (s.evaluable? m.heap p (some (s.nextReal (u.stop + 1))) l).map
              (constructRequest s.config c u)
          else none, t), m) := by
  rw [constructRequest?, bind_at, read_apply]
  dsimp only
  rw [bind_at, evaluable?_apply]
  dsimp only
  rw [bind_at, get_apply]
  dsimp only
  split <;> rfl

section Calls

variable {c : Member} {kind : InvokeKind} {type : MethodType} {arguments : List Operand}
variable {receiver : Option Operand}

/-- What a method call asks for is what is taken for it, if that can be evaluated. -/
theorem methodRequest?_apply :
    methodRequest? p c kind type arguments receiver s t env m
      = ((s.requestOf? m.heap p
            (s.takingMethod p c kind type arguments receiver t.stack), t), m) := by
  unfold methodRequest? Subject.takingMethod
  split
  · -- A constructor asks for something only if its receiver is an object in the making.
    rcases receiver with _ | _ | u | f
    · rfl
    · rfl
    · dsimp only
      rw [constructRequest?_apply]
      unfold Subject.requestOf?
      dsimp only
      split <;> rfl
    · rfl
  · cases type.result with
    | none => rfl
    | some result =>
        dsimp only
        rw [bind_at, read_apply]
        dsimp only
        rw [callRequest?_apply]
        rfl

/-- Without a request the call of a method leaves its place without a value. -/
theorem method_lays_nothing
    (h : s.requestOf? m.heap p (s.takingMethod p c kind type arguments receiver t.stack) = none) :
    (followMethod p c kind type arguments receiver s t env m).1.2.stack
      = (s.takingMethod p c kind type arguments receiver t.stack).place.lay none
          (s.takingMethod p c kind type arguments receiver t.stack).rest := by
  have hnone := @methodRequest?_apply s t env m p c kind type arguments receiver
  rw [h] at hnone
  unfold methodRequest? at hnone
  unfold followMethod Subject.takingMethod
  split at hnone
  next hconstructor =>
    -- A constructor keeps the place of its object; without one nothing is asked for anyway.
    rw [if_pos hconstructor, if_pos hconstructor]
    rcases receiver with _ | _ | u | f
    · exact release_stack _
    · exact release_stack _
    · dsimp only at hnone ⊢
      rw [construct_of_no_request hnone]
      exact congrArg (settle u .unknown .unknown) (release_stack _)
    · exact release_stack _
  next hconstructor =>
    rw [if_neg hconstructor, if_neg hconstructor]
    cases hresult : type.result with
    | none =>
        rw [MethodType.resultSlots, hresult]
        exact release_stack _
    | some result =>
        rw [hresult] at hnone
        dsimp only at hnone ⊢
        rw [bind_at, read_apply] at hnone ⊢
        rw [call_of_no_request hnone, bind_at, pushUnknown_lays, release_stack,
          MethodType.resultSlots, hresult]
        rfl

end Calls

/-- Operands that can be evaluated are known. -/
theorem known_of_evaluable {h : Heap} {cursor : Option Nat} {operands : List Operand}
    {folds : List Fold} (hfolds : s.evaluable? h p cursor operands = some folds) :
    .unknown ∉ operands := by
  rcases Option.filter_eq_some_iff.mp hfolds with ⟨hknown, -⟩
  rw [eq_map_known hknown]
  simp

/-- A request is made only of operands that are known. -/
theorem known_of_requestOf {h : Heap} {taking : Taking} {q : Request}
    (hq : s.requestOf? h p taking = some q) :
    taking.request? ≠ none ∧ .unknown ∉ taking.operands := by
  rcases Option.bind_eq_some_iff.mp hq with ⟨request, hrequest, hq⟩
  rcases Option.map_eq_some_iff.mp hq with ⟨folds, hfolds, -⟩
  exact ⟨by rw [hrequest]; nofun, known_of_evaluable hfolds⟩

/-- A call that may ask for something does so for its arguments. -/
theorem arguments_known {c : Member} {kind : InvokeKind} {type : MethodType}
    {arguments : List Operand} {receiver : Option Operand} {rest : List Slot}
    (hrequest : (s.takingMethod p c kind type arguments receiver rest).request? ≠ none)
    (hknown : .unknown ∉ (s.takingMethod p c kind type arguments receiver rest).operands) :
    .unknown ∉ arguments := by
  unfold Subject.takingMethod at hrequest hknown
  split at hrequest
  next hconstructor =>
    rw [if_pos hconstructor] at hknown
    -- A constructor counts its arguments alone, another call its receiver as well.
    rcases receiver with _ | _ | u | f
    · exact absurd rfl hrequest
    · exact absurd rfl hrequest
    · exact hknown
    · exact absurd rfl hrequest
  next hconstructor =>
    rw [if_neg hconstructor, List.mem_append, not_or] at hknown
    exact hknown.2

variable (env) in
/-- A call takes its operands off and asks for what its taking says. If all operands are known, the
    machine is not needed for that. If it asks for nothing, its place stays without a value. -/
theorem taking_apply {i : Instruction} {taking : Taking}
    (h : s.taking? p t.stack i = some taking) :
    ∃ u n, request? p i s t env m = ((s.requestOf? n.heap p taking, u), n) ∧
      u.stack = taking.rest ∧
      (taking.request? ≠ none → .unknown ∉ taking.operands → u.progress = t.progress ∧ n = m) ∧
      (s.requestOf? n.heap p taking = none →
        (step p i s t env m).1.2.stack = taking.place.lay none taking.rest) := by
  cases s.taking?_eq_some_iff.mp h with
  | @method op c isInterface kind type hk hd =>
      -- The operands are popped in the same way for the request and for the step.
      rcases popCall_apply s t env m kind type with ⟨u, n, hpops, hu, hquiet⟩
      change ∃ u n, _ ∧ _ ∧ _ ∧ (_ →
        (invoke p (.invoke op c isInterface) op c s t env m).1.2.stack = _)
      rw [request?_eq_methodRequest? hk hd, invoke_eq_followMethod hk hd, bind_at, bind_at, hpops,
        ← hu]
      dsimp only
      rw [methodRequest?_apply]
      exact ⟨u, n, rfl, (Subject.takingMethod_rest ..).symm,
        fun hrequest hknown => hquiet (arguments_known hrequest hknown), method_lays_nothing⟩
  | @site bootstrap name descriptor type hd hfolds =>
      rcases popOperands_apply s t env m type.parameters with ⟨u, n, hpops, hu, hquiet⟩
      change ∃ u n, _ ∧ _ ∧ _ ∧ (_ → (invokeDynamic p (.invokeDynamic bootstrap name descriptor)
        bootstrap descriptor s t env m).1.2.stack = _)
      simp only [request?, invokeDynamic, hd]
      rw [bind_at, bind_at, read_apply]
      dsimp only
      rw [if_pos hfolds, if_pos hfolds, bind_at, bind_at, hpops]
      dsimp only
      rw [callRequest?_apply]
      refine ⟨u, n, rfl, hu, fun _ hknown => hquiet hknown, fun hq => ?_⟩
      -- Without a request the step lays down slots that are not known.
      have hnone := (callRequest?_apply (s := s) (t := u) (m := n) (p := p) env
        (operandsOn (type.parameters.map FieldType.slots) t.stack) Evaluation.concatSite
        (.object "java/lang/String") type.resultSlots
        (Evaluation.concat s.owner bootstrap type.parameters)).trans
          (congrArg (fun q => ((q, u), n)) hq)
      rw [call_of_no_request hnone, bind_at, pushUnknown_lays, release_stack, hu]

/-- Only what is followed as a call asks for an evaluation. -/
theorem exists_taking_of_request {i : Instruction} {q : Request} {t₁ : Tracker} {m₁ : Machine}
    (h : request? p i s t env m = ((some q, t₁), m₁)) :
    ∃ taking, s.taking? p t.stack i = some taking := by
  cases i with
  | invoke op c isInterface =>
      cases hk : InvokeKind.ofOpcode? op with
      | none =>
          simp only [request?, hk] at h
          cases h
      | some kind =>
          cases hd : MethodType.parse c.descriptor with
          | error e =>
              simp only [request?, hk, hd] at h
              cases h
          | ok type => exact ⟨_, s.taking?_invoke hk hd⟩
  | invokeDynamic bootstrap name descriptor =>
      cases hd : MethodType.parse descriptor with
      | error e =>
          simp only [request?, hd] at h
          cases h
      | ok type =>
          simp only [request?, hd] at h
          -- Call sites are followed only if concatenations are folded.
          rw [bind_at, read_apply] at h
          dsimp only at h
          split at h
          next hfolds =>
            exact ⟨_, s.taking?_eq_some_iff.mpr (.site hd hfolds)⟩
          · cases h
  | _ => cases h

/-- What takes nothing off as a call is followed by its effect only. -/
theorem invoke_of_taking_none {op : Opcode} {c : Member} {isInterface : Bool}
    (h : s.taking? p t.stack (.invoke op c isInterface) = none) :
    invoke p (.invoke op c isInterface) op c = generic (.invoke op c isInterface) := by
  unfold invoke
  cases hkind : InvokeKind.ofOpcode? op with
  | none => rfl
  | some kind =>
      cases htype : MethodType.parse c.descriptor with
      | error e => rfl
      | ok type => simp only [Subject.taking?, hkind, htype, reduceCtorEq] at h

/-- A call site that joins no strings is not looked into. -/
theorem invokeDynamic_of_taking_none {bootstrap : UInt16} {name descriptor : String}
    (h : s.taking? p t.stack (.invokeDynamic bootstrap name descriptor) = none) :
    invokeDynamic p (.invokeDynamic bootstrap name descriptor) bootstrap descriptor s t env m
      = generic (.invokeDynamic bootstrap name descriptor) s t env m := by
  unfold invokeDynamic
  rw [bind_at, read_apply]
  dsimp only
  cases htype : MethodType.parse descriptor with
  | error e => rfl
  | ok type =>
      simp only [Subject.taking?, htype] at h
      split at h
      · cases h
      next hfolds =>
        simp only [if_neg hfolds]

variable (env) in
/-- An evaluation leaves the stack alone. -/
theorem evaluate_stack (start stop : Nat) (e : Evaluation (Member × Value)) :
    (evaluate start stop e s t env m).1.2.stack = t.stack :=
  (evaluate_quiet start stop e env m).1

variable (env) in
/-- The outcome of an evaluation is on record afterwards. -/
theorem evaluate_recorded (start stop : Nat) (e : Evaluation (Member × Value)) :
    (evaluate start stop e s t env m).1.2.progress.evaluated[
        (⟨s.method, start, stop⟩ : EvaluationSite)]?
      = some (evaluate start stop e s t env m).1.1 := by
  cases hsite : t.progress.evaluated[(⟨s.method, start, stop⟩ : EvaluationSite)]? with
  | some outcome =>
      rw [evaluate_gives hsite]
      exact hsite
  | none =>
      rw [evaluate_of_new hsite]
      exact Std.HashMap.getElem?_insert_self

/-- An outcome leaves the value that is made of it in its place. -/
theorem conclude_lays (q : Request) (outcome : Except Failure (Member × Value)) :
    (conclude p q outcome s t env m).1.2.stack
      = q.place.lay (q.made p m.heap outcome) t.stack := by
  cases outcome with
  | ok r => exact put_stack _ _
  | error failure =>
      rw [conclude, bind_at, bind_at, leave_stack, (flushAll_released _ _ env _).1, report_stack]
      rfl

/-- Only an evaluation changes the record. -/
theorem keeps_record (env : Env) : Preserves env fun t _ u _ =>
    u.progress.evaluated = t.progress.evaluated where
  trans h h' := h'.trans h
  quiet _ hprogress _ := by rw [hprogress]
  machine _ := ⟨fun _ => rfl, fun h h' => h'.trans h, fun _ => rfl, fun _ _ => rfl,
    fun _ _ _ => rfl⟩
  answers _ _ _ _ := rfl
  replace _ _ _ _ := rfl
  resolve _ _ _ := rfl

instance {records : Bool} (f : Fold) (place : Request.Place) : Framed records (put f place) := by
  cases place with
  | top slots => exact inferInstanceAs (Framed records (pushFold f))
  | object u => exact framed_modify fun _ => rfl

instance {records : Bool} (place : Request.Place) : Framed records (leave place) := by
  cases place with
  | top slots => exact inferInstanceAs (Framed records (pushUnknown slots))
  | object u => exact framed_modify fun _ => rfl

instance {records : Bool} (q : Request) (outcome : Except Failure (Member × Value)) :
    Framed records (conclude p q outcome) := by
  unfold conclude
  split <;> infer_instance

/-- An instruction that asks for an evaluation leaves what is made of the outcome, and the outcome
    is on record. If it was on record before, it is the same one. -/
theorem step_concludes {i : Instruction} {q : Request} {t₁ : Tracker} {m₁ : Machine}
    (h : request? p i s t env m = ((some q, t₁), m₁)) :
    ∃ outcome heap, (step p i s t env m).1.2.stack
        = q.place.lay (q.made p heap outcome) t₁.stack ∧
      (step p i s t env m).1.2.progress.evaluated[(⟨s.method, q.start, p⟩ : EvaluationSite)]?
        = some outcome ∧
      ∀ o, t₁.progress.evaluated[(⟨s.method, q.start, p⟩ : EvaluationSite)]? = some o →
        outcome = o := by
  have hstack := evaluate_stack (s := s) (t := t₁) (m := m₁) env q.start p q.evaluation
  have hrecord := evaluate_recorded (s := s) (t := t₁) (m := m₁) env q.start p q.evaluation
  refine ⟨(evaluate q.start p q.evaluation s t₁ env m₁).1.1,
    (evaluate q.start p q.evaluation s t₁ env m₁).2.heap, ?_, ?_, ?_⟩
  · rw [step_of_request h, bind_at, conclude_lays, hstack]
  · -- What is on record behind the evaluation stays there while the outcome is dealt with.
    rw [step_of_request h, bind_at]
    have hkeeps := (inferInstance : Framed false (conclude p q
      (evaluate q.start p q.evaluation s t₁ env m₁).1.1)).keeps (keeps_record env)
      (absurd · Bool.false_ne_true) s (evaluate q.start p q.evaluation s t₁ env m₁).1.2
      (evaluate q.start p q.evaluation s t₁ env m₁).2
    rw [hkeeps]
    exact hrecord
  · intro o ho
    rw [evaluate_gives ho]

/-- How an instruction is followed. -/
inductive Rule (p : Nat) : Instruction → Analysis Unit → Prop where
  | literal {i : Instruction} {k : Constant} (h : i.literal? = some k) :
      Rule p i (do
        match ← probe (Probe.attempt (Emu.constant k)) with
        | .ok value => pushLiteral p value (constantType k)
        | .error _ => generic i)
  | null : Rule p (.simple .aconstNull) (pushLiteral p .null (.object objectClass))
  | copy : Rule p (.simple .dup) (dup p)
  | create {name : String} : Rule p (.typed .new name) (push (.uninitialized ⟨p, p⟩))
  | cast {name : String} : Rule p (.typed .checkcast name) (checkCast p name)
  | staticField {f : Member} : Rule p (.field .getstatic f) (getStatic p f)
  | field {f : Member} : Rule p (.field .getfield f) (getField p f)
  | assign {f : Member} : Rule p (.field .putstatic f) (putStatic p f)
  | method {op : Opcode} {c : Member} {isInterface : Bool} :
      Rule p (.invoke op c isInterface) (invoke p (.invoke op c isInterface) op c)
  | callSite {bootstrap : UInt16} {name descriptor : String} :
      Rule p (.invokeDynamic bootstrap name descriptor)
        (invokeDynamic p (.invokeDynamic bootstrap name descriptor) bootstrap descriptor)
  | other {i : Instruction} : Rule p i (generic i)

/-- Every instruction is dealt with by one of the rules. -/
theorem step_rule (p : Nat) (i : Instruction) : ∃ x, Rule p i x ∧ step p i = x := by
  -- A load of a literal is tried first, then the instructions in the order of the match.
  unfold step
  split
  next k hk =>
    exact ⟨_, .literal hk, rfl⟩
  · split
    · exact ⟨_, .null, rfl⟩
    · exact ⟨_, .copy, rfl⟩
    · exact ⟨_, .create, rfl⟩
    · exact ⟨_, .cast, rfl⟩
    · exact ⟨_, .staticField, rfl⟩
    · exact ⟨_, .field, rfl⟩
    · exact ⟨_, .assign, rfl⟩
    · exact ⟨_, .method, rfl⟩
    · exact ⟨_, .callSite, rfl⟩
    · exact ⟨_, .other, rfl⟩

/-- No literal loads a constant by an index. -/
theorem literal_ne_pool {i : Instruction} {k : Constant} (h : i.literal? = some k) (n : UInt16) :
    k ≠ .pool n := by
  rintro rfl
  unfold Instruction.literal? at h
  split at h <;> cases h
  next hpool => exact hpool n rfl

variable (env) in
/-- A constant that is loaded has a value, and the machine that answered it is left. -/
theorem literal_lays {i : Instruction} {k : Constant} {x : Analysis Unit}
    (h : i.literal? = some k) (hx : x = do
      match ← probe (Probe.attempt (Emu.constant k)) with
      | .ok value => pushLiteral p value (constantType k)
      | .error _ => generic i) :
    ∃ value, Emu.constant k env m = .ok value (x s t env m).2 ∧
      (x s t env m).1.2.stack = onStack { origin := .literal, start := p, stop := p, value,
                                          type := constantType k } t.stack := by
  rcases Emu.constant_eq (literal_ne_pool h) m with ⟨value, heap, heq, -, -⟩
  -- The constant is one that the machine can always load.
  have hprobe : probe (Probe.attempt (Emu.constant k)) s t env m
      = ((.ok value, t), { m with heap }) := by
    change (((Probe.attempt (Emu.constant k) env m).1, t),
      (Probe.attempt (Emu.constant k) env m).2) = _
    unfold Probe.attempt
    rw [heq env]
  refine ⟨value, ?_, ?_⟩
  · rw [hx, bind_at, hprobe]
    exact (heq env).trans (congrArg _ (pushFold_machine _).symm)
  · rw [hx, bind_at, hprobe]
    exact pushFold_stack _

/-- What a `dup` leaves on the stack. -/
theorem dup_stack : (dup p s t env m).1.2.stack = stackCopied p t.stack := by
  unfold dup
  rw [bind_at, get_apply]
  dsimp only
  rcases hstack : t.stack with _ | ⟨slot, rest⟩
  · exact (generic_stack _).trans (congrArg _ hstack)
  · cases slot with
    | uninitialized u => rfl
    | _ => exact (generic_stack _).trans (congrArg _ hstack)

end Steps

end Analysis

end JvmFold
