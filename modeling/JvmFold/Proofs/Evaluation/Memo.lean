import JvmFold.Proofs.Evaluation.Frames
import JvmFold.Proofs.Run.Following

/-!
# Answers that are Kept

A call is kept with its answer if none of its arguments can change, and an
equal call later is answered without running anything. Whether the answer can
change is not asked. So the table of answers is free of objects that can change
as long as no kept call makes one, and a call that does make one hands the same
object to everybody who asks again, with whatever has been done to it since.

## Main definitions

* `Heap.IsSettled`: A value that is no object that can change.
* `Machine.Unshared`: All values among the answers are settled.
* `Query`: What an evaluation can be asked for.
* `Query.Keeps`: A query whose answer is new and is kept.

## Theorems

* `Query.after_cases`: What a query does to the answers.
* `Query.unshared_iff`: When the answers stay free of objects that can change.
* `Query.builder_shared`: A call that makes an object that can change.
-/

namespace JvmFold

/-- A value that is no reference to an object that can change, now or later. -/
def Heap.IsSettled (h : Heap) (v : Value) : Prop :=
  ∀ r, v = .ref r → ∃ o, h.get? r = some o ∧ o.isMutable = false

/-- What is settled stays so. -/
theorem Heap.Evolves.isSettled {h h' : Heap} (hh : h.Evolves h') {v : Value} (hv : h.IsSettled v) :
    h'.IsSettled v := by
  intro r hr
  rcases hv r hr with ⟨o, ho, hfixed⟩
  rcases hh.objects ho with ⟨p, hp, hbecomes⟩
  exact ⟨p, hp, hbecomes.isMutable hfixed⟩

namespace Machine

/-- All values among the answers are settled. -/
def Unshared (s : Machine) : Prop :=
  ∀ (key : CallKey) v, s.answers[key]? = some (.ok (some v)) → s.heap.IsSettled v

/-- The state with one more answer. -/
def keep (s : Machine) (key : CallKey) (answer : Except HeapRef (Option Value)) : Machine :=
  { s with answers := s.answers.insert key answer }

/-- The state with the count of instructions at zero. -/
def restarted (s : Machine) : Machine :=
  { s with executed := 0 }

variable {s t : Machine} {key other : CallKey} {answer answer' : Except HeapRef (Option Value)}

/-- An answer is kept under its own key. -/
theorem getElem?_answers_keep :
    (s.keep key answer).answers[other]?
      = if key = other then some answer else s.answers[other]? := by
  rw [keep, Std.HashMap.getElem?_insert]
  simp only [beq_iff_eq]

/-- A new answer takes the place of none. -/
theorem answers_keep_of_some (hnew : s.answers[key]? = none)
    (hother : s.answers[other]? = some answer') :
    (s.keep key answer).answers[other]? = some answer' := by
  rw [getElem?_answers_keep, if_neg, hother]
  rintro rfl
  rw [hnew] at hother
  cases hother

/-- A machine that evolves gives no mutable answer that it did not give before. -/
theorem Evolves.unshared (h : s.Evolves t) (hs : s.Unshared) : t.Unshared := by
  intro key v hkey
  rw [h.answers_eq] at hkey
  exact h.heap.isSettled (hs key v hkey)

end Machine

namespace Emu

variable {kind : InvokeKind} {m : Member} {arguments : List Value} {keys : List ValueKey}
  {env : Env} {s : Machine}

/-- A call that is not known by what its arguments stand for is a call like any other. -/
theorem invokeOnce_of_none (hkeys : arguments.mapM s.heap.key? = none) :
    invokeOnce kind m arguments env s = invoke kind m arguments env s := by
  have hheap : heap env s = .ok s.heap s := rfl
  unfold invokeOnce
  rw [bind_apply, hheap]
  dsimp only
  rw [hkeys]

/-- A call that is known by what its arguments stand for is answered by what is kept for it. -/
theorem invokeOnce_of_keys (hkeys : arguments.mapM s.heap.key? = some keys) :
    invokeOnce kind m arguments env s =
      match s.answers[(⟨kind, m, keys⟩ : CallKey)]? with
      | some (.ok v) => .ok v s
      | some (.error r) => .error (.thrown r) s
      | none =>
        match invoke kind m arguments env s with
        | .ok v t => .ok v (t.keep ⟨kind, m, keys⟩ (.ok v))
        | .error (.thrown r) t => .error (.thrown r) (t.keep ⟨kind, m, keys⟩ (.error r))
        | .error e t => .error e t := by
  have hget : (get : Emu Machine) env s = .ok s s := rfl
  have hheap : heap env s = .ok s.heap s := rfl
  unfold invokeOnce
  rw [bind_apply, hheap]
  dsimp only
  rw [hkeys]
  dsimp only
  rw [bind_apply, hget]
  dsimp only
  -- Only an exception is kept as an answer: other faults are not.
  cases s.answers[(⟨kind, m, keys⟩ : CallKey)]? with
  | some answer => cases answer <;> rfl
  | none =>
      dsimp only
      simp only [bind_apply, tryCatch_apply]
      cases invoke kind m arguments env s with
      | ok v t => rfl
      | error e t => cases e <;> rfl

/-- A call whose answer is known is answered by it, and nothing happens. -/
theorem invokeOnce_of_ok {v : Option Value} (hkeys : arguments.mapM s.heap.key? = some keys)
    (hanswer : s.answers[(⟨kind, m, keys⟩ : CallKey)]? = some (.ok v)) :
    invokeOnce kind m arguments env s = .ok v s := by
  rw [invokeOnce_of_keys hkeys, hanswer]

/-- An exception that is kept is thrown again. -/
theorem invokeOnce_of_error {r : HeapRef} (hkeys : arguments.mapM s.heap.key? = some keys)
    (hanswer : s.answers[(⟨kind, m, keys⟩ : CallKey)]? = some (.error r)) :
    invokeOnce kind m arguments env s = .error (.thrown r) s := by
  rw [invokeOnce_of_keys hkeys, hanswer]

/-- A call whose answer is not known is made, and its answer is kept. -/
theorem invokeOnce_of_new (hkeys : arguments.mapM s.heap.key? = some keys)
    (hnew : s.answers[(⟨kind, m, keys⟩ : CallKey)]? = none) :
    invokeOnce kind m arguments env s =
      match invoke kind m arguments env s with
      | .ok v t => .ok v (t.keep ⟨kind, m, keys⟩ (.ok v))
      | .error (.thrown r) t => .error (.thrown r) (t.keep ⟨kind, m, keys⟩ (.error r))
      | .error e t => .error e t := by
  rw [invokeOnce_of_keys hkeys, hnew]

/-- A call whose answer may be kept, by what is done in turn. -/
theorem invokeOnce_eq :
    invokeOnce kind m arguments = heap >>= fun h =>
      match arguments.mapM h.key? with
      | none => invoke kind m arguments
      | some keys => get >>= fun s =>
        match s.answers[(⟨kind, m, keys⟩ : CallKey)]? with
        | some (.ok v) => pure v
        | some (.error exception) => throw (.thrown exception)
        | none => tryCatch
            (invoke kind m arguments >>= fun v => remember ⟨kind, m, keys⟩ (.ok v) >>= fun _ =>
              pure v)
            fun fault => (match fault with
              | .thrown exception => remember ⟨kind, m, keys⟩ (.error exception)
              | _ => pure ()) >>= fun _ => throw fault := by
  funext env s
  have hheap : heap env s = .ok s.heap s := rfl
  have hget : (get : Emu Machine) env s = .ok s s := rfl
  rw [bind_apply, hheap]
  dsimp only
  -- Arguments without keys, a known answer, and a call that is made and remembered.
  cases hkeys : arguments.mapM s.heap.key? with
  | none => exact invokeOnce_of_none hkeys
  | some keys =>
      dsimp only
      rw [bind_apply, hget]
      dsimp only
      cases hanswer : s.answers[(⟨kind, m, keys⟩ : CallKey)]? with
      | some answer =>
          cases answer with
          | ok v => exact invokeOnce_of_ok hkeys hanswer
          | error exception => exact invokeOnce_of_error hkeys hanswer
      | none =>
          dsimp only
          rw [invokeOnce_of_new hkeys hanswer, tryCatch_apply, bind_apply]
          cases invoke kind m arguments env s with
          | ok v t => rfl
          | error e t => cases e <;> rfl

/-- What a call that may be kept does to the state: it evolves, or it comes to an answer that is
    new and is kept. -/
inductive Remembers (kind : InvokeKind) (m : Member) (arguments : List Value) (env : Env)
    (s : Machine) : Machine → Prop where
  | evolves {t : Machine} (h : s.Evolves t) : Remembers kind m arguments env s t
  | ok {keys : List ValueKey} {v : Option Value} {t : Machine}
      (hkeys : arguments.mapM s.heap.key? = some keys)
      (hnew : s.answers[(⟨kind, m, keys⟩ : CallKey)]? = none)
      (h : invoke kind m arguments env s = .ok v t) (ht : s.Evolves t) :
      Remembers kind m arguments env s (t.keep ⟨kind, m, keys⟩ (.ok v))
  | error {keys : List ValueKey} {r : HeapRef} {t : Machine}
      (hkeys : arguments.mapM s.heap.key? = some keys)
      (hnew : s.answers[(⟨kind, m, keys⟩ : CallKey)]? = none)
      (h : invoke kind m arguments env s = .error (.thrown r) t) (ht : s.Evolves t) :
      Remembers kind m arguments env s (t.keep ⟨kind, m, keys⟩ (.error r))

/-- A call remembers its answer and nothing else. -/
theorem remembers_invokeOnce (henv : env.Framed) (kind : InvokeKind) (m : Member)
    (arguments : List Value) (s : Machine) :
    Remembers kind m arguments env s (Outcome.state (invokeOnce kind m arguments env s)) := by
  have hevolves := (inferInstance : Framed (invoke kind m arguments)).evolves henv s
  cases hkeys : arguments.mapM s.heap.key? with
  | none =>
      rw [invokeOnce_of_none hkeys]
      exact .evolves hevolves
  | some keys =>
      cases hanswer : s.answers[(⟨kind, m, keys⟩ : CallKey)]? with
      | some answer =>
          cases answer with
          | ok v =>
              rw [invokeOnce_of_ok hkeys hanswer]
              exact .evolves (.refl s)
          | error r =>
              rw [invokeOnce_of_error hkeys hanswer]
              exact .evolves (.refl s)
      | none =>
          rw [invokeOnce_of_new hkeys hanswer]
          cases h : invoke kind m arguments env s with
          | ok v t =>
              rw [h] at hevolves
              exact .ok hkeys hanswer h hevolves
          | error e t =>
              rw [h] at hevolves
              cases e with
              -- Only an exception is kept; a call that runs out of what it may use is run again.
              | thrown r => exact .error hkeys hanswer h hevolves
              | _ => exact .evolves hevolves

/-- A call that may be kept is framed, as far as it may keep answers. -/
instance framed_invokeOnce (kind : InvokeKind) (m : Member) (arguments : List Value) :
    Probe.Framed true (Probe.attempt (invokeOnce kind m arguments)) := by
  refine ⟨fun {env R} henv hanswers s => ?_⟩
  have hcall := henv.outcome (invoke kind m arguments) s
  rw [Probe.attempt_snd]
  cases hkeys : arguments.mapM s.heap.key? with
  -- A new answer is kept, and what the relation says of keeping answers is needed only here.
  | none => rwa [invokeOnce_of_none hkeys]
  | some keys =>
      cases hanswer : s.answers[(⟨kind, m, keys⟩ : CallKey)]? with
      | some answer =>
          cases answer with
          | ok v =>
              rw [invokeOnce_of_ok hkeys hanswer]
              exact henv.refl s
          | error r =>
              rw [invokeOnce_of_error hkeys hanswer]
              exact henv.refl s
      | none =>
          rw [invokeOnce_of_new hkeys hanswer]
          revert hcall
          cases invoke kind m arguments env s with
          | ok v t => exact fun hcall => henv.trans hcall (hanswers rfl t _ _)
          | error e t =>
              cases e with
              | thrown r => exact fun hcall => henv.trans hcall (hanswers rfl t _ _)
              | _ => exact id

/-- Finding out what a call runs changes nothing unless it fails. -/
theorem state_of_target_ok {receiver : Option Value} {target : Target} {t : Machine}
    (h : Emu.target kind m receiver env s = .ok target t) : t = s := by
  -- All that is asked is the table of classes, and asking changes nothing.
  have hlift (x : Except Fault Target) {u : Machine} (hx : lift x env u = .ok target t) :
      t = u := by
    cases x <;> cases hx
    rfl
  unfold Emu.target at h
  split at h
  · exact hlift _ h
  · exact hlift _ h
  all_goals
    split at h
    · cases h
    next v =>
      rcases bind_ok h with ⟨r, u, hr, hcall⟩
      have hu : u = s := by
        cases hv : v.asReference <;> rw [hv] at hr <;> cases hr
        rfl
      subst hu
      cases r with
      | none => exact absurd hcall raise_ne_ok
      | some r => exact hlift _ hcall

end Emu

namespace Evaluation

/-- The receiver of a call whose values are the operands of an evaluation. -/
def receiver? (kind : InvokeKind) (m : Member) (operands : List Value) : Option Value :=
  if kind.hasReceiver && !(m.isConstructor && kind == .special) then operands.head? else none

/-- An evaluation of a call is let through: what the call runs is constant, and its condition
    accepts the operands. -/
def Admits (c : Config) (env : Env) (s : Machine) (kind : InvokeKind) (m : Member)
    (operands : List Value) : Prop :=
  ∃ target condition, Emu.target kind m (receiver? kind m operands) env s = .ok target s ∧
    c.predicate? target.member (kind == .static) = some condition ∧
    condition.allows c.classes
      (invocation s.heap target.member (receiver? kind m operands) operands) = true

/-- The operation that an evaluation of a call runs. -/
def operation (kind : InvokeKind) (m : Member) (operands : List Value) : Emu (Option Value) :=
  if m.isConstructor && kind == .special then some <$> Emu.construct m operands
  else Emu.invokeOnce kind m operands

section Invoke

variable {c : Config} {env : Env} {s : Machine} {kind : InvokeKind} {m : Member}
  {operands : List Value}

/-- The heap is looked at without a change. -/
theorem heap_bind {α : Type} (f : Heap → Evaluation α) :
    ((liftM Probe.heap : Evaluation Heap) >>= f) env s = f s.heap env s :=
  rfl

/-- An evaluation starts with a fresh count. -/
theorem beginEvaluation_bind {α : Type} (f : Unit → Evaluation α) :
    ((liftM Probe.beginEvaluation : Evaluation Unit) >>= f) env s = f () env s.restarted :=
  rfl

/-- What fails in the machine fails the evaluation. -/
theorem guarded_bind {α β : Type} (member : Member) (x : Emu α) (f : α → Evaluation β) :
    (guarded member x >>= f) env s =
      match x env s with
      | .ok a t => f a env t
      | .error e t => (.error (.ofFault t.heap member e), t) := by
  change ExceptT.bindCont f (guarded member x env s).1 env (guarded member x env s).2 = _
  rw [guarded_eq]
  cases x env s <;> rfl

/-- Evaluating a call is framed, as far as it may keep an answer. -/
instance framed_invoke : Trial.Framed true (invoke c kind m operands) := by
  have hoperation : Probe.Framed true (Probe.attempt
      (if m.isConstructor && kind == .special then some <$> Emu.construct m operands
        else Emu.invokeOnce kind m operands)) := by
    split <;> infer_instance
  have hrest (method : Member) : Trial.Framed true (do
      Probe.beginEvaluation
      let result ← guarded method
        (if m.isConstructor && kind == .special then some <$> Emu.construct m operands
          else Emu.invokeOnce kind m operands)
      match result with
      | some v => return (method, v)
      | none => throw (.failed (method.display ++ " returned no value"))) := by
    refine Trial.Framed.bind inferInstance fun _ => ?_
    refine Trial.Framed.bind inferInstance fun answer => ?_
    split <;> infer_instance
  unfold invoke
  dsimp only
  -- Which receiver it is does not matter.
  generalize (if kind.hasReceiver && !(m.isConstructor && kind == .special) then operands.head?
    else none) = receiver
  refine Trial.Framed.bind inferInstance fun target => ?_
  split
  · infer_instance
  · refine Trial.Framed.bind inferInstance fun h => ?_
    split
    · exact Trial.Framed.bind inferInstance fun _ => hrest _
    · exact hrest _

/-- Evaluating a call, check by check: the method it would run, the condition on that method, and
    the operands. Only when all let it through does the operation run. -/
theorem invoke_apply :
    invoke c kind m operands env s =
      match Emu.target kind m (receiver? kind m operands) env s with
      | .error e t => (.error (.ofFault t.heap m e), t)
      | .ok target t =>
        match c.predicate? target.member (kind == .static) with
        | none => (.error .notConstant, t)
        | some condition =>
          if condition.allows c.classes
              (invocation t.heap target.member (receiver? kind m operands) operands) = true then
            match operation kind m operands env t.restarted with
            | .ok (some v) u => (.ok (target.member, v), u)
            | .ok none u =>
              (.error (.failed (target.member.display ++ " returned no value")), u)
            | .error e u => (.error (.ofFault u.heap target.member e), u)
          else (.error (.rejected target.member), t) := by
  unfold invoke operation receiver?
  dsimp only
  rw [guarded_bind]
  -- A constructor runs on an object that is yet to be made, so it has no receiver.
  generalize (if kind.hasReceiver && !(m.isConstructor && kind == .special) then operands.head?
    else none) = receiver
  cases Emu.target kind m receiver env s with
  | error e t => rfl
  | ok target t =>
      dsimp only
      cases c.predicate? target.member (kind == .static) with
      | none => rfl
      | some condition =>
          dsimp only
          rw [heap_bind]
          cases condition.allows c.classes (invocation t.heap target.member receiver operands) with
          | false => rfl
          | true =>
              rw [Bool.not_true, if_neg Bool.false_ne_true, if_pos rfl, beginEvaluation_bind,
                guarded_bind]
              cases (if m.isConstructor && kind == .special then some <$> Emu.construct m operands
                else Emu.invokeOnce kind m operands) env t.restarted with
              | error e u => rfl
              | ok answer u => cases answer <;> rfl

/-- An evaluation that is let through leaves the state that its operation leaves. -/
theorem state_invoke_of_admits (h : Admits c env s kind m operands) :
    (invoke c kind m operands env s).2 =
      Emu.Outcome.state (operation kind m operands env s.restarted) := by
  rcases h with ⟨target, condition, htarget, hpredicate, hallows⟩
  simp only [invoke_apply, htarget, hpredicate, if_pos hallows]
  cases operation kind m operands env s.restarted with
  | error e t => rfl
  | ok answer t => cases answer <;> rfl

/-- An evaluation that is not let through runs nothing. -/
theorem evolves_invoke_of_not_admits (henv : env.Framed) (h : ¬Admits c env s kind m operands) :
    s.Evolves (invoke c kind m operands env s).2 := by
  have hevolves := (inferInstance :
    Emu.Framed (Emu.target kind m (receiver? kind m operands))).evolves henv s
  rw [invoke_apply]
  cases htarget : Emu.target kind m (receiver? kind m operands) env s with
  | error e t => rwa [htarget] at hevolves
  | ok target t =>
      cases Emu.state_of_target_ok htarget
      dsimp only
      -- The call is refused before anything is run.
      cases hpredicate : c.predicate? target.member (kind == .static) with
      | none => exact .refl s
      | some condition =>
          dsimp only
          rw [if_neg fun hallows => h ⟨target, condition, htarget, hpredicate, hallows⟩]
          exact .refl s

end Invoke

end Evaluation

/-- What an evaluation can be asked for. -/
inductive Query where
  /-- The value of a call. -/
  | invoke (kind : InvokeKind) (m : Member) (operands : List Value)
  /-- The string that a call site makes. -/
  | concat (c : ClassFile) (bootstrap : UInt16) (parameters : List FieldType)
      (operands : List Value)
  | readStatic (f : Member)
  | readField (object : Value) (f : Member)
  | constant (k : Constant)
  /-- Code that makes an object again. -/
  | rebuild (site : RebuildSite) (r : HeapRef)

namespace Query

/-- The state that a query leaves. -/
def after (c : Config) (env : Env) (s : Machine) : Query → Machine
  | .invoke kind m operands => (Evaluation.invoke c kind m operands env s).2
  | .concat k bootstrap parameters operands =>
      (Evaluation.concat k bootstrap parameters operands env s).2
  | .readStatic f => (Evaluation.readStatic f env s).2
  | .readField object f => (Evaluation.readField object f env s).2
  | .constant k => (Probe.attempt (Emu.constant k) env s).2
  | .rebuild site r => (Rebuild.run site r env s).2

/-- The state that several queries leave, one after the other, from the start. -/
def afterAll (c : Config) (env : Env) (l : List Query) : Machine :=
  l.foldl (after c env) {}

/-- A query is a call that is let through and is no construction, whose operands cannot change and
    whose answer is not known; it comes to a value. -/
structure Keeps (c : Config) (env : Env) (s : Machine) (q : Query) (key : CallKey)
    (v : Option Value) (t : Machine) : Prop where
  plain : (key.method.isConstructor && key.kind == .special) = false
  new : s.answers[key]? = none
  answers : ∃ operands, q = .invoke key.kind key.method operands ∧
    Evaluation.Admits c env s key.kind key.method operands ∧
    operands.mapM s.heap.key? = some key.arguments ∧
    Emu.invoke key.kind key.method operands env s.restarted = .ok v t

section Step

variable {c : Config} {env : Env} {s t : Machine} {q : Query} {key : CallKey} {v : Option Value}

/-- A value that a query keeps is among the answers. -/
theorem Keeps.after_eq (h : q.Keeps c env s key v t) : q.after c env s = t.keep key (.ok v) := by
  rcases h.answers with ⟨operands, rfl, hadmits, hkeys, hinvoke⟩
  have honce : Emu.invokeOnce key.kind key.method operands env s.restarted
      = .ok v (t.keep key (.ok v)) := by
    rw [Emu.invokeOnce_of_new (s := s.restarted) hkeys h.new, hinvoke]
  rw [after, Evaluation.state_invoke_of_admits hadmits, Evaluation.operation, h.plain,
    if_neg Bool.false_ne_true, honce]
  rfl

/-- What a query does to the state: it evolves, and perhaps an answer is kept that is new. -/
theorem after_cases (henv : env.Framed) (q : Query) (s : Machine) :
    s.Evolves (q.after c env s) ∨
      (∃ key v t, q.Keeps c env s key v t ∧ s.Evolves t ∧ q.after c env s = t.keep key (.ok v)) ∨
      ∃ key r t, s.answers[key]? = none ∧ s.Evolves t ∧
        q.after c env s = t.keep key (.error r) := by
  cases q with
  | concat k bootstrap parameters operands =>
      exact .inl ((Evaluation.framed_concat k bootstrap parameters operands).evolves henv s)
  | readStatic f =>
      exact .inl ((inferInstance : Trial.Framed false (Evaluation.readStatic f)).evolves henv s)
  | readField object f =>
      exact .inl
        ((inferInstance : Trial.Framed false (Evaluation.readField object f)).evolves henv s)
  | constant k =>
      exact .inl
        ((inferInstance : Probe.Framed false (Probe.attempt (Emu.constant k))).evolves henv s)
  | rebuild site r => exact .inl ((Rebuild.framed_run r).evolves henv s)
  | invoke kind m operands =>
      by_cases hadmits : Evaluation.Admits c env s kind m operands
      · rw [after, Evaluation.state_invoke_of_admits hadmits, Evaluation.operation]
        have hrestarted : s.Evolves s.restarted := ⟨rfl, .refl s.heap⟩
        by_cases hconstructing : (m.isConstructor && kind == .special) = true
        · -- Constructors make a new object each time, so their answers are not kept.
          rw [if_pos hconstructing]
          have hframed : Emu.Framed (some <$> Emu.construct m operands) := inferInstance
          exact .inl (hrestarted.trans (hframed.evolves henv _))
        · rw [if_neg hconstructing]
          have hplain : (m.isConstructor && kind == .special) = false :=
            Bool.eq_false_iff.mpr hconstructing
          have hremembers := Emu.remembers_invokeOnce henv kind m operands s.restarted
          generalize Emu.Outcome.state (Emu.invokeOnce kind m operands env s.restarted) = u
            at hremembers ⊢
          cases hremembers with
          | evolves h => exact .inl (hrestarted.trans h)
          | ok hkeys hnew h ht =>
              exact .inr (.inl ⟨_, _, _, ⟨hplain, hnew, operands, rfl, hadmits, hkeys, h⟩,
                hrestarted.trans ht, rfl⟩)
          | error hkeys hnew h ht =>
              exact .inr (.inr ⟨_, _, _, hnew, hrestarted.trans ht, rfl⟩)
      · exact .inl (Evaluation.evolves_invoke_of_not_admits henv hadmits)

/-- An answer that is kept stays as it is. -/
theorem answers_after_of_some (henv : env.Framed) (q : Query)
    {answer : Except HeapRef (Option Value)} (h : s.answers[key]? = some answer) :
    (q.after c env s).answers[key]? = some answer := by
  rcases after_cases (c := c) henv q s with
    hs | ⟨key', v, t, hq, ht, heq⟩ | ⟨key', r, t, hnew, ht, heq⟩
  · rwa [hs.answers_eq]
  · rw [heq]
    exact Machine.answers_keep_of_some (ht.answers_eq ▸ hq.new) (ht.answers_eq ▸ h)
  · rw [heq]
    exact Machine.answers_keep_of_some (ht.answers_eq ▸ hnew) (ht.answers_eq ▸ h)

/-- The answers stay free of objects that can change if what is kept is no such object. -/
theorem unshared_after (henv : env.Framed) (q : Query) (hs : s.Unshared)
    (hq : ∀ key v t, q.Keeps c env s key (some v) t → t.heap.IsSettled v) :
    (q.after c env s).Unshared := by
  -- The query keeps nothing, a value or an exception.
  rcases after_cases (c := c) henv q s with
    h | ⟨key', v', t, hkeeps, ht, heq⟩ | ⟨key', r, t, hnew, ht, heq⟩
  · exact h.unshared hs
  · rw [heq]
    intro key v hkey
    rw [Machine.getElem?_answers_keep] at hkey
    split at hkey
    · cases hkey
      exact hq key' v t hkeeps
    · exact ht.unshared hs key v hkey
  · rw [heq]
    intro key v hkey
    rw [Machine.getElem?_answers_keep] at hkey
    split at hkey
    · cases hkey
    · exact ht.unshared hs key v hkey

end Step

section Run

variable {c : Config} {env : Env}

/-- Queries may be made in two goes. -/
theorem afterAll_append (l l' : List Query) :
    afterAll c env (l ++ l') = l'.foldl (after c env) (afterAll c env l) :=
  List.foldl_append

theorem afterAll_concat (l : List Query) (q : Query) :
    afterAll c env (l ++ [q]) = q.after c env (afterAll c env l) :=
  afterAll_append l [q]

/-- An answer that is kept stays as it is, whatever is asked afterwards. -/
theorem answers_afterAll_of_some (henv : env.Framed) (l l' : List Query) {key : CallKey}
    {answer : Except HeapRef (Option Value)}
    (h : (afterAll c env l).answers[key]? = some answer) :
    (afterAll c env (l ++ l')).answers[key]? = some answer := by
  rw [afterAll_append]
  generalize afterAll c env l = s at h ⊢
  induction l' generalizing s with
  | nil => exact h
  | cons q rest ih => exact ih _ (answers_after_of_some henv q h)

end Run

/-- When the answers stay free of objects that can change, and what an equal call gets. Along all
    of a sequence of evaluations the answers hold no object that can change exactly if no call that
    is kept has come to one. Every equal call later hands out the value that was kept. -/
theorem unshared_iff (c : Config) (p : Program) (limits : Limits) (queries : List Query) :
    ((∀ l, l <+: queries → (afterAll c (Engine.env p limits) l).Unshared) ↔
      ∀ l q key v t, l ++ [q] <+: queries →
        q.Keeps c (Engine.env p limits) (afterAll c (Engine.env p limits) l) key (some v) t →
          t.heap.IsSettled v) ∧
    ∀ l q l' key v t arguments,
      q.Keeps c (Engine.env p limits) (afterAll c (Engine.env p limits) l) key v t →
        arguments.mapM (afterAll c (Engine.env p limits) (l ++ [q] ++ l')).heap.key?
            = some key.arguments →
          Emu.invokeOnce key.kind key.method arguments (Engine.env p limits)
              (afterAll c (Engine.env p limits) (l ++ [q] ++ l'))
            = .ok v (afterAll c (Engine.env p limits) (l ++ [q] ++ l')) := by
  have henv := Engine.framed_env p limits
  generalize Engine.env p limits = env at henv ⊢
  have hanswer {l : List Query} {q : Query} {key : CallKey} {v : Option Value} {t : Machine}
      (hq : q.Keeps c env (afterAll c env l) key v t) :
      (afterAll c env (l ++ [q])).answers[key]? = some (.ok v) := by
    rw [afterAll_concat, hq.after_eq, Machine.getElem?_answers_keep, if_pos rfl]
  -- Forward a kept answer is looked up in the table; backward the induction is on the queries, from
  -- the last.
  refine ⟨⟨fun h l q key v t hprefix hq => ?_, fun h l hprefix => ?_⟩, ?_⟩
  · have hsettled := h (l ++ [q]) hprefix key v (hanswer hq)
    rwa [afterAll_concat, hq.after_eq] at hsettled
  · induction l using List.reverseRecOn with
    | nil =>
        intro key v hkey
        change (∅ : Std.HashMap CallKey _)[key]? = _ at hkey
        rw [Std.HashMap.getElem?_empty] at hkey
        cases hkey
    | append_singleton l q ih =>
        rw [afterAll_concat]
        refine unshared_after henv q (ih ((List.prefix_append l [q]).trans hprefix)) ?_
        intro key v t hq
        exact h l q key v t hprefix hq
  · intro l q l' key v t arguments hq hkeys
    exact Emu.invokeOnce_of_ok hkeys (answers_afterAll_of_some henv (l ++ [q]) l' (hanswer hq))

namespace Maker

/-- A method that makes a builder, which is mutable. -/
def make : Member :=
  ⟨"demo/Maker", "make", "()Ljava/lang/StringBuilder;"⟩

/-- Makes a builder and returns it. -/
def body : Body where
  maxStack := 1
  maxLocals := 0
  instructions := [.typed .new "java/lang/StringBuilder", .simple .areturn]

/-- The class that declares it. -/
def classFile : ClassFile where
  name := "demo/Maker"
  methods :=
    [{ access := ⟨9⟩, name := make.name, descriptor := make.descriptor, body := some body }]

/-- The class alone, of which the method is constant. -/
def config : Config :=
  { Config.plain (.ofClasses [classFile]) with
    methods := (∅ : Std.TreeMap Member Predicate).insert make .allowAll }

abbrev program : Program :=
  .ofUniverse config.classes

abbrev env : Env :=
  Engine.env program {}

/-- The method made ready. -/
def prepared : Prepared :=
  .unguarded classFile make body

/-- Its body can be run. -/
theorem prepare_make : program.prepare make = .ok prepared := by
  rw [Program.prepare_ofUniverse]
  rfl

theorem class?_maker : program.classes.class? "demo/Maker" = some classFile :=
  Universe.class?_ofClasses rfl

/-- A static call runs the method that it names. -/
theorem target_make (s : Machine) :
    Emu.target .static make none env s = .ok (.bytecode make) s := by
  change Emu.lift (env.directTarget make) env s = _
  rw [Env.directTarget_of_method? (m := make) class?_maker rfl]
  rfl

/-- The state in which the initialization of the class has begun. -/
def begun : Machine where
  initialized := (∅ : Std.HashMap String InitState).insert "demo/Maker" .inProgress

/-- The state in which the class is initialized. -/
def initialized : Machine where
  initialized := begun.initialized.insert "demo/Maker" .done

/-- The state that the method leaves. -/
def made : Machine where
  heap := { objects := #[.builder #[]] }
  initialized := initialized.initialized
  executed := 2

section Run

variable {levels depth : Nat} {s : Machine}

/-- There is no other class. -/
theorem class?_of_ne {name : String} (h : name ≠ "demo/Maker") :
    program.classes.class? name = none :=
  Universe.class?_ofClasses_of_ne (c := classFile) h.symm

/-- A class that is not in the universe has nothing to initialize. -/
theorem initClass_outside {name : String} (hname : name ≠ "demo/Maker")
    (h : s.initialized[name]? = none) :
    Emu.initClass name (Engine.inside program {} (levels + 1) depth) s = .ok () s := by
  rw [Emu.initClass_eq, Emu.useClass_of_outside h (class?_of_ne hname)]

/-- The class of the example has no initializer. -/
theorem initClass_maker :
    Emu.initClass "demo/Maker" (Engine.inside program {} (levels + 1 + 1) depth) {}
      = .ok () initialized :=
  Emu.initClass_of_no_initializer class?_maker rfl (class?_of_ne (by decide)) rfl (by decide)
    Std.HashMap.getElem?_empty Std.HashMap.getElem?_empty rfl

/-- Each call makes a builder of its own. -/
theorem instantiate_builder (h : s.initialized["java/lang/StringBuilder"]? = none) :
    Emu.instantiate "java/lang/StringBuilder" (Engine.inside program {} (levels + 1) depth) s
      = .ok (s.heap.alloc (.builder #[])).1
          { s with heap := (s.heap.alloc (.builder #[])).2 } := by
  unfold Emu.instantiate
  rw [Emu.bind_apply, initClass_outside (by decide) h]
  rfl

/-- The run of the body. -/
theorem run_make :
    Emu.run? prepared (Engine.inside program {} (levels + 1) depth) 2 (.start 0 []) 0 initialized
      = some (.ok (some (.ref ⟨0⟩)) made) := by
  have houtside : initialized.ticked.initialized["java/lang/StringBuilder"]? = none := by
    simp [Machine.ticked, initialized, begun]
  have hnew : Emu.step classFile (.typed .new "java/lang/StringBuilder") (.start 0 [])
      (Engine.inside program {} (levels + 1) depth) initialized.ticked
        = .ok (.next [.ref ⟨0⟩])
            { initialized.ticked with heap := { objects := #[.builder #[]] } } := by
    change ((Emu.instantiate "java/lang/StringBuilder" >>= fun r => pure [.ref r])
      >>= fun stack => pure (.next stack) : Emu Flow) _ _ = _
    rw [Emu.bind_apply, Emu.bind_apply, instantiate_builder houtside]
    rfl
  rw [Emu.run?_next (m := .typed .new "java/lang/StringBuilder") rfl rfl rfl hnew]
  exact Emu.run?_finish (m := .simple .areturn) rfl rfl rfl rfl

-- And the whole call.
theorem invoke_make : Emu.invoke .static make [] env {} = .ok (some (.ref ⟨0⟩)) made := by
  have hcall : Emu.call (.bytecode make) [] env initialized
      = .ok (some (.ref ⟨0⟩)) made := by
    rw [env, Engine.env_eq_inside]
    exact Emu.call_of_run? (by decide) prepare_make (by decide) run_make
  have hinit : Emu.initClass "demo/Maker" env {} = .ok () initialized := by
    rw [env, Engine.env_eq_inside]
    exact initClass_maker
  rw [Emu.invoke_static_of_initClass
    (Env.directTarget_of_method? (m := make) class?_maker rfl) hinit]
  exact hcall

end Run

/-- The key of the call. -/
def key : CallKey :=
  ⟨.static, make, []⟩

/-- The first call of the method is kept. -/
theorem keeps_make :
    (Query.invoke .static make []).Keeps config env {} key (some (.ref ⟨0⟩)) made where
  plain := rfl
  new := Std.HashMap.getElem?_empty
  answers := by
    refine ⟨[], rfl, ⟨.bytecode make, .allowAll, target_make {}, ?_, rfl⟩, rfl, invoke_make⟩
    simp [Config.predicate?, config, Target.member]

end Maker

/-- A call that makes an object that can change: the answers hold the object, and an equal call
    hands out the same one. -/
theorem builder_shared :
    ¬(afterAll Maker.config Maker.env [.invoke .static Maker.make []]).Unshared ∧
      Emu.invokeOnce .static Maker.make [] Maker.env
          (afterAll Maker.config Maker.env [.invoke .static Maker.make []])
        = .ok (some (.ref ⟨0⟩)) (afterAll Maker.config Maker.env [.invoke .static Maker.make []]) ∧
      (afterAll Maker.config Maker.env [.invoke .static Maker.make []]).heap.get? ⟨0⟩
        = some (.builder #[]) := by
  have hafter : afterAll Maker.config Maker.env [.invoke .static Maker.make []]
      = Maker.made.keep Maker.key (.ok (some (.ref ⟨0⟩))) := Maker.keeps_make.after_eq
  have hanswer : (Maker.made.keep Maker.key (.ok (some (.ref ⟨0⟩)))).answers[Maker.key]?
      = some (.ok (some (.ref ⟨0⟩))) := by
    rw [Machine.getElem?_answers_keep, if_pos rfl]
  rw [hafter]
  refine ⟨fun h => ?_, Emu.invokeOnce_of_ok rfl hanswer, rfl⟩
  rcases h Maker.key (.ref ⟨0⟩) hanswer ⟨0⟩ rfl with ⟨o, ho, hfixed⟩
  cases ho
  cases hfixed

end Query

end JvmFold
