import JvmFold.Proofs.Evaluation.Memo

/-!
# What a Call Runs

The method that a call names is not the one that runs. For a virtual call the
class of the receiver decides, and a class that overrides a constant method
need not have it constant. So a call is let through for the method that it
would run, and what it runs is found once more when it is made.

Both searches find the same, since nothing they depend on changes in between: a
static or special call is found by its name alone, and an object keeps its
class. An answer that is known is found by what the call names and by what its
arguments stand for. That is enough as well, because what the receiver stands
for tells its class.

## Main definitions

* `Env.Dispatches`: What a call runs, by the class of its receiver.
* `Emu.callTarget`: A call of which it is known what it runs.
* `ValueKey.className?`: The class of what a value stands for.
* `Usage`: What a machine can be used for in the course of a run.
* `Usage.Stored`: An answer that a call among the uses of a machine has come to.
* `Evaluation.Answered`: Where the value of an evaluation comes from.

## Theorems

* `Env.dispatches_congr`: Arguments that stand for the same have the same method run.
* `Usage.stored_of_answer`: Every answer that is known has been come to by a call.
* `Evaluation.runs_what_it_checks`: The method that was asked about is the one that ran.
-/

namespace JvmFold

/-- What a call runs. A static or special call goes by its name, and any other one by the class of
    its receiver. -/
def Env.Dispatches (e : Env) (h : Heap) (kind : InvokeKind) (m : Member) (arguments : List Value)
    (t : Target) : Prop :=
  match kind with
  | .static | .special => e.directTarget m = .ok t
  | .virtual | .interface =>
    ∃ name, arguments.head?.bind h.runtimeClass? = some name ∧ e.virtualTarget name m = .ok t

namespace Emu

/-- A call of which it is known what it runs. -/
def callTarget (kind : InvokeKind) (t : Target) (arguments : List Value) : Emu (Option Value) := do
  if kind = .static then initClass t.member.owner
  call t arguments

variable {kind : InvokeKind} {m : Member} {arguments : List Value} {env : Env} {s t : Machine}
  {target : Target}

/-- What needs no machine leaves it alone. -/
theorem lift_eq_ok {α : Type} {x : Except Fault α} {a : α} :
    lift x env s = .ok a t ↔ x = .ok a ∧ t = s := by
  cases x with
  | error e =>
      refine ⟨fun h => ?_, fun ⟨h, _⟩ => ?_⟩ <;> cases h
  | ok b =>
      refine ⟨fun h => ?_, fun ⟨h, ht⟩ => ?_⟩
      · cases h
        exact ⟨rfl, rfl⟩
      · cases h
        rw [ht]
        rfl

/-- A virtual call goes by the class of its receiver. -/
theorem virtual_target_iff :
    Emu.target .virtual m arguments.head? env s = .ok target t ↔
      t = s ∧ env.Dispatches s.heap .virtual m arguments target := by
  cases arguments with
  | nil =>
      refine ⟨fun h => ?_, fun ⟨_, name, h, _⟩ => by cases h⟩
      cases h
  | cons v rest =>
      cases v with
      | ref r =>
          have hobject : Emu.target .virtual m (some (.ref r)) env s
              = lift (env.virtualTarget (s.heap.get r).className m) env s := rfl
          rw [List.head?_cons, hobject, lift_eq_ok]
          refine ⟨fun ⟨h, ht⟩ => ⟨ht, _, rfl, h⟩, fun ⟨ht, name, hname, h⟩ => ⟨?_, ht⟩⟩
          cases hname
          exact h
      -- There is no class to go by, and the call raises an exception instead.
      | null =>
          refine ⟨fun h => ?_, fun ⟨_, name, h, _⟩ => by cases h⟩
          rcases bind_ok (m := lift Value.null.asReference) h with ⟨r, u, hnull, hraise⟩
          rcases lift_eq_ok.1 hnull with ⟨hnull, -⟩
          cases hnull
          exact absurd hraise raise_ne_ok
      | _ =>
          refine ⟨fun h => ?_, fun ⟨_, name, h, _⟩ => by cases h⟩
          cases h

/-- What is found for the values of an evaluation is what the call of them runs. -/
theorem target_iff :
    Emu.target kind m (Evaluation.receiver? kind m arguments) env s = .ok target t ↔
      t = s ∧ env.Dispatches s.heap kind m arguments target := by
  have hdirect : Emu.directTarget m env s = .ok target t ↔
      t = s ∧ env.directTarget m = .ok target := by
    rw [and_comm]
    exact lift_eq_ok
  -- Static and special calls go to the method that they name, the others by the receiver.
  cases kind with
  | static => exact hdirect
  | special => exact hdirect
  | virtual =>
      rw [Evaluation.receiver?, if_pos (by cases m.isConstructor <;> rfl)]
      exact virtual_target_iff
  | interface =>
      rw [Evaluation.receiver?, if_pos (by cases m.isConstructor <;> rfl)]
      exact virtual_target_iff

/-- A call finds out what it runs, and runs that. -/
theorem invoke_of_dispatches (h : env.Dispatches s.heap kind m arguments target) :
    invoke kind m arguments env s = callTarget kind target arguments env s := by
  have htarget : Emu.target kind m arguments.head? env s = .ok target s := by
    cases kind with
    | static => exact lift_eq_ok.2 ⟨h, rfl⟩
    | special => exact lift_eq_ok.2 ⟨h, rfl⟩
    | virtual => exact virtual_target_iff.2 ⟨rfl, h⟩
    | interface => exact virtual_target_iff.2 ⟨rfl, h⟩
  unfold invoke callTarget
  rw [bind_apply, htarget]

/-- A call that comes to something has run what it is found to run. -/
theorem dispatches_of_invoke {v : Option Value} (h : invoke kind m arguments env s = .ok v t) :
    ∃ target, env.Dispatches s.heap kind m arguments target ∧
      callTarget kind target arguments env s = .ok v t := by
  have hdispatches : ∃ target, env.Dispatches s.heap kind m arguments target := by
    rcases bind_ok h with ⟨target, u, htarget, -⟩
    refine ⟨target, ?_⟩
    cases kind with
    | static => exact (lift_eq_ok.1 htarget).1
    | special => exact (lift_eq_ok.1 htarget).1
    | virtual => exact (virtual_target_iff.1 htarget).2
    | interface => exact (virtual_target_iff.1 htarget).2
  rcases hdispatches with ⟨target, htarget⟩
  exact ⟨target, htarget, invoke_of_dispatches htarget ▸ h⟩

end Emu

/-- The class of what a value stands for. -/
def ValueKey.className? : ValueKey → Option String
  | .string _ => some "java/lang/String"
  | .boxed w _ => some w.className
  | .classObject _ => some "java/lang/Class"
  | _ => none

/-- What a value stands for tells its class. -/
theorem Heap.runtimeClass?_of_key? {h : Heap} {v : Value} {key : ValueKey}
    (hkey : h.key? v = some key) : h.runtimeClass? v = key.className? := by
  cases v with
  | ref r =>
      unfold Heap.key? at hkey
      rw [Heap.runtimeClass?, Value.reference?, Option.map_some]
      dsimp only at hkey
      split at hkey
      -- Strings, boxes and classes are the objects that have a key.
      next units hobject =>
        cases hkey
        rw [hobject]
        rfl
      next w v hobject =>
        rcases Option.map_eq_some_iff.1 hkey with ⟨bits, -, rfl⟩
        rw [hobject]
        rfl
      next name hobject =>
        cases hkey
        rw [hobject]
        rfl
      · cases hkey
  | _ =>
      cases hkey
      rfl

/-- The class of the first of several values by what they stand for. -/
theorem Heap.bind_runtimeClass?_of_mapM {h : Heap} {arguments : List Value} {keys : List ValueKey}
    (hkeys : arguments.mapM h.key? = some keys) :
    arguments.head?.bind h.runtimeClass? = keys.head?.bind ValueKey.className? := by
  cases arguments with
  | nil =>
      cases hkeys
      rfl
  | cons v rest =>
      rw [List.mapM_cons] at hkeys
      rcases Option.bind_eq_some_iff.1 hkeys with ⟨key, hkey, hrest⟩
      rcases Option.bind_eq_some_iff.1 hrest with ⟨keys, -, hcons⟩
      cases hcons
      exact runtimeClass?_of_key? hkey

/-- Arguments that stand for the same have the same method run. -/
theorem Env.dispatches_congr {e : Env} {h h' : Heap} {kind : InvokeKind} {m : Member}
    {arguments arguments' : List Value} {keys : List ValueKey}
    (hkeys : arguments.mapM h.key? = some keys) (hkeys' : arguments'.mapM h'.key? = some keys)
    (t : Target) :
    e.Dispatches h kind m arguments t ↔ e.Dispatches h' kind m arguments' t := by
  unfold Env.Dispatches
  rw [Heap.bind_runtimeClass?_of_mapM hkeys, Heap.bind_runtimeClass?_of_mapM hkeys']

/-- An object of a class that has the method itself has this one run. -/
theorem Env.dispatches_of_implements {e : Env} {h : Heap} {kind : InvokeKind} {m : Member}
    {arguments : List Value} {name : String} {c : ClassFile}
    (hkind : kind = .virtual ∨ kind = .interface)
    (hname : arguments.head?.bind h.runtimeClass? = some name)
    (hc : e.program.classes.class? name = some c)
    (himplements : Universe.implements m.signature c = true) :
    e.Dispatches h kind m arguments (.bytecode (m.withOwner name)) := by
  have htarget := Env.virtualTarget_of_implements hc himplements
  rcases hkind with rfl | rfl <;> exact ⟨name, hname, htarget⟩

/-- A call runs one method. -/
theorem Env.Dispatches.unique {e : Env} {h : Heap} {kind : InvokeKind} {m : Member}
    {arguments : List Value} {t t' : Target} (ht : e.Dispatches h kind m arguments t)
    (ht' : e.Dispatches h kind m arguments t') : t = t' := by
  have hvirtual (hname : ∃ name, arguments.head?.bind h.runtimeClass? = some name ∧
      e.virtualTarget name m = .ok t) (hname' : ∃ name,
      arguments.head?.bind h.runtimeClass? = some name ∧ e.virtualTarget name m = .ok t') :
      t = t' := by
    rcases hname with ⟨name, hname, htarget⟩
    rcases hname' with ⟨name', hname', htarget'⟩
    rw [hname] at hname'
    cases hname'
    rw [htarget] at htarget'
    cases htarget'
    rfl
  have hdirect (hfound : e.directTarget m = .ok t) (hfound' : e.directTarget m = .ok t') :
      t = t' := by
    rw [hfound] at hfound'
    cases hfound'
    rfl
  -- Two of the kinds go by the class of the receiver, the others by the member alone.
  cases kind with
  | static => exact hdirect ht ht'
  | special => exact hdirect ht ht'
  | virtual => exact hvirtual ht ht'
  | interface => exact hvirtual ht ht'

/-- What a machine can be used for in the course of a run. -/
inductive Usage where
  /-- An operation that leaves the answers as they are. -/
  | operation (x : Emu Unit) (hx : Emu.Framed x)
  /-- A call whose answer is kept. -/
  | invokeOnce (kind : InvokeKind) (m : Member) (arguments : List Value)
  /-- An evaluation under a configuration. -/
  | query (c : Config) (q : Query)

namespace Usage

/-- The state that a use leaves. -/
def after (env : Env) (s : Machine) : Usage → Machine
  | .operation x _ => Emu.Outcome.state (x env s)
  | .invokeOnce kind m arguments => Emu.Outcome.state (Emu.invokeOnce kind m arguments env s)
  | .query c q => q.after c env s

/-- The state that several uses leave, one after the other, from the start. -/
def afterAll (env : Env) (l : List Usage) : Machine :=
  l.foldl (after env) {}

/-- A use makes a call whose answer is kept, in a state in which the call starts. -/
inductive Calls (env : Env) (s : Machine) (kind : InvokeKind) (m : Member)
    (arguments : List Value) : Usage → Machine → Prop where
  | invokeOnce : Calls env s kind m arguments (.invokeOnce kind m arguments) s
  /-- An evaluation makes a call if that is let through. -/
  | query {c : Config} (hadmits : Evaluation.Admits c env s kind m arguments) :
      Calls env s kind m arguments (.query c (.invoke kind m arguments)) s.restarted

/-- A use makes a call whose answer is not known. The call comes to a value, which is kept. -/
structure Keeps (env : Env) (s : Machine) (usage : Usage) (key : CallKey) (v : Option Value)
    (t : Machine) : Prop where
  new : s.answers[key]? = none
  call : ∃ arguments u, usage.Calls env s key.kind key.method arguments u ∧
    arguments.mapM s.heap.key? = some key.arguments ∧
    Emu.invoke key.kind key.method arguments env u = .ok v t
  after_eq : usage.after env s = t.keep key (.ok v)

/-- One of several uses has kept the answer of a call. -/
def Stored (env : Env) (usages : List Usage) (key : CallKey) (v : Option Value) : Prop :=
  ∃ earlier usage later t, usages = earlier ++ usage :: later ∧
    usage.Keeps env (afterAll env earlier) key v t

variable {env : Env} {usages : List Usage} {key : CallKey} {v : Option Value}

/-- The call starts on the heap that the use starts on. -/
theorem Calls.heap_eq {s u : Machine} {kind : InvokeKind} {m : Member} {arguments : List Value}
    {usage : Usage} (h : usage.Calls env s kind m arguments u) : u.heap = s.heap := by
  cases h <;> rfl

/-- An answer that is stored stays stored. -/
theorem Stored.append (h : Stored env usages key v) (more : List Usage) :
    Stored env (usages ++ more) key v := by
  rcases h with ⟨earlier, usage, later, t, rfl, hkeeps⟩
  exact ⟨earlier, usage, later ++ more, t, by rw [List.append_assoc, List.cons_append], hkeeps⟩

/-- What a use does to the state: it evolves, and perhaps an answer is kept. -/
theorem after_cases (henv : env.Framed) (usage : Usage) (s : Machine) :
    s.Evolves (usage.after env s) ∨
      (∃ key v t, usage.Keeps env s key v t ∧ s.Evolves t) ∨
      ∃ key r t, s.Evolves t ∧ usage.after env s = t.keep key (.error r) := by
  cases usage with
  | operation x hx => exact .inl (hx.evolves henv s)
  | invokeOnce kind m arguments =>
      rw [after]
      have hremembers := Emu.remembers_invokeOnce henv kind m arguments s
      generalize hstate : Emu.Outcome.state (Emu.invokeOnce kind m arguments env s) = u
        at hremembers ⊢
      cases hremembers with
      | evolves h => exact .inl h
      | ok hkeys hnew h ht =>
          exact .inr (.inl ⟨_, _, _, ⟨hnew, ⟨arguments, s, .invokeOnce, hkeys, h⟩, hstate⟩, ht⟩)
      | error hkeys hnew h ht => exact .inr (.inr ⟨_, _, _, ht, rfl⟩)
  -- An evaluation that keeps an answer does so by a call as well.
  | query c q =>
      rcases Query.after_cases (c := c) henv q s with
        h | ⟨key, v, t, hkeeps, ht, heq⟩ | ⟨key, r, t, -, ht, heq⟩
      · exact .inl h
      · rcases hkeeps.answers with ⟨operands, rfl, hadmits, hkeys, hinvoke⟩
        exact .inr (.inl ⟨key, v, t,
          ⟨hkeeps.new, ⟨operands, s.restarted, .query hadmits, hkeys, hinvoke⟩, heq⟩, ht⟩)
      · exact .inr (.inr ⟨key, r, t, ht, heq⟩)

/-- Every answer that is known has been come to by a call. The induction is on the last use. -/
theorem stored_of_answer (henv : env.Framed)
    (h : (afterAll env usages).answers[key]? = some (.ok v)) : Stored env usages key v := by
  induction usages using List.reverseRecOn generalizing key v with
  | nil =>
      change (∅ : Std.HashMap CallKey _)[key]? = _ at h
      rw [Std.HashMap.getElem?_empty] at h
      cases h
  | append_singleton l usage ih =>
      have hlast : afterAll env (l ++ [usage]) = usage.after env (afterAll env l) := by
        rw [afterAll, List.foldl_append]
        rfl
      rw [hlast] at h
      -- The last use left the answers alone, or it added one, which is this or another one.
      rcases after_cases henv usage (afterAll env l) with
        hs | ⟨key', v', t, hkeeps, ht⟩ | ⟨key', r, t, ht, heq⟩
      · rw [hs.answers_eq] at h
        exact (ih h).append [usage]
      · rw [hkeeps.after_eq, Machine.getElem?_answers_keep] at h
        split at h
        next heq =>
          cases h
          exact ⟨l, usage, [], t, rfl, heq ▸ hkeeps⟩
        next =>
          rw [ht.answers_eq] at h
          exact (ih h).append [usage]
      · rw [heq, Machine.getElem?_answers_keep] at h
        split at h
        · cases h
        · rw [ht.answers_eq] at h
          exact (ih h).append [usage]

end Usage

namespace Evaluation

/-- Where the value of an evaluation comes from, if the call runs a target. -/
inductive Answered (env : Env) (usages : List Usage) (kind : InvokeKind) (m : Member)
    (operands : List Value) (target : Target) (v : Value) : Prop where
  /-- The target is run on the operands. -/
  | executed {t : Machine} (hplain : (m.isConstructor && kind == .special) = false)
      (h : Emu.callTarget kind target operands env (Usage.afterAll env usages).restarted
        = .ok (some v) t)
  /-- The target is run on a new object and the operands, and the object is the value. -/
  | constructed {r : HeapRef} {t u : Machine} {w : Option Value}
      (hconstructing : (m.isConstructor && kind == .special) = true)
      (hnew : Emu.instantiate m.owner env (Usage.afterAll env usages).restarted = .ok r t)
      (h : Emu.callTarget kind target (.ref r :: operands) env t = .ok w u) (hv : v = .ref r)
  /-- The target has been run before, on arguments that stand for the same. -/
  | recalled {earlier later : List Usage} {usage : Usage} {arguments : List Value}
      {keys : List ValueKey} {u t : Machine}
      (hplain : (m.isConstructor && kind == .special) = false)
      (husages : usages = earlier ++ usage :: later)
      (hcalls : usage.Calls env (Usage.afterAll env earlier) kind m arguments u)
      (hkeys : operands.mapM (Usage.afterAll env usages).heap.key? = some keys)
      (hequal : arguments.mapM (Usage.afterAll env earlier).heap.key? = some keys)
      (hdispatches : env.Dispatches u.heap kind m arguments target)
      (h : Emu.callTarget kind target arguments env u = .ok (some v) t)
      (hkept : usage.after env (Usage.afterAll env earlier) = t.keep ⟨kind, m, keys⟩ (.ok (some v)))

section Invoke

variable {c : Config} {env : Env} {s t : Machine} {kind : InvokeKind} {m : Member}
  {operands : List Value} {method : Member} {v : Value}

/-- An evaluation that is let through comes to what its operation comes to. -/
theorem invoke_of_allows {target : Target} {condition : Predicate}
    (htarget : env.Dispatches s.heap kind m operands target)
    (hpredicate : c.predicate? target.member (kind == .static) = some condition)
    (hallows : condition.allows c.classes
      (invocation s.heap target.member (receiver? kind m operands) operands) = true) :
    invoke c kind m operands env s =
      match operation kind m operands env s.restarted with
      | .ok (some v) t => (.ok (target.member, v), t)
      | .ok none t => (.error (.failed (target.member.display ++ " returned no value")), t)
      | .error e t => (.error (.ofFault t.heap target.member e), t) := by
  have htarget' := Emu.target_iff.2 ⟨rfl, htarget⟩
  cases hran : operation kind m operands env s.restarted with
  | error e t => simp only [invoke_apply, htarget', hpredicate, if_pos hallows, hran]
  | ok answer t =>
      cases answer <;> simp only [invoke_apply, htarget', hpredicate, if_pos hallows, hran]

/-- An evaluation of a call that would run a method that is not constant comes to nothing. -/
theorem invoke_of_not_constant {target : Target} (h : env.Dispatches s.heap kind m operands target)
    (hpredicate : c.predicate? target.member (kind == .static) = none) :
    invoke c kind m operands env s = (.error .notConstant, s) := by
  simp only [invoke_apply, Emu.target_iff.2 ⟨rfl, h⟩, hpredicate]

/-- An evaluation that comes to a value is let through, and its operation comes to the value. -/
theorem exists_of_invoke_ok (h : invoke c kind m operands env s = (.ok (method, v), t)) :
    ∃ target condition, env.Dispatches s.heap kind m operands target ∧ target.member = method ∧
      c.predicate? method (kind == .static) = some condition ∧
      condition.allows c.classes (invocation s.heap method (receiver? kind m operands) operands)
        = true ∧
      operation kind m operands env s.restarted = .ok (some v) t := by
  -- Each check that fails ends the evaluation with a failure, so all of them have passed.
  rw [invoke_apply] at h
  cases htarget : Emu.target kind m (receiver? kind m operands) env s with
  | error e u =>
      rw [htarget] at h
      cases h
  | ok target u =>
      rw [htarget] at h
      cases Emu.state_of_target_ok htarget
      dsimp only at h
      split at h
      next => cases h
      next condition hpredicate =>
        split at h
        next hallows =>
          split at h
          next w x hoperation =>
            cases h
            exact ⟨target, condition, (Emu.target_iff.1 htarget).2, rfl, hpredicate, hallows,
              hoperation⟩
          next => cases h
          next => cases h
        next => cases h

end Invoke

/-- The operation of an evaluation runs what the evaluation was let through for, or has it run
    before. -/
theorem answered_of_operation {env : Env} (henv : env.Framed) {usages : List Usage}
    {kind : InvokeKind} {m : Member} {operands : List Value} {target : Target} {v : Value}
    {t : Machine}
    (htarget : env.Dispatches (Usage.afterAll env usages).heap kind m operands target)
    (h : operation kind m operands env (Usage.afterAll env usages).restarted = .ok (some v) t) :
    Answered env usages kind m operands target v := by
  unfold operation at h
  by_cases hconstructing : (m.isConstructor && kind == .special) = true
  · rw [if_pos hconstructing] at h
    have hkind : kind = .special := eq_of_beq (Bool.and_eq_true_iff.1 hconstructing).2
    subst hkind
    rw [map_eq_pure_bind] at h
    rcases Emu.bind_ok h with ⟨object, u, hconstruct, hobject⟩
    rcases Emu.bind_ok hconstruct with ⟨r, u, hnew, hrest⟩
    rcases Emu.bind_ok hrest with ⟨w, u', hinvoke, hpure⟩
    rcases Emu.dispatches_of_invoke hinvoke with ⟨target', htarget', hcall⟩
    -- A special call goes by its name, so the new object makes no difference to what it runs.
    have hfound : env.Dispatches u.heap .special m (.ref r :: operands) target := htarget
    cases htarget'.unique hfound
    cases hpure
    cases hobject
    exact .constructed hconstructing hnew hcall rfl
  · rw [if_neg hconstructing] at h
    have hplain : (m.isConstructor && kind == .special) = false :=
      Bool.eq_false_iff.mpr hconstructing
    have hmade {u : Machine} (hinvoke : Emu.invoke kind m operands env
        (Usage.afterAll env usages).restarted = .ok (some v) u) :
        Answered env usages kind m operands target v :=
      .executed hplain (Emu.invoke_of_dispatches (s := (Usage.afterAll env usages).restarted)
        htarget ▸ hinvoke)
    cases hkeys : operands.mapM (Usage.afterAll env usages).restarted.heap.key? with
    | none =>
        rw [Emu.invokeOnce_of_none hkeys] at h
        exact hmade h
    | some keys =>
        cases hanswer : (Usage.afterAll env usages).restarted.answers[
            (⟨kind, m, keys⟩ : CallKey)]? with
        | none =>
            rw [Emu.invokeOnce_of_new hkeys hanswer] at h
            cases hinvoke : Emu.invoke kind m operands env
                (Usage.afterAll env usages).restarted with
            | ok w u =>
                rw [hinvoke] at h
                cases h
                exact hmade hinvoke
            | error e u =>
                rw [hinvoke] at h
                cases e <;> cases h
        | some answer =>
            cases answer with
            | error r =>
                rw [Emu.invokeOnce_of_error hkeys hanswer] at h
                cases h
            | ok w =>
                rw [Emu.invokeOnce_of_ok hkeys hanswer] at h
                cases h
                rcases Usage.stored_of_answer henv hanswer with
                  ⟨earlier, usage, later, t, rfl, hkeeps⟩
                rcases hkeeps.call with ⟨arguments, u, hcalls, hequal, hinvoke⟩
                rcases Emu.dispatches_of_invoke hinvoke with ⟨target', htarget', hcall⟩
                have hfound := (Env.dispatches_congr (hcalls.heap_eq ▸ hequal) hkeys target').1
                  htarget'
                cases hfound.unique htarget
                exact .recalled hplain rfl hcalls hkeys hequal htarget' hcall hkeeps.after_eq

/-- The method that was asked about is the one that ran. After any uses of a machine, an evaluation
    comes to a value only if what the call runs for the class of its receiver is constant and its
    condition accepts the operands, and the value is what running it comes to, now or as an earlier
    use had it. If what the call runs is not constant, nothing is run. So it is with an object whose
    class has the method itself without having it constant. -/
theorem runs_what_it_checks (p : Program) (limits : Limits) (usages : List Usage) (c : Config)
    (kind : InvokeKind) (m : Member) (operands : List Value) :
    (∀ method v t, invoke c kind m operands (Engine.env p limits)
        (Usage.afterAll (Engine.env p limits) usages) = (.ok (method, v), t) →
      ∃ target condition,
        (Engine.env p limits).Dispatches (Usage.afterAll (Engine.env p limits) usages).heap kind m
          operands target ∧
        target.member = method ∧ c.predicate? method (kind == .static) = some condition ∧
        condition.allows c.classes (invocation (Usage.afterAll (Engine.env p limits) usages).heap
          method (receiver? kind m operands) operands) = true ∧
        Answered (Engine.env p limits) usages kind m operands target v) ∧
    (∀ target, (Engine.env p limits).Dispatches (Usage.afterAll (Engine.env p limits) usages).heap
        kind m operands target →
      c.predicate? target.member (kind == .static) = none →
        invoke c kind m operands (Engine.env p limits)
            (Usage.afterAll (Engine.env p limits) usages)
          = (.error .notConstant, Usage.afterAll (Engine.env p limits) usages)) ∧
    ∀ name k, kind = .virtual ∨ kind = .interface →
      operands.head?.bind (Usage.afterAll (Engine.env p limits) usages).heap.runtimeClass?
        = some name →
      p.classes.class? name = some k → Universe.implements m.signature k = true →
      c.predicate? (m.withOwner name) false = none →
        invoke c kind m operands (Engine.env p limits)
            (Usage.afterAll (Engine.env p limits) usages)
          = (.error .notConstant, Usage.afterAll (Engine.env p limits) usages) := by
  have henv := Engine.framed_env p limits
  -- What succeeds has passed its check; the other two parts say when there is no check to pass.
  refine ⟨fun method v t h => ?_, fun target htarget => invoke_of_not_constant htarget, ?_⟩
  · rcases exists_of_invoke_ok h with
      ⟨target, condition, htarget, hmethod, hpredicate, hallows, hoperation⟩
    exact ⟨target, condition, htarget, hmethod, hpredicate, hallows,
      answered_of_operation henv htarget hoperation⟩
  · intro name k hkind hname hk himplements hpredicate
    refine invoke_of_not_constant
      (Env.dispatches_of_implements (e := Engine.env p limits) hkind hname hk himplements) ?_
    rcases hkind with rfl | rfl <;> exact hpredicate

namespace Overridden

/-- The method, as the class that has it constant names it. -/
def value : Member :=
  ⟨"demo/Base", "value", "()I"⟩

/-- Returns a number. -/
def body (op : Opcode) : Body where
  maxStack := 1
  maxLocals := 1
  instructions := [.simple op, .simple .ireturn]

/-- The method of the example, which returns a constant. -/
def method (op : Opcode) : Method where
  access := ⟨1⟩
  name := value.name
  descriptor := value.descriptor
  body := some (body op)

/-- The class that declares it as constant. -/
def base : ClassFile where
  name := "demo/Base"
  methods := [method .iconst1]

/-- A class with a method of its own. -/
def sub : ClassFile where
  name := "demo/Sub"
  superName := some "demo/Base"
  methods := [method .iconst2]

/-- The two classes, of which the first one has the method constant. -/
def config : Config :=
  { Config.plain (.ofClasses [base, sub]) with
    methods := (∅ : Std.TreeMap Member Predicate).insert value .allowAll }

abbrev program : Program :=
  .ofUniverse config.classes

abbrev env : Env :=
  Engine.env program {}

/-- Makes an object of each of the classes. -/
def objects : Usage :=
  .operation (do
    let _ ← Emu.alloc (.instance "demo/Base" [])
    let _ ← Emu.alloc (.instance "demo/Sub" [])) inferInstance

/-- The state with the objects. -/
def made : Machine where
  heap := { objects := #[.instance "demo/Base" [], .instance "demo/Sub" []] }

/-- The classes of the example are found by name. -/
theorem class?_base : program.classes.class? "demo/Base" = some base := by
  have hbase : base.name = "demo/Base" := rfl
  have hsub : sub.name = "demo/Sub" := rfl
  refine Universe.class?_place.trans ((if_neg ?_).trans (Universe.class?_ofClasses hbase))
  rw [hsub]
  decide

theorem class?_sub : program.classes.class? "demo/Sub" = some sub :=
  Universe.class?_place.trans (if_pos rfl)

/-- The object of the base class has the constant method run. -/
theorem dispatches_base : env.Dispatches made.heap .virtual value [.ref ⟨0⟩] (.bytecode value) :=
  Env.dispatches_of_implements (.inl rfl) rfl class?_base rfl

/-- The method made ready. -/
def prepared : Prepared :=
  .unguarded base value (body .iconst1)

/-- The body of the method can be run. -/
theorem prepare_value : program.prepare value = .ok prepared := by
  rw [Program.prepare_ofUniverse]
  rfl

/-- Called on an object of the base class, it answers one. -/
theorem call_value : ∃ t, Emu.call (.bytecode value) [.ref ⟨0⟩] env made.restarted
    = .ok (some (.int 1)) t := by
  have hrun (levels depth : Nat) (s : Machine) :
      Emu.run? prepared (Engine.inside program {} levels depth) 2 (.start 1 [.ref ⟨0⟩]) 0 s
        = some (.ok (some (.int 1)) s.ticked.ticked) := by
    rw [Emu.run?_next (m := .simple .iconst1) (t := s.ticked) rfl rfl rfl rfl]
    exact Emu.run?_finish (m := .simple .ireturn) rfl rfl rfl rfl
  refine ⟨made.restarted.ticked.ticked, ?_⟩
  rw [env, Engine.env_eq]
  exact Emu.call_of_run? (by decide) prepare_value (by decide) (hrun _ _ _)

/-- The method of the base class is evaluated for its own object. -/
theorem invoke_value : ∃ t, invoke config .virtual value [.ref ⟨0⟩] env made
    = (.ok (value, .int 1), t) := by
  rcases call_value with ⟨t, hcall⟩
  have honce : Emu.invokeOnce .virtual value [.ref ⟨0⟩] env made.restarted
      = .ok (some (.int 1)) t := by
    rw [Emu.invokeOnce_of_none rfl, Emu.invoke_of_dispatches (s := made.restarted) dispatches_base]
    exact hcall
  refine ⟨t, ?_⟩
  have hpredicate : config.predicate? (Target.bytecode value).member false = some .allowAll := by
    simp [Config.predicate?, config, Target.member]
  have hoperation : operation .virtual value [.ref ⟨0⟩]
      = Emu.invokeOnce .virtual value [.ref ⟨0⟩] := rfl
  rw [invoke_of_allows dispatches_base hpredicate rfl, hoperation, honce]
  rfl

end Overridden

/-- The constant method is run for an object of its own class, and for an object of the class that
    overrides it nothing is. -/
theorem overridden_not_run :
    (∃ t, invoke Overridden.config .virtual Overridden.value [.ref ⟨0⟩] Overridden.env
      (Usage.afterAll Overridden.env [Overridden.objects]) = (.ok (Overridden.value, .int 1), t)) ∧
    Answered Overridden.env [Overridden.objects] .virtual Overridden.value [.ref ⟨0⟩]
      (.bytecode Overridden.value) (.int 1) ∧
    invoke Overridden.config .virtual Overridden.value [.ref ⟨1⟩] Overridden.env
        (Usage.afterAll Overridden.env [Overridden.objects])
      = (.error .notConstant, Usage.afterAll Overridden.env [Overridden.objects]) := by
  have hbase := runs_what_it_checks Overridden.program {} [Overridden.objects] Overridden.config
    .virtual Overridden.value [.ref ⟨0⟩]
  have hsub := runs_what_it_checks Overridden.program {} [Overridden.objects] Overridden.config
    .virtual Overridden.value [.ref ⟨1⟩]
  rcases Overridden.invoke_value with ⟨t, ht⟩
  refine ⟨⟨t, ht⟩, ?_, ?_⟩
  · rcases hbase.1 _ _ _ ht with ⟨target, condition, htarget, -, -, -, hanswered⟩
    rwa [Overridden.dispatches_base.unique htarget]
  · refine hsub.2.2 "demo/Sub" Overridden.sub (.inl rfl) rfl Overridden.class?_sub rfl ?_
    simp [Config.predicate?, Overridden.config, Config.plain, Overridden.value, Member.withOwner]

end Evaluation

end JvmFold
