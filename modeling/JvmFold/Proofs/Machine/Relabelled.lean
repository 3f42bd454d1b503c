import JvmFold.Proofs.Body.View
import JvmFold.Proofs.Machine.Calls

/-!
# Methods That Say the Same

Two methods can be made of the same real instructions and still differ in
their labels and in the marks between the instructions. Nothing of that shows
in a run. A mark takes no time and changes nothing, and a label counts only by
the real instruction that it stands in front of.

So a position counts only by the number of real instructions in front of it,
and two runs are lined up by these numbers. One of them can pass over more
marks than the other, which is why they do not take the same number of steps:
a run of the one method ends as a run of the other does, if it is given steps
enough to pass over all marks in front of every instruction.

## Main definitions

* `realsBefore`: The number of real instructions in front of a position.
* `Prepared.Alike`: Methods that say the same with labels of their own.

## Theorems

* `Emu.step_relabel`: An instruction with other labels goes on to other labels.
* `Emu.advance_alike`: Instructions that say the same go on to positions that count the same.
* `Emu.run?_alike`: A run of a method is followed in one that says the same.
-/

namespace JvmFold

/-- The number of real instructions in front of a position. -/
def realsBefore (l : List Instruction) (position : Nat) : Nat :=
  ((l.take position).filter (!·.isPseudo)).length

section Positions

variable {l : List Instruction} {i j : Nat} {x : Instruction}

/-- A mark counts for nothing. -/
theorem realsBefore_mark (h : l[i]? = some x) (hx : x.isPseudo = true) :
    realsBefore l (i + 1) = realsBefore l i := by
  simp [realsBefore, List.take_add_one, h, hx]

/-- An instruction counts. -/
theorem realsBefore_real (h : l[i]? = some x) (hx : x.isPseudo = false) :
    realsBefore l (i + 1) = realsBefore l i + 1 := by
  simp [realsBefore, List.take_add_one, h, hx]

/-- Further on there are no fewer. -/
theorem realsBefore_mono (h : i ≤ j) : realsBefore l i ≤ realsBefore l j :=
  ((List.take_sublist_take_left h).filter _).length_le

/-- Whether a position is behind a real instruction shows in the numbers. -/
theorem le_iff_realsBefore_le (h : l[i]? = some x) (hx : x.isPseudo = false) :
    j ≤ i ↔ realsBefore l j ≤ realsBefore l i := by
  constructor
  · exact realsBefore_mono
  · intro hle
    by_contra hlt
    have hmono : realsBefore l (i + 1) ≤ realsBefore l j := realsBefore_mono (by omega)
    rw [realsBefore_real h hx] at hmono
    omega

/-- The real instructions behind a position are those that are left when the ones in front of it
    are dropped. -/
theorem filter_drop (l : List Instruction) (i : Nat) :
    (l.drop i).filter (!·.isPseudo) = (l.filter (!·.isPseudo)).drop (realsBefore l i) := by
  have hsplit := congrArg (List.filter (!·.isPseudo)) (List.take_append_drop i l)
  rw [List.filter_append] at hsplit
  rw [← hsplit, realsBefore, List.drop_left]

/-- A real instruction is found among the real ones by the number in front of it. -/
theorem getElem?_filter (h : l[i]? = some x) (hx : x.isPseudo = false) :
    (l.filter (!·.isPseudo))[realsBefore l i]? = some x := by
  have hdrop : l.drop i = x :: l.drop (i + 1) := by
    have hlt : i < l.length := (List.getElem?_eq_some_iff.1 h).1
    rw [List.drop_eq_getElem_cons hlt, (List.getElem?_eq_some_iff.1 h).2]
  have hfilter := filter_drop l i
  rw [hdrop, List.filter_cons_of_pos (by simp [hx])] at hfilter
  rw [← Nat.add_zero (realsBefore l i), ← List.getElem?_drop, ← hfilter]
  rfl

end Positions

/-- The way on with another label. -/
def Flow.relabel (f : Label → Label) : Flow → Flow
  | .jump l s => .jump (f l) s
  | flow => flow

/-- Two ways on are the same, or they are jumps to labels that get the same name. -/
theorem Flow.relabel_cases {f f' : Label → Label} {flow flow' : Flow}
    (h : flow.relabel f = flow'.relabel f') :
    (flow' = flow ∧ ∀ l s, flow ≠ .jump l s) ∨
      ∃ l l' s, flow = .jump l s ∧ flow' = .jump l' s ∧ f l = f' l' := by
  cases flow with
  | jump l s =>
      cases flow' with
      | jump l' s' =>
          rcases Flow.jump.inj h with ⟨hl, rfl⟩
          exact .inr ⟨l, l', s, rfl, rfl, hl⟩
      | _ => cases h
  | _ =>
      cases flow' with
      | jump l' s' => cases h
      | _ => exact .inl ⟨h.symm, nofun⟩

namespace Emu

/-- The outcome of an instruction with another label to go on to. -/
def Outcome.relabel (f : Label → Label) : Outcome Flow → Outcome Flow
  | .ok flow s => .ok (flow.relabel f) s
  | .error e s => .error e s

section Step

variable {c d : ClassFile} {i : Instruction} {a : Activation} {env : Env} {s : Machine}
variable (f : Label → Label)

/-- A renaming is seen only in a jump. -/
theorem Outcome.relabel_of_no_jump {r : Outcome Flow}
    (h : ∀ l stack t, r ≠ .ok (.jump l stack) t) : Outcome.relabel f r = r := by
  cases r with
  | error e t => rfl
  | ok flow t =>
      cases flow with
      | jump l stack => exact absurd rfl (h l stack t)
      | _ => rfl

/-- A table switch picks the renamed label. -/
theorem tableTarget_map (default : Label) (low high : Int32) (targets : List Label) (key : Int32) :
    tableTarget (f default) low high (targets.map f) key =
      f (tableTarget default low high targets key) := by
  unfold tableTarget
  split
  · rfl
  · rw [List.getElem?_map]
    exact Option.getD_map f default _

-- And so does a lookup switch.
theorem lookupTarget_map (default : Label) (pairs : List (Int32 × Label)) (key : Int32) :
    lookupTarget (f default) (pairs.map fun pair => (pair.1, f pair.2)) key =
      f (lookupTarget default pairs key) := by
  unfold lookupTarget
  rw [List.find?_map, Option.map_map]
  refine Eq.trans ?_ (Option.getD_map f default _)
  rw [Option.map_map]
  rfl

/-- An instruction with other labels does the same and goes on to another label. -/
theorem step_relabel (hi : i.isPseudo = false) :
    step c (i.relabel f) a env s = Outcome.relabel f (step c i a env s) := by
  have hnone (htargets : i.targets = []) :
      Outcome.relabel f (step c i a env s) = step c i a env s :=
    Outcome.relabel_of_no_jump f fun l stack t h => by
      have hl := step_jump h
      rw [htargets] at hl
      exact absurd hl List.not_mem_nil
  -- Only the three kinds of branches look at labels.
  cases i with
  | label l | line n | frame g => cases hi
  | jump op l =>
      simp only [Instruction.relabel, step]
      cases hbranch : Stack.branch? op with
      | none => rfl
      | some test =>
          dsimp only
          cases htest : test a.stack with
          | error e => rfl
          | ok x =>
              rcases x with ⟨taken, rest⟩
              cases taken <;> rfl
  | tableSwitch default low high targets =>
      simp only [Instruction.relabel, step]
      cases Stack.popInt a.stack with
      | error e => rfl
      | ok x =>
          exact congrArg (fun l => EStateM.Result.ok (Flow.jump l x.2) s)
            (tableTarget_map f _ _ _ _ _)
  | lookupSwitch default pairs =>
      simp only [Instruction.relabel, step]
      cases Stack.popInt a.stack with
      | error e => rfl
      | ok x =>
          exact congrArg (fun l => EStateM.Result.ok (Flow.jump l x.2) s) (lookupTarget_map f _ _ _)
  | _ => exact (hnone rfl).symm

/-- Classes with the same call sites execute instructions in the same way. -/
theorem step_congr (h : ∀ bootstrap, ConcatRecipe.ofCallSite c bootstrap =
    ConcatRecipe.ofCallSite d bootstrap) (i : Instruction) (a : Activation) :
    step c i a = step d i a := by
  cases i with
  | invokeDynamic bootstrap name descriptor =>
      unfold step concatFrom
      simp only [h]
  | _ => rfl

end Step

end Emu

/-- Handlers that guard the same and start at the same, by the numbers of real instructions. -/
structure Guard.Alike (l l' : List Instruction) (g g' : Guard) : Prop where
  start : realsBefore l g.start = realsBefore l' g'.start
  stop : realsBefore l g.stop = realsBefore l' g'.stop
  target : realsBefore l g.target = realsBefore l' g'.target
  catchType : g.catchType = g'.catchType

/-- The labels that a method goes on to are placed, and are named by the number of real instructions
    in front of them. -/
def Prepared.Numbers (p : Prepared) (f : Label → Label) : Prop :=
  ∀ i ∈ p.code.toList, ∀ l ∈ i.targets,
    ∃ j, p.target l = .ok j ∧ realsBefore p.code.toList j = (f l).id

/-- Methods that say the same when their labels are replaced by numbers of real instructions. -/
structure Prepared.Alike (f f' : Label → Label) (p p' : Prepared) : Prop where
  member : p.member = p'.member
  maxLocals : p.maxLocals = p'.maxLocals
  sites : ∀ bootstrap, ConcatRecipe.ofCallSite p.owner bootstrap =
    ConcatRecipe.ofCallSite p'.owner bootstrap
  code : (p.code.toList.filter (!·.isPseudo)).map (Instruction.relabel f) =
    (p'.code.toList.filter (!·.isPseudo)).map (Instruction.relabel f')
  numbers : p.Numbers f
  numbers' : p'.Numbers f'
  guards : List.Forall₂ (Guard.Alike p.code.toList p'.code.toList) p.guards p'.guards

namespace Emu

/-- The two runs go on at positions that count the same, or end in the same way. -/
inductive SameProgress (l l' : List Instruction) : Outcome Progress → Outcome Progress → Prop where
  | running {a : Activation} {i i' : Nat} {s : Machine} (h : realsBefore l i = realsBefore l' i') :
      SameProgress l l' (.ok (.running a i) s) (.ok (.running a i') s)
  | finished (v : Option Value) (s : Machine) :
      SameProgress l l' (.ok (.finished v) s) (.ok (.finished v) s)
  | error (e : Fault) (s : Machine) : SameProgress l l' (.error e s) (.error e s)

section Alike

variable {f f' : Label → Label} {p p' : Prepared} {env : Env} {a : Activation} {i i' : Nat}
variable {s : Machine} {x x' : Instruction}

/-- A handler is found for an exception in both methods or in none, and the two start at positions
    that count the same. -/
theorem handler?_alike (h : Prepared.Alike f f' p p') (hx : p.code.toList[i]? = some x)
    (hreal : x.isPseudo = false) (hx' : p'.code.toList[i']? = some x')
    (hreal' : x'.isPseudo = false)
    (hi : realsBefore p.code.toList i = realsBefore p'.code.toList i') (u : Universe)
    (name : String) : (p.handler? u i name).map (realsBefore p.code.toList) =
      (p'.handler? u i' name).map (realsBefore p'.code.toList) := by
  have hguards := h.guards
  unfold Prepared.handler?
  generalize p.guards = l, p'.guards = l' at hguards
  -- The guards are compared one by one, by the count of instructions in front of their ends.
  induction hguards with
  | nil => rfl
  | @cons g g' l l' hg _ ih =>
      have hstart : decide (g.start ≤ i) = decide (g'.start ≤ i') := by
        rw [decide_eq_decide, le_iff_realsBefore_le hx hreal, le_iff_realsBefore_le hx' hreal',
          hg.start, hi]
      have hstop : decide (i < g.stop) = decide (i' < g'.stop) := by
        rw [decide_eq_decide, ← Nat.not_le, ← Nat.not_le, le_iff_realsBefore_le hx hreal,
          le_iff_realsBefore_le hx' hreal', hg.stop, hi]
      rw [List.find?_cons, List.find?_cons, hstart, hstop, hg.catchType]
      split
      · exact congrArg some hg.target
      · exact ih

/-- An exception leads to handlers at positions that count the same, or out of both methods. -/
theorem resume_thrown_alike (h : Prepared.Alike f f' p p') (hx : p.code.toList[i]? = some x)
    (hreal : x.isPseudo = false) (hx' : p'.code.toList[i']? = some x')
    (hreal' : x'.isPseudo = false)
    (hi : realsBefore p.code.toList i = realsBefore p'.code.toList i') (exception : HeapRef) :
    SameProgress p.code.toList p'.code.toList (p.resume a i env (.error (.thrown exception) s))
      (p'.resume a i' env (.error (.thrown exception) s)) := by
  have hhandler := handler?_alike h hx hreal hx' hreal' hi env.program.classes
    (s.heap.get exception).className
  unfold Prepared.resume
  dsimp only
  -- Either both methods have a handler for the exception, at the same count, or neither has.
  revert hhandler
  cases p.handler? env.program.classes i (s.heap.get exception).className with
  | none =>
      cases p'.handler? env.program.classes i' (s.heap.get exception).className with
      | none => exact fun _ => .error _ s
      | some target' => exact fun hnone => nomatch hnone
  | some target =>
      cases p'.handler? env.program.classes i' (s.heap.get exception).className with
      | none => exact fun hnone => nomatch hnone
      | some target' => exact fun hsome => .running (Option.some.inj hsome)

/-- The ways on from two instructions lead to positions that count the same. -/
theorem resume_flow_alike (h : Prepared.Alike f f' p p') (hx : p.code.toList[i]? = some x)
    (hreal : x.isPseudo = false) (hx' : p'.code.toList[i']? = some x')
    (hreal' : x'.isPseudo = false)
    (hi : realsBefore p.code.toList i = realsBefore p'.code.toList i') {flow flow' : Flow}
    (hflow : flow.relabel f = flow'.relabel f')
    (hjump : ∀ l stack, flow = .jump l stack → l ∈ x.targets)
    (hjump' : ∀ l stack, flow' = .jump l stack → l ∈ x'.targets) :
    SameProgress p.code.toList p'.code.toList (p.resume a i env (.ok flow s))
      (p'.resume a i' env (.ok flow' s)) := by
  have hnext : realsBefore p.code.toList (i + 1) = realsBefore p'.code.toList (i' + 1) := by
    rw [realsBefore_real hx hreal, realsBefore_real hx' hreal', hi]
  -- Only a jump looks at the labels; it lands at the same count.
  rcases Flow.relabel_cases hflow with ⟨hsame, hno⟩ | ⟨l, l', stack, rfl, rfl, hl⟩
  · subst hsame
    cases flow' with
    | jump l stack => exact absurd rfl (hno l stack)
    | next stack => exact .running hnext
    | store index v stack => exact .running hnext
    | finish v => exact .finished v s
  · rcases h.numbers x (List.mem_of_getElem? hx) l (hjump l stack rfl) with ⟨j, hj, hnumber⟩
    rcases h.numbers' x' (List.mem_of_getElem? hx') l' (hjump' l' stack rfl) with
      ⟨j', hj', hnumber'⟩
    unfold Prepared.resume Flow.progress
    dsimp only
    rw [hj, hj']
    exact .running (by rw [hnumber, hnumber', hl])

/-- Instructions that say the same go on to positions that count the same. -/
theorem advance_alike (h : Prepared.Alike f f' p p') (hx : p.code.toList[i]? = some x)
    (hreal : x.isPseudo = false) (hx' : p'.code.toList[i']? = some x')
    (hreal' : x'.isPseudo = false)
    (hi : realsBefore p.code.toList i = realsBefore p'.code.toList i') :
    SameProgress p.code.toList p'.code.toList (advance p a i env s) (advance p' a i' env s) := by
  -- The two instructions have the same number, so they are the same but for their labels.
  have hlabels : x.relabel f = x'.relabel f' := by
    have hcode := congrArg (·[realsBefore p.code.toList i]?) h.code
    rw [List.getElem?_map, List.getElem?_map, getElem?_filter hx hreal, hi,
      getElem?_filter hx' hreal'] at hcode
    exact Option.some.inj hcode
  have hstep (t : Machine) : Outcome.relabel f (step p.owner x a env t) =
      Outcome.relabel f' (step p'.owner x' a env t) := by
    rw [← step_relabel f hreal, ← step_relabel f' hreal', hlabels, step_congr h.sites]
  have hget : p.code[i]? = some x := Array.getElem?_toList ▸ hx
  have hget' : p'.code[i']? = some x' := Array.getElem?_toList ▸ hx'
  rw [advance_real hget hreal, advance_real hget' hreal']
  cases tick env s with
  | error e t => exact .error e t
  | ok _ t =>
      specialize hstep t
      dsimp only
      cases hr : step p.owner x a env t with
      | error e u =>
          cases hr' : step p'.owner x' a env t with
          | ok flow' u' =>
              rw [hr, hr'] at hstep
              cases hstep
          | error e' u' =>
              rw [hr, hr'] at hstep
              cases hstep
              cases e with
              | thrown exception => exact resume_thrown_alike h hx hreal hx' hreal' hi exception
              | _ => exact .error _ u
      | ok flow u =>
          cases hr' : step p'.owner x' a env t with
          | error e' u' =>
              rw [hr, hr'] at hstep
              cases hstep
          | ok flow' u' =>
              rw [hr, hr'] at hstep
              rcases EStateM.Result.ok.inj hstep with ⟨hflow, rfl⟩
              exact resume_flow_alike h hx hreal hx' hreal' hi hflow
                (fun l stack hl => step_jump (hl ▸ hr)) fun l stack hl => step_jump (hl ▸ hr')

/-- From a position with a real instruction behind it, a run passes over marks to that
    instruction. -/
theorem exists_real (hmore : ((p.code.toList.drop i).filter (!·.isPseudo)) ≠ []) :
    ∃ j x, p.code.toList[j]? = some x ∧ x.isPseudo = false ∧
      realsBefore p.code.toList j = realsBefore p.code.toList i ∧ i ≤ j ∧
      ∀ n, run? p env (n + (j - i)) a i s = run? p env n a j s := by
  induction hrest : p.code.toList.drop i generalizing i with
  | nil =>
      rw [hrest] at hmore
      exact absurd rfl hmore
  | cons x rest ih =>
      rcases getElem?_of_drop hrest with ⟨hx, hdrop⟩
      -- Marks are passed over, one step each.
      cases hpseudo : x.isPseudo with
      | false =>
          refine ⟨i, x, Array.getElem?_toList ▸ hx, hpseudo, rfl, Nat.le_refl i, fun n => ?_⟩
          rw [Nat.sub_self, Nat.add_zero]
      | true =>
          rw [hrest, List.filter_cons_of_neg (by simp [hpseudo]), ← hdrop] at hmore
          rcases ih hmore hdrop with ⟨j, y, hy, hreal, hnumber, hle, hrun⟩
          have hmark := realsBefore_mark (Array.getElem?_toList ▸ hx) hpseudo
          refine ⟨j, y, hy, hreal, hnumber.trans hmark, by omega, fun n => ?_⟩
          rw [show n + (j - i) = n + (j - (i + 1)) + 1 by omega,
            run?_mark hx hpseudo]
          exact hrun n

/-- From a position with nothing but marks behind it, a run falls off the end. -/
theorem run?_end (hnone : ((p.code.toList.drop i).filter (!·.isPseudo)) = []) :
    run? p env (p.code.toList.length + 1) a i s
      = some (.error (.derailed (.fellOff p.member)) s) := by
  suffices hrun : run? p env ((p.code.toList.drop i).length + 1) a i s
      = some (.error (.derailed (.fellOff p.member)) s) by
    refine run?_mono hrun ?_
    rw [List.length_drop]
    omega
  -- Only marks are left, so the run falls off the end.
  induction hrest : p.code.toList.drop i generalizing i with
  | nil =>
      have hend : p.code[i]? = none := by
        rw [← Array.getElem?_toList, List.getElem?_eq_none_iff]
        exact List.drop_eq_nil_iff.1 hrest
      rw [List.length_nil, run?, advance_end hend]
  | cons x rest ih =>
      rcases getElem?_of_drop hrest with ⟨hx, hdrop⟩
      rw [hrest] at hnone
      have hpseudo : x.isPseudo = true := by
        simpa using List.filter_eq_nil_iff.1 hnone x List.mem_cons_self
      rw [List.filter_cons_of_neg (by simp [hpseudo]), ← hdrop] at hnone
      rw [List.length_cons, run?_mark hx hpseudo]
      exact ih hnone hdrop

/-- A run of a method is followed in one that says the same, and the two end in the same way. In
    front of every real instruction the second run can pass over all of its marks. -/
theorem run?_alike (h : Prepared.Alike f f' p p') {k : Nat} {r : Outcome (Option Value)}
    (hi : realsBefore p.code.toList i = realsBefore p'.code.toList i')
    (hr : run? p env k a i s = some r) :
    run? p' env (k * (p'.code.toList.length + 1)) a i' s = some r := by
  -- How many real instructions are left is the same in both methods.
  have hleft (i i' : Nat) (hi : realsBefore p.code.toList i = realsBefore p'.code.toList i') :
      ((p.code.toList.drop i).filter (!·.isPseudo)).length =
        ((p'.code.toList.drop i').filter (!·.isPseudo)).length := by
    have hlength := congrArg List.length h.code
    rw [List.length_map, List.length_map] at hlength
    rw [filter_drop, filter_drop, List.length_drop, List.length_drop, hlength, hi]
  induction k generalizing a i i' s with
  | zero => cases hr
  | succ k ih =>
      rw [Nat.succ_mul]
      cases hx : p.code.toList[i]? with
      | none =>
          have hend : p.code[i]? = none := Array.getElem?_toList ▸ hx
          have hnone : (p'.code.toList.drop i').filter (!·.isPseudo) = [] := by
            rw [← List.length_eq_zero_iff, ← hleft i i' hi,
              List.drop_eq_nil_iff.2 (List.getElem?_eq_none_iff.1 hx)]
            rfl
          rw [run?, advance_end hend, h.member] at hr
          rw [← hr]
          exact run?_mono (run?_end hnone) (Nat.le_add_left _ _)
      | some x =>
          cases hpseudo : x.isPseudo with
          | true =>
              rw [run?_mark (Array.getElem?_toList ▸ hx) hpseudo] at hr
              have hrun := ih ((realsBefore_mark hx hpseudo).trans hi) hr
              exact run?_mono hrun (Nat.le_add_right _ _)
          | false =>
              have hmore : (p'.code.toList.drop i').filter (!·.isPseudo) ≠ [] := by
                rw [← List.length_pos_iff, ← hleft i i' hi, filter_drop, List.length_drop]
                have hlt := (List.getElem?_eq_some_iff.1 (getElem?_filter hx hpseudo)).1
                omega
              have hnext : ∃ j x', p'.code.toList[j]? = some x' ∧ x'.isPseudo = false ∧
                  realsBefore p'.code.toList j = realsBefore p'.code.toList i' ∧ i' ≤ j ∧
                  ∀ n, run? p' env (n + (j - i')) a i' s = run? p' env n a j s := exists_real hmore
              rcases hnext with ⟨j, x', hx', hreal', hnumber, hle, hmarks⟩
              have hsame : SameProgress p.code.toList p'.code.toList (advance p a i env s)
                  (advance p' a j env s) :=
                advance_alike h hx hpseudo hx' hreal' (hi.trans hnumber.symm)
              have hlt := (List.getElem?_eq_some_iff.1 hx').1
              suffices hrun :
                  run? p' env (k * (p'.code.toList.length + 1) + 1) a j s = some r by
                refine run?_mono ((hmarks _).trans hrun) ?_
                omega
              rw [run?] at hr ⊢
              generalize hadvance : advance p a i env s = y at hsame hr
              generalize hadvance' : advance p' a j env s = y' at hsame ⊢
              cases hsame with
              | running hnext => exact ih hnext hr
              | finished v t => exact hr
              | error e t => exact hr

end Alike

end Emu

end JvmFold
