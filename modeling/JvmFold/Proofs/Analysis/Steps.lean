import JvmFold.Proofs.Analysis.Move

/-!
# The Steps of the Analysis

Every instruction makes one of the moves, whatever the machine answers. This
is the only place that opens the definition of the analysis.

`Yields` is the way to say so. It holds of a computation when its answer and
its state meet a condition on any machine, and it goes through the computation
one operation at a time, so no proof ever looks at the machine.

The last part follows a body from its start. `before` is the state in front of
a position, and a condition on a run is a condition on these states: it can
say what the stack looks like where a `dup` is met, which no condition on the
body alone can.

## Main definitions

* `Analysis.Yields`: What a computation answers and leaves, on any machine.
* `Analysis.Moves`: A move together with what it writes.
* `Analysis.before`: The state of an analysis in front of a position.

## Theorems

* `Analysis.flush_released`: Giving a value up leaves the stack alone.
* `Analysis.popOperands_pops`: Operands come off the stack in order.
* `Analysis.step_moves`: Every instruction makes a move.
* `Analysis.advance_moves`: An instruction makes a move, and a mark none; then a block may end.
* `Analysis.before_succ`: What holds in front of the next position.
* `Analysis.before_invariant`: What every move keeps holds in front of every position.
* `Analysis.replacements_eq`: The replacements of a body are those behind its last instruction.
-/

namespace JvmFold

/-- A state with the replacements that come of giving values up added to those of another. -/
def Wrote (t : Tracker) (folds : List Fold) (t' : Tracker) : Prop :=
  ∃ new, Emits folds new ∧ (∀ r ∈ new, r.Replaces folds) ∧
    t'.replacements.toList = t.replacements.toList ++ new

/-- Nothing has to come of values that are given up. -/
theorem wrote_nothing {t t' : Tracker} (folds : List Fold) (h : t'.replacements = t.replacements) :
    Wrote t folds t' := by
  refine ⟨[], ?_, nofun, by rw [h, List.append_nil]⟩
  induction folds with
  | nil => exact Emits.nil
  | cons f rest ih => exact Emits.keep ih

theorem wrote_nil {t t' : Tracker} (h : t'.replacements = t.replacements) : Wrote t [] t' :=
  wrote_nothing [] h

theorem Wrote.trans {t u v : Tracker} {a b : List Fold} (h : Wrote t a u) (h' : Wrote u b v) :
    Wrote t (a ++ b) v := by
  rcases h with ⟨new, he, hnew, hr⟩
  rcases h' with ⟨new', he', hnew', hr'⟩
  refine ⟨new ++ new', he.append he', fun r hmem => ?_, by rw [hr', hr, List.append_assoc]⟩
  rcases List.mem_append.1 hmem with hmem | hmem
  · exact (hnew r hmem).left b
  · exact (hnew' r hmem).right a

/-- What the state held before does not matter beyond its replacements. -/
theorem Wrote.of_replacements {t u v : Tracker} {a : List Fold} (h : Wrote u a v)
    (hr : u.replacements = t.replacements) : Wrote t a v := by
  rcases h with ⟨new, he, hnew, hv⟩
  exact ⟨new, he, hnew, by rw [hv, hr]⟩

/-- Giving values up: the stack stays and the replacements grow. -/
def Released (t : Tracker) (folds : List Fold) (t' : Tracker) : Prop :=
  t'.stack = t.stack ∧ Wrote t folds t'

theorem Released.trans {t u v : Tracker} {a b : List Fold} (h : Released t a u)
    (h' : Released u b v) : Released t (a ++ b) v :=
  ⟨h'.1.trans h.1, h.2.trans h'.2⟩

namespace Analysis

/-- The answer and the state of a computation meet a condition, whatever the machine is. -/
def Yields {α : Type} (x : Analysis α) (s : Subject) (t : Tracker)
    (Q : α → Tracker → Prop) : Prop :=
  ∀ env m, Q (x s t env m).1.1 (x s t env m).1.2

section Rules

variable {α β : Type} {s : Subject} {t : Tracker}

theorem Yields.mono {x : Analysis α} {Q Q' : α → Tracker → Prop} (h : Yields x s t Q)
    (hq : ∀ a t', Q a t' → Q' a t') : Yields x s t Q' :=
  fun env m => hq _ _ (h env m)

theorem bind_at (x : Analysis α) (g : α → Analysis β) (s : Subject) (t : Tracker) (env : Env)
    (m : Machine) :
    (x >>= g) s t env m = g (x s t env m).1.1 s (x s t env m).1.2 env (x s t env m).2 :=
  rfl

theorem read_apply {env : Env} {m : Machine} :
    (read : Analysis Subject) s t env m = ((s, t), m) :=
  rfl

theorem get_apply {env : Env} {m : Machine} :
    (get : Analysis Tracker) s t env m = ((t, t), m) :=
  rfl

theorem heap_apply {env : Env} {m : Machine} :
    probe Probe.heap s t env m = ((m.heap, t), m) :=
  rfl

theorem yields_pure {a : α} {Q : α → Tracker → Prop} (h : Q a t) : Yields (pure a) s t Q :=
  fun _ _ => h

theorem yields_bind {x : Analysis α} {f : α → Analysis β} {Q : β → Tracker → Prop}
    (h : Yields x s t fun a t' => Yields (f a) s t' Q) : Yields (x >>= f) s t Q :=
  fun env m => h env m env (x s t env m).2

theorem yields_map {x : Analysis α} {f : α → β} {Q : β → Tracker → Prop}
    (h : Yields x s t fun a => Q (f a)) : Yields (f <$> x) s t Q :=
  fun env m => h env m

theorem yields_read {Q : Subject → Tracker → Prop} (h : Q s t) :
    Yields (read : Analysis Subject) s t Q :=
  fun _ _ => h

theorem yields_get {Q : Tracker → Tracker → Prop} (h : Q t t) :
    Yields (get : Analysis Tracker) s t Q :=
  fun _ _ => h

theorem yields_modify {f : Tracker → Tracker} {Q : PUnit → Tracker → Prop} (h : Q ⟨⟩ (f t)) :
    Yields (modify f : Analysis PUnit) s t Q :=
  fun _ _ => h

theorem yields_modifyGet {f : Tracker → α × Tracker} {Q : α → Tracker → Prop}
    (h : Q (f t).1 (f t).2) : Yields (modifyGet f : Analysis α) s t Q :=
  fun _ _ => h

theorem yields_probe {p : Probe α} {Q : α → Tracker → Prop} (h : ∀ a, Q a t) :
    Yields (probe p) s t Q :=
  fun _ _ => h _

end Rules

section Release

variable {s : Subject} {t : Tracker}

/-- Events are no part of the stack or the replacements. -/
def Quiet (t t' : Tracker) : Prop :=
  t'.stack = t.stack ∧ t'.replacements = t.replacements

theorem Quiet.trans {u v : Tracker} (h : Quiet t u) (h' : Quiet u v) : Quiet t v :=
  ⟨h'.1.trans h.1, h'.2.trans h.2⟩

theorem Quiet.wrote {u v : Tracker} {a : List Fold} (h : Quiet u v) (hw : Wrote t a u) :
    Wrote t a v := by
  rcases hw with ⟨new, he, hnew, hr⟩
  exact ⟨new, he, hnew, by rw [h.2, hr]⟩

theorem note_quiet (kind : EventKind) (p : Nat) (m : Option Member) (text : String) :
    Yields (note kind p m text) s t fun _ => Quiet t := by
  refine yields_bind (yields_read ?_)
  exact yields_modify ⟨rfl, rfl⟩

theorem report_quiet (p : Nat) (m : Member) (f : Failure) :
    Yields (report p m f) s t fun _ => Quiet t := by
  cases f with
  | notConstant => exact yields_pure ⟨rfl, rfl⟩
  | rejected _ => exact note_quiet _ _ _ _
  | inaccessible _ _ => exact note_quiet _ _ _ _
  | failed _ => exact note_quiet _ _ _ _

/-- At most one replacement was decided, of the span of a value. -/
def Decided (t : Tracker) (f : Fold) (t' : Tracker) : Prop :=
  t'.stack = t.stack ∧ (t'.replacements = t.replacements ∨
    ∃ code, t'.replacements = t.replacements.push ⟨f.start, f.stop, code, f.value.slots⟩)

/-- A value that is not stale is given up by a replacement of its span. -/
theorem Decided.released {f : Fold} {t' : Tracker} (h : Decided t f t') (hf : f.stale = false) :
    Released t [f] t' := by
  rcases h with ⟨hstack, hr | ⟨code, hr⟩⟩
  · exact ⟨hstack, wrote_nothing [f] hr⟩
  · refine ⟨hstack, _, Emits.write code Emits.nil, fun r hmem => ?_, ?_⟩
    · rw [List.mem_singleton] at hmem
      subst hmem
      exact ⟨f, List.mem_append_left _ f.mem_parts, hf, rfl, rfl⟩
    · rw [hr, Array.toList_push]

theorem replace_decided (f : Fold) (code : List Instruction) (kind : EventKind)
    (recipe : Option String) :
    Yields (replace f code kind recipe) s t fun _ => Decided t f := by
  refine yields_bind (yields_read ?_)
  split
  · exact yields_pure ⟨rfl, Or.inl rfl⟩
  · refine yields_bind (yields_probe fun h => ?_)
    refine yields_bind ((note_quiet _ _ _ _).mono fun _ u hu => ?_)
    refine yields_modify ⟨hu.1, Or.inr ⟨code, ?_⟩⟩
    rw [hu.2]

/-- New code takes the place of a span unless it stands there already. -/
theorem replace_apply {f : Fold} {env : Env} {m : Machine} (code : List Instruction)
    (kind : EventKind) (recipe : Option String) :
    ∃ log, replace f code kind recipe s t env m = ((⟨⟩, { t with
      passLog := log
      replacements := if s.realSpan f.start f.stop = code then t.replacements
        else t.replacements.push ⟨f.start, f.stop, code, f.value.slots⟩ }), m) := by
  by_cases hspan : s.realSpan f.start f.stop = code
  · refine ⟨t.passLog, ?_⟩
    change (if s.realSpan f.start f.stop = code then (pure ⟨⟩ : Analysis Unit) else _) s t env m = _
    rw [if_pos hspan, if_pos hspan]
    rfl
  · rw [if_neg hspan]
    let noted := (note kind f.start f.member (replacementText m.heap f recipe) s t env m).1.2
    refine ⟨noted.passLog, ?_⟩
    change (if s.realSpan f.start f.stop = code then (pure ⟨⟩ : Analysis Unit) else _) s t env m = _
    rw [if_neg hspan]
    rfl

/-- A value that could be written back gave at most its own replacement, and one that could not
    gave none. -/
theorem writeBack_decided (f : Fold) :
    Yields (writeBack f) s t fun written t' =>
      Decided t f t' ∧ (written = false → Quiet t t') := by
  refine yields_bind (yields_read ?_)
  refine yields_bind (yields_probe fun h => ?_)
  split
  · refine yields_bind ((replace_decided f _ _ _).mono fun _ u hu => ?_)
    exact yields_pure ⟨hu, nofun⟩
  · split
    · exact yields_pure ⟨⟨rfl, Or.inl rfl⟩, nofun⟩
    · -- Only an object is rebuilt; where that fails it is noted.
      refine yields_bind (yields_probe fun found => ?_)
      cases found with
      | ok found =>
          refine yields_bind ((replace_decided f _ _ _).mono fun _ u hu => ?_)
          exact yields_pure ⟨hu, nofun⟩
      | error obstacle =>
          dsimp only
          split
          · refine yields_bind ((note_quiet _ _ _ _).mono fun _ u hu => ?_)
            exact yields_pure ⟨⟨hu.1, Or.inl hu.2⟩, fun _ => hu⟩
          · exact yields_pure ⟨⟨rfl, Or.inl rfl⟩, fun _ => ⟨rfl, rfl⟩⟩

/-- A value that can be made again is written back. -/
theorem writeBack_rebuilt {f : Fold} {env : Env} {m m' : Machine} {r : HeapRef}
    {found : Reconstruction} (hread : f.isRead = false)
    (hobject : m.heap.encoding f.value = .object r)
    (hrun : Rebuild.run ⟨s.config, s.order, f.start⟩ r env m = (.ok found, m')) :
    ∃ log, writeBack f s t env m = ((true, { t with
      passLog := log
      replacements := if s.realSpan f.start f.stop = found.codeFor s.config.classes f.type
        then t.replacements
        else t.replacements.push
          ⟨f.start, f.stop, found.codeFor s.config.classes f.type, f.value.slots⟩ }), m') := by
  have hreplaces : ∃ log, replace f (found.codeFor s.config.classes f.type)
      .instanceDeconstructed (some found.recipe) s t env m' = _ := replace_apply _ _ _
  rcases hreplaces with ⟨log, hreplace⟩
  have hprobe : probe (Rebuild.run ⟨s.config, s.order, f.start⟩ r) s t env m
      = ((.ok found, t), m') := by
    change (((Rebuild.run ⟨s.config, s.order, f.start⟩ r env m).1, t),
      (Rebuild.run ⟨s.config, s.order, f.start⟩ r env m).2) = _
    rw [hrun]
  refine ⟨log, ?_⟩
  unfold writeBack
  rw [bind_at, read_apply, bind_at, heap_apply]
  dsimp only
  rw [hobject]
  dsimp only
  -- A value that was read would keep its read; this one is searched for.
  rw [hread, if_neg Bool.false_ne_true, bind_at, hprobe]
  dsimp only
  rw [bind_at, hreplace]
  rfl

/-- A value that an instruction loads stands in the body already; any other one is written back
    or else given up for the values it was made from. -/
theorem flush_eq (f : Fold) (h : f.origin ≠ .literal) :
    flush f = (do
      let written ← if f.stale then pure false else writeBack f
      if written then return else flushAll f.children) := by
  rcases f with ⟨origin, start, stop, value, type, member, children, stale⟩
  cases origin with
  | literal => exact absurd rfl h
  | staticField => rw [flush]; nofun
  | field => rw [flush]; nofun
  | cast => rw [flush]; nofun
  | call => rw [flush]; nofun

/-- A literal is not given up. -/
theorem flush_literal (f : Fold) (h : f.origin = .literal) : flush f = pure () := by
  rcases f with ⟨origin, start, stop, value, type, member, children, stale⟩
  simp only at h
  rw [h, flush]

mutual
/-- Giving a value up leaves the stack alone. The recursion is that of the tree: a value that
    cannot be written back is given up for the values it was made from. -/
theorem flush_released (f : Fold) (t : Tracker) :
    Yields (flush f) s t fun _ => Released t [f] := by
  by_cases horigin : f.origin = .literal
  · rw [flush_literal f horigin]
    exact yields_pure ⟨rfl, wrote_nothing [f] rfl⟩
  · -- If the value is not written back, its children are given up in its place.
    have hchildren : ∀ u, Quiet t u → Yields (flushAll f.children) s u fun _ => Released t [f] := by
      intro u hu
      refine (flushAll_released f.children u).mono fun _ v hv => ?_
      rcases hv with ⟨hstack, new, he, hnew, hr⟩
      refine ⟨hstack.trans hu.1, new ++ [], Emits.expand he Emits.nil, fun r hmem => ?_, ?_⟩
      · rw [List.append_nil] at hmem
        exact (hnew r hmem).of_children
      · rw [List.append_nil, hr, hu.2]
    rw [flush_eq f horigin]
    dsimp only
    split
    · exact yields_bind (yields_pure (hchildren t ⟨rfl, rfl⟩))
    next hfresh =>
      refine yields_bind ((writeBack_decided f).mono fun written u hu => ?_)
      cases written with
      | true => exact yields_pure (hu.1.released (by simpa using hfresh))
      | false => exact hchildren u (hu.2 rfl)
termination_by sizeOf f
decreasing_by
  rcases f with ⟨⟩
  simp +arith

/-- Values that are given up are gone, and what they come to is recorded. -/
theorem flushAll_released (l : List Fold) (t : Tracker) :
    Yields (flushAll l) s t fun _ => Released t l := by
  match l with
  | [] =>
      rw [flushAll]
      exact yields_pure ⟨rfl, wrote_nil rfl⟩
  | f :: rest =>
      rw [flushAll]
      refine yields_bind ((flush_released f t).mono fun _ u hu => ?_)
      exact (flushAll_released rest u).mono fun _ v hv => hu.trans hv
termination_by sizeOf l
end

-- So is the value of a slot that is dropped.
theorem discard_released (slot : Slot) :
    Yields (discard slot) s t fun _ => Released t (knownIn [slot]) := by
  cases slot with
  | known f => exact flush_released f t
  | unknown => exact yields_pure ⟨rfl, wrote_nil rfl⟩
  | upper => exact yields_pure ⟨rfl, wrote_nil rfl⟩
  | uninitialized _ => exact yields_pure ⟨rfl, wrote_nil rfl⟩

-- So are the values among operands.
theorem release_released (l : List Operand) :
    Yields (release l) s t fun _ => Released t (l.filterMap Operand.fold?) :=
  flushAll_released _ t

-- So are the values of slots that are dropped.
theorem forM_discard_released (l : List Slot) :
    Yields (l.forM discard) s t fun _ => Released t (knownIn l) := by
  induction l generalizing t with
  | nil => exact yields_pure ⟨rfl, wrote_nil rfl⟩
  | cons slot rest ih =>
      change Yields (discard slot >>= fun _ => rest.forM discard) s t _
      refine yields_bind ((discard_released slot).mono fun _ u hu => ?_)
      refine ih.mono fun _ v hv => ?_
      rw [← List.singleton_append, knownIn_append]
      exact hu.trans hv

end Release

section Stack

variable {s : Subject} {t : Tracker}

/-- The slot on top is taken off, or none if there is none. -/
theorem pop_takes :
    Yields pop s t fun slot t' =>
      slot = t.stack.headD .unknown ∧ t'.stack = t.stack.drop 1 ∧
        t'.replacements = t.replacements := by
  refine yields_modifyGet ?_
  cases hstack : t.stack with
  | nil => exact ⟨rfl, hstack, rfl⟩
  | cons slot rest => exact ⟨rfl, rfl, rfl⟩

/-- Two slots that do not hold a value with its upper slot are given up. -/
theorem popOperand_wide :
    Yields (popOperand 2) s t fun o t' =>
      ∃ lost, PopsOne 2 t.stack o t'.stack lost ∧ Wrote t lost t' := by
  -- Both slots are given up one after the other, so what is lost is what was in them.
  have hlost : ∀ (low high : Slot) (u : Tracker), high = t.stack.headD .unknown →
      low = (t.stack.drop 1).headD .unknown → u.stack = t.stack.drop 2 →
      u.replacements = t.replacements →
      Yields (do discard low; discard high; return Operand.unknown) s u fun o t' =>
        ∃ lost, PopsOne 2 t.stack o t'.stack lost ∧ Wrote t lost t' := by
    intro low high u hhigh hlow hstack hr
    refine yields_bind ((discard_released low).mono fun _ v hv => ?_)
    refine yields_bind ((discard_released high).mono fun _ w hw => ?_)
    have hboth := hv.trans hw
    refine yields_pure ⟨knownIn (t.stack.take 2).reverse, ?_, ?_⟩
    · rw [hboth.1, hstack]
      exact PopsOne.lost 2
    · have htaken : knownIn (t.stack.take 2).reverse = knownIn [low] ++ knownIn [high] := by
        rw [hhigh, hlow, ← knownIn_append]
        rcases t.stack with _ | ⟨a, _ | ⟨b, rest⟩⟩ <;> rfl
      rw [htaken]
      exact hboth.2.of_replacements hr
  refine yields_bind (pop_takes.mono fun high u hu => ?_)
  refine yields_bind (pop_takes.mono fun low v hv => ?_)
  have hstack : v.stack = t.stack.drop 2 := by rw [hv.2.1, hu.2.1, List.drop_drop]
  have hr : v.replacements = t.replacements := hv.2.2.trans hu.2.2
  have hlow : low = (t.stack.drop 1).headD .unknown := by rw [hv.1, hu.2.1]
  split
  next f =>
    -- A value with its upper slot is an operand.
    refine yields_pure ⟨[], ?_, wrote_nil hr⟩
    rw [hstack]
    have hhigh := hu.1
    rcases ht : t.stack with _ | ⟨a, _ | ⟨b, rest⟩⟩
    · rw [ht] at hhigh; cases hhigh
    · rw [ht] at hlow; cases hlow
    · rw [ht] at hhigh hlow
      cases hhigh
      cases hlow
      exact PopsOne.wide
  · exact hlost low high v hu.1 hlow hstack hr

/-- An operand is popped as its width says. -/
theorem popOperand_pops (w : Nat) :
    Yields (popOperand w) s t fun o t' =>
      ∃ lost, PopsOne w t.stack o t'.stack lost ∧ Wrote t lost t' := by
  by_cases hw : w = 2
  · rw [hw]
    exact popOperand_wide
  · rw [popOperand, if_neg hw]
    refine yields_bind (pop_takes.mono fun slot u hu => ?_)
    rcases hu with ⟨hslot, hstack, hr⟩
    -- ⟨a, rest⟩ | Nothing is lost of a stack that is empty.
    rcases ht : t.stack with _ | ⟨a, rest⟩
    · rw [ht] at hslot hstack
      subst hslot
      refine yields_pure ⟨[], ?_, wrote_nil hr⟩
      rw [hstack]
      exact PopsOne.lost 0
    · rw [ht] at hslot hstack
      subst hslot
      cases slot with
      | known f => exact yields_pure ⟨[], by rw [hstack]; exact PopsOne.narrow hw, wrote_nil hr⟩
      | uninitialized v =>
          exact yields_pure ⟨[], by rw [hstack]; exact PopsOne.object hw, wrote_nil hr⟩
      | unknown => exact yields_pure ⟨[], by rw [hstack]; exact PopsOne.lost 1, wrote_nil hr⟩
      | upper => exact yields_pure ⟨[], by rw [hstack]; exact PopsOne.lost 1, wrote_nil hr⟩

/-- Operands come off the stack in order, the last of them first. -/
theorem popOperands_pops (types : List FieldType) :
    Yields (popOperands types) s t fun l t' =>
      ∃ lost, Pops (types.map FieldType.slots) t.stack l t'.stack lost ∧ Wrote t lost t' := by
  induction types generalizing t with
  | nil => exact yields_pure ⟨[], Pops.nil, wrote_nil rfl⟩
  | cons type rest ih =>
      refine yields_bind (ih.mono fun l u hu => ?_)
      rcases hu with ⟨lost, hpops, hwrote⟩
      refine yields_bind ((popOperand_pops type.slots).mono fun o v hv => ?_)
      rcases hv with ⟨lost', hone, hwrote'⟩
      exact yields_pure ⟨lost ++ lost', Pops.cons hpops hone, hwrote.trans hwrote'⟩

/-- Slots are dropped one by one, and their values given up. -/
theorem dropSlots_released (n : Nat) :
    Yields (dropSlots n) s t fun _ t' =>
      t'.stack = t.stack.drop n ∧ Wrote t (knownIn (t.stack.take n)) t' := by
  induction n generalizing t with
  | zero => exact yields_pure ⟨rfl, wrote_nil rfl⟩
  | succ n ih =>
      refine yields_bind (pop_takes.mono fun slot u hu => ?_)
      refine yields_bind ((discard_released slot).mono fun _ v hv => ?_)
      refine ih.mono fun _ w hw => ?_
      rcases hu with ⟨hslot, hstack, hr⟩
      have hvstack : v.stack = t.stack.drop 1 := by rw [hv.1, hstack]
      refine ⟨by rw [hw.1, hvstack, List.drop_drop, Nat.add_comm], ?_⟩
      -- The slots are those dropped first and then.
      have htaken : knownIn (t.stack.take (n + 1))
          = knownIn [slot] ++ knownIn (v.stack.take n) := by
        rw [hslot, hvstack]
        rcases t.stack with _ | ⟨a, rest⟩
        · rw [List.drop_nil, List.take_nil, List.take_nil]; rfl
        · rw [← knownIn_append]; rfl
      rw [htaken]
      exact (hv.2.of_replacements hr).trans hw.2

end Stack

section Steps

variable {s : Subject} {t : Tracker} {p : Nat} {i : Instruction}

/-- A state that a move leads to, with the replacements that come of what the move gives up. -/
def Moves (s : Subject) (p : Nat) (i : Instruction) (t t' : Tracker) : Prop :=
  ∃ lost, Move s p i t.stack t'.stack lost ∧ Wrote t lost t'

/-- All of the stack is given up. -/
def Clears (t t' : Tracker) : Prop :=
  t'.stack = [] ∧ ∃ lost, lost.Perm (knownIn t.stack) ∧ Wrote t lost t'

/-- The end of a block clears the stack. -/
theorem endBlock_clears : Yields endBlock s t fun _ => Clears t := by
  refine yields_bind (yields_get ?_)
  refine yields_bind (yields_modify ?_)
  refine (forM_discard_released _).mono fun _ u hu => ?_
  refine ⟨hu.1, knownIn t.stack.reverse, ?_, hu.2.of_replacements rfl⟩
  exact List.Perm.filterMap _ (List.reverse_perm _)

/-- To clear the stack is a move as well. -/
theorem Clears.moves {t' : Tracker} (h : Clears t t') : Moves s p i t t' := by
  rcases h with ⟨hstack, lost, hperm, hwrote⟩
  refine ⟨lost, ?_, hwrote⟩
  have hlose : Move s p i t.stack
      (List.replicate 0 .unknown ++ t.stack.drop t.stack.length) lost := by
    refine Move.lose _ 0 ?_
    rw [List.take_length]
    exact hperm
  rw [List.drop_length] at hlose
  rw [hstack]
  exact hlose

/-- Slots that are not known are pushed. -/
theorem pushUnknown_stack (k : Nat) :
    Yields (pushUnknown k) s t fun _ t' =>
      t'.stack = List.replicate k .unknown ++ t.stack ∧ t'.replacements = t.replacements :=
  yields_modify ⟨rfl, rfl⟩

/-- An instruction that is not looked into drops slots and pushes some that are not known. -/
theorem generic_moves (j : Instruction) :
    Yields (generic j) s t fun _ => Moves s p i t := by
  rw [generic]
  split
  · exact endBlock_clears.mono fun _ _ h => h.moves
  next popped produced _ =>
    refine yields_bind ((dropSlots_released _).mono fun _ u hu => ?_)
    refine (pushUnknown_stack _).mono fun _ v hv => ?_
    refine ⟨knownIn (t.stack.take popped), ?_, ?_⟩
    · rw [hv.1, hu.1]
      exact Move.lose _ _ (List.Perm.refl _)
    · rcases hu.2 with ⟨new, he, hnew, hr⟩
      exact ⟨new, he, hnew, by rw [hv.2, hr]⟩

/-- What comes of operands that were taken off and are then given up. -/
theorem released_moves {ws : List Nat} {l l' : List Operand} {lost : List Fold} {u v : Tracker}
    (k : Nat) (hpops : Pops ws t.stack l u.stack lost) (hwrote : Wrote t lost u)
    (hl : l'.Perm l) (hv : Released u (l'.filterMap Operand.fold?) v) {w : Tracker}
    (hw : w.stack = List.replicate k .unknown ++ v.stack) (hr : w.replacements = v.replacements) :
    Moves s p i t w := by
  rcases hpops.perm with ⟨n, hrest, hperm⟩
  refine ⟨lost ++ l'.filterMap Operand.fold?, ?_, ?_⟩
  · rw [hw, hv.1, hrest]
    exact Move.lose n k (((hl.filterMap _).append_left _).trans hperm)
  · rcases hwrote.trans hv.2 with ⟨new, he, hnew, hn⟩
    exact ⟨new, he, hnew, by rw [hr, hn]⟩

/-- A value is pushed, and nothing is decided. -/
theorem pushFold_onStack (f : Fold) :
    Yields (pushFold f) s t fun _ t' =>
      t'.stack = onStack f t.stack ∧ t'.replacements = t.replacements := by
  refine yields_bind (yields_modify ?_)
  rw [onStack]
  split
  · exact yields_modify ⟨rfl, rfl⟩
  · exact yields_pure ⟨rfl, rfl⟩

/-- Operands that were taken off and are then given up, with unknown slots in their place. -/
theorem release_moves {ws : List Nat} {l l' : List Operand} {lost : List Fold} {u : Tracker}
    (k : Nat) (hpops : Pops ws t.stack l u.stack lost) (hwrote : Wrote t lost u)
    (hl : l'.Perm l) :
    Yields (do release l'; pushUnknown k) s u fun _ => Moves s p i t := by
  refine yields_bind ((release_released l').mono fun _ v hv => ?_)
  refine (pushUnknown_stack k).mono fun _ w hw => ?_
  exact released_moves k hpops hwrote hl hv hw.1 hw.2

/-- A value that was made from operands that were taken off. -/
theorem pushFold_moves {ws : List Nat} {l : List Operand} {lost fs : List Fold} {u v : Tracker}
    {f : Fold} (hpops : Pops ws t.stack l u.stack lost) (hwrote : Wrote t lost u)
    (hk : knownFolds? l = some fs) (hc : s.isContiguous p none fs = true) (hm : Makes i ws fs f)
    (hf : Spans ((fs.head?.map Fold.start).getD p) p fs f) (hv : Quiet u v) :
    Yields (pushFold f) s v fun _ => Moves s p i t := by
  refine (pushFold_onStack f).mono fun _ w hw => ?_
  have hl := eq_map_known hk
  have hlost := hpops.lost_eq_nil hl
  subst hl hlost
  refine ⟨[], ?_, ?_⟩
  · rw [hw.1, hv.1]
    exact Move.make hm hpops hc hf
  · rcases hv.wrote hwrote with ⟨new, he, hnew, hr⟩
    exact ⟨new, he, hnew, by rw [hw.2, hr]⟩

/-- Operands can be evaluated if they are known and lie in a row. -/
theorem evaluable?_yields (cursor : Option Nat) (operands : List Operand) :
    Yields (evaluable? p cursor operands) s t fun r t' =>
      t' = t ∧ ∀ fs, r = some fs →
        knownFolds? operands = some fs ∧ s.isContiguous p cursor fs = true := by
  rw [evaluable?]
  split
  · exact yields_pure ⟨rfl, nofun⟩
  next folds hk =>
    refine yields_bind (yields_read ?_)
    split
    · exact yields_pure ⟨rfl, nofun⟩
    next hc =>
      refine yields_bind (yields_bind (yields_read ?_))
      refine yields_bind (yields_probe fun h => ?_)
      refine yields_pure ?_
      split
      · exact yields_pure ⟨rfl, nofun⟩
      · refine yields_pure ⟨rfl, fun fs hfs => ?_⟩
        -- What is asked last is whether an object among them has a state.
        cases hfs
        exact ⟨hk, by simpa using hc⟩

/-- An evaluation moves nothing. -/
theorem evaluate_quiet (start stop : Nat) (e : Evaluation (Member × Value)) :
    Yields (evaluate start stop e) s t fun _ => Quiet t := by
  refine yields_bind (yields_read ?_)
  refine yields_bind (yields_get ?_)
  split
  · exact yields_pure ⟨rfl, rfl⟩
  · refine yields_bind (yields_probe fun outcome => ?_)
    refine yields_bind (yields_modify ?_)
    exact yields_pure ⟨rfl, rfl⟩

theorem aged_map (h : Heap) (fs : List Fold) : Aged fs (fs.map (Fold.aged h)) :=
  ⟨fun g => (Fold.aged h g).stale, fun g hg => by simp [Fold.aged, hg], rfl⟩

theorem aged_refl (fs : List Fold) : Aged fs fs := by
  refine ⟨Fold.stale, fun _ hg => hg, ?_⟩
  induction fs with
  | nil => rfl
  | cons g rest ih =>
      rw [List.map_cons, ← ih]
      cases g
      rfl

/-- A call makes a value of its operands or gives them up. -/
theorem call_moves {ws : List Nat} {l : List Operand} {lost : List Fold} {u : Tracker}
    (named : Member) (type : FieldType) (k : Nat)
    (evaluation : List Value → Evaluation (Member × Value))
    (hpops : Pops ws t.stack l u.stack lost) (hwrote : Wrote t lost u)
    (hm : ∀ fs f, f.origin = Origin.call → Makes i ws fs f) :
    Yields (call p l named type k evaluation) s u fun _ => Moves s p i t := by
  refine yields_bind ((evaluable?_yields none l).mono fun r v hv => ?_)
  rcases hv with ⟨rfl, hr⟩
  cases r with
  | none => exact release_moves k hpops hwrote (List.Perm.refl _)
  | some fs =>
      rcases hr fs rfl with ⟨hk, hc⟩
      refine yields_bind ((evaluate_quiet _ _ _).mono fun outcome w hw => ?_)
      cases outcome with
      | ok found =>
          refine yields_bind (yields_probe fun h => ?_)
          -- The value is made of the operands, which are stale if their objects can change.
          exact pushFold_moves hpops hwrote hk hc (hm _ _ rfl) ⟨rfl, rfl, aged_map h fs, rfl⟩ hw
      | error failure =>
          refine yields_bind ((report_quiet _ _ _).mono fun _ x hx => ?_)
          -- After a failure nothing has moved yet but the operands.
          have hquiet := hw.trans hx
          rw [← hquiet.1] at hpops
          exact release_moves k hpops (hquiet.wrote hwrote) (List.Perm.refl _)

/-- A constructor initializes an object, or the object and the arguments are given up. -/
theorem construct_moves {l : List Operand} {lost : List Fold} {u : Tracker} {m : Member}
    {isInterface : Bool} {type : MethodType} {v : Uninitialized} (hi : m.isConstructor = true)
    (hd : MethodType.parse m.descriptor = .ok type)
    (hpops : Pops (1 :: type.parameters.map FieldType.slots) t.stack (.uninitialized v :: l)
      u.stack lost) (hwrote : Wrote t lost u) :
    Yields (construct p m v l) s u fun _ =>
      Moves s p (.invoke .invokespecial m isInterface) t := by
  -- Giving up happens in four places, always from a state that has decided nothing more.
  have hgive : ∀ w, Quiet u w →
      Yields (do
        release l
        modify fun t => { t with stack := settle v .unknown .unknown t.stack }) s w fun _ =>
          Moves s p (.invoke .invokespecial m isInterface) t := by
    intro w hw
    refine yields_bind ((release_released l).mono fun _ x hx => ?_)
    rcases hpops.perm with ⟨n, hrest, hperm⟩
    refine yields_modify ⟨lost ++ l.filterMap Operand.fold?, ?_, ?_⟩
    · change Move s p _ t.stack (settle v .unknown .unknown x.stack) _
      rw [hx.1, hw.1, hrest]
      exact Move.forget n v hperm
    · exact (hw.wrote hwrote).trans hx.2
  refine yields_bind (yields_read ?_)
  refine yields_bind ((evaluable?_yields _ l).mono fun r w hw => ?_)
  rcases hw with ⟨rfl, hr⟩
  cases r with
  | none => exact hgive w ⟨rfl, rfl⟩
  | some fs =>
      rcases hr fs rfl with ⟨hk, hc⟩
      refine yields_bind (yields_get ?_)
      split
      · exact hgive w ⟨rfl, rfl⟩
      next hholds =>
        refine yields_bind ((evaluate_quiet _ _ _).mono fun outcome x hx => ?_)
        cases outcome with
        | ok found =>
            refine yields_bind (yields_probe fun h => ?_)
            have hl := eq_map_known hk
            subst hl
            -- All operands are known, so none of them was lost when they came off.
            have hlost : lost = [] := by
              cases hpops with
              | cons hrest hone =>
                  rw [hrest.lost_eq_nil rfl]
                  cases hone
                  rfl
            subst hlost
            refine yields_modify ⟨[], ?_, hx.wrote hwrote⟩
            change Move s p _ t.stack (settle v _ .unknown x.stack) []
            rw [hx.1]
            exact Move.build hi hd rfl hpops hc (by simpa using hholds)
              ⟨rfl, rfl, aged_map h fs, rfl⟩
        | error failure =>
            refine yields_bind ((report_quiet _ _ _).mono fun _ y hy => ?_)
            exact hgive y (hx.trans hy)

/-- A `dup` copies an object in the making and nothing else. -/
theorem dup_moves : Yields (dup p) s t fun _ => Moves s p (.simple .dup) t := by
  refine yields_bind (yields_get ?_)
  split
  next u rest hstack =>
    refine yields_modify ⟨[], ?_, wrote_nil rfl⟩
    rw [hstack]
    exact Move.copy
  · exact generic_moves _

/-- A read of a static field makes a value, and of no others. -/
theorem getStatic_moves (m : Member) :
    Yields (getStatic p m) s t fun _ => Moves s p (.field .getstatic m) t := by
  have hunknown : ∀ (k : Nat) (u : Tracker), Quiet t u →
      Yields (pushUnknown k) s u fun _ => Moves s p (.field .getstatic m) t := by
    intro k u hu
    refine (pushUnknown_stack k).mono fun _ v hv => ?_
    refine ⟨[], ?_, wrote_nil (hv.2.trans hu.2)⟩
    rw [hv.1, hu.1]
    exact Move.lose 0 k (List.Perm.refl _)
  refine yields_bind (yields_read ?_)
  split
  · exact hunknown 1 t ⟨rfl, rfl⟩
  -- A descriptor that cannot be read counts as one slot.
  next type hd =>
    refine yields_bind (yields_get ?_)
    dsimp only
    split
    · refine yields_bind (yields_probe fun read => ?_)
      cases read with
      | ok value =>
          exact pushFold_moves Pops.nil (wrote_nil rfl) rfl rfl (Makes.staticField hd rfl)
            ⟨rfl, rfl, aged_refl [], rfl⟩ ⟨rfl, rfl⟩
      | error failure =>
          refine yields_bind ((report_quiet _ _ _).mono fun _ u hu => ?_)
          exact hunknown _ u hu
    · exact hunknown _ t ⟨rfl, rfl⟩

/-- Giving the value of an operand up is giving the operand up. -/
theorem flush_moves {ws : List Nat} {lost : List Fold} {u v : Tracker} {object : Fold} (k : Nat)
    (hpops : Pops ws t.stack [.known object] u.stack lost) (hwrote : Wrote t lost u)
    (hv : Quiet u v) :
    Yields (do flush object; pushUnknown k) s v fun _ => Moves s p i t := by
  rw [← hv.1] at hpops
  refine yields_bind ((flush_released object v).mono fun _ w hw => ?_)
  refine (pushUnknown_stack k).mono fun _ x hx => ?_
  exact released_moves k hpops (hv.wrote hwrote) (List.Perm.refl _) hw hx.1 hx.2

/-- An operand that is not known has nothing to give up. -/
theorem pushUnknown_moves {ws : List Nat} {lost : List Fold} {u : Tracker} {o : Operand} (k : Nat)
    (hpops : Pops ws t.stack [o] u.stack lost) (hwrote : Wrote t lost u) (ho : o.fold? = none) :
    Yields (pushUnknown k) s u fun _ => Moves s p i t := by
  refine (pushUnknown_stack k).mono fun _ x hx => ?_
  refine released_moves k hpops hwrote (List.Perm.refl _) ⟨rfl, ?_⟩ hx.1 hx.2
  rw [List.filterMap_cons_none ho]
  exact wrote_nil rfl

/-- One operand off the stack. -/
theorem popOperand_pops_one (w : Nat) :
    Yields (popOperand w) s t fun o t' =>
      ∃ lost, Pops [w] t.stack [o] t'.stack lost ∧ Wrote t lost t' := by
  refine (popOperand_pops w).mono fun o u hu => ?_
  rcases hu with ⟨lost, hone, hwrote⟩
  exact ⟨[] ++ lost, Pops.cons Pops.nil hone, hwrote⟩

/-- A read of an instance field makes a value of the object. -/
theorem getField_moves (m : Member) :
    Yields (getField p m) s t fun _ => Moves s p (.field .getfield m) t := by
  refine yields_bind (yields_read ?_)
  refine yields_bind ((popOperand_pops_one 1).mono fun receiver u hu => ?_)
  rcases hu with ⟨lost, hpops, hwrote⟩
  split
  · exact release_moves 1 hpops hwrote (List.Perm.refl _)
  next type hd =>
    cases receiver with
    | known object =>
        dsimp only
        split
        next hcond =>
          -- The second condition is that nothing stands between the object and the read.
          rw [Bool.and_eq_true] at hcond
          refine yields_bind (yields_probe fun read => ?_)
          cases read with
          | ok value =>
              exact pushFold_moves hpops hwrote rfl hcond.2 (Makes.field hd rfl)
                ⟨rfl, rfl, aged_refl _, rfl⟩ ⟨rfl, rfl⟩
          | error failure =>
              refine yields_bind ((report_quiet _ _ _).mono fun _ v hv => ?_)
              exact flush_moves _ hpops hwrote hv
        · exact flush_moves _ hpops hwrote ⟨rfl, rfl⟩
    | unknown => exact pushUnknown_moves _ hpops hwrote rfl
    | uninitialized _ => exact pushUnknown_moves _ hpops hwrote rfl

/-- A cast makes a value of the one that passes it. -/
theorem checkCast_moves (name : String) :
    Yields (checkCast p name) s t fun _ => Moves s p (.typed .checkcast name) t := by
  refine yields_bind (yields_read ?_)
  refine yields_bind ((popOperand_pops_one 1).mono fun operand u hu => ?_)
  rcases hu with ⟨lost, hpops, hwrote⟩
  -- A known value of a class that fits is folded with its cast; any other is given up.
  cases operand with
  | known f =>
      refine yields_bind (yields_probe fun h => ?_)
      split
      next hcond =>
        rw [Bool.and_eq_true] at hcond
        exact pushFold_moves hpops hwrote rfl hcond.2 (Makes.cast rfl rfl)
          ⟨rfl, rfl, aged_refl _, rfl⟩ ⟨rfl, rfl⟩
      · exact flush_moves _ hpops hwrote ⟨rfl, rfl⟩
  | unknown => exact pushUnknown_moves _ hpops hwrote rfl
  | uninitialized _ => exact pushUnknown_moves _ hpops hwrote rfl

/-- To make a field known moves nothing. -/
theorem resolve_quiet (declared : Member) (v : Value) :
    Yields (resolve p declared v) s t fun _ => Quiet t := by
  refine yields_bind (yields_read ?_)
  refine yields_bind (yields_probe fun h => ?_)
  refine yields_bind (yields_get ?_)
  split
  · exact yields_modify ⟨rfl, rfl⟩
  · exact yields_pure ⟨rfl, rfl⟩

/-- Operands that are given up with nothing in their place. -/
theorem release_moves_nothing {ws : List Nat} {l l' : List Operand} {lost : List Fold}
    {u v : Tracker} (hpops : Pops ws t.stack l u.stack lost) (hwrote : Wrote t lost u)
    (hl : l'.Perm l) (hv : Quiet u v) : Yields (release l') s v fun _ => Moves s p i t := by
  rw [← hv.1] at hpops
  refine (release_released l').mono fun _ w hw => ?_
  exact released_moves 0 hpops (hv.wrote hwrote) hl hw rfl rfl

/-- An assignment gives its value up. -/
theorem putStatic_moves (m : Member) :
    Yields (putStatic p m) s t fun _ => Moves s p i t := by
  refine yields_bind ((popOperand_pops_one _).mono fun operand u hu => ?_)
  rcases hu with ⟨lost, hpops, hwrote⟩
  dsimp only
  split
  · refine yields_bind (yields_read ?_)
    refine yields_bind ((resolve_quiet _ _).mono fun _ v hv => ?_)
    exact release_moves_nothing hpops hwrote (List.Perm.refl _) hv
  · exact release_moves_nothing hpops hwrote (List.Perm.refl _) ⟨rfl, rfl⟩

/-- Only one opcode calls constructors. -/
theorem eq_invokespecial {op : Opcode} (h : InvokeKind.ofOpcode? op = some .special) :
    op = .invokespecial := by
  unfold InvokeKind.ofOpcode? at h
  split at h <;> simp_all

/-- What the call of a method takes off the stack: its arguments, and the receiver below them if
    there is one. -/
def popCall (kind : InvokeKind) (type : MethodType) :
    Analysis (List Operand × Option Operand) := do
  let arguments ← popOperands type.parameters
  let receiver ← if kind.hasReceiver then some <$> popOperand 1 else pure none
  return (arguments, receiver)

/-- What is done with the operands of a method when they are off the stack. -/
def followMethod (p : Nat) (m : Member) (kind : InvokeKind) (type : MethodType)
    (arguments : List Operand) (receiver : Option Operand) : Analysis Unit :=
  if m.isConstructor && kind == .special then
    match receiver with
    | some (.uninitialized u) => construct p m u arguments
    | _ => release (arguments ++ receiver.toList)
  else
    match type.result with
    | none => release (arguments ++ receiver.toList)
    | some result => do
      let c := (← read).config
      call p (receiver.toList ++ arguments) m result result.slots (Evaluation.invoke c kind m)

/-- A method call pops its operands and is then followed. -/
theorem invoke_eq_followMethod {op : Opcode} {kind : InvokeKind} {m : Member} {type : MethodType}
    (hk : InvokeKind.ofOpcode? op = some kind) (hd : MethodType.parse m.descriptor = .ok type)
    (p : Nat) (i : Instruction) :
    invoke p i op m
      = popCall kind type >>= fun taken => followMethod p m kind type taken.1 taken.2 := by
  unfold invoke popCall
  rw [hk, hd]
  dsimp only
  cases kind.hasReceiver <;> rfl

/-- A call takes its operands off and goes on with them, or it is followed by its effect only. -/
theorem invoke_cases (p : Nat) (i : Instruction) (op : Opcode) (m : Member) :
    (∃ kind type, InvokeKind.ofOpcode? op = some kind ∧
      MethodType.parse m.descriptor = .ok type ∧
      invoke p i op m
        = popCall kind type >>= fun taken => followMethod p m kind type taken.1 taken.2) ∨
      invoke p i op m = generic i := by
  cases hk : InvokeKind.ofOpcode? op with
  | none =>
      refine .inr ?_
      rw [invoke, hk]
  | some kind =>
      cases hd : MethodType.parse m.descriptor with
      | error e =>
          refine .inr ?_
          rw [invoke, hk, hd]
      | ok type => exact .inl ⟨kind, type, rfl, rfl, invoke_eq_followMethod hk hd p i⟩

/-- The operands of a call are its receiver and its arguments, from the top down. -/
theorem popCall_pops (kind : InvokeKind) (type : MethodType) :
    Yields (popCall kind type) s t fun taken t' => ∃ lost,
      Pops (kind.receiverWidths ++ type.parameters.map FieldType.slots) t.stack
        (taken.2.toList ++ taken.1) t'.stack lost ∧ Wrote t lost t' := by
  refine yields_bind ((popOperands_pops type.parameters).mono fun arguments u hu => ?_)
  rcases hu with ⟨lost, hpops, hwrote⟩
  unfold InvokeKind.receiverWidths
  cases kind.hasReceiver with
  | true =>
      refine yields_bind (yields_map ((popOperand_pops 1).mono fun o v hv => ?_))
      rcases hv with ⟨lost', hone, hwrote'⟩
      exact yields_pure ⟨_, Pops.cons hpops hone, hwrote.trans hwrote'⟩
  | false => exact yields_bind (yields_pure (yields_pure ⟨lost, hpops, hwrote⟩))

/-- A call whose arguments and receiver, if it has one, were taken off the stack. -/
theorem followMethod_moves {op : Opcode} {kind : InvokeKind} {m : Member} {isInterface : Bool}
    {type : MethodType} {receiver : Option Operand} {arguments : List Operand} {lost : List Fold}
    {u : Tracker} (hk : InvokeKind.ofOpcode? op = some kind)
    (hd : MethodType.parse m.descriptor = .ok type)
    (hpops : Pops (kind.receiverWidths ++ type.parameters.map FieldType.slots) t.stack
      (receiver.toList ++ arguments) u.stack lost) (hwrote : Wrote t lost u) :
    Yields (followMethod p m kind type arguments receiver) s u fun _ =>
      Moves s p (.invoke op m isInterface) t := by
  unfold followMethod
  split
  next hcond =>
    -- A constructor gives its value to the object, and a method without a result gives none.
    rw [Bool.and_eq_true, beq_iff_eq] at hcond
    rcases hcond with ⟨hi, rfl⟩
    rw [eq_invokespecial hk]
    split
    · exact construct_moves hi hd hpops hwrote
    · exact release_moves_nothing hpops hwrote List.perm_append_comm ⟨rfl, rfl⟩
  next hcond =>
    rw [Bool.not_eq_true] at hcond
    split
    · exact release_moves_nothing hpops hwrote List.perm_append_comm ⟨rfl, rfl⟩
    next result hr =>
      refine yields_bind (yields_read ?_)
      exact call_moves _ _ _ _ hpops hwrote fun fs f hf => Makes.call hk hd hr hcond hf

/-- A method call moves values as its rule says. -/
theorem invoke_moves (op : Opcode) (m : Member) (isInterface : Bool) :
    Yields (invoke p (.invoke op m isInterface) op m) s t fun _ =>
      Moves s p (.invoke op m isInterface) t := by
  rcases invoke_cases p (.invoke op m isInterface) op m with ⟨kind, type, hk, hd, heq⟩ | heq
  · rw [heq]
    refine yields_bind ((popCall_pops kind type).mono fun taken u hu => ?_)
    rcases hu with ⟨lost, hpops, hwrote⟩
    exact followMethod_moves hk hd hpops hwrote
  · rw [heq]
    exact generic_moves _

-- So does a call site.
theorem invokeDynamic_moves (bootstrap : UInt16) (name descriptor : String) :
    Yields (invokeDynamic p (.invokeDynamic bootstrap name descriptor) bootstrap descriptor) s t
      fun _ => Moves s p (.invokeDynamic bootstrap name descriptor) t := by
  refine yields_bind (yields_read ?_)
  split
  next type hd =>
    split
    · refine yields_bind ((popOperands_pops type.parameters).mono fun operands u hu => ?_)
      rcases hu with ⟨lost, hpops, hwrote⟩
      exact call_moves _ _ _ _ hpops hwrote fun fs f hf => Makes.callSite hd hf
    · exact generic_moves _
  · exact generic_moves _

/-- The value of a constant takes as many slots as the constant does. -/
theorem constant_slots (c : Constant) :
    Yields (probe (Probe.attempt (Emu.constant c))) s t fun r t' =>
      t' = t ∧ ∀ v, r = .ok v → v.slots = c.slots := by
  intro env m
  refine ⟨rfl, fun v hv => ?_⟩
  cases c <;> cases hv <;> rfl

/-- A value that is pushed as a literal is made, and of no others. -/
theorem pushLiteral_moves {v : Value} {type : FieldType}
    (hm : ∀ f : Fold, f.origin = .literal → f.value = v → Makes i [] [] f) :
    Yields (pushLiteral p v type) s t fun _ => Moves s p i t :=
  pushFold_moves Pops.nil (wrote_nil rfl) rfl rfl (hm _ rfl rfl)
    ⟨rfl, rfl, aged_refl [], rfl⟩ ⟨rfl, rfl⟩

/-- Every instruction makes a move. -/
theorem step_moves (i : Instruction) : Yields (step p i) s t fun _ => Moves s p i t := by
  unfold step
  split
  next c hc =>
    refine yields_bind ((constant_slots c).mono fun r u hu => ?_)
    -- The value of a constant has the slots of the constant.
    rcases hu with ⟨rfl, hslots⟩
    cases r with
    | ok v =>
        refine pushLiteral_moves fun f ho hv => Makes.literal hc ho ?_
        rw [hv]
        exact hslots v rfl
    | error _ => exact generic_moves _
  · split
    · exact pushLiteral_moves fun f ho hv => Makes.null ho hv
    · exact dup_moves
    · exact yields_modify ⟨[], Move.create, wrote_nil rfl⟩
    · exact checkCast_moves _
    · exact getStatic_moves _
    · exact getField_moves _
    · exact putStatic_moves _
    · exact invoke_moves _ _ _
    · exact invokeDynamic_moves _ _ _
    · exact generic_moves _

/-- What is done at a position, before a block may end there: an instruction makes a move, and a
    mark none. -/
def Advances (s : Subject) (p : Nat) (i : Instruction) (t t' : Tracker) : Prop :=
  (i.isPseudo = true ∧ Quiet t t') ∨ (i.isPseudo = false ∧ Moves s p i t t')

/-- Whether a block can end at an instruction or mark. -/
def canEnd (i : Instruction) : Bool :=
  i.isPseudo || endsBlock i

/-- An instruction makes a move and a mark none; then a block may end. -/
theorem advance_moves (i : Instruction) :
    Yields (advance p i) s t fun _ t' =>
      ∃ u, Advances s p i t u ∧ (t' = u ∨ (canEnd i = true ∧ Clears u t')) := by
  unfold advance
  split
  · refine yields_bind (yields_read ?_)
    split
    · exact endBlock_clears.mono fun _ u hu => ⟨t, Or.inl ⟨rfl, rfl, rfl⟩, Or.inr ⟨rfl, hu⟩⟩
    · exact yields_pure ⟨t, Or.inl ⟨rfl, rfl, rfl⟩, Or.inl rfl⟩
  · exact yields_pure ⟨t, Or.inl ⟨rfl, rfl, rfl⟩, Or.inl rfl⟩
  · exact yields_pure ⟨t, Or.inl ⟨rfl, rfl, rfl⟩, Or.inl rfl⟩
  next hlabel hline hframe =>
    -- Nothing is left but instructions.
    have hreal : i.isPseudo = false := by
      cases i with
      | label l => exact absurd rfl (hlabel l)
      | line n => exact absurd rfl (hline n)
      | frame f => exact absurd rfl (hframe f)
      | _ => rfl
    refine yields_bind ((step_moves i).mono fun _ u hu => ?_)
    split
    next hend =>
      have hcan : canEnd i = true := by rw [canEnd, hend, Bool.or_true]
      exact endBlock_clears.mono fun _ v hv => ⟨u, Or.inr ⟨hreal, hu⟩, Or.inr ⟨hcan, hv⟩⟩
    · exact yields_pure ⟨u, Or.inr ⟨hreal, hu⟩, Or.inl rfl⟩

end Steps

section Runs

variable (s : Subject) (t : Tracker) (env : Env) (m : Machine)

/-- The state of an analysis in front of a position. -/
def before : Nat → Tracker × Machine
  | 0 => ({ t with stack := [], replacements := #[] }, m)
  | k + 1 =>
      match s.code[k]? with
      | some i =>
          let r := advance k i s (before k).1 env (before k).2
          (r.1.2, r.2)
      | none => before k

/-- Following a body by one position. -/
theorem before_of_advance {k : Nat} {i : Instruction} {u v : Tracker} {m₁ m₂ : Machine}
    (hi : s.code[k]? = some i) (hk : before s t env m k = (u, m₁))
    (h : advance k i s u env m₁ = ((⟨⟩, v), m₂)) : before s t env m (k + 1) = (v, m₂) := by
  rw [before, hi, hk]
  dsimp only
  rw [h]

/-- What holds in front of the next position. -/
theorem before_succ {k : Nat} {i : Instruction} (hi : s.code[k]? = some i) :
    ∃ u, Advances s k i (before s t env m k).1 u ∧
      ((before s t env m (k + 1)).1 = u ∨
        (canEnd i = true ∧ Clears u (before s t env m (k + 1)).1)) := by
  have h := advance_moves (s := s) (t := (before s t env m k).1) (p := k) i env
    (before s t env m k).2
  have hnext : (before s t env m (k + 1)).1
      = (advance k i s (before s t env m k).1 env (before s t env m k).2).1.2 := by
    rw [before, hi]
  rw [hnext]
  exact h

/-- What holds in front of a position, and is kept by every mark, every move and the end of every
    block, holds in front of every later position. A move leads to the next position itself unless a
    block ends there. -/
theorem before_invariant_from {P : Nat → Tracker → Prop} {first : Nat}
    (hstart : P first (before s t env m first).1)
    (hmark : ∀ k u v, P k u → Quiet u v → P (k + 1) v)
    (hmove : ∀ k i v, s.code[k]? = some i → i.isPseudo = false →
      (canEnd i = false → (before s t env m (k + 1)).1 = v) → P k (before s t env m k).1 →
      Moves s k i (before s t env m k).1 v → P (k + 1) v)
    (hclear : ∀ k u v, P k u → Clears u v → P k v) {k : Nat} (hle : first ≤ k)
    (hk : k ≤ s.code.size) : P k (before s t env m k).1 := by
  induction k, hle using Nat.le_induction with
  | base => exact hstart
  | succ k _ ih =>
      have hlt : k < s.code.size := by omega
      have hi : s.code[k]? = some s.code[k] := Array.getElem?_eq_getElem hlt
      have hbefore := ih (by omega)
      rcases before_succ s t env m hi with ⟨u, hadvances, hend⟩
      have hu : P (k + 1) u := by
        -- The instruction is a mark or a move, and then a block may end.
        rcases hadvances with ⟨_, hquiet⟩ | ⟨hreal, hmoves⟩
        · exact hmark k _ u hbefore hquiet
        · refine hmove k _ u hi hreal (fun hcan => ?_) hbefore hmoves
          rcases hend with hend | ⟨hcan', _⟩
          · exact hend
          · rw [hcan'] at hcan
            cases hcan
      rcases hend with hend | ⟨_, hclears⟩
      · rw [hend]
        exact hu
      · exact hclear (k + 1) u _ hu hclears

/-- What holds at the start of a body, and is kept by every mark, every move and the end of every
    block, holds in front of every position. -/
theorem before_invariant {P : Nat → Tracker → Prop}
    (hstart : ∀ u, u.stack = [] → u.replacements = #[] → P 0 u)
    (hmark : ∀ k u v, P k u → Quiet u v → P (k + 1) v)
    (hmove : ∀ k i v, s.code[k]? = some i → i.isPseudo = false →
      (canEnd i = false → (before s t env m (k + 1)).1 = v) → P k (before s t env m k).1 →
      Moves s k i (before s t env m k).1 v → P (k + 1) v)
    (hclear : ∀ k u v, P k u → Clears u v → P k v) {k : Nat} (hk : k ≤ s.code.size) :
    P k (before s t env m k).1 :=
  before_invariant_from s t env m (hstart _ rfl rfl) hmark hmove hclear (Nat.zero_le k) hk

/-- Following the rest of a body from the state in front of a position leads to the state behind
    its last instruction. -/
theorem forM_advance_eq (l : List Instruction) (k : Nat) (hl : s.code.toList.drop k = l) :
    (((l.zipIdx k).forM fun (i, position) => advance position i) s (before s t env m k).1 env
        (before s t env m k).2)
      = ((⟨⟩, (before s t env m (k + l.length)).1), (before s t env m (k + l.length)).2) := by
  induction l generalizing k with
  | nil => rfl
  | cons i rest ih =>
      have hi : s.code[k]? = some i := by
        rw [← Array.getElem?_toList, ← List.head?_drop, hl]
        rfl
      have hrest : s.code.toList.drop (k + 1) = rest := by
        rw [← List.tail_drop, hl]
        rfl
      -- The state in front of the next position is what the step leaves.
      have hnext : before s t env m (k + 1)
          = ((advance k i s (before s t env m k).1 env (before s t env m k).2).1.2,
            (advance k i s (before s t env m k).1 env (before s t env m k).2).2) := by
        rw [before, hi]
      have hstep := ih (k + 1) hrest
      rw [hnext, Nat.add_assoc, Nat.add_comm 1] at hstep
      exact hstep

/-- Following a body ends with giving up all that is known behind its last instruction. -/
theorem followAll_eq :
    followAll s (before s t env m 0).1 env (before s t env m 0).2
      = endBlock s (before s t env m s.code.size).1 env (before s t env m s.code.size).2 := by
  have hrun := forM_advance_eq s t env m s.code.toList 0 rfl
  rw [Nat.zero_add, Array.length_toList] at hrun
  change ((do
    s.code.toList.zipIdx.forM fun (i, position) => advance position i
    endBlock : Analysis Unit) s _ env _) = _
  change (let r := (s.code.toList.zipIdx.forM fun (i, position) => advance position i) s _ env _
    endBlock s r.1.2 env r.2) = _
  rw [hrun]

/-- The replacements of a body are those behind its last instruction, after all that is still
    known there was given up. -/
theorem replacements_eq :
    ∃ t', Clears (before s t env m s.code.size).1 t' ∧
      (replacements s t env m).1.1 = t'.replacements.toList := by
  have hend := endBlock_clears (s := s) (t := (before s t env m s.code.size).1) env
    (before s t env m s.code.size).2
  refine ⟨_, hend, ?_⟩
  change (followAll s (before s t env m 0).1 env (before s t env m 0).2).1.2.replacements.toList = _
  rw [followAll_eq]

/-- If nothing is known behind the last instruction, the analysis ends there. -/
theorem replacements_of_before {u : Tracker} {m' : Machine}
    (h : before s t env m s.code.size = (u, m')) (hstack : u.stack = []) :
    replacements s t env m = ((u.replacements.toList, u), m') := by
  have hall := followAll_eq s t env m
  have hend : endBlock s u env m' = ((⟨⟩, u), m') := by
    rcases u with ⟨progress, runLog, passLog, stack, made⟩
    simp only at hstack
    subst hstack
    rfl
  rw [h, hend] at hall
  change (let r := followAll s (before s t env m 0).1 env (before s t env m 0).2
    ((r.1.2.replacements.toList, r.1.2), r.2)) = _
  rw [hall]

end Runs

end Analysis

end JvmFold
