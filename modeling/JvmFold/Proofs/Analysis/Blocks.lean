import JvmFold.Proofs.Analysis.Recorded

/-!
# Spans and the Ends of Blocks

Control can come to a label from elsewhere and go elsewhere from a jump, so
what is known on one side of them need not hold on the other. An analysis gives
everything up where a block starts or ends, and therefore no span that it
replaces reaches across such a position.

The invariant is that nothing breaks the code between the start of a value of
the stack and the position that was reached. A value that is made starts where
the first of its operands does, or where its object was made, and both are on
the stack at that time; so the invariant carries over. The values that it was
made from ended in front of it, and the invariant held of them then.

One kind of value is on the stack for a moment too long. An instruction that
loads a constant pushes it even if it ends a block at the same time, as odd
code may have it, and the value is given up across the end of the block. But a
value that an instruction loads is never replaced, so nothing comes of it.

## Main definitions

* `Instruction.isTransfer`: Jumps, switches, returns, `athrow` and `ret`.
* `Subject.breaks`: An instruction or mark at which a block starts or ends.
* `Subject.Unbroken`: No block starts or ends between two positions.
* `Fold.Whole`: A value whose span is unbroken, with all values it was made from.
* `InBlock`: The state of an analysis in front of a position.
* `FramedCast.body`: A cast with a label and a frame in front of it.

## Theorems

* `Analysis.advance_breaks`: Nothing is kept at a position that breaks the code.
* `Move.reaches`: A move keeps what is known in its block.
* `InBlock.advances`, `InBlock.ends`: So does what comes of a position, and the end of a block.
* `before_inBlock`: The invariant holds in front of every position.
* `replacements_unbroken`: What is replaced is unbroken.
* `replacements_within_block`: No span has a label to come to or an instruction to go from.
-/

namespace JvmFold

/-- Whether the instruction leaves the code behind it: a jump, a switch, a return, `athrow` or
    `ret`. -/
def Instruction.isTransfer : Instruction → Bool
  | .jump _ _ | .tableSwitch _ _ _ _ | .lookupSwitch _ _ => true
  | i => i.opcode?.any fun op => op.isReturn || op == .athrow || op == .ret

/-- Wherever control leaves the code, a block ends. -/
theorem Instruction.endsBlock_of_isTransfer {i : Instruction} (h : i.isTransfer = true) :
    Analysis.endsBlock i = true := by
  have hop (op : Opcode) (hop : (op.isReturn || op == .athrow || op == .ret) = true) :
      op.isUnconditionalTransfer = true := by
    cases op <;> first | rfl | cases hop
  cases i with
  | jump op l | tableSwitch d low high l | lookupSwitch d l => rfl
  | _ =>
      unfold isTransfer at h
      unfold Analysis.endsBlock
      rw [Option.any_eq_true] at h ⊢
      exact h.imp fun op hmem => ⟨hmem.1, hop op hmem.2⟩

/-- No call leaves the code behind it. -/
theorem InvokeKind.ofOpcode?_of_transfer {op : Opcode} (h : op.isUnconditionalTransfer = true) :
    InvokeKind.ofOpcode? op = none := by
  cases op <;> first | rfl | cases h

namespace Subject

/-- Whether a block starts or ends at an instruction or mark: at a label that something refers to,
    or behind an instruction. -/
def breaks (s : Subject) : Instruction → Bool
  | .label l => s.referenced.contains l
  | i => Analysis.endsBlock i

/-- No block starts or ends at the positions from one to another, the latter excluded. -/
def Unbroken (s : Subject) (a b : Nat) : Prop :=
  ∀ p i, a ≤ p → p < b → s.code[p]? = some i → s.breaks i = false

section Unbroken

variable {s : Subject} {a b c p : Nat} {i : Instruction}

/-- What breaks nothing can be added. -/
theorem Unbroken.succ (h : s.Unbroken a p) (hi : s.code[p]? = some i) (hb : s.breaks i = false) :
    s.Unbroken a (p + 1) := by
  intro q j ha hq hj
  by_cases hlt : q < p
  · exact h q j ha hlt hj
  · have heq : q = p := by omega
    subst heq
    rw [hi] at hj
    cases hj
    exact hb

theorem unbroken_self (s : Subject) (p : Nat) : s.Unbroken p p :=
  fun _ _ hle hlt _ => absurd hle (Nat.not_le.2 hlt)

end Unbroken

end Subject

/-- The parts of some values are those of each. -/
theorem Fold.mem_partsAll {f : Fold} {l : List Fold} :
    f ∈ Fold.partsAll l ↔ ∃ g ∈ l, f ∈ g.parts := by
  induction l with
  | nil => simp [Fold.partsAll]
  | cons g rest ih => simp [Fold.partsAll, ih]

/-- The spans of a value and of all values that it was made from are unbroken. -/
def Fold.Whole (s : Subject) (f : Fold) : Prop :=
  ∀ g ∈ f.parts, s.Unbroken g.start (g.stop + 1)

section Whole

variable {s : Subject} {f : Fold} {fs : List Fold} {start p : Nat}

/-- Whether a value is stale makes no difference to its spans. -/
theorem Fold.Whole.stale (h : f.Whole s) (stale : Bool) : ({ f with stale } : Fold).Whole s := by
  intro g hg
  rw [Fold.parts_eq] at hg
  rcases List.mem_cons.1 hg with rfl | hg
  · exact h f f.mem_parts
  · refine h g ?_
    rw [f.parts_eq]
    exact List.mem_cons_of_mem f hg

/-- A value that is made is as unbroken as its own span and its operands are. -/
theorem Spans.whole (hf : Spans start p fs f) (hspan : s.Unbroken start (p + 1))
    (hfs : ∀ g ∈ fs, g.Whole s) : f.Whole s := by
  intro g hg
  rw [f.parts_eq] at hg
  rcases List.mem_cons.1 hg with rfl | hg
  · rw [hf.start_eq, hf.stop_eq]
    exact hspan
  · rcases Fold.mem_partsAll.1 hg with ⟨child, hchild, hg⟩
    rcases hf.children_eq with ⟨stale, -, hstale⟩
    rw [hstale, List.mem_map] at hchild
    rcases hchild with ⟨operand, hoperand, rfl⟩
    exact (hfs operand hoperand).stale _ g hg

/-- What is given up of whole values replaces unbroken spans. -/
theorem Replacement.Replaces.unbroken {r : Replacement} (h : r.Replaces fs)
    (hfs : ∀ g ∈ fs, g.Whole s) : s.Unbroken r.start (r.stop + 1) := by
  rcases h with ⟨f, hf, -, hstart, hstop⟩
  rcases Fold.mem_partsAll.1 hf with ⟨g, hg, hf⟩
  rw [hstart, hstop]
  exact hfs g hg f hf

end Whole

namespace Analysis

/-- All of the stack is given up, and nothing comes of what an instruction loads. -/
def Ends (t t' : Tracker) : Prop :=
  t'.stack = [] ∧
    ∃ lost, (∀ f ∈ lost, f ∈ knownIn t.stack ∧ f.origin ≠ .literal) ∧ Wrote t lost t'

section Steps

variable {s : Subject} {t : Tracker} {p : Nat}

/-- Dropping values gives up the ones that were made, and leaves the stack alone. -/
theorem forM_discard_made (l : List Slot) :
    Yields (l.forM discard) s t fun _ t' => t'.stack = t.stack ∧
      ∃ lost, (∀ f ∈ lost, f ∈ knownIn l ∧ f.origin ≠ .literal) ∧ Wrote t lost t' := by
  induction l generalizing t with
  | nil => exact yields_pure ⟨rfl, [], nofun, wrote_nil rfl⟩
  | cons slot rest ih =>
      -- A slot gives up at most the value that it holds, and that only if no instruction loads it.
      have hslot : Yields (discard slot) s t fun _ t' => t'.stack = t.stack ∧
          ∃ lost, (∀ f ∈ lost, f ∈ knownIn [slot] ∧ f.origin ≠ .literal) ∧ Wrote t lost t' := by
        by_cases hliteral : ∃ f, slot = .known f ∧ f.origin = .literal
        · rcases hliteral with ⟨f, rfl, horigin⟩
          change Yields (flush f) s t _
          rw [flush_literal f horigin]
          exact yields_pure ⟨rfl, [], nofun, wrote_nil rfl⟩
        · refine (discard_released slot).mono fun _ u hu => ⟨hu.1, _, fun f hf => ⟨hf, ?_⟩, hu.2⟩
          intro horigin
          rcases List.mem_singleton.1 (mem_knownIn.1 hf) with rfl
          exact hliteral ⟨f, rfl, horigin⟩
      change Yields (discard slot >>= fun _ => rest.forM discard) s t _
      refine yields_bind (hslot.mono fun _ u hu => ih.mono fun _ v hv => ?_)
      rcases hu with ⟨hstack, lost, hlost, hwrote⟩
      rcases hv with ⟨hstack', lost', hlost', hwrote'⟩
      refine ⟨hstack'.trans hstack, lost ++ lost', fun f hf => ?_, hwrote.trans hwrote'⟩
      have hcons : knownIn (slot :: rest) = knownIn [slot] ++ knownIn rest :=
        knownIn_append [slot] rest
      rw [hcons, List.mem_append]
      rcases List.mem_append.1 hf with hf | hf
      · exact ⟨Or.inl (hlost f hf).1, (hlost f hf).2⟩
      · exact ⟨Or.inr (hlost' f hf).1, (hlost' f hf).2⟩

/-- The end of a block gives everything up. -/
theorem endBlock_ends : Yields endBlock s t fun _ => Ends t := by
  refine yields_bind (yields_get (yields_bind (yields_modify ?_)))
  refine (forM_discard_made t.stack.reverse).mono fun _ u hu => ?_
  rcases hu with ⟨hstack, lost, hlost, hwrote⟩
  refine ⟨hstack, lost, fun f hf => ⟨?_, (hlost f hf).2⟩, hwrote.of_replacements rfl⟩
  exact mem_knownIn.2 (List.mem_reverse.1 (mem_knownIn.1 (hlost f hf).1))

/-- An instruction makes a move and a mark none; then all is given up if a block starts or ends
    there, and only then. -/
theorem advance_breaks (i : Instruction) :
    Yields (advance p i) s t fun _ t' =>
      ∃ u, Advances s p i t u ∧ if s.breaks i then Ends u t' else t' = u := by
  unfold advance
  split
  next l =>
    refine yields_bind (yields_read ?_)
    change Yields (if s.referenced.contains l then endBlock else pure ⟨⟩) s t fun _ t' =>
      ∃ u, Advances s p (.label l) t u ∧ if s.referenced.contains l then Ends u t' else t' = u
    split
    · exact endBlock_ends.mono fun _ u hu => ⟨t, Or.inl ⟨rfl, rfl, rfl⟩, hu⟩
    · exact yields_pure ⟨t, Or.inl ⟨rfl, rfl, rfl⟩, rfl⟩
  · exact yields_pure ⟨t, Or.inl ⟨rfl, rfl, rfl⟩, rfl⟩
  · exact yields_pure ⟨t, Or.inl ⟨rfl, rfl, rfl⟩, rfl⟩
  next hlabel hline hframe =>
    have hreal : i.isPseudo = false := by
      cases i with
      | label l => exact absurd rfl (hlabel l)
      | line n => exact absurd rfl (hline n)
      | frame f => exact absurd rfl (hframe f)
      | _ => rfl
    -- Labels are done with, and anything else breaks only by ending a block.
    have hbreaks : s.breaks i = endsBlock i := by
      cases i with
      | label l => exact absurd rfl (hlabel l)
      | _ => rfl
    refine yields_bind ((step_moves i).mono fun _ u hu => ?_)
    rw [hbreaks]
    split
    · exact endBlock_ends.mono fun _ v hv => ⟨u, Or.inr ⟨hreal, hu⟩, hv⟩
    · exact yields_pure ⟨u, Or.inr ⟨hreal, hu⟩, rfl⟩

end Steps

/-- What holds in front of the next position. -/
theorem before_breaks (s : Subject) (t : Tracker) (env : Env) (m : Machine) {k : Nat}
    {i : Instruction} (hi : s.code[k]? = some i) :
    ∃ u, Advances s k i (before s t env m k).1 u ∧
      if s.breaks i then Ends u (before s t env m (k + 1)).1
      else (before s t env m (k + 1)).1 = u := by
  have h := advance_breaks (s := s) (t := (before s t env m k).1) (p := k) i env
    (before s t env m k).2
  have hnext : (before s t env m (k + 1)).1
      = (advance k i s (before s t env m k).1 env (before s t env m k).2).1.2 := by
    rw [before, hi]
  rw [hnext]
  exact h

end Analysis

/-- What is known of a stack in front of a position was made in the block that the position is
    in. -/
structure Reaches (s : Subject) (p : Nat) (stack : List Slot) : Prop where
  values : ∀ f ∈ knownIn stack, f.Whole s ∧ s.Unbroken f.start p
  objects : ∀ u, .uninitialized u ∈ stack → s.Unbroken u.start p

section Reaches

variable {s : Subject} {p : Nat} {i : Instruction} {stack stack' rest : List Slot}
variable {lost fs : List Fold} {f : Fold}

theorem reaches_nil : Reaches s p [] :=
  ⟨nofun, nofun⟩

/-- An instruction that breaks nothing carries over what reaches it. -/
theorem Reaches.succ (h : Reaches s p stack) (hi : s.code[p]? = some i) (hb : s.breaks i = false) :
    Reaches s (p + 1) stack :=
  ⟨fun f hf => ⟨(h.values f hf).1, (h.values f hf).2.succ hi hb⟩,
    fun u hu => (h.objects u hu).succ hi hb⟩

theorem Reaches.drop (h : Reaches s p stack) (n : Nat) : Reaches s p (stack.drop n) :=
  ⟨fun f hf => h.values f (mem_knownIn.2 (List.mem_of_mem_drop (mem_knownIn.1 hf))),
    fun u hu => h.objects u (List.mem_of_mem_drop hu)⟩

/-- What is not known reaches every position. -/
theorem Reaches.unknowns (h : Reaches s p stack) (k : Nat) :
    Reaches s p (List.replicate k .unknown ++ stack) := by
  refine ⟨fun f hf => h.values f (by rwa [knownIn_unknowns] at hf), fun u hu => h.objects u ?_⟩
  rcases List.mem_append.1 hu with hu | hu
  · cases List.eq_of_mem_replicate hu
  · exact hu

/-- An object that is still uninitialized was so before another one was settled. -/
theorem mem_of_mem_settle {u v : Uninitialized}
    (h : .uninitialized v ∈ Analysis.settle u (.known f) .unknown stack) :
    .uninitialized v ∈ stack := by
  induction stack with
  | nil => exact h
  | cons slot rest ih =>
      cases slot with
      | uninitialized w =>
          rw [Analysis.settle] at h
          split at h
          · rcases List.mem_cons.1 h with h | h
            · cases h
            · -- Behind the first place of the object only its other places are taken out.
              rw [settle_unknown] at h
              exact List.mem_cons_of_mem _ (mem_of_mem_without h)
          · rcases List.mem_cons.1 h with h | h
            · exact h ▸ List.mem_cons_self
            · exact List.mem_cons_of_mem _ (ih h)
      | unknown | upper | known g =>
          rw [Analysis.settle] at h
          · rcases List.mem_cons.1 h with h | h
            · cases h
            · exact List.mem_cons_of_mem _ (ih h)
          · intro w hslot
            cases hslot

/-- A move keeps what is known in its block, unless a block ends there. -/
theorem Move.reaches (hm : Move s p i stack stack' lost) (h : Reaches s p stack)
    (hi : s.code[p]? = some i) (hb : s.breaks i = false) : Reaches s (p + 1) stack' := by
  -- One more position is put behind every span first, and then the move is looked at.
  have hself : s.Unbroken p (p + 1) := (s.unbroken_self p).succ hi hb
  have hnext : Reaches s (p + 1) stack := h.succ hi hb
  cases hm with
  | lose n k _ => exact (hnext.drop n).unknowns k
  | forget n u _ =>
      have hdrop := hnext.drop n
      rw [settle_unknown]
      refine ⟨fun f hf => hdrop.values f (by rwa [knownIn_without] at hf), fun v hv => ?_⟩
      exact hdrop.objects v (mem_of_mem_without hv)
  | @make _ ws _ rest fs f _ hpops _ hf =>
      have hmem {g : Fold} (hg : g ∈ fs ++ knownIn rest) : g ∈ knownIn stack :=
        hpops.operands_perm.mem_iff.1 hg
      -- A value starts with its first operand, and at its own instruction if it has none.
      have hstart : s.Unbroken ((fs.head?.map Fold.start).getD p) (p + 1) := by
        cases fs with
        | nil => exact hself
        | cons g _ => exact (hnext.values g (hmem List.mem_cons_self)).2
      have hwhole : f.Whole s := hf.whole hstart fun g hg =>
        (h.values g (hmem (List.mem_append_left _ hg))).1
      refine ⟨fun g hg => ?_, fun u hu => ?_⟩
      · rw [knownIn_onStack] at hg
        rcases List.mem_append.1 hg with hg | hg
        · rw [List.mem_singleton] at hg
          rw [hg, hf.start_eq]
          exact ⟨hwhole, hstart⟩
        · exact hnext.values g (hmem (List.mem_append_right _ hg))
      · exact hnext.objects u (hpops.mem_of_mem_rest (mem_onStack hu))
  | create =>
      refine ⟨hnext.values, fun u hu => ?_⟩
      rcases List.mem_cons.1 hu with hu | hu
      · cases hu
        exact hself
      · exact hnext.objects u hu
  | @copy u rest =>
      refine ⟨hnext.values, fun v hv => ?_⟩
      have hu := hnext.objects u List.mem_cons_self
      rcases List.mem_cons.1 hv with hv | hv
      · cases hv
        exact hu
      · rcases List.mem_cons.1 hv with hv | hv
        · cases hv
          exact hu
        · exact hnext.objects v (List.mem_cons_of_mem _ hv)
  | @build m isInterface type _ rest u fs f _ _ _ hpops _ hu hf =>
      have hperm := hpops.known_perm
      rw [List.filterMap_cons_none rfl, filterMap_known] at hperm
      have hmem {g : Fold} (hg : g ∈ fs ++ knownIn rest) : g ∈ knownIn stack :=
        hperm.mem_iff.1 hg
      -- A value that is built starts at the `new`, which the stack has kept.
      have hstart : s.Unbroken u.start (p + 1) :=
        hnext.objects u (hpops.mem_of_mem_rest (mem_of_holds hu))
      have hwhole : f.Whole s := hf.whole hstart fun g hg =>
        (h.values g (hmem (List.mem_append_left _ hg))).1
      refine ⟨fun g hg => ?_, fun v hv => ?_⟩
      · rcases List.mem_cons.1 ((knownIn_settle u f rest).subset hg) with rfl | hg
        · rw [hf.start_eq]
          exact ⟨hwhole, hstart⟩
        · exact hnext.values g (hmem (List.mem_append_right _ hg))
      · exact hnext.objects v (hpops.mem_of_mem_rest (mem_of_mem_settle hv))

/-- What a move gives up was on the stack. -/
theorem Move.mem_of_lost (hm : Move s p i stack stack' lost) (hf : f ∈ lost) :
    f ∈ knownIn stack := by
  have htake {n : Nat} (h : lost.Perm (knownIn (stack.take n))) : f ∈ knownIn stack :=
    mem_knownIn.2 (List.mem_of_mem_take (mem_knownIn.1 (h.mem_iff.1 hf)))
  cases hm with
  | lose _ _ h | forget _ _ h => exact htake h
  | _ => cases hf

/-- Behind an instruction that ends a block, the only value that is new is one that it loads. -/
theorem Makes.literal_of_endsBlock {ws : List Nat} (hm : Makes i ws fs f)
    (he : Analysis.endsBlock i = true) : f.origin = .literal := by
  cases hm with
  | literal _ ho _ | null ho _ => exact ho
  | @call op kind _ _ _ _ _ _ hk =>
      rw [InvokeKind.ofOpcode?_of_transfer he] at hk
      cases hk
  | _ => cases he

/-- An instruction that ends a block leaves no value on the stack but literals that it loads. -/
theorem Move.mem_of_endsBlock (hm : Move s p i stack stack' lost)
    (he : Analysis.endsBlock i = true) (hf : f ∈ knownIn stack') (ho : f.origin ≠ .literal) :
    f ∈ knownIn stack := by
  have hdrop {n : Nat} (h : f ∈ knownIn (stack.drop n)) : f ∈ knownIn stack :=
    mem_knownIn.2 (List.mem_of_mem_drop (mem_knownIn.1 h))
  cases hm with
  | lose n k _ =>
      rw [knownIn_unknowns] at hf
      exact hdrop hf
  | forget n u _ =>
      rw [settle_unknown, knownIn_without] at hf
      exact hdrop hf
  | make hmakes hpops _ _ =>
      rw [knownIn_onStack] at hf
      rcases List.mem_append.1 hf with hf | hf
      · rw [List.mem_singleton] at hf
        -- An instruction that ends a block makes no value but a constant.
        exact absurd (hf ▸ hmakes.literal_of_endsBlock he) ho
      · exact hpops.operands_perm.mem_iff.1 (List.mem_append_right _ hf)
  | create | copy => exact hf
  | build => cases he

end Reaches

/-- The state of an analysis in front of a position: all that is known was made in the block that
    the position is in, and what was decided replaces unbroken spans. -/
structure InBlock (s : Subject) (p : Nat) (t : Tracker) : Prop where
  reaches : Reaches s p t.stack
  decided : ∀ r ∈ t.replacements.toList, s.Unbroken r.start (r.stop + 1)

section InBlock

variable {s : Subject} {p : Nat} {i : Instruction} {t u t' : Tracker} {lost : List Fold}

/-- What was given up whole leaves replacements that are unbroken. -/
theorem Wrote.unbroken (hw : Wrote t lost t') (hlost : ∀ f ∈ lost, f.Whole s)
    (h : ∀ r ∈ t.replacements.toList, s.Unbroken r.start (r.stop + 1)) :
    ∀ r ∈ t'.replacements.toList, s.Unbroken r.start (r.stop + 1) := by
  rcases hw with ⟨new, -, hnew, heq⟩
  intro r hr
  rw [heq] at hr
  rcases List.mem_append.1 hr with hr | hr
  · exact h r hr
  · exact (hnew r hr).unbroken hlost

/-- The step over one instruction or mark leaves only replacements that are unbroken. -/
theorem InBlock.decided_of_advances (h : InBlock s p t) (ha : Analysis.Advances s p i t u) :
    ∀ r ∈ u.replacements.toList, s.Unbroken r.start (r.stop + 1) := by
  rcases ha with ⟨-, -, hsame⟩ | ⟨-, lost, hmove, hwrote⟩
  · rw [hsame]
    exact h.decided
  · exact hwrote.unbroken (fun f hf => (h.reaches.values f (hmove.mem_of_lost hf)).1) h.decided

/-- Where the code is not broken, all that is known can be kept. -/
theorem InBlock.advances (h : InBlock s p t) (ha : Analysis.Advances s p i t u)
    (hi : s.code[p]? = some i) (hb : s.breaks i = false) : InBlock s (p + 1) u := by
  refine ⟨?_, h.decided_of_advances ha⟩
  rcases ha with ⟨-, hstack, -⟩ | ⟨-, lost, hmove, -⟩
  · rw [hstack]
    exact h.reaches.succ hi hb
  · exact hmove.reaches h.reaches hi hb

/-- Where the code is broken, nothing is known any more. What was given up there was known in front
    of it. -/
theorem InBlock.ends (h : InBlock s p t) (ha : Analysis.Advances s p i t u)
    (hb : s.breaks i = true) (he : Analysis.Ends u t') : InBlock s (p + 1) t' := by
  rcases he with ⟨hstack, lost, hlost, hwrote⟩
  refine ⟨hstack ▸ reaches_nil, hwrote.unbroken (fun f hf => ?_) (h.decided_of_advances ha)⟩
  refine (h.reaches.values f ?_).1
  rcases ha with ⟨-, hsame, -⟩ | ⟨hreal, _, hmove, -⟩
  · exact hsame ▸ (hlost f hf).1
  · have hends : Analysis.endsBlock i = true := by
      cases i with
      | label l => cases hreal
      | _ => exact hb
    exact hmove.mem_of_endsBlock hends (hlost f hf).1 (hlost f hf).2

end InBlock

section Runs

variable (s : Subject) (t : Tracker) (env : Env) (m : Machine)

/-- The invariant holds in front of every position. -/
theorem before_inBlock {k : Nat} (hk : k ≤ s.code.size) :
    InBlock s k (Analysis.before s t env m k).1 := by
  induction k with
  | zero => exact ⟨reaches_nil, nofun⟩
  | succ k ih =>
      have hi : s.code[k]? = some s.code[k] := Array.getElem?_eq_getElem hk
      have hbefore := ih (Nat.le_of_succ_le hk)
      rcases Analysis.before_breaks s t env m hi with ⟨u, hadvances, hend⟩
      split at hend
      next hb =>
        exact hbefore.ends hadvances hb hend
      next hb =>
        rw [hend]
        exact hbefore.advances hadvances hi (Bool.eq_false_of_not_eq_true hb)

/-- What is replaced is unbroken. -/
theorem replacements_unbroken :
    ∀ r ∈ (Analysis.replacements s t env m).1.1, s.Unbroken r.start (r.stop + 1) := by
  rcases Analysis.replacements_eq s t env m with ⟨t', ⟨-, lost, hperm, hwrote⟩, heq⟩
  have hbefore := before_inBlock s t env m (Nat.le_refl _)
  rw [heq]
  exact hwrote.unbroken
    (fun f hf => (hbefore.reaches.values f (hperm.mem_iff.1 hf)).1) hbefore.decided

end Runs

/-- Where the code is unbroken, nothing refers to a label. -/
theorem Subject.Unbroken.not_referenced {config : Config} {pass : Nat} {owner : ClassFile}
    {method : Method} {b : Body} {a c p : Nat} {l : Label}
    (h : (Subject.ofBody config pass owner method b).Unbroken a c) (ha : a ≤ p) (hc : p < c)
    (hl : b.instructions[p]? = some (.label l)) : l ∉ b.referenced := by
  intro hmem
  have hbreaks := h p (.label l) ha hc (List.getElem?_toArray.trans hl)
  have hreferenced : (Std.HashSet.ofList b.referenced).contains l = true := by
    simpa using hmem
  exact absurd (hreferenced.symm.trans hbreaks) (by decide)

namespace FramedCast

def frame : Frame :=
  ⟨[], [.null]⟩

/-- The label in front of the cast is that of a frame, and nothing else refers to it. So no block
    starts there, and the cast is replaced together with the value that it passes on. The jump
    behind it goes to a label with a frame as well, and there a block starts. -/
def body : Body where
  maxStack := 1
  maxLocals := 0
  instructions :=
    [.simple .aconstNull, .label ⟨1⟩, .frame frame, .typed .checkcast "java/lang/String",
      .simple .pop, .jump .goto ⟨0⟩, .label ⟨0⟩, .frame ⟨[], []⟩, .simple .voidReturn]
  modified := false
  nextLabel := 2

def null : Fold :=
  { origin := .literal, start := 0, stop := 0, value := .null, type := .object objectClass }

def cast : Fold :=
  { origin := .cast, start := 0, stop := 3, value := .null, type := .object "java/lang/String",
    children := [null] }

def span : Replacement :=
  ⟨0, 3, [.simple .aconstNull], 1⟩

section Run

variable (config : Config) (pass : Nat) (owner : ClassFile) (method : Method)
variable (t : Tracker) (env : Env) (m : Machine)

def subject : Subject :=
  .ofBody config pass owner method body

/-- A label that nothing refers to changes nothing. -/
theorem label_gives {p : Nat} {l : Label} (stack : List Slot) (hl : l ∉ body.referenced) :
    Analysis.Gives (Analysis.advance p (.label l)) (subject config pass owner method)
      { t with stack } env m ⟨⟩ { t with stack } := by
  refine Analysis.gives_bind (a := subject config pass owner method) rfl ?_
  have hfree : (subject config pass owner method).referenced.contains l = false := by
    simpa [subject, Subject.ofBody] using hl
  rw [hfree]
  rfl

/-- Where a block starts behind a jump, nothing is left to give up. -/
theorem block_gives {p : Nat} {l : Label} (hl : l ∈ body.referenced) (t : Tracker)
    (ht : t.stack = []) :
    Analysis.Gives (Analysis.advance p (.label l)) (subject config pass owner method) t env m ⟨⟩
      t := by
  refine Analysis.gives_bind (a := subject config pass owner method) rfl ?_
  have hblock : (subject config pass owner method).referenced.contains l = true := by
    simpa [subject, Subject.ofBody] using hl
  rcases t with ⟨progress, runLog, passLog, stack, replacements⟩
  simp only at ht
  subst ht
  rw [hblock]
  rfl

/-- The cast passes on the value behind it. -/
theorem checkcast_gives :
    Analysis.Gives (Analysis.advance 3 (.typed .checkcast "java/lang/String"))
      (subject config pass owner method) { t with stack := [.known null] } env m ⟨⟩
      { t with stack := [.known cast] } := by
  refine Analysis.gives_bind (a := ⟨⟩) (u := { t with stack := [.known cast] }) ?_ rfl
  refine Analysis.gives_bind (a := subject config pass owner method) rfl ?_
  refine Analysis.gives_bind (a := Operand.known null) (u := { t with stack := [] }) rfl ?_
  refine Analysis.gives_bind (a := m.heap) rfl ?_
  have hnext : (subject config pass owner method).nextReal 1 = 3 := by
    iterate 3 rw [Subject.nextReal]
    rfl
  rw [if_pos (by simp [Analysis.passesCast, Subject.isContiguous, hnext, null])]
  rfl

/-- The `pop` gives the cast up. -/
theorem replacements_eq :
    (Analysis.replacements (.ofBody config pass owner method body) t env m).1.1 = [span] := by
  rw [show Subject.ofBody config pass owner method body = subject config pass owner method from rfl]
  -- The label of the frame is not referred to, so the constant stays on the stack over it.
  have hmarked := Analysis.before_of_advance (subject config pass owner method) t env m (k := 1)
    rfl rfl (label_gives config pass owner method { t with replacements := #[] } env m
      [.known null] (by decide))
  have hframe : Analysis.Gives (Analysis.advance 2 (.frame frame))
      (subject config pass owner method) { t with stack := [.known null], replacements := #[] }
      env m ⟨⟩ { t with stack := [.known null], replacements := #[] } := rfl
  have hframed := Analysis.before_of_advance _ _ _ _ (k := 2) rfl hmarked hframe
  have hcast := Analysis.before_of_advance _ _ _ _ (k := 3) rfl hframed
    (checkcast_gives config pass owner method { t with replacements := #[] } env m)
  -- The `pop` gives the cast up, and it is written back.
  have hpops : ∃ passLog, Analysis.Gives (Analysis.advance 4 (.simple .pop))
      (subject config pass owner method) { t with stack := [.known cast], replacements := #[] }
      env m ⟨⟩ { t with stack := [], replacements := #[span], passLog } := ⟨_, rfl⟩
  rcases hpops with ⟨passLog, hpop⟩
  have hpopped := Analysis.before_of_advance _ _ _ _ (k := 4) rfl hcast hpop
  generalize hlast : ({ t with stack := [], replacements := #[span], passLog } : Tracker) = last
    at hpopped
  have hstack : last.stack = [] := hlast ▸ rfl
  have hspan : last.replacements = #[span] := hlast ▸ rfl
  -- Behind that there is nothing on the stack, and the rest writes nothing.
  have hquiet (i : Instruction)
      (hi : i = .jump .goto ⟨0⟩ ∨ i = .frame ⟨[], []⟩ ∨ i = .simple .voidReturn) (p : Nat) :
      Analysis.Gives (Analysis.advance p i) (subject config pass owner method) last env m ⟨⟩
        last := by
    rw [← hlast]
    rcases hi with rfl | rfl | rfl <;> rfl
  have hjumped := Analysis.before_of_advance _ _ _ _ (k := 5) rfl hpopped
    (hquiet _ (.inl rfl) 5)
  have hblock := Analysis.before_of_advance _ _ _ _ (k := 6) rfl hjumped
    (block_gives config pass owner method env m (by decide) last hstack)
  have hnamed := Analysis.before_of_advance _ _ _ _ (k := 7) rfl hblock
    (hquiet _ (.inr (.inl rfl)) 7)
  have hend := Analysis.before_of_advance _ _ _ _ (k := 8) rfl hnamed
    (hquiet _ (.inr (.inr rfl)) 8)
  rw [Analysis.replacements_of_before _ _ _ _ hend hstack]
  exact congrArg Array.toList hspan

end Run

/-- A method with the body. -/
def method : Method where
  access := ⟨9⟩
  name := "run"
  descriptor := "()V"
  body := some body

/-- A class with the method. -/
def owner : ClassFile where
  name := "demo/Cast"
  methods := [method]

/-- A program in which nothing is constant by itself. -/
def config : Config :=
  ⟨∅, ∅, ∅, ∅, false, none, {}, {}⟩

end FramedCast

/-- No span that is replaced reaches across the start or the end of a block: behind its first
    instruction there is no label in it that a branch or a handler refers to, or an uninitialized
    entry of a frame, and nowhere in it a jump, a switch, a return, `athrow` or `ret`. The label
    that gives a frame its place is not among these, unless something else refers to it. -/
theorem replacements_within_block (config : Config) (pass : Nat) (owner : ClassFile)
    (method : Method) (b : Body) (t : Tracker) (env : Env) (m : Machine) {r : Replacement}
    (hr : r ∈ (Analysis.replacements (.ofBody config pass owner method b) t env m).1.1) :
    (∀ p l, r.start < p → p ≤ r.stop → b.instructions[p]? = some (.label l) →
      l ∉ b.referenced) ∧
    ∀ p i, r.start ≤ p → p ≤ r.stop → b.instructions[p]? = some i → i.isTransfer = false := by
  have hspan := replacements_unbroken (.ofBody config pass owner method b) t env m r hr
  refine ⟨fun p l hp hle hl => ?_, fun p i hp hle hi => ?_⟩
  · exact hspan.not_referenced (Nat.le_of_lt hp) (Nat.lt_succ_of_le hle) hl
  · have hbreaks := hspan p i hp (Nat.lt_succ_of_le hle) (List.getElem?_toArray.trans hi)
    cases htransfer : i.isTransfer with
    | false => rfl
    | true =>
        -- A transfer ends a block, and a span is unbroken.
        have hends := Instruction.endsBlock_of_isTransfer htransfer
        have hsame : (Subject.ofBody config pass owner method b).breaks i
            = Analysis.endsBlock i := by
          cases i with
          | label l => cases htransfer
          | _ => rfl
        exact absurd (hends.symm.trans (hsame.symm.trans hbreaks)) (by decide)

open FramedCast in
/-- A span that holds a label and a frame. Nothing refers to the label. -/
theorem framedCast_within_block :
    span ∈ (Analysis.replacements (.ofBody config 1 owner method body) (Recorded.tracker ∅)
      Recorded.env Recorded.machine).1.1 ∧
    body.instructions[1]? = some (.label ⟨1⟩) ∧ ⟨1⟩ ∉ body.referenced ∧
    ∀ p i, span.start ≤ p → p ≤ span.stop → body.instructions[p]? = some i →
      i.isTransfer = false := by
  have hspan : span ∈ (Analysis.replacements (.ofBody config 1 owner method body)
      (Recorded.tracker ∅) Recorded.env Recorded.machine).1.1 := by
    rw [replacements_eq]
    exact List.mem_singleton_self span
  have hblock := replacements_within_block config 1 owner method body _ _ _ hspan
  exact ⟨hspan, rfl, hblock.1 1 ⟨1⟩ (by decide) (by decide) rfl, hblock.2⟩

end JvmFold
