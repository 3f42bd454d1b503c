import JvmFold.Proofs.Analysis.Frames
import JvmFold.Proofs.Evaluation.Dispatch
import JvmFold.Proofs.Rebuild.Fidelity

/-!
# What Becomes of the Operands of an Evaluation

An evaluation may change the objects that it is handed. If it gives a value,
the operands are parts of that value from then on, and those whose objects can
change are stale: they are never replaced, whatever becomes of the value. If it
fails, there is no such value. The operands are given up at once, in the state
that the evaluation left, and each one that can be written back there is. An
operand that was cast and cannot be written back is given up for what was cast,
which holds the same object.

Every value ends at an instruction of its own, so what has been replaced of a
value is told by where spans end. `ends` lists these ends for the values of a
stack and for all that they were made from, or only for those that are not
stale. A move adds the position of its instruction to the list and nothing
else, and what it gives up is gone from the list for good. Of a value and what it
was made from, giving up replaces at most one (`Exclusive`).

## Main definitions

* `Fold.ends`: The positions at which values end.
* `Separate`: No two values that are known end at the same position.
* `Exclusive`: At most one is replaced of two values of which one was made from the other.
* `Analysis.Rewrites`: Giving a value up replaces its span.
* `Analysis.Casts`: The values from one down to another that it was cast from.
* `Analysis.fallThrough`: Giving up such values until one is written back.

## Theorems

* `Move.ends_subperm`: A move adds the position of its instruction.
* `before_separate`: No two values that are known end at the same position.
* `mem_replacements_iff`: What ends no value that can be replaced is decided.
* `Analysis.value_not_replaced`: What a value was made from is replaced only if the value is not.
* `Analysis.operand_replaced_iff`: When an operand is replaced whose object can change.
-/

namespace JvmFold

namespace Fold

/-- The positions at which some of the values end, and some of those that they were made from. -/
def ends (among : Fold → Bool) (fs : List Fold) : List Nat :=
  ((partsAll fs).filter among).map Fold.stop

/-- All values. -/
def every : Fold → Bool :=
  fun _ => true

/-- The values that can be replaced themselves. -/
def isFresh (f : Fold) : Bool :=
  !f.stale

section Ends

variable {among : Fold → Bool} {f : Fold} {a b fs : List Fold} {n : Nat}

theorem mem_ends : n ∈ ends among fs ↔ ∃ f ∈ partsAll fs, among f = true ∧ f.stop = n := by
  rw [ends, List.mem_map]
  constructor
  · rintro ⟨f, hf, hn⟩
    rw [List.mem_filter] at hf
    exact ⟨f, hf.1, hf.2, hn⟩
  · rintro ⟨f, hf, hamong, hn⟩
    exact ⟨f, List.mem_filter.2 ⟨hf, hamong⟩, hn⟩

theorem ends_append : ends among (a ++ b) = ends among a ++ ends among b := by
  rw [ends, partsAll_append, List.filter_append, List.map_append]
  rfl

theorem ends_perm (h : a.Perm b) : (ends among a).Perm (ends among b) :=
  ((partsAll_perm h).filter _).map _

theorem ends_sublist (h : a.Sublist b) : (ends among a).Sublist (ends among b) := by
  refine (List.Sublist.filter _ ?_).map _
  induction h with
  | slnil => exact List.Sublist.refl _
  | cons f _ ih => exact ih.trans (List.sublist_append_right _ _)
  | cons_cons f _ ih => exact List.Sublist.append (List.Sublist.refl _) ih

theorem ends_subperm (h : a.Subperm b) : (ends among a).Subperm (ends among b) := by
  rcases h with ⟨l, hperm, hsub⟩
  exact ⟨ends among l, ends_perm hperm, ends_sublist hsub⟩

/-- A value ends where its span does, and those that it was made from end in front of that. -/
theorem ends_cons_sublist :
    (ends among (f :: fs)).Sublist (f.stop :: (ends among f.children ++ ends among fs)) := by
  rw [ends, partsAll_cons, List.filter_cons]
  split
  · rw [List.map_cons, List.filter_append, List.map_append]
    exact List.Sublist.refl _
  · rw [List.filter_append, List.map_append]
    exact List.sublist_cons_self _ _

/-- A condition that a value meets if it meets it when it is stale. -/
def Lasting (among : Fold → Bool) : Prop :=
  ∀ (g : Fold) (stale : Bool), (g.stale = true → stale = true) →
    among { g with stale } = true → among g = true

theorem lasting_every : Lasting every :=
  fun _ _ _ _ => rfl

theorem lasting_isFresh : Lasting isFresh := by
  intro g stale hstale hfresh
  cases hg : g.stale with
  | false => rw [isFresh, hg]; rfl
  | true =>
      rw [isFresh, hstale hg] at hfresh
      cases hfresh

theorem ends_aged (hamong : Lasting among) (h : Aged a b) :
    (ends among b).Sublist (ends among a) := by
  rcases h with ⟨stale, hstale, rfl⟩
  induction a with
  | nil => exact List.Sublist.refl _
  | cons g rest ih =>
      -- A fold that has become stale ends only where it ended before.
      have hg : (ends among [{ g with stale := stale g }]).Sublist (ends among [g]) := by
        rw [ends, ends, partsAll, partsAll, partsAll, g.parts_eq,
          parts_eq { g with stale := stale g }]
        simp only [List.filter_cons, List.cons_append]
        split
        next haged =>
          rw [if_pos (hamong g _ (hstale g) haged)]
          exact List.Sublist.refl _
        · split
          · exact List.sublist_cons_self _ _
          · exact List.Sublist.refl _
      rw [List.map_cons, ← List.singleton_append, ← List.singleton_append (l := rest), ends_append,
        ends_append]
      exact hg.append ih

end Ends

end Fold

section Moves

variable {s : Subject} {p : Nat} {i : Instruction} {stack stack' rest : List Slot}
variable {among : Fold → Bool} {f : Fold} {fs lost : List Fold}

open Fold

/-- A value that is made adds the position of its instruction. -/
theorem Spans.ends_subperm {start : Nat} (hamong : Lasting among) (hf : Spans start p fs f)
    (hfs : (fs ++ knownIn rest).Perm (knownIn stack)) :
    (ends among (f :: knownIn rest)).Subperm (p :: ends among (knownIn stack)) := by
  have hcons :
      (ends among (f :: knownIn rest)).Sublist
        (f.stop :: (ends among f.children ++ ends among (knownIn rest))) :=
    ends_cons_sublist
  have haged :=
    (ends_aged hamong hf.children_eq).append (List.Sublist.refl (ends among (knownIn rest)))
  rw [← ends_append (a := fs)] at haged
  rw [← hf.stop_eq]
  refine hcons.subperm.trans (List.subperm_cons f.stop |>.2 ?_)
  exact haged.subperm.trans (ends_perm hfs).subperm

/-- A move adds the position of its instruction to the ends of values. What it gives up is not
    known behind it. -/
theorem Move.ends_subperm (hamong : Lasting among) (hm : Move s p i stack stack' lost) :
    (ends among lost ++ ends among (knownIn stack')).Subperm
      (p :: ends among (knownIn stack)) := by
  -- Giving slots up splits the values on the stack into those that are lost and those that stay.
  have hleft (n : Nat) (h : lost.Perm (knownIn (stack.take n))) :
      (ends among lost ++ ends among (knownIn (stack.drop n))).Subperm
        (p :: ends among (knownIn stack)) := by
    have hall := h.append_right (knownIn (stack.drop n))
    rw [← knownIn_append, List.take_append_drop] at hall
    rw [← ends_append]
    exact (ends_perm hall).subperm.trans (List.sublist_cons_self _ _).subperm
  cases hm with
  | lose n k hlost =>
      rw [knownIn_unknowns]
      exact hleft n hlost
  | forget n u hlost =>
      rw [settle_unknown, knownIn_without]
      exact hleft n hlost
  | make _ hpops _ hf =>
      rw [knownIn_onStack]
      exact hf.ends_subperm hamong hpops.operands_perm
  | create => exact (List.sublist_cons_self _ _).subperm
  | copy => exact (List.sublist_cons_self _ _).subperm
  | @build _ _ _ _ _ u _ _ _ _ _ hpops _ _ hf =>
      have hperm := hpops.known_perm
      rw [List.filterMap_cons_none rfl, filterMap_known] at hperm
      exact (ends_subperm (knownIn_settle u _ _)).trans (hf.ends_subperm hamong hperm)

/-- What a move puts on the stack is not stale. -/
theorem Move.fresh (hm : Move s p i stack stack' lost) (h : ∀ f ∈ knownIn stack, f.stale = false) :
    ∀ f ∈ knownIn stack', f.stale = false := by
  -- Whatever is dropped leaves the slots beneath it as they are.
  have hdrop (n : Nat) : ∀ f ∈ knownIn (stack.drop n), f.stale = false := fun f hf =>
    h f (mem_knownIn.2 (List.mem_of_mem_drop (mem_knownIn.1 hf)))
  cases hm with
  | lose n k _ =>
      rw [knownIn_unknowns]
      exact hdrop n
  | forget n u _ =>
      rw [settle_unknown, knownIn_without]
      exact hdrop n
  | make _ hpops _ hf =>
      rw [knownIn_onStack]
      refine List.forall_mem_cons.2 ⟨hf.stale_eq, fun f hmem => h f ?_⟩
      exact hpops.operands_perm.mem_iff.1 (List.mem_append_right _ hmem)
  | create => exact h
  | copy => exact h
  | @build _ _ _ _ _ u _ _ _ _ _ hpops _ _ hf =>
      intro f hmem
      rcases List.mem_cons.1 ((knownIn_settle u _ _).subset hmem) with rfl | hmem
      · exact hf.stale_eq
      · exact h f (hpops.known_perm.mem_iff.1 (List.mem_append_right _ hmem))

end Moves

open Fold

theorem Replacement.Replaces.stop_mem {fs : List Fold} {r : Replacement} (h : r.Replaces fs) :
    r.stop ∈ ends isFresh fs := by
  rcases h with ⟨f, hf, hstale, _, hstop⟩
  exact mem_ends.2 ⟨f, hf, by rw [isFresh, hstale]; rfl, hstop.symm⟩

theorem mem_ends_every {among : Fold → Bool} {fs : List Fold} {n : Nat}
    (h : n ∈ ends among fs) : n ∈ ends every fs := by
  rcases mem_ends.1 h with ⟨f, hf, _, hn⟩
  exact mem_ends.2 ⟨f, hf, rfl, hn⟩

/-- What is given up is replaced where one of its values ends that is not stale. -/
theorem Wrote.mem_iff {t t' : Tracker} {lost : List Fold} {r : Replacement} (hw : Wrote t lost t')
    (hr : r.stop ∉ ends isFresh lost) :
    r ∈ t'.replacements.toList ↔ r ∈ t.replacements.toList := by
  rcases hw with ⟨new, _, hnew, heq⟩
  rw [heq, List.mem_append]
  exact ⟨fun h => h.resolve_right fun hmem => hr (hnew r hmem).stop_mem, Or.inl⟩

/-- The state of an analysis in front of a position: no two values that are known end at the same
    position, none of them ends where a replacement does, and none on the stack is stale. -/
structure Separate (p : Nat) (t : Tracker) : Prop where
  nodup : (ends every (knownIn t.stack)).Nodup
  stop_lt : ∀ n ∈ ends every (knownIn t.stack), n < p
  decided : ∀ r ∈ t.replacements.toList, r.stop < p ∧ r.stop ∉ ends every (knownIn t.stack)
  fresh : ∀ f ∈ knownIn t.stack, f.stale = false

section Separate

variable {s : Subject} {p : Nat} {i : Instruction} {t t' : Tracker}

/-- No value ends at the position of a move in front of it, so what the move gives up and what it
    leaves end at positions of their own. -/
theorem Separate.nodup_of_move (h : Separate p t) {stack' : List Slot} {lost : List Fold}
    (hmove : Move s p i t.stack stack' lost) :
    (ends every lost ++ ends every (knownIn stack')).Nodup := by
  have hp : p ∉ ends every (knownIn t.stack) := fun hmem =>
    absurd (h.stop_lt p hmem) (Nat.lt_irrefl p)
  rcases hmove.ends_subperm lasting_every with ⟨l, hperm, hsublist⟩
  exact hperm.nodup_iff.1 ((List.nodup_cons.2 ⟨hp, h.nodup⟩).sublist hsublist)

theorem Separate.moves (h : Separate p t) (hm : Analysis.Moves s p i t t') :
    Separate (p + 1) t' := by
  rcases hm with ⟨lost, hmove, new, _, hnew, hr⟩
  have hsub := hmove.ends_subperm lasting_every
  have hnodup := h.nodup_of_move hmove
  have hle (n : Nat) (hn : n ∈ ends every lost ++ ends every (knownIn t'.stack)) : n < p + 1 := by
    rcases List.mem_cons.1 (hsub.subset hn) with rfl | hn
    · exact Nat.lt_succ_self n
    · exact Nat.lt_succ_of_lt (h.stop_lt n hn)
  rw [List.nodup_append'] at hnodup
  refine ⟨hnodup.2.1, fun n hn => hle n (List.mem_append_right _ hn), ?_, hmove.fresh h.fresh⟩
  rw [hr]
  intro r hmem
  -- A replacement was decided before, or stands for something that was lost just now.
  rcases List.mem_append.1 hmem with hmem | hmem
  · rcases h.decided r hmem with ⟨hlt, hnot⟩
    refine ⟨Nat.lt_succ_of_lt hlt, fun hend => ?_⟩
    rcases List.mem_cons.1 (hsub.subset (List.mem_append_right _ hend)) with heq | hend
    · omega
    · exact hnot hend
  · have hlost := mem_ends_every (hnew r hmem).stop_mem
    exact ⟨hle _ (List.mem_append_left _ hlost), hnodup.2.2 hlost⟩

theorem Separate.quiet (h : Separate p t) (hq : Analysis.Quiet t t') : Separate (p + 1) t' := by
  refine ⟨?_, ?_, ?_, ?_⟩ <;> rw [hq.1]
  · exact h.nodup
  · exact fun n hn => Nat.lt_succ_of_lt (h.stop_lt n hn)
  · rw [hq.2]
    exact fun r hr => ⟨Nat.lt_succ_of_lt (h.decided r hr).1, (h.decided r hr).2⟩
  · exact h.fresh

/-- At the end of a block nothing is known any more. -/
theorem Separate.clears (h : Separate p t) (hc : Analysis.Clears t t') : Separate p t' := by
  rcases hc with ⟨hstack, lost, hlost, new, _, hnew, hr⟩
  refine ⟨?_, ?_, ?_, ?_⟩ <;> rw [hstack]
  · exact List.nodup_nil
  · exact nofun
  · rw [hr]
    refine fun r hmem => ⟨?_, List.not_mem_nil⟩
    rcases List.mem_append.1 hmem with hmem | hmem
    · exact (h.decided r hmem).1
    · have hend := mem_ends_every (hnew r hmem).stop_mem
      exact h.stop_lt _ ((ends_perm hlost).mem_iff.1 hend)
  · exact nofun

end Separate

section Cons

variable {f : Fold} {fs : List Fold}

theorem ends_every_cons :
    ends every (f :: fs) = f.stop :: (ends every f.children ++ ends every fs) := by
  rw [ends, partsAll_cons, List.filter_cons_of_pos rfl, List.map_cons, List.filter_append,
    List.map_append]
  rfl

end Cons

namespace Fold

/-- The values that end at a position and were not made from any that ends at another one. -/
def isWithout (k n : Nat) (f : Fold) : Bool :=
  f.stop == k && !(ends every f.children).contains n

section Without

variable {k n : Nat} {f : Fold} {fs : List Fold}

theorem lasting_isWithout : Lasting (isWithout k n) :=
  fun _ _ _ h => h

theorem eq_of_mem_ends_isWithout {l : Nat} (h : l ∈ ends (isWithout k n) fs) : l = k := by
  rcases mem_ends.1 h with ⟨f, -, hwithout, rfl⟩
  rw [isWithout, Bool.and_eq_true] at hwithout
  exact beq_iff_eq.1 hwithout.1

theorem ends_children_subset (hf : f ∈ partsAll fs) : ends every f.children ⊆ ends every fs := by
  intro l hl
  rcases mem_ends.1 hl with ⟨g, hg, -, rfl⟩
  exact mem_ends.2 ⟨g, partsAll_children_subset fs hf hg, rfl, rfl⟩

/-- Among what a value that ends at the one position was made from, something ends at the other. -/
theorem mem_ends_children (h : ends (isWithout k n) fs = []) (hf : f ∈ partsAll fs)
    (hstop : f.stop = k) : n ∈ ends every f.children := by
  by_contra hn
  have hwithout : isWithout k n f = true := by
    rw [isWithout, hstop, beq_self_eq_true, Bool.true_and, Bool.not_eq_true', ← Bool.not_eq_true,
      List.contains_iff_mem]
    exact hn
  have hmem : k ∈ ends (isWithout k n) fs := mem_ends.2 ⟨f, hf, hwithout, hstop⟩
  rw [h] at hmem
  cases hmem

/-- If some value ends at the one position, some value ends at the other. -/
theorem mem_ends_of_within (h : ends (isWithout k n) fs = []) (hk : k ∈ ends every fs) :
    n ∈ ends every fs := by
  rcases mem_ends.1 hk with ⟨f, hf, -, hstop⟩
  exact ends_children_subset hf (mem_ends_children h hf hstop)

theorem within_append {a b : List Fold} (h : ends (isWithout k n) (a ++ b) = []) :
    ends (isWithout k n) a = [] ∧ ends (isWithout k n) b = [] := by
  rw [ends_append] at h
  exact List.append_eq_nil_iff.1 h

theorem within_children (h : ends (isWithout k n) [f] = []) :
    ends (isWithout k n) f.children = [] := by
  refine List.eq_nil_iff_forall_not_mem.2 fun l hl => ?_
  rcases mem_ends.1 hl with ⟨g, hg, hwithout, hstop⟩
  have hmem : l ∈ ends (isWithout k n) [f] :=
    mem_ends.2 ⟨g, partsAll_children_subset [f] (List.mem_append_left _ f.mem_parts) hg,
      hwithout, hstop⟩
  rw [h] at hmem
  cases hmem

end Without

theorem ends_every_map_aged (h : Heap) (l : List Fold) :
    ends every (l.map (Analysis.Fold.aged h)) = ends every l := by
  induction l with
  | nil => rfl
  | cons g rest ih =>
      rw [List.map_cons, ends_every_cons, ends_every_cons, ih]
      rfl

end Fold

theorem Emits.stop_mem {fs : List Fold} {new : List Replacement} (h : Emits fs new) :
    ∀ r ∈ new, r.stop ∈ ends every fs := by
  induction h with
  | nil => exact nofun
  | keep _ ih =>
      rw [ends_every_cons]
      exact fun r hr => List.mem_cons_of_mem _ (List.mem_append_right _ (ih r hr))
  | write code _ ih =>
      rw [ends_every_cons]
      intro r hr
      rcases List.mem_cons.1 hr with rfl | hr
      · exact List.mem_cons_self
      · exact List.mem_cons_of_mem _ (List.mem_append_right _ (ih r hr))
  | expand _ _ ihinner ih =>
      rw [ends_every_cons]
      intro r hr
      -- An expanded fold ends where its parts do.
      rcases List.mem_append.1 hr with hr | hr
      · exact List.mem_cons_of_mem _ (List.mem_append_left _ (ihinner r hr))
      · exact List.mem_cons_of_mem _ (List.mem_append_right _ (ih r hr))

/-- Of a value and one that it was made from only one is replaced when values are given up: either
    the value itself is, or it is given up for what it was made from. -/
theorem Emits.not_both {fs : List Fold} {new : List Replacement} {k n : Nat} (h : Emits fs new)
    (hnodup : (ends every fs).Nodup) (hwithin : ends (isWithout k n) fs = []) :
    (∃ r ∈ new, r.stop = k) → ∀ r ∈ new, r.stop ≠ n := by
  induction h with
  | nil => exact fun _ => nofun
  | @keep f rest new _ ih =>
      rw [ends_every_cons, List.nodup_cons, List.nodup_append'] at hnodup
      exact ih hnodup.2.2.1 (within_append (a := [f]) hwithin).2
  | @write f rest new code hrest ih =>
      rw [ends_every_cons, List.nodup_cons, List.mem_append, not_or] at hnodup
      rcases hnodup with ⟨⟨hchildren, hothers⟩, hnodup⟩
      rw [List.nodup_append'] at hnodup
      rcases within_append (a := [f]) hwithin with ⟨hself, hwithin⟩
      rintro ⟨r, hr, hk⟩ r' hr' hn
      rcases List.mem_cons.1 hr with rfl | hr
      · -- What the value was made from is gone with it, and ends nowhere else.
        have hin : n ∈ ends every f.children :=
          mem_ends_children hself (List.mem_append_left _ f.mem_parts) hk
        rcases List.mem_cons.1 hr' with rfl | hr'
        · have hself : f.stop = n := hn
          exact hchildren (hself ▸ hin)
        · exact hnodup.2.2 hin (hn ▸ hrest.stop_mem r' hr')
      · rcases List.mem_cons.1 hr' with rfl | hr'
        · have hself : f.stop = n := hn
          exact hothers (hself ▸ mem_ends_of_within hwithin (hk ▸ hrest.stop_mem r hr))
        · exact ih hnodup.2.1 hwithin ⟨r, hr, hk⟩ r' hr' hn
  | @expand f rest inner new hinner hrest ihinner ih =>
      rw [ends_every_cons, List.nodup_cons, List.nodup_append'] at hnodup
      rcases hnodup with ⟨-, hchildren, hothers, hdisjoint⟩
      rcases within_append (a := [f]) hwithin with ⟨hself, hwithin⟩
      have hself := within_children hself
      rintro ⟨r, hr, hk⟩ r' hr' hn
      rcases List.mem_append.1 hr with hr | hr
      · rcases List.mem_append.1 hr' with hr' | hr'
        · exact ihinner hchildren hself ⟨r, hr, hk⟩ r' hr' hn
        · exact hdisjoint (mem_ends_of_within hself (hk ▸ hinner.stop_mem r hr))
            (hn ▸ hrest.stop_mem r' hr')
      · rcases List.mem_append.1 hr' with hr' | hr'
        · exact hdisjoint (hn ▸ hinner.stop_mem r' hr')
            (mem_ends_of_within hwithin (hk ▸ hrest.stop_mem r hr))
        · exact ih hothers hwithin ⟨r, hr, hk⟩ r' hr' hn

/-- The state of an analysis in which at most one of two values is replaced, of which one was made
    from the other. The values are told by where they end. -/
structure Exclusive (k n : Nat) (t : Tracker) : Prop where
  within : ends (isWithout k n) (knownIn t.stack) = []
  upper : (∃ r ∈ t.replacements.toList, r.stop = k) →
    n ∉ ends every (knownIn t.stack) ∧ ∀ r ∈ t.replacements.toList, r.stop ≠ n
  lower : (∃ r ∈ t.replacements.toList, r.stop = n) → k ∉ ends every (knownIn t.stack)

theorem Exclusive.moves {s : Subject} {p k n : Nat} {i : Instruction} {t t' : Tracker}
    (h : Exclusive k n t) (hs : Separate p t) (hk : k < p) (hn : n < p)
    (hm : Analysis.Moves s p i t t') : Exclusive k n t' := by
  rcases hm with ⟨lost, hmove, new, hemits, hnew, hr⟩
  have hsub := hmove.ends_subperm lasting_every
  have hnodup := List.nodup_append'.1 (hs.nodup_of_move hmove)
  -- Neither value ends at the position of the move.
  have hold {l : Nat} (hl : l < p)
      (hmem : l ∈ ends every lost ∨ l ∈ ends every (knownIn t'.stack)) :
      l ∈ ends every (knownIn t.stack) := by
    rcases List.mem_cons.1 (hsub.subset (List.mem_append.2 hmem)) with heq | hmem
    · omega
    · exact hmem
  have hwithin := hmove.ends_subperm (lasting_isWithout (k := k) (n := n))
  rw [h.within] at hwithin
  have hnone : ends (isWithout k n) lost ++ ends (isWithout k n) (knownIn t'.stack) = [] := by
    refine List.eq_nil_iff_forall_not_mem.2 fun l hl => ?_
    have hp := List.mem_singleton.1 (hwithin.subset hl)
    rcases List.mem_append.1 hl with hl | hl
    · exact absurd (eq_of_mem_ends_isWithout hl) (by omega)
    · exact absurd (eq_of_mem_ends_isWithout hl) (by omega)
  rcases List.append_eq_nil_iff.1 hnone with ⟨hlost, hstack⟩
  refine ⟨hstack, ?_, ?_⟩ <;> rw [hr]
  · rintro ⟨r, hmem, hstop⟩
    rcases List.mem_append.1 hmem with hmem | hmem
    · rcases h.upper ⟨r, hmem, hstop⟩ with ⟨hnot, hothers⟩
      refine ⟨fun hin => hnot (hold hn (.inr hin)), List.forall_mem_append.2 ⟨hothers, ?_⟩⟩
      exact fun r' hr' heq => hnot (hold hn (.inl (heq ▸ hemits.stop_mem r' hr')))
    · have hin : n ∈ ends every lost :=
        mem_ends_of_within hlost (hstop ▸ hemits.stop_mem r hmem)
      refine ⟨fun hafter => hnodup.2.2 hin hafter, List.forall_mem_append.2 ⟨?_, ?_⟩⟩
      · exact fun r' hr' heq => (hs.decided r' hr').2 (heq ▸ hold hn (.inl hin))
      · exact hemits.not_both hnodup.1 hlost ⟨r, hmem, hstop⟩
  · rintro ⟨r, hmem, hstop⟩ hafter
    rcases List.mem_append.1 hmem with hmem | hmem
    · exact h.lower ⟨r, hmem, hstop⟩ (hold hk (.inr hafter))
    · exact hnodup.2.2 (hstop ▸ hemits.stop_mem r hmem) (mem_ends_of_within hstack hafter)

theorem Exclusive.quiet {k n : Nat} {t t' : Tracker} (h : Exclusive k n t)
    (hq : Analysis.Quiet t t') : Exclusive k n t' := by
  refine ⟨?_, ?_, ?_⟩ <;> rw [hq.1]
  · exact h.within
  · rw [hq.2]
    exact h.upper
  · rw [hq.2]
    exact h.lower

section Runs

variable (s : Subject) (t : Tracker) (env : Env) (m : Machine)

/-- No two values that are known end at the same position. -/
theorem before_separate {k : Nat} (hk : k ≤ s.code.size) :
    Separate k (Analysis.before s t env m k).1 := by
  refine Analysis.before_invariant s t env m (P := Separate) ?_ ?_ ?_ ?_ hk
  · intro u hstack hr
    refine ⟨?_, ?_, ?_, ?_⟩ <;> rw [hstack]
    · exact List.nodup_nil
    · exact nofun
    · rw [hr]
      exact nofun
    · exact nofun
  · exact fun k u v h hquiet => h.quiet hquiet
  · exact fun k i v _ _ _ h hmoves => h.moves hmoves
  · exact fun k u v h hclears => h.clears hclears

/-- Where no value ends that can be replaced, nothing is decided any more. -/
theorem mem_replacements_iff {first n : Nat} (hfirst : first ≤ s.code.size) (hn : n < first)
    (hend : n ∉ ends isFresh (knownIn (Analysis.before s t env m first).1.stack))
    {r : Replacement} (hr : r.stop = n) :
    r ∈ (Analysis.replacements s t env m).1.1 ↔
      r ∈ (Analysis.before s t env m first).1.replacements.toList := by
  have hrun := Analysis.before_invariant_from s t env m (k := s.code.size)
    (P := fun k u => n < k ∧ n ∉ ends isFresh (knownIn u.stack) ∧
      (r ∈ u.replacements.toList ↔
        r ∈ (Analysis.before s t env m first).1.replacements.toList))
    ⟨hn, hend, Iff.rfl⟩ ?_ ?_ ?_ hfirst (Nat.le_refl _)
  · -- Behind the last instruction what is left on the stack is given up, as at the end of a block.
    rcases Analysis.replacements_eq s t env m with ⟨t', ⟨_, lost, hlost, hwrote⟩, heq⟩
    rw [heq, hwrote.mem_iff, hrun.2.2]
    rw [hr, (ends_perm hlost).mem_iff]
    exact hrun.2.1
  · intro k u v h hquiet
    rw [hquiet.1, hquiet.2]
    exact ⟨Nat.lt_succ_of_lt h.1, h.2⟩
  · intro k i v _ _ _ h hmoves
    rcases hmoves with ⟨lost, hmove, hwrote⟩
    have hsub := hmove.ends_subperm lasting_isFresh
    have hnot : n ∉ ends isFresh lost ++ ends isFresh (knownIn v.stack) := fun hmem => by
      rcases List.mem_cons.1 (hsub.subset hmem) with heq | hmem
      · omega
      · exact h.2.1 hmem
    rw [List.mem_append, not_or] at hnot
    refine ⟨Nat.lt_succ_of_lt h.1, hnot.2, ?_⟩
    rw [hwrote.mem_iff (hr ▸ hnot.1)]
    exact h.2.2
  · intro k u v h hclears
    rcases hclears with ⟨hstack, lost, hlost, hwrote⟩
    refine ⟨h.1, by rw [hstack]; exact List.not_mem_nil, ?_⟩
    rw [hwrote.mem_iff, h.2.2]
    rw [hr, (ends_perm hlost).mem_iff]
    exact h.2.1

/-- If at most one of two values in front of a position can be replaced, at most one of them is. -/
theorem replacements_exclusive {p k n : Nat} (hp : p ≤ s.code.size) (hk : k < p) (hn : n < p)
    (h : Exclusive k n (Analysis.before s t env m p).1)
    (hr : ∃ r ∈ (Analysis.replacements s t env m).1.1, r.stop = n) :
    ∀ r ∈ (Analysis.replacements s t env m).1.1, r.stop ≠ k := by
  have hrun := Analysis.before_invariant_from s t env m (k := s.code.size)
    (P := fun q u => k < q ∧ n < q ∧ Separate q u ∧ Exclusive k n u)
    ⟨hk, hn, before_separate s t env m hp, h⟩ ?_ ?_ ?_ hp (Nat.le_refl _)
  · rcases hrun with ⟨hk, hn, hseparate, hexclusive⟩
    rcases Analysis.replacements_eq s t env m with ⟨t', hclears, heq⟩
    -- The end of the body moves like an instruction that does nothing.
    have hend : Exclusive k n t' :=
      hexclusive.moves (s := s) (i := .simple .nop) hseparate hk hn hclears.moves
    rw [heq] at hr ⊢
    intro r' hr' hstop
    rcases hr with ⟨r, hr, hn⟩
    exact (hend.upper ⟨r', hr', hstop⟩).2 r hr hn
  · rintro q u v ⟨hk, hn, hseparate, hexclusive⟩ hquiet
    exact ⟨Nat.lt_succ_of_lt hk, Nat.lt_succ_of_lt hn, hseparate.quiet hquiet,
      hexclusive.quiet hquiet⟩
  · rintro q i v - - - ⟨hk, hn, hseparate, hexclusive⟩ hmoves
    exact ⟨Nat.lt_succ_of_lt hk, Nat.lt_succ_of_lt hn, hseparate.moves hmoves,
      hexclusive.moves hseparate hk hn hmoves⟩
  · rintro q u v ⟨hk, hn, hseparate, hexclusive⟩ hclears
    exact ⟨hk, hn, hseparate.clears hclears,
      hexclusive.moves (s := s) (i := .simple .nop) hseparate hk hn hclears.moves⟩

end Runs

section Operands

variable {fs a b : List Fold} {f g : Fold} {n : Nat}

theorem ends_isFresh_stale (h : f.stale = true) :
    ends isFresh (f :: fs) = ends isFresh f.children ++ ends isFresh fs := by
  rw [ends, partsAll_cons, List.filter_cons_of_neg (by rw [isFresh, h]; exact Bool.false_ne_true),
    List.filter_append, List.map_append]
  rfl

theorem stop_mem_ends (h : g ∈ fs) : g.stop ∈ ends every fs := by
  rcases List.append_of_mem h with ⟨a, b, rfl⟩
  rw [ends_append, ends_every_cons]
  exact List.mem_append_right _ List.mem_cons_self

namespace Analysis

variable {s : Subject} {t : Tracker} {env : Env} {m : Machine}

/-- Giving a value up replaces its span: there is code for the value in this state, and the span is
    not that code yet. -/
def Rewrites (f : Fold) (s : Subject) (t : Tracker) (env : Env) (m : Machine) : Prop :=
  f.origin ≠ .literal ∧ (writeBack f s t env m).1.2.replacements ≠ t.replacements

/-- The values on the way from one value down to another that it was cast from, perhaps several
    times over. All of them hold the same object. -/
inductive Casts : Fold → List Fold → Fold → Prop where
  | refl (f : Fold) : Casts f [] f
  | cast {g h f : Fold} {path : List Fold} (horigin : g.origin = .cast) (hg : g.children = [h])
      (hrest : Casts h path f) : Casts g (g :: path) f

/-- Giving up values one after the other, each in place of the one before it, as long as none of
    them is written back. -/
def fallThrough : List Fold → Analysis Bool
  | [] => return true
  | g :: path => do
    let written ← if g.stale then pure false else writeBack g
    if written then return false else fallThrough path

theorem fallThrough_cons (g : Fold) (path : List Fold) :
    fallThrough (g :: path) =
      if g.stale then fallThrough path
      else writeBack g >>= fun written => if written then pure false else fallThrough path := by
  rw [fallThrough]
  cases g.stale <;> rfl

/-- A cast is given up for what was cast. -/
theorem flush_cast {h : Fold} (horigin : g.origin = .cast) (hchildren : g.children = [h]) :
    flush g =
      if g.stale then flush h
      else writeBack g >>= fun written => if written then pure ⟨⟩ else flush h := by
  have hliteral : g.origin ≠ .literal := by
    rw [horigin]
    exact nofun
  have hone : flushAll g.children = flush h := by
    rw [hchildren, flushAll, flushAll, bind_pure_unit]
  rw [flush_eq g hliteral, hone]
  cases g.stale <;> rfl

theorem Casts.stop_mem {path : List Fold} {f : Fold} (h : Casts g path f) :
    f.stop ∈ ends every [g] := by
  induction h with
  | refl f => exact stop_mem_ends List.mem_cons_self
  | cast _ hg _ ih =>
      rw [ends_every_cons, hg]
      exact List.mem_cons_of_mem _ (List.mem_append_left _ ih)

/-- The span of a value that is given up is replaced if the value could be written back, and not on
    behalf of a value that it was made from. -/
theorem flush_rewrites_iff (hstale : g.stale = false) (hchildren : g.stop ∉ ends every g.children)
    (hold : ∀ r ∈ t.replacements.toList, r.stop ≠ g.stop) (env : Env) (m : Machine) :
    (∃ r ∈ (flush g s t env m).1.2.replacements.toList, r.start = g.start ∧ r.stop = g.stop) ↔
      Rewrites g s t env m := by
  by_cases horigin : g.origin = .literal
  · rw [flush_literal g horigin]
    constructor
    · rintro ⟨r, hr, _, hstop⟩
      exact absurd hstop (hold r hr)
    · exact fun h => absurd horigin h.1
  · have hwrite := writeBack_decided (s := s) (t := t) g env m
    rw [flush_eq g horigin, hstale]
    simp only [Bool.false_eq_true, if_false]
    rw [bind_at, Rewrites]
    generalize writeBack g s t env m = found at hwrite
    rcases found with ⟨⟨written, u⟩, m'⟩
    rcases hwrite with ⟨⟨_, hdecided⟩, hquiet⟩
    dsimp only at hdecided hquiet ⊢
    -- What the children come to ends elsewhere.
    have hrest : ∀ r : Replacement, r.stop = g.stop →
        (r ∈ ((if written = true then pure ⟨⟩ else flushAll g.children : Analysis Unit) s u env
          m').1.2.replacements.toList ↔ r ∈ u.replacements.toList) := by
      intro r hr
      cases written with
      | true => exact Iff.rfl
      | false =>
          have hflush := flushAll_released (s := s) g.children u env m'
          refine hflush.2.mem_iff fun hmem => hchildren ?_
          rw [← hr]
          exact mem_ends_every hmem
    rcases hdecided with hsame | ⟨code, hpush⟩
    · constructor
      · rintro ⟨r, hr, _, hstop⟩
        rw [hrest r hstop, hsame] at hr
        exact absurd hstop (hold r hr)
      · exact fun h => absurd hsame h.2
    · constructor
      · -- The replacement was pushed, so the array has grown.
        refine fun _ => ⟨horigin, fun heq => ?_⟩
        have hsize := congrArg Array.size (hpush.symm.trans heq)
        rw [Array.size_push] at hsize
        omega
      · refine fun _ => ⟨⟨g.start, g.stop, code, g.value.slots⟩, ?_, rfl, rfl⟩
        rw [hrest _ rfl, hpush, Array.toList_push]
        exact List.mem_append_right _ List.mem_cons_self

/-- A value that is stale is only ever given up for those that it was made from. -/
theorem flush_stale (hstale : g.stale = true) (hchildren : g.stop ∉ ends every g.children)
    (hold : ∀ r ∈ t.replacements.toList, r.stop ≠ g.stop) (env : Env) (m : Machine) :
    ∀ r ∈ (flush g s t env m).1.2.replacements.toList, r.stop ≠ g.stop := by
  intro r hr hstop
  have hfresh : r.stop ∉ ends isFresh [g] := by
    rw [ends_isFresh_stale hstale, hstop]
    intro hmem
    rcases List.mem_append.1 hmem with hmem | hmem
    · exact hchildren (mem_ends_every hmem)
    · cases hmem
  exact hold r (((flush_released (s := s) g t env m).2.mem_iff hfresh).1 hr) hstop

/-- What was cast is given up for what it was cast from if it cannot be written back. So the span of
    the value at the end of a way down is replaced if no cast on the way could be written back, and
    the value itself could. -/
theorem flush_casts_iff {path : List Fold} {f : Fold} (hcasts : Casts g path f)
    (hnodup : (ends every [g]).Nodup) (hold : ∀ r ∈ t.replacements.toList, r.stop ≠ f.stop)
    (env : Env) (m : Machine) :
    (∃ r ∈ (flush g s t env m).1.2.replacements.toList, r.start = f.start ∧ r.stop = f.stop) ↔
      (fallThrough path s t env m).1.1 = true ∧ f.stale = false ∧
        Rewrites f s (fallThrough path s t env m).1.2 env (fallThrough path s t env m).2 := by
  induction hcasts generalizing t m with
  | refl f =>
      have hchildren : f.stop ∉ ends every f.children := by
        rw [ends_every_cons] at hnodup
        exact fun hmem => (List.nodup_cons.1 hnodup).1 (List.mem_append_left _ hmem)
      cases hstale : f.stale with
      | false =>
          rw [flush_rewrites_iff hstale hchildren hold env m]
          exact ⟨fun h => ⟨rfl, rfl, h⟩, fun h => h.2.2⟩
      | true =>
          refine ⟨?_, fun h => absurd h.2.1 Bool.true_eq_false.mp⟩
          rintro ⟨r, hr, -, hstop⟩
          exact absurd hstop (flush_stale hstale hchildren hold env m r hr)
  | @cast g h f path horigin hg hrest ih =>
      rw [ends_every_cons, hg, List.nodup_cons] at hnodup
      have hne : g.stop ≠ f.stop := fun heq =>
        hnodup.1 (List.mem_append_left _ (heq ▸ hrest.stop_mem))
      have hinner : (ends every [h]).Nodup := (List.nodup_append'.1 hnodup.2).1
      rw [flush_cast horigin hg, fallThrough_cons]
      cases g.stale with
      | true => exact ih hinner hold m
      | false =>
          simp only [Bool.false_eq_true, if_false]
          rw [bind_at, bind_at]
          have hwrite : ∀ r ∈ (writeBack g s t env m).1.2.replacements.toList,
              r.stop ≠ f.stop := by
            rcases (writeBack_decided (s := s) (t := t) g env m).1.2 with hsame | ⟨code, hpush⟩
            · exact hsame ▸ hold
            · rw [hpush, Array.toList_push]
              exact List.forall_mem_append.2 ⟨hold, List.forall_mem_singleton.2 hne⟩
          generalize writeBack g s t env m = found at hwrite
          rcases found with ⟨⟨written, u⟩, m'⟩
          cases written with
          | true =>
              refine ⟨?_, fun h => absurd h.1 Bool.false_ne_true⟩
              rintro ⟨r, hr, -, hstop⟩
              exact absurd hstop (hwrite r hr)
          | false => exact ih hinner hwrite m'

/-- The operands that are given up in front of one of them if the evaluation fails. -/
def releaseUpTo (p : Nat) (q : Request) (failure : Failure) (j : Nat) : Analysis Unit := do
  report p q.named failure
  flushAll (q.operands.take j)

theorem releaseUpTo_released (p : Nat) (q : Request) (failure : Failure) (j : Nat) :
    Yields (releaseUpTo p q failure j) s t fun _ => Released t (q.operands.take j) := by
  refine yields_bind ((report_quiet _ _ _).mono fun _ u hu => ?_)
  refine (flushAll_released _ u).mono fun _ v hv => ⟨hv.1.trans hu.1, ?_⟩
  exact hv.2.of_replacements hu.2

section Conclusions

variable {t₁ t₂ : Tracker} {m₁ m₂ : Machine} {i : Instruction} {k j : Nat} {q : Request}
variable {outcome : Except Failure (Member × Value)}

theorem before_succ_of_request (hi : s.code[k]? = some i)
    (hq : request? k i s (before s t env m k).1 env (before s t env m k).2 = ((some q, t₁), m₁))
    (he : evaluate q.start k q.evaluation s t₁ env m₁ = ((outcome, t₂), m₂)) :
    (before s t env m (k + 1)).1 = (conclude k q outcome s t₂ env m₂).1.2 := by
  rw [before, hi]
  dsimp only
  rw [advance_of_request hq, bind_at, he]

/-- An operand of an evaluation at a position, behind the evaluation: it and what it was made from
    end at positions of their own, in front of the evaluation, and are not replaced yet. -/
structure OperandAt (q : Request) (p j : Nat) (g : Fold) (t : Tracker) : Prop where
  split : q.operands = q.operands.take j ++ g :: q.operands.drop (j + 1)
  nodup : (ends every (q.operands ++ knownIn t.stack)).Nodup
  stop_lt : ∀ n ∈ ends every (q.operands ++ knownIn t.stack), n < p
  undecided : ∀ r ∈ t.replacements.toList,
    r.stop < p ∧ r.stop ∉ ends every (q.operands ++ knownIn t.stack)
  fresh : g.stale = false

theorem operandAt_of_request (hi : s.code[k]? = some i)
    (hq : request? k i s (before s t env m k).1 env (before s t env m k).2 = ((some q, t₁), m₁))
    (he : evaluate q.start k q.evaluation s t₁ env m₁ = ((outcome, t₂), m₂))
    (hg : q.operands[j]? = some g) : OperandAt q k j g t₂ := by
  have hk : k < s.code.size := (Array.getElem?_eq_some_iff.1 hi).1
  have hseparate := before_separate s t env m (Nat.le_of_lt hk)
  have htakes : q.Takes (before s t env m k).1 t₁ := by
    have h := request?_takes (s := s) (t := (before s t env m k).1) (p := k) i env
      (before s t env m k).2 q
    rw [hq] at h
    exact h rfl
  have hquiet : Quiet t₁ t₂ := by
    have h := evaluate_quiet (s := s) (t := t₁) q.start k q.evaluation env m₁
    rw [he] at h
    exact h
  have hsplit : q.operands = q.operands.take j ++ g :: q.operands.drop (j + 1) := by
    rcases List.getElem?_eq_some_iff.1 hg with ⟨hj, hget⟩
    rw [← hget, List.getElem_cons_drop, List.take_append_drop]
  have hmem : g ∈ knownIn (before s t env m k).1.stack :=
    htakes.operands.mem_iff.1 (List.mem_append_left _ (List.mem_of_getElem? hg))
  -- The operands were taken off the stack, and nothing else about the values has changed.
  have hends : (ends every (q.operands ++ knownIn t₂.stack)).Perm
      (ends every (knownIn (before s t env m k).1.stack)) := by
    rw [hquiet.1]
    exact ends_perm htakes.operands
  refine ⟨hsplit, hends.nodup_iff.2 hseparate.nodup,
    fun n hn => hseparate.stop_lt n (hends.mem_iff.1 hn), fun r hr => ?_, hseparate.fresh g hmem⟩
  rw [hquiet.2, htakes.replacements] at hr
  rcases hseparate.decided r hr with ⟨hlt, hnot⟩
  exact ⟨hlt, fun hend => hnot (hends.mem_iff.1 hend)⟩

section Operand

variable {n : Nat}

theorem OperandAt.mem (h : OperandAt q k j g t₂) (hn : n ∈ ends every [g]) :
    n ∈ ends every q.operands := by
  rw [h.split, ends_append, ← List.singleton_append, ends_append]
  exact List.mem_append_right _ (List.mem_append_left _ hn)

theorem OperandAt.lt (h : OperandAt q k j g t₂) (hn : n ∈ ends every [g]) : n < k :=
  h.stop_lt n (ends_append ▸ List.mem_append_left _ (h.mem hn))

theorem OperandAt.not_decided (h : OperandAt q k j g t₂) (hn : n ∈ ends every [g]) :
    ∀ r ∈ t₂.replacements.toList, r.stop ≠ n := by
  intro r hr hstop
  refine (h.undecided r hr).2 ?_
  rw [hstop, ends_append]
  exact List.mem_append_left _ (h.mem hn)

/-- Where an operand or a part of it ends, nothing else does. -/
theorem OperandAt.apart (h : OperandAt q k j g t₂) (hn : n ∈ ends every [g]) :
    n ∉ ends every (q.operands.take j) ∧ n ∉ ends every (q.operands.drop (j + 1)) ∧
      n ∉ ends every (knownIn t₂.stack) := by
  have hnodup := h.nodup
  rw [h.split, ← List.singleton_append, List.append_assoc, List.append_assoc, ends_append,
    ends_append (a := [g]), ends_append, List.nodup_append'] at hnodup
  rcases hnodup with ⟨-, hrest, hfront⟩
  rw [List.nodup_append'] at hrest
  refine ⟨fun hmem => hfront hmem (List.mem_append_left _ hn), fun hmem => ?_, fun hmem => ?_⟩
  · exact hrest.2.2 hn (List.mem_append_left _ hmem)
  · exact hrest.2.2 hn (List.mem_append_right _ hmem)

theorem OperandAt.nodup_self (h : OperandAt q k j g t₂) : (ends every [g]).Nodup := by
  have hsub : [g].Sublist (q.operands ++ knownIn t₂.stack) := by
    rw [h.split]
    exact (List.singleton_sublist.2 List.mem_cons_self).trans
      ((List.sublist_append_right _ _).trans (List.sublist_append_left _ _))
  exact h.nodup.sublist (ends_sublist hsub)

/-- A value is made of operands that become stale if their objects can change, and so the end of
    such an operand ends nothing that could be replaced any more. -/
theorem OperandAt.of_ok (h : OperandAt q k j g t₂) (r : Member × Value) (s : Subject) (env : Env)
    (hmutable : g.value.reference?.any (fun o => (m₂.heap.get o).isMutable) = true) :
    g.stop ∉ ends isFresh (knownIn (conclude k q (.ok r) s t₂ env m₂).1.2.stack) ∧
      (conclude k q (.ok r) s t₂ env m₂).1.2.replacements = t₂.replacements := by
  rcases r with ⟨method, value⟩
  have hput := put_known (s := s) (t := t₂)
    ⟨.call, q.start, k, value, q.type, some method, q.operands.map (Fold.aged m₂.heap), false⟩
    q.place env m₂
  change _ ∉ ends isFresh (knownIn (put _ q.place s t₂ env m₂).1.2.stack) ∧
    (put _ q.place s t₂ env m₂).1.2.replacements = _
  refine ⟨fun hmem => ?_, hput.1⟩
  have hself : g.stop ∈ ends every [g] := stop_mem_ends List.mem_cons_self
  rcases h.apart hself with ⟨hfront, hback, hstack⟩
  have hchildren : g.stop ∉ ends every g.children := by
    have hnodup := h.nodup_self
    rw [ends_every_cons, List.nodup_cons, List.mem_append, not_or] at hnodup
    exact hnodup.1.1
  have hlt : g.stop < k := h.lt hself
  have hstale : (Fold.aged m₂.heap g).stale = true := by
    simp only [Fold.aged, hmutable, Bool.or_true]
  have haged (l : List Fold) (hl : g.stop ∉ ends every l) :
      g.stop ∉ ends isFresh (l.map (Fold.aged m₂.heap)) := fun hend =>
    hl (mem_ends_every ((ends_aged lasting_isFresh (aged_map m₂.heap l)).subset hend))
  have hmade := ends_cons_sublist.subset ((ends_subperm hput.2).subset hmem)
  rw [h.split, List.map_append, List.map_cons, ends_append, ends_isFresh_stale hstale] at hmade
  simp only [List.mem_cons, List.mem_append] at hmade
  -- The end could belong to the new value, to one of the operands in it or to what is below.
  rcases hmade with heq | (hmem | hmem | hmem) | hmem
  · exact absurd heq (Nat.ne_of_lt hlt)
  · exact haged _ hfront hmem
  · exact hchildren (mem_ends_every hmem)
  · exact haged _ hback hmem
  · exact hstack (mem_ends_every hmem)

/-- A value that was made just now is the only one that ends where it does, and its operands are
    what it was made from. -/
theorem OperandAt.exclusive (h : OperandAt q k j g t₂) (hn : n ∈ ends every [g])
    (result : Member × Value) (s : Subject) (env : Env) (m₂ : Machine) :
    Exclusive k n (conclude k q (.ok result) s t₂ env m₂).1.2 := by
  rcases result with ⟨method, value⟩
  have hput := put_known (s := s) (t := t₂)
    ⟨.call, q.start, k, value, q.type, some method, q.operands.map (Fold.aged m₂.heap), false⟩
    q.place env m₂
  change Exclusive k n (put _ q.place s t₂ env m₂).1.2
  refine ⟨List.eq_nil_iff_forall_not_mem.2 fun l hl => ?_, ?_, ?_⟩
  · rcases mem_ends.1 ((ends_subperm hput.2).subset hl) with ⟨f, hf, hwithout, -⟩
    have hbelow (hend : f.stop ∈ ends every (q.operands ++ knownIn t₂.stack)) : False := by
      rw [isWithout, Bool.and_eq_true, beq_iff_eq] at hwithout
      exact absurd (h.stop_lt _ hend) (by omega)
    -- Only the new value ends at this position, and the operand is part of it.
    rw [partsAll_cons, List.mem_cons, List.mem_append] at hf
    rcases hf with rfl | hf | hf
    · rw [isWithout, ends_every_map_aged, List.contains_iff_mem.2 (h.mem hn), Bool.not_true,
        Bool.and_false] at hwithout
      cases hwithout
    · refine hbelow (ends_append ▸ List.mem_append_left _ ?_)
      rw [← ends_every_map_aged m₂.heap]
      exact mem_ends.2 ⟨f, hf, rfl, rfl⟩
    · exact hbelow (ends_append ▸ List.mem_append_right _ (mem_ends.2 ⟨f, hf, rfl, rfl⟩))
  · rintro ⟨r, hr, hstop⟩
    rw [hput.1] at hr
    exact absurd (h.undecided r hr).1 (by omega)
  · rintro ⟨r, hr, hstop⟩
    rw [hput.1] at hr
    exact absurd hstop (h.not_decided hn r hr)

/-- Operands that are given up are gone with all that they were made from, and what is replaced of
    one of them is what giving it up replaces. -/
theorem OperandAt.of_error (h : OperandAt q k j g t₂) (hn : n ∈ ends every [g])
    (failure : Failure) (s : Subject) (env : Env) (m₂ : Machine) :
    let front := releaseUpTo k q failure j s t₂ env m₂
    (∀ r ∈ front.1.2.replacements.toList, r.stop ≠ n) ∧
      n ∉ ends isFresh (knownIn (conclude k q (.error failure) s t₂ env m₂).1.2.stack) ∧
      ∀ r : Replacement, r.stop = n →
        (r ∈ (conclude k q (.error failure) s t₂ env m₂).1.2.replacements.toList ↔
          r ∈ (flush g s front.1.2 env front.2).1.2.replacements.toList) := by
  have hconclude : conclude k q (.error failure) = (do
      releaseUpTo k q failure j
      flush g
      flushAll (q.operands.drop (j + 1))
      leave q.place) := by
    have hflush : flushAll q.operands
        = flushAll (q.operands.take j) >>= fun _ => flushAll (g :: q.operands.drop (j + 1)) := by
      rw [← flushAll_append, ← h.split]
    change (report k q.named failure >>= fun _ => flushAll q.operands >>= fun _ =>
      leave q.place) = _
    rw [hflush, flushAll]
    rfl
  rcases h.apart hn with ⟨hapart, hbehind, hbelow⟩
  have hfront := releaseUpTo_released (s := s) (t := t₂) k q failure j env m₂
  rw [hconclude, bind_at]
  generalize releaseUpTo k q failure j s t₂ env m₂ = front at hfront ⊢
  rcases front with ⟨⟨_, u⟩, m₃⟩
  dsimp only
  rw [bind_at]
  have hself := flush_released (s := s) g u env m₃
  generalize flush g s u env m₃ = self at hself ⊢
  rcases self with ⟨⟨_, v⟩, m₄⟩
  dsimp only
  rw [bind_at]
  have hback := flushAll_released (s := s) (q.operands.drop (j + 1)) v env m₄
  generalize flushAll (q.operands.drop (j + 1)) s v env m₄ = back at hback ⊢
  rcases back with ⟨⟨_, w⟩, m₅⟩
  have hleave := leave_known (s := s) (t := w) q.place env m₅
  dsimp only at hself hback ⊢
  -- Giving values up leaves the stack alone, so only the place of the request changes.
  have hstack : w.stack = t₂.stack := hback.1.trans (hself.1.trans hfront.1)
  refine ⟨fun r hr hstop => ?_, ?_, fun r hr => ?_⟩
  · have hmem : r.stop ∉ ends isFresh (q.operands.take j) := fun hmem =>
      hapart (hstop ▸ mem_ends_every hmem)
    exact h.not_decided hn r ((hfront.2.mem_iff hmem).1 hr) hstop
  · rw [hleave.2, hstack]
    exact fun hmem => hbelow (mem_ends_every hmem)
  · rw [hleave.1]
    exact hback.2.mem_iff fun hmem => hbehind (hr ▸ mem_ends_every hmem)

/-- Behind the evaluation no value ends where the operand or a part of it does that could be
    replaced. So what is replaced there is what was replaced when the outcome was dealt with. -/
theorem OperandAt.replaced_iff (h : OperandAt q k j g t₂) (hi : s.code[k]? = some i)
    (hq : request? k i s (before s t env m k).1 env (before s t env m k).2 = ((some q, t₁), m₁))
    (he : evaluate q.start k q.evaluation s t₁ env m₁ = ((outcome, t₂), m₂))
    (hn : n ∈ ends every [g])
    (hgone : n ∉ ends isFresh (knownIn (conclude k q outcome s t₂ env m₂).1.2.stack))
    {r : Replacement} (hr : r.stop = n) :
    r ∈ (replacements s t env m).1.1 ↔
      r ∈ (conclude k q outcome s t₂ env m₂).1.2.replacements.toList := by
  have hk : k + 1 ≤ s.code.size := (Array.getElem?_eq_some_iff.1 hi).1
  rw [← before_succ_of_request hi hq he] at hgone ⊢
  exact mem_replacements_iff s t env m hk (Nat.lt_succ_of_lt (h.lt hn)) hgone hr

end Operand

/-- If an evaluation failed, its operands are replaced that could be written back. A cast that could
    not be is given up for what was cast. -/
theorem failed_operand_replaced_iff {failure : Failure} {path : List Fold} {f : Fold}
    (hi : s.code[k]? = some i)
    (hq : request? k i s (before s t env m k).1 env (before s t env m k).2 = ((some q, t₁), m₁))
    (he : evaluate q.start k q.evaluation s t₁ env m₁ = ((.error failure, t₂), m₂))
    (hg : q.operands[j]? = some g) (hcasts : Casts g path f) :
    let front := releaseUpTo k q failure j s t₂ env m₂
    let fallen := fallThrough path s front.1.2 env front.2
    (∃ r ∈ (replacements s t env m).1.1, r.start = f.start ∧ r.stop = f.stop) ↔
      fallen.1.1 = true ∧ f.stale = false ∧ Rewrites f s fallen.1.2 env fallen.2 := by
  have hoperand := operandAt_of_request hi hq he hg
  rcases hoperand.of_error hcasts.stop_mem failure s env m₂ with ⟨hold, hgone, hflush⟩
  intro front fallen
  rw [← flush_casts_iff hcasts hoperand.nodup_self hold env front.2]
  refine exists_congr fun r => and_congr_left fun hr => ?_
  exact (hoperand.replaced_iff hi hq he hcasts.stop_mem hgone hr.2).trans (hflush r hr.2)

/-- If an evaluation gave a value, what this was made from is replaced only if the value itself is
    not. -/
theorem value_not_replaced {result : Member × Value} (hi : s.code[k]? = some i)
    (hq : request? k i s (before s t env m k).1 env (before s t env m k).2 = ((some q, t₁), m₁))
    (he : evaluate q.start k q.evaluation s t₁ env m₁ = ((.ok result, t₂), m₂))
    (hg : q.operands[j]? = some g) {n : Nat} (hn : n ∈ ends every [g])
    (hr : ∃ r ∈ (replacements s t env m).1.1, r.stop = n) :
    ∀ r ∈ (replacements s t env m).1.1, r.stop ≠ k := by
  have hk : k + 1 ≤ s.code.size := (Array.getElem?_eq_some_iff.1 hi).1
  have hoperand := operandAt_of_request hi hq he hg
  refine replacements_exclusive s t env m hk (Nat.lt_succ_self k)
    (Nat.lt_succ_of_lt (hoperand.lt hn)) ?_ hr
  rw [before_succ_of_request hi hq he]
  exact hoperand.exclusive hn result s env m₂

/-- When an operand is replaced whose object can change. If the evaluation gave a value, it never
    is; if it failed, it is replaced exactly if it could be written back in the state that the
    evaluation left, after the operands in front of it were given up. What the operand was cast from
    holds the same object. If the evaluation failed, it is replaced exactly if none of the casts
    could be written back, and it could. If the evaluation gave a value, it is replaced only if this
    value is not. -/
theorem operand_replaced_iff (hi : s.code[k]? = some i)
    (hq : request? k i s (before s t env m k).1 env (before s t env m k).2 = ((some q, t₁), m₁))
    (he : evaluate q.start k q.evaluation s t₁ env m₁ = ((outcome, t₂), m₂))
    (hg : q.operands[j]? = some g)
    (hmutable : g.value.reference?.any (fun o => (m₂.heap.get o).isMutable) = true) :
    ((∃ r ∈ (replacements s t env m).1.1, r.start = g.start ∧ r.stop = g.stop) ↔
      ∃ failure, outcome = .error failure ∧
        Rewrites g s (releaseUpTo k q failure j s t₂ env m₂).1.2 env
          (releaseUpTo k q failure j s t₂ env m₂).2) ∧
    ∀ path f, Casts g path f →
      (∀ failure, outcome = .error failure →
        let front := releaseUpTo k q failure j s t₂ env m₂
        let fallen := fallThrough path s front.1.2 env front.2
        ((∃ r ∈ (replacements s t env m).1.1, r.start = f.start ∧ r.stop = f.stop) ↔
          fallen.1.1 = true ∧ f.stale = false ∧ Rewrites f s fallen.1.2 env fallen.2)) ∧
      ∀ result, outcome = .ok result →
        (∃ r ∈ (replacements s t env m).1.1, r.start = f.start ∧ r.stop = f.stop) →
          ∀ r ∈ (replacements s t env m).1.1, r.stop ≠ k := by
  have hoperand := operandAt_of_request hi hq he hg
  refine ⟨?_, fun path f hcasts => ⟨?_, ?_⟩⟩
  · cases outcome with
    | ok result =>
        -- A call that succeeds consumes the operand, which is neither on the stack nor decided
        -- then.
        rcases hoperand.of_ok result s env hmutable with ⟨hgone, hsame⟩
        have hself : g.stop ∈ ends every [g] := stop_mem_ends List.mem_cons_self
        constructor
        · rintro ⟨r, hr, -, hstop⟩
          rw [hoperand.replaced_iff hi hq he hself hgone hstop, hsame] at hr
          exact absurd hstop (hoperand.not_decided hself r hr)
        · exact nofun
    | error failure =>
        have hself := failed_operand_replaced_iff hi hq he hg (.refl g)
        constructor
        · exact fun h => ⟨failure, rfl, (hself.1 h).2.2⟩
        · rintro ⟨_, hfailure, h⟩
          cases hfailure
          exact hself.2 ⟨rfl, hoperand.fresh, h⟩
  · rintro failure rfl
    exact failed_operand_replaced_iff hi hq he hg hcasts
  · rintro result rfl ⟨r, hr, -, hstop⟩
    exact value_not_replaced hi hq he hg hcasts.stop_mem ⟨r, hr, hstop⟩

end Conclusions

end Analysis

end Operands

namespace Analysis

namespace Refusal

def it : Member :=
  ⟨"demo/Cell", "IT", "Ldemo/Cell;"⟩

def pick : Member :=
  ⟨"demo/Cell", "pick", "()Ldemo/Cell;"⟩

def take : Member :=
  ⟨"demo/Cell", "take", "(Ldemo/Cell;)I"⟩

/-- Keeps an object in the field. -/
def startCode : List Instruction :=
  [.typed .new "demo/Cell", .field .putstatic it, .simple .voidReturn]

/-- Answers the object of the field. -/
def pickCode : List Instruction :=
  [.field .getstatic it, .simple .areturn]

/-- Throws whatever it is given. -/
def takeCode : List Instruction :=
  [.simple .aconstNull, .simple .athrow]

def body (maxLocals : UInt16) (code : List Instruction) : Body where
  maxStack := 1
  maxLocals := maxLocals
  instructions := code

def method (s : Signature) (b : Body) : Method where
  access := ⟨8⟩
  name := s.name
  descriptor := s.descriptor
  body := some b

def classFile : ClassFile where
  name := "demo/Cell"
  fields := [⟨⟨8⟩, it.name, it.descriptor, none, [], []⟩]
  methods := [method ClassFile.initializer (body 0 startCode),
    method pick.signature (body 0 pickCode), method take.signature (body 1 takeCode)]

def classes : Universe :=
  .ofClasses [classFile]

/-- The methods are constant, and the object of the field stands for equal ones. -/
def config : Config :=
  { Config.plain classes with
    methods := ((∅ : Std.TreeMap Member Predicate).insert pick .allowAll).insert take .allowAll
    selectors := (∅ : Std.TreeMap String Selector).insert "demo/Cell" (.only (.reuse [it])) }

abbrev program : Program :=
  .ofUniverse classes

abbrev env : Env :=
  Engine.env program {}

/-- A method made ready. -/
def prepared (m : Member) (b : Body) : Prepared :=
  .unguarded classFile m b

/-- The initializer made ready. -/
abbrev preparedStart : Prepared :=
  prepared (ClassFile.initializer.on "demo/Cell") (body 0 startCode)

theorem prepare_start :
    program.prepare (ClassFile.initializer.on "demo/Cell") = .ok preparedStart := by
  rw [Program.prepare_ofUniverse]
  rfl

theorem prepare_pick : program.prepare pick = .ok (prepared pick (body 0 pickCode)) := by
  rw [Program.prepare_ofUniverse]
  rfl

theorem prepare_take : program.prepare take = .ok (prepared take (body 1 takeCode)) := by
  rw [Program.prepare_ofUniverse]
  rfl

theorem class?_cell : program.classes.class? "demo/Cell" = some classFile :=
  rfl

theorem fieldOwner?_it : program.classes.fieldOwner? it = some "demo/Cell" :=
  Universe.fieldOwner?_of_field? (f := it) class?_cell rfl

theorem directTarget_pick : env.directTarget pick = .ok (.bytecode pick) :=
  Env.directTarget_of_method? (m := pick) class?_cell rfl

theorem directTarget_take : env.directTarget take = .ok (.bytecode take) :=
  Env.directTarget_of_method? (m := take) class?_cell rfl

/-- What the runs below need of a state: the class is initialized and keeps the object. -/
structure Ready (t : Machine) : Prop where
  done : t.initialized["demo/Cell"]? = some .done
  it : t.statics[it]? = some (.ref ⟨0⟩)
  object : t.heap.get? ⟨0⟩ = some (.instance "demo/Cell" {})

theorem Ready.get {t : Machine} (h : Ready t) : t.heap.get ⟨0⟩ = .instance "demo/Cell" {} := by
  rw [Heap.get, h.object]
  rfl

theorem getStatic_it {m : Machine} (h : Ready m) (levels depth : Nat) :
    Emu.getStatic it (Engine.inside program {} (levels + 1) depth) m = .ok (.ref ⟨0⟩) m :=
  Emu.getStatic_of_done fieldOwner?_it h.done h.it

/-- The state in which the initializer is run. -/
def begun : Machine where
  initialized := (∅ : Std.HashMap String InitState).insert "demo/Cell" .inProgress
  statics := (∅ : Std.HashMap Member Value).insert it .null

/-- The state that the initializer leaves. -/
def kept : Machine where
  heap := { objects := #[.instance "demo/Cell" {}] }
  initialized := begun.initialized
  statics := begun.statics.insert it (.ref ⟨0⟩)
  executed := 3

/-- The state in which the class is initialized. -/
def started : Machine :=
  { kept with initialized := kept.initialized.insert "demo/Cell" .done }

theorem ready_started : Ready started :=
  ⟨Std.HashMap.getElem?_insert_self, Std.HashMap.getElem?_insert_self, rfl⟩

section Start

variable {levels depth : Nat} {s : Machine}

/-- The initializer may use its own class. -/
theorem initClass_inProgress (h : s.initialized["demo/Cell"]? = some .inProgress) :
    Emu.initClass "demo/Cell" (Engine.inside program {} (levels + 1) depth) s = .ok () s := by
  rw [Emu.initClass_eq, Emu.useClass_of_inProgress h]

theorem startFields_cell : Emu.startFields program.classes "demo/Cell" = {} := by
  rw [Emu.startFields, Universe.ancestors_of_objectClass rfl rfl rfl]
  rfl

theorem instantiate_cell (h : s.initialized["demo/Cell"]? = some .inProgress) :
    Emu.instantiate "demo/Cell" (Engine.inside program {} (levels + 1) depth) s
      = .ok (s.heap.alloc (.instance "demo/Cell" {})).1
          { s with heap := (s.heap.alloc (.instance "demo/Cell" {})).2 } := by
  have hclasses : Emu.classes (Engine.inside program {} (levels + 1) depth) s
      = .ok program.classes s := rfl
  have hcontains : program.classes.contains "demo/Cell" = true := rfl
  have hwrapper : Wrapper.ofClassName? "demo/Cell" = none := by decide
  unfold Emu.instantiate
  rw [Emu.bind_apply, initClass_inProgress h]
  dsimp only
  -- The class is no string, builder or wrapper, and it is in the universe.
  rw [if_neg (by decide), if_neg (by decide), hwrapper]
  dsimp only
  rw [Emu.bind_apply, hclasses]
  dsimp only
  rw [if_pos hcontains, startFields_cell]
  rfl

theorem step_new : Emu.step classFile (.typed .new "demo/Cell") (.start 0 [])
    (Engine.inside program {} (levels + 1) depth) begun.ticked
      = .ok (.next [.ref ⟨0⟩])
          { begun.ticked with heap := { objects := #[.instance "demo/Cell" {}] } } := by
  change ((Emu.instantiate "demo/Cell" >>= fun r => pure [.ref r])
    >>= fun stack => pure (.next stack) : Emu Flow) _ _ = _
  have hprogress : begun.ticked.initialized["demo/Cell"]? = some .inProgress :=
    Std.HashMap.getElem?_insert_self
  rw [Emu.bind_apply, Emu.bind_apply, instantiate_cell hprogress]
  rfl

theorem step_put {f : Member} {r : HeapRef} {stack : Stack} {a : Activation}
    (hf : program.classes.fieldOwner? f = some "demo/Cell") (ha : a.stack = .ref r :: stack)
    (h : s.initialized["demo/Cell"]? = some .inProgress) :
    Emu.step classFile (.field .putstatic f) a (Engine.inside program {} (levels + 1) depth) s
      = .ok (.next stack)
          { s with statics := s.statics.insert (f.withOwner "demo/Cell") (.ref r) } := by
  have hpop : Stack.pop a.stack = .ok (.ref r, stack) := by
    rw [ha]
    rfl
  rw [Emu.step_putstatic hpop, Emu.bind_apply,
    Emu.putStatic_of_initClass hf (initClass_inProgress h)]
  rfl

theorem run_start :
    Emu.run? preparedStart (Engine.inside program {} (levels + 1) depth) 3 (.start 0 []) 0 begun
      = some (.ok none kept) := by
  have hprogress : begun.initialized["demo/Cell"]? = some .inProgress :=
    Std.HashMap.getElem?_insert_self
  refine (Emu.run?_next (m := .typed .new "demo/Cell") rfl rfl rfl step_new).trans ?_
  refine (Emu.run?_next (m := .field .putstatic it) rfl rfl rfl
    (step_put fieldOwner?_it rfl ?_)).trans ?_
  · exact hprogress
  exact Emu.run?_finish (m := .simple .voidReturn) rfl rfl rfl rfl

theorem runInitializer_cell : Emu.runInitializer classFile "demo/Cell"
    (Engine.inside program {} (levels + 1 + 1) 0) begun = .ok () kept := by
  have hinit : (classFile.method? ClassFile.initializer).isSome = true := rfl
  have hcall : Emu.call (.bytecode (ClassFile.initializer.on "demo/Cell")) []
      (Engine.inside program {} (levels + 1 + 1) 0) begun = .ok none kept :=
    Emu.call_of_run? (by decide) prepare_start (by decide) run_start
  unfold Emu.runInitializer
  rw [if_pos hinit, Emu.tryCatch_apply, Emu.bind_apply, hcall]
  rfl

theorem initClass_cell :
    Emu.initClass "demo/Cell" (Engine.inside program {} (levels + 1 + 1 + 1) 0) {}
      = .ok () started := by
  rw [Emu.initClass_eq, Emu.useClass_of_new Std.HashMap.getElem?_empty class?_cell]
  -- The superclass is outside the program, so there is nothing to initialize of it.
  let entered : Machine := { initialized := begun.initialized }
  have hup : Emu.initClass "java/lang/Object"
      (Engine.inside program {} (levels + 1 + 1) 0) entered = .ok () entered := by
    have hnew : entered.initialized["java/lang/Object"]? = none := by
      simp [entered, begun]
    rw [Emu.initClass_eq, Emu.useClass_of_outside hnew rfl]
  have hset : Emu.setInitState "demo/Cell" .inProgress
      (Engine.inside program {} (levels + 1 + 1) 0) {} = .ok () entered := rfl
  have hsuper : classFile.superName = some "java/lang/Object" := rfl
  have hstatics : Emu.startStatics classFile
      (Engine.inside program {} (levels + 1 + 1) 0) entered = .ok () begun := rfl
  unfold Emu.startClass
  rw [Emu.bind_apply, hset]
  dsimp only
  rw [hsuper]
  dsimp only
  rw [Emu.bind_apply, Emu.tryCatch_apply, hup]
  dsimp only
  rw [Emu.bind_apply, hstatics]
  dsimp only
  rw [Emu.bind_apply, runInitializer_cell]
  rfl

end Start

theorem call_pick : Emu.call (.bytecode pick) [] env started
    = .ok (some (.ref ⟨0⟩)) started.ticked.ticked := by
  rw [env, Engine.env_eq_inside]
  refine Emu.call_of_run? (by decide) prepare_pick (k := 2) (by decide) ?_
  have hticked : Ready started.ticked := ⟨ready_started.done, ready_started.it, rfl⟩
  refine (Emu.run?_next (m := .field .getstatic it) rfl rfl rfl
    (Emu.step_getstatic (getStatic_it hticked _ _))).trans ?_
  exact Emu.run?_finish (m := .simple .areturn) rfl rfl rfl rfl

/-- The method may be evaluated, and answers the object. -/
theorem invoke_pick : ∃ t, Evaluation.invoke config .static pick [] env {}
    = (.ok (pick, .ref ⟨0⟩), t) ∧ Ready t := by
  have hinit : Emu.initClass "demo/Cell" env {} = .ok () started := by
    rw [env, Engine.env_eq_inside]
    exact initClass_cell
  -- The call is made once and its answer kept, since it has no arguments.
  have honce : Evaluation.operation .static pick [] env (Machine.restarted {})
      = .ok (some (.ref ⟨0⟩)) (started.ticked.ticked.keep ⟨.static, pick, []⟩
          (.ok (some (.ref ⟨0⟩)))) := by
    have hkeys : ([] : List Value).mapM (Machine.heap {}).key? = some [] := rfl
    change Emu.invokeOnce .static pick [] env {} = _
    rw [Emu.invokeOnce_of_new hkeys Std.HashMap.getElem?_empty,
      Emu.invoke_static_of_initClass directTarget_pick hinit, call_pick]
  have hpredicate : config.predicate? pick true = some .allowAll := by
    have hne : take ≠ pick := by decide
    simp [Config.predicate?, config, Std.TreeMap.getElem_insert, hne]
  refine ⟨started.ticked.ticked.keep ⟨.static, pick, []⟩ (.ok (some (.ref ⟨0⟩))), ?_,
    ready_started.done, ready_started.it, rfl⟩
  have hdispatches : env.Dispatches (Machine.heap {}) .static pick [] (.bytecode pick) :=
    directTarget_pick
  rw [Evaluation.invoke_of_allows hdispatches hpredicate rfl, honce]
  rfl

theorem run_take {m : Machine} (h : Ready m) (levels depth : Nat) : ∃ r t,
    Emu.run? (prepared take (body 1 takeCode)) (Engine.inside program {} levels depth) 2
      (.start 1 [.ref ⟨0⟩]) 0 m = some (.error (.thrown r) t) ∧ Ready t := by
  rw [Emu.run?_next (m := .simple .aconstNull) rfl rfl rfl rfl]
  exact ⟨_, _, rfl, h.done, h.it, Heap.get?_alloc (Heap.get?_alloc h.object)⟩

/-- The method may be evaluated for the object. -/
theorem admits_take {m : Machine} :
    Evaluation.Admits config env m .static take [.ref ⟨0⟩] := by
  refine ⟨.bytecode take, .allowAll, ?_, by simp [Config.predicate?, config, Target.member], rfl⟩
  rw [Emu.target_static, directTarget_take]
  rfl

theorem invoke_take {m : Machine} (h : Ready m) : ∃ message t,
    Evaluation.invoke config .static take [.ref ⟨0⟩] env m = (.error (.failed message), t) ∧
      Ready t := by
  have hready : Ready m.restarted := ⟨h.done, h.it, h.object⟩
  rcases run_take hready (Engine.allowance - 1) (0 + 1) with ⟨r, t, hrun, ht⟩
  have honce : Evaluation.operation .static take [.ref ⟨0⟩] env m.restarted
      = .error (.thrown r) t := by
    have htarget := directTarget_take
    -- A cell is mutable, so the call has no key and nothing is kept.
    have hkeys : [Value.ref ⟨0⟩].mapM m.restarted.heap.key? = none := by
      have hkey : m.restarted.heap.key? (.ref ⟨0⟩) = none := by
        rw [Heap.key?, hready.get]
      rw [List.mapM_cons, hkey]
      rfl
    change Emu.invokeOnce .static take [.ref ⟨0⟩] env m.restarted = _
    rw [Emu.invokeOnce_of_none hkeys]
    rw [env, Engine.env_eq] at htarget ⊢
    exact Emu.invoke_static htarget hready.done (by decide) prepare_take (by decide) hrun
  have hpredicate : config.predicate? take true = some .allowAll := by
    simp [Config.predicate?, config]
  refine ⟨take.display ++ ": " ++ t.heap.describe (.thrown r), t, ?_, ht⟩
  have hdispatches : env.Dispatches m.heap .static take [.ref ⟨0⟩] (.bytecode take) :=
    directTarget_take
  rw [Evaluation.invoke_of_allows hdispatches hpredicate rfl, honce]
  rfl

/-- A body that hands the object to the method. -/
def code : Array Instruction :=
  #[.invoke .invokestatic pick false, .invoke .invokestatic take false, .simple .ireturn]

def subject : Subject where
  config := config
  owner := { name := "demo/Use" }
  method := ⟨"demo/Use", "run", "()I"⟩
  code := code
  referenced := ∅
  order := {}
  pass := 1

/-- The start of the analysis. -/
def tracker : Tracker where
  progress := {}
  runLog := #[]
  passLog := #[]

/-- The object as the body makes it. -/
def picked : Fold :=
  { origin := .call, start := 0, stop := 0, value := .ref ⟨0⟩, type := .object "demo/Cell",
    member := some pick }

/-- The state behind the first call, the outcome of which is on record. -/
def pickedTracker : Tracker :=
  let outcome : Except Failure (Member × Value) := .ok (pick, .ref ⟨0⟩)
  { tracker with
    progress.evaluated := tracker.progress.evaluated.insert ⟨subject.method, 0, 0⟩ outcome }

/-- The request of the first call. -/
def picking : Request :=
  callRequest 0 pick (.object "demo/Cell") 1 (Evaluation.invoke config .static pick) []

theorem request_pick : request? 0 (.invoke .invokestatic pick false) subject tracker env {}
    = ((some picking, tracker), {}) := by
  have hd : MethodType.parse pick.descriptor = .ok ⟨[], some (.object "demo/Cell")⟩ := by cbv
  have hrequest : request? 0 (.invoke .invokestatic pick false) subject tracker env {}
      = callRequest? 0 [] pick (.object "demo/Cell") 1 (Evaluation.invoke config .static pick)
        subject tracker env {} := by
    simp only [request?, hd]
    rfl
  rw [hrequest]
  rfl

theorem before_take : ∃ m, Ready m ∧ before subject tracker env {} 1
    = ({ pickedTracker with stack := [.known picked] }, m) := by
  rcases invoke_pick with ⟨t, hpick, ht⟩
  have hrun : ExceptT.run picking.evaluation env {} = (.ok (pick, .ref ⟨0⟩), t) := hpick
  have hnew : tracker.progress.evaluated[(⟨subject.method, 0, 0⟩ : EvaluationSite)]? = none :=
    Std.HashMap.getElem?_empty
  have hevaluate : evaluate picking.start 0 picking.evaluation subject tracker env {}
      = ((.ok (pick, .ref ⟨0⟩), pickedTracker), t) := by
    rw [show picking.start = 0 from rfl, evaluate_of_new hnew, hrun]
    rfl
  refine ⟨t, ht, before_of_advance _ _ _ _ (k := 0) rfl rfl ?_⟩
  change advance 0 (.invoke .invokestatic pick false) subject tracker env {} = _
  rw [advance_of_request request_pick, bind_at, hevaluate]
  rfl

/-- The request of the second call. -/
def asked : Request :=
  callRequest 1 take .int 1 (Evaluation.invoke config .static take) [picked]

theorem evaluable_picked (m : Machine) :
    evaluable? 1 none [.known picked] subject pickedTracker env m
      = ((some [picked], pickedTracker), m) := by
  have hnext : subject.nextReal 1 = 1 := by
    rw [Subject.nextReal]
    rfl
  have hcontiguous : subject.isContiguous 1 none [picked] = true := by
    simp [Subject.isContiguous, picked, hnext]
  change (if !subject.isContiguous 1 none [picked] then pure none else _ :
    Analysis (Option (List Fold))) subject pickedTracker env m = _
  rw [hcontiguous]
  rfl

theorem request_take (m : Machine) : request? 1 (.invoke .invokestatic take false) subject
      { pickedTracker with stack := [.known picked] } env m
    = ((some asked, pickedTracker), m) := by
  have hd : MethodType.parse take.descriptor = .ok ⟨[.object "demo/Cell"], some .int⟩ := by cbv
  have hrequest : request? 1 (.invoke .invokestatic take false) subject
        { pickedTracker with stack := [.known picked] } env m
      = callRequest? 1 [.known picked] take .int 1 (Evaluation.invoke config .static take) subject
        pickedTracker env m := by
    simp only [request?, hd]
    rfl
  rw [hrequest, callRequest?, bind_at, evaluable_picked]
  rfl

/-- The state behind the second call, the outcome of which is on record. -/
def recorded (message : String) : Tracker :=
  let outcome : Except Failure (Member × Value) := .error (.failed message)
  { pickedTracker with
    progress.evaluated :=
      pickedTracker.progress.evaluated.insert ⟨subject.method, 0, 1⟩ outcome }

theorem not_recorded :
    pickedTracker.progress.evaluated[(⟨subject.method, 0, 1⟩ : EvaluationSite)]? = none := by
  simp [pickedTracker, tracker]

/-- The evaluation runs and fails. -/
theorem evaluate_take {m : Machine} (h : Ready m) : ∃ message t,
    evaluate asked.start 1 asked.evaluation subject pickedTracker env m
      = ((.error (.failed message), recorded message), t) ∧ Ready t := by
  rcases invoke_take h with ⟨message, t, htake, ht⟩
  have hrun : ExceptT.run asked.evaluation env m = (.error (.failed message), t) := htake
  refine ⟨message, t, ?_, ht⟩
  rw [show asked.start = 0 from rfl, evaluate_of_new not_recorded, hrun]
  rfl

theorem getStatic_env {m : Machine} (h : Ready m) :
    Emu.getStatic it env m = .ok (.ref ⟨0⟩) m := by
  rw [env, Engine.env_eq_inside]
  exact getStatic_it h _ _

theorem selector_cell : config.selector? "demo/Cell" = some (.only (.reuse [it])) := by
  have hget : config.selectors.get? "demo/Cell" = some (.only (.reuse [it])) := by
    change ((∅ : Std.TreeMap String Selector).insert "demo/Cell"
      (.only (.reuse [it])))["demo/Cell"]? = _
    exact Std.TreeMap.getElem?_insert_self
  unfold Config.selector?
  rw [Universe.ancestors_of_objectClass rfl rfl rfl, List.findSome?_cons, hget]

/-- The object of the field is the object itself, so the field is read instead. -/
theorem rebuild_picked {m : Machine} (h : Ready m) :
    Rebuild.run ⟨config, subject.order, 0⟩ ⟨0⟩ env m
      = (.ok (Rebuild.ofField it), { m with executed := 0 }) := by
  have hready : Ready { m with executed := 0 } := ⟨h.done, h.it, h.object⟩
  change Rebuild.within ⟨config, subject.order, 0⟩ (31 + 1) [] ⟨0⟩ env { m with executed := 0 } = _
  generalize { m with executed := 0 } = u at hready ⊢
  have hreusable : subject.order.isReusable config.classes it 0 = true := by decide
  have hequal : Rebuild.equalOrFalse (.ref ⟨0⟩) (.ref ⟨0⟩) env u = (.ok true, u) := rfl
  have hfirst : Rebuild.firstEqual? ⟨config, subject.order, 0⟩ (.ref ⟨0⟩) [it] env u
      = (.ok (some it), u) := by
    rw [Rebuild.firstEqual?, if_pos hreusable, Rebuild.bind_attempt, getStatic_env hready]
    dsimp only
    rw [Rebuild.bind_of_ok hequal]
    rfl
  have hreuse : Rebuild.reuse ⟨config, subject.order, 0⟩ [it] (.ref ⟨0⟩) env u
      = (.ok (Rebuild.ofField it), u) := by
    rw [Rebuild.reuse, Rebuild.bind_of_ok hfirst]
    rfl
  have hheap : (Probe.heap : Rebuild Heap) env u = (.ok u.heap, u) := rfl
  -- There is room for a level, and so the fields are tried first.
  rw [Rebuild.within, if_neg (by simp)]
  dsimp only
  rw [Rebuild.bind_of_ok hheap, hready.get]
  dsimp only [HeapObject.className]
  rw [selector_cell]
  exact Rebuild.tryCatch_of_ok hreuse

/-- The object is read from the field instead of being made. -/
theorem rewrites_picked {m : Machine} (h : Ready m) (t : Tracker) :
    Rewrites picked subject t env m := by
  have hencoding : m.heap.encoding picked.value = .object ⟨0⟩ := by
    change m.heap.encodingOf ⟨0⟩ = _
    rw [Heap.encodingOf, h.get]
  have hspan : subject.realSpan picked.start picked.stop = [.invoke .invokestatic pick false] := rfl
  have hcode : (Rebuild.ofField it).codeFor subject.config.classes picked.type
      = [.field .getstatic it] := by
    cbv
  have hwritten : ∃ log, writeBack picked subject t env m = _ :=
    writeBack_rebuilt (by decide) hencoding (rebuild_picked h)
  rcases hwritten with ⟨log, hwrite⟩
  refine ⟨by decide, ?_⟩
  rw [hwrite, hcode, hspan]
  dsimp only
  rw [if_neg (by decide)]
  -- What is read is written as another instruction than the call.
  intro heq
  have hsize := congrArg Array.size heq
  rw [Array.size_push] at hsize
  omega

theorem mutable_picked {m : Machine} (h : Ready m) :
    picked.value.reference?.any (fun o => (m.heap.get o).isMutable) = true := by
  change (m.heap.get ⟨0⟩).isMutable = true
  rw [h.get]
  rfl

theorem code_take : subject.code[1]? = some (.invoke .invokestatic take false) :=
  rfl

/-- The object is handed to a method that fails, and is replaced exactly if it can be written back
    behind that. -/
theorem picked_replaced_iff : ∃ message m m',
    let failure : Failure := .failed message
    let front := releaseUpTo 1 asked failure 0 subject (recorded message) env m'
    evaluate asked.start 1 asked.evaluation subject pickedTracker env m
        = ((.error failure, recorded message), m') ∧
      ((∃ r ∈ (replacements subject tracker env {}).1.1,
          r.start = picked.start ∧ r.stop = picked.stop) ↔
        ∃ failure', (.error failure : Except Failure (Member × Value)) = .error failure' ∧
          Rewrites picked subject (releaseUpTo 1 asked failure' 0 subject (recorded message) env
            m').1.2 env (releaseUpTo 1 asked failure' 0 subject (recorded message) env m').2) ∧
      Casts picked [] picked ∧
      ((∃ r ∈ (replacements subject tracker env {}).1.1,
          r.start = picked.start ∧ r.stop = picked.stop) ↔
        (fallThrough [] subject front.1.2 env front.2).1.1 = true ∧ picked.stale = false ∧
          Rewrites picked subject (fallThrough [] subject front.1.2 env front.2).1.2 env
            (fallThrough [] subject front.1.2 env front.2).2) := by
  rcases before_take with ⟨m, hm, hbefore⟩
  rcases evaluate_take hm with ⟨message, m', hevaluate, hm'⟩
  have hrequest : request? 1 (.invoke .invokestatic take false) subject
      (before subject tracker env {} 1).1 env (before subject tracker env {} 1).2
        = ((some asked, pickedTracker), m) := by
    rw [hbefore]
    exact request_take m
  have hiff := operand_replaced_iff (j := 0) code_take hrequest hevaluate rfl (mutable_picked hm')
  exact ⟨message, m, m', hevaluate, hiff.1, .refl picked, (hiff.2 [] picked (.refl picked)).1 _ rfl⟩

/-- An operand whose object can change is replaced although it was handed to an evaluation that
    ran. The analysis and the machine are at their start. -/
theorem picked_replaced : ∃ message m m',
    request? 1 (.invoke .invokestatic take false) subject
          (before subject tracker env {} 1).1 env (before subject tracker env {} 1).2
        = ((some asked, pickedTracker), m) ∧
      Evaluation.Admits config env m .static take [.ref ⟨0⟩] ∧
      pickedTracker.progress.evaluated[(⟨subject.method, 0, 1⟩ : EvaluationSite)]? = none ∧
      evaluate asked.start 1 asked.evaluation subject pickedTracker env m
        = ((.error (.failed message), recorded message), m') ∧
      asked.operands = [picked] ∧
      picked.value.reference?.any (fun o => (m'.heap.get o).isMutable) = true ∧
      ∃ r ∈ (replacements subject tracker env {}).1.1,
        r.start = picked.start ∧ r.stop = picked.stop := by
  rcases before_take with ⟨m, hm, hbefore⟩
  rcases evaluate_take hm with ⟨message, m', hevaluate, hm'⟩
  have hrequest : request? 1 (.invoke .invokestatic take false) subject
      (before subject tracker env {} 1).1 env (before subject tracker env {} 1).2
        = ((some asked, pickedTracker), m) := by
    rw [hbefore]
    exact request_take m
  refine ⟨message, m, m', hrequest, admits_take, not_recorded, hevaluate, rfl, mutable_picked hm',
    ?_⟩
  exact (failed_operand_replaced_iff (j := 0) code_take hrequest hevaluate rfl (.refl picked)).2
    ⟨rfl, rfl, rewrites_picked hm' _⟩

end Refusal

end Analysis

end JvmFold
