import JvmFold.Fold.Splice
import JvmFold.Proofs.Analysis.Stack

/-!
# The Segments of a Spliced Body

A body and what splicing makes of it are the same sequence of segments: single
instructions that both have, and spans, which are one thing in the body and
another in what is made of it. Positions in the two differ by how long the
spans are, but they count the same segments, so a segment is what a position
in the one and a position in the other have in common.

Splicing weaves the spans into the body from the last to the first, each into
what is left by the ones behind it. That gives the segments only if the spans
are apart.

## Main definitions

* `Segment`: An instruction that stays, or a span.
* `segments`: The segments of a body for spans in order.
* `Chained`: Spans in order, apart and inside the body.
* `Body.span`: The instructions and marks of a span.

## Theorems

* `flatMap_old`, `flatMap_new`: The segments make up the body and the woven one.
* `chained_byStart`: Spans that are apart are chained by their starts.
-/

namespace JvmFold

/-- An instruction or mark that stays, or a span with its new code. -/
inductive Segment where
  | keep (i : Instruction)
  | span (old code : List Instruction)

namespace Segment

/-- What the segment is in the body. -/
def old : Segment → List Instruction
  | keep i => [i]
  | span old _ => old

/-- What the segment is in the woven body: the marks of a span are kept in front of its new
    code. -/
def new : Segment → List Instruction
  | keep i => [i]
  | span old code => old.filter Instruction.isPseudo ++ code

end Segment

/-- The instructions and marks of a span. -/
def Body.span (b : Body) (r : Replacement) : List Instruction :=
  (b.instructions.drop r.start).take (r.stop + 1 - r.start)

/-- The segments of instructions, the first of which is at a position, for spans in order. -/
def segments (position : Nat) : List Replacement → List Instruction → List Segment
  | [], l => l.map .keep
  | r :: rest, l =>
      (l.take (r.start - position)).map .keep
        ++ .span ((l.drop (r.start - position)).take (r.stop + 1 - r.start)) r.code
          :: segments (r.stop + 1) rest (l.drop (r.stop + 1 - position))

/-- Spans in order and apart, between a position and the end. -/
def Chained (last : Nat) : Nat → List Replacement → Prop
  | _, [] => True
  | position, r :: rest =>
      position ≤ r.start ∧ r.start ≤ r.stop ∧ r.stop < last ∧ Chained last (r.stop + 1) rest

section Segments

variable {last position : Nat} {rs : List Replacement} {l : List Instruction}

/-- A chain may start earlier. -/
theorem Chained.mono {position' : Nat} (h : Chained last position rs) (hle : position' ≤ position) :
    Chained last position' rs := by
  cases rs with
  | nil => trivial
  | cons r rest => exact ⟨Nat.le_trans hle h.1, h.2⟩

/-- Every replacement starts behind the start of the chain. -/
theorem Chained.le_start (h : Chained last position rs) {r : Replacement} (hr : r ∈ rs) :
    position ≤ r.start := by
  induction rs generalizing position with
  | nil => cases hr
  | cons s rest ih =>
      rcases h with ⟨hstart, hspan, _, hrest⟩
      rcases List.mem_cons.1 hr with rfl | hr
      · exact hstart
      · have hle := ih hrest hr
        omega

/-- Instructions that are kept are the old code. -/
theorem flatMap_keep_old (l : List Instruction) :
    (l.map Segment.keep).flatMap Segment.old = l := by
  rw [List.flatMap_map]
  exact List.flatMap_singleton' l

theorem flatMap_keep_new (l : List Instruction) :
    (l.map Segment.keep).flatMap Segment.new = l := by
  rw [List.flatMap_map]
  exact List.flatMap_singleton' l

/-- The segments make up the body. -/
theorem flatMap_old (h : Chained last position rs) :
    (segments position rs l).flatMap Segment.old = l := by
  induction rs generalizing position l with
  | nil => exact flatMap_keep_old l
  | cons r rest ih =>
      rcases h with ⟨hstart, hspan, _, hrest⟩
      rw [segments, List.flatMap_append, List.flatMap_cons, flatMap_keep_old, ih hrest]
      change _ ++ ((l.drop (r.start - position)).take (r.stop + 1 - r.start) ++ _) = l
      have hdrop : l.drop (r.stop + 1 - position)
          = (l.drop (r.start - position)).drop (r.stop + 1 - r.start) := by
        rw [List.drop_drop]
        congr 1
        omega
      rw [hdrop, List.take_append_drop, List.take_append_drop]

/-- Weaving leaves what stands in front of all spans. -/
theorem weave_front {k : Nat} (h : Chained last (position + k) rs) :
    weave position rs l = l.take k ++ weave (position + k) rs (l.drop k) := by
  cases rs with
  | nil => rw [weave, weave, List.take_append_drop]
  | cons r rest =>
      have hstart := h.1
      -- Counted from the start of the code, the replacement begins in the same place.
      have hdrop : l.drop (r.start - position) = (l.drop k).drop (r.start - (position + k)) := by
        rw [List.drop_drop]
        congr 1
        omega
      have htake : l.take (r.start - position)
          = l.take k ++ (l.drop k).take (r.start - (position + k)) := by
        rw [← List.take_add]
        congr 1
        omega
      rw [weave, weave, htake, hdrop, List.append_assoc]

/-- The segments make up the woven body. -/
theorem flatMap_new (h : Chained last position rs) (hl : position + l.length = last) :
    (segments position rs l).flatMap Segment.new = weave position rs l := by
  induction rs generalizing position l with
  | nil => exact flatMap_keep_new l
  | cons r rest ih =>
      rcases h with ⟨hstart, hspan, hstop, hrest⟩
      have hdrop : l.drop (r.stop + 1 - position)
          = (l.drop (r.start - position)).drop (r.stop + 1 - r.start) := by
        rw [List.drop_drop]
        congr 1
        omega
      have hlength : (l.drop (r.stop + 1 - position)).length = l.length - (r.stop + 1 - position) :=
        List.length_drop
      -- The spans behind this one leave its own instructions alone.
      have hbehind : weave r.start rest (l.drop (r.start - position))
          = (l.drop (r.start - position)).take (r.stop + 1 - r.start)
            ++ weave (r.stop + 1) rest (l.drop (r.stop + 1 - position)) := by
        have hwidth : r.start + (r.stop + 1 - r.start) = r.stop + 1 := by omega
        have hfront : Chained last (r.start + (r.stop + 1 - r.start)) rest := by
          rw [hwidth]
          exact hrest
        rw [weave_front hfront, hwidth, hdrop]
      have htaken : ((l.drop (r.start - position)).take (r.stop + 1 - r.start)).length
          = r.stop + 1 - r.start := by
        rw [List.length_take, List.length_drop]
        omega
      rw [segments, List.flatMap_append, List.flatMap_cons, flatMap_keep_new,
        ih hrest (by omega), weave, hbehind, List.take_left' htaken, List.drop_left' htaken,
        Segment.new, List.append_assoc]

/-- A span of the segments is one of those that were woven. -/
theorem mem_segments {instructions old code : List Instruction}
    (h : Segment.span old code ∈ segments position rs (instructions.drop position))
    (hrs : Chained last position rs) :
    ∃ r ∈ rs, old = (instructions.drop r.start).take (r.stop + 1 - r.start) ∧ code = r.code := by
  induction rs generalizing position with
  | nil =>
      rcases List.mem_map.mp h with ⟨i, _, hi⟩
      cases hi
  | cons r rest ih =>
      rcases hrs with ⟨hstart, hspan, _, hrest⟩
      rw [segments, List.mem_append, List.mem_cons] at h
      rcases h with h | h | h
      · rcases List.mem_map.mp h with ⟨i, _, hi⟩
        cases hi
      · cases h
        refine ⟨r, List.mem_cons_self, ?_, rfl⟩
        rw [List.drop_drop]
        congr 2
        omega
      · rw [List.drop_drop] at h
        -- The rest is cut off where the span ends.
        have hposition : position + (r.stop + 1 - position) = r.stop + 1 := by omega
        rw [hposition] at h
        rcases ih h hrest with ⟨r', hr', hold, hcode⟩
        exact ⟨r', List.mem_cons_of_mem _ hr', hold, hcode⟩

end Segments

/-- Sorting loses no replacement. -/
theorem byStart_perm (rs : List Replacement) : (byStart rs).Perm rs :=
  (List.reverse_perm _).trans (List.mergeSort_perm rs _)

theorem mem_byStart {r : Replacement} {rs : List Replacement} : r ∈ byStart rs ↔ r ∈ rs :=
  (byStart_perm rs).mem_iff

/-- The order is that of the starts. -/
theorem byStart_pairwise (rs : List Replacement) :
    (byStart rs).Pairwise fun r r' => r.start ≤ r'.start := by
  rw [byStart, List.pairwise_reverse]
  refine (List.pairwise_mergeSort ?_ ?_ rs).imp fun h => of_decide_eq_true h
  · intro a b c hab hbc
    simp only [decide_eq_true_eq] at *
    omega
  · intro a b
    simp only [Bool.or_eq_true, decide_eq_true_eq]
    omega

/-- Spans in the order of their starts that are apart follow each other. -/
theorem chained_of_pairwise {last position : Nat} {rs : List Replacement}
    (hsorted : rs.Pairwise fun r r' => r.start ≤ r'.start)
    (happart : rs.Pairwise Replacement.Apart)
    (hspan : ∀ r ∈ rs, position ≤ r.start ∧ r.start ≤ r.stop ∧ r.stop < last) :
    Chained last position rs := by
  induction rs generalizing position with
  | nil => trivial
  | cons r rest ih =>
      rw [List.pairwise_cons] at hsorted happart
      have hr := hspan r List.mem_cons_self
      refine ⟨hr.1, hr.2.1, hr.2.2, ih hsorted.2 happart.2 fun r' hr' => ?_⟩
      have hlater := hspan r' (List.mem_cons_of_mem _ hr')
      have horder := hsorted.1 r' hr'
      rcases happart.1 r' hr' with h | h <;> omega

/-- Spans that are apart are chained by their starts. -/
theorem chained_byStart {last : Nat} {rs : List Replacement}
    (happart : rs.Pairwise Replacement.Apart)
    (hspan : ∀ r ∈ rs, r.start ≤ r.stop ∧ r.stop < last) : Chained last 0 (byStart rs) := by
  refine chained_of_pairwise (byStart_pairwise rs)
    (happart.perm (byStart_perm rs).symm Replacement.Apart.symm) fun r hr => ?_
  exact ⟨Nat.zero_le _, hspan r (mem_byStart.mp hr)⟩

end JvmFold
