import JvmFold.Proofs.Analysis.Codes
import JvmFold.Proofs.Splice.Headroom
import JvmFold.Proofs.Splice.Segments

/-!
# What Splicing Is

Splicing goes from the last span to the first, so that the positions of a span
are still right when its turn comes. What it comes to can be said without an
order, position by position: an instruction that no span covers stays, at the
start of a span stand the marks of the span and the new code, and for the other
instructions of the span there is nothing. The marks of a span are moved to its
start, and nothing else is moved.

That holds for spans that are apart, each of at least one instruction. They may
touch each other and the ends of the body, and be full of marks; the new code
may be shorter or longer than its span. Which position a span covers does not
depend on the order of the list, so the outcome does not either.

## Main definitions

* `Replacement.Covers`: The positions of a span.
* `Body.standIn`: What splicing puts in the place of an instruction.
* `Body.substitute`: The body with everything put in its place.
* `Replacement.spliceInto`: Instructions with one span replaced in place.

## Theorems

* `Body.apply_instructions_eq_foldr`: One span is replaced in place after the other.
* `flatMap_new_eq_standIn`: The segments put everything in its place.
* `Body.apply_eq_substitute`: So does splicing, in whatever order the spans come.
-/

namespace JvmFold

/-- The position is in the span. -/
abbrev Replacement.Covers (r : Replacement) (k : Nat) : Prop :=
  r.start ≤ k ∧ k ≤ r.stop

/-- What stands in the place of an instruction at a position: itself if no span covers it, and
    nothing if one does, but for the start of the span. There stand the marks of the span and then
    its new code. -/
def Body.standIn (b : Body) (l : List Replacement) (x : Instruction × Nat) : List Instruction :=
  match l.find? fun r => r.Covers x.2 with
  | none => [x.1]
  | some r => if x.2 = r.start then (b.span r).filter Instruction.isPseudo ++ r.code else []

/-- The body with everything put in its place, and with a limit of the stack that is raised by what
    all spans need. -/
def Body.substitute (b : Body) (l : List Replacement) : Body :=
  { b with
    instructions := b.instructions.zipIdx.flatMap (b.standIn l)
    maxStack := (min (b.maxStack.toNat + (l.map Replacement.growth).sum) 65535).toUInt16
    modified := b.modified || !l.isEmpty }

/-- Instructions with the span replaced in place. -/
def Replacement.spliceInto (r : Replacement) (l : List Instruction) : List Instruction :=
  l.take r.start
    ++ (((l.drop r.start).take (r.stop + 1 - r.start)).filter Instruction.isPseudo
      ++ (r.code ++ l.drop (r.stop + 1)))

/-- Weaving replaces one span in place after the other, the one that starts last first. It does so
    for spans that overlap as well. -/
theorem weave_eq_foldr {position : Nat} {rs : List Replacement} {l : List Instruction}
    (hsorted : rs.Pairwise fun r r' => r.start ≤ r'.start)
    (hspan : ∀ r ∈ rs, position ≤ r.start ∧ r.start ≤ r.stop ∧ r.start ≤ l.length) :
    l.take position ++ weave position rs (l.drop position)
      = rs.foldr Replacement.spliceInto l := by
  -- What stands in front of the position is on both sides, so that the induction can start later.
  induction rs generalizing position with
  | nil =>
      rw [weave, List.take_append_drop]
      rfl
  | cons r rest ih =>
      rw [List.pairwise_cons] at hsorted
      have hr := hspan r List.mem_cons_self
      -- The spans behind this one have been woven into what stands from its start on.
      have hrest : l.take r.start ++ weave r.start rest (l.drop r.start)
          = rest.foldr Replacement.spliceInto l :=
        ih hsorted.2 fun r' hr' => ⟨hsorted.1 r' hr', (hspan r' (List.mem_cons_of_mem r hr')).2⟩
      have hfront : l.take position ++ (l.drop position).take (r.start - position)
          = l.take r.start := by
        rw [← List.take_add, Nat.add_sub_cancel' hr.1]
      have hbehind : (l.drop position).drop (r.start - position) = l.drop r.start := by
        rw [List.drop_drop, Nat.add_sub_cancel' hr.1]
      have htaken : (l.take r.start).length = r.start := List.length_take_of_le hr.2.2
      have hwidth (m : List Instruction) :
          (l.take r.start ++ m).drop (r.stop + 1) = m.drop (r.stop + 1 - r.start) := by
        rw [List.drop_append, List.drop_of_length_le (by omega), List.nil_append, htaken]
      rw [List.foldr_cons, ← hrest, Replacement.spliceInto, List.take_left' htaken,
        List.drop_left' htaken, hwidth, weave, hbehind, ← List.append_assoc, hfront]

section Positions

variable {b : Body} {last position k : Nat} {r : Replacement} {rs l l' : List Replacement}

/-- What no span covers stays. -/
theorem Body.standIn_of_not_covers {i : Instruction} (h : ∀ r ∈ rs, ¬r.Covers k) :
    b.standIn rs (i, k) = [i] := by
  have hfind : rs.find? (fun r => r.Covers k) = none := by
    rw [List.find?_eq_none]
    intro r hr hcovers
    exact h r hr (of_decide_eq_true hcovers)
  rw [standIn, hfind]

/-- A span that covers a position decides what stands there. -/
theorem Body.standIn_of_covers {i : Instruction} (h : r.Covers k) :
    b.standIn (r :: rs) (i, k)
      = if k = r.start then (b.span r).filter Instruction.isPseudo ++ r.code else [] := by
  unfold standIn
  rw [List.find?_cons, decide_eq_true h]

/-- Other spans decide what stands at a position that a span does not cover. -/
theorem Body.standIn_cons {i : Instruction} (h : ¬r.Covers k) :
    b.standIn (r :: rs) (i, k) = b.standIn rs (i, k) := by
  unfold standIn
  rw [List.find?_cons, decide_eq_false h]

/-- For the instructions of a span stand its marks and its new code. -/
theorem Body.flatMap_standIn_span (hstart : r.start ≤ r.stop)
    (hstop : r.stop < b.instructions.length) :
    ((b.span r).zipIdx r.start).flatMap (b.standIn (r :: rs))
      = (b.span r).filter Instruction.isPseudo ++ r.code := by
  -- The start of the span has it all, and the other positions of the span have nothing.
  have hcons : b.span r = b.instructions[r.start] ::
      (b.instructions.drop (r.start + 1)).take (r.stop - r.start) := by
    rw [span, List.drop_eq_getElem_cons (by omega), Nat.sub_add_comm hstart, List.take_succ_cons]
  have hrest : (((b.instructions.drop (r.start + 1)).take (r.stop - r.start)).zipIdx
      (r.start + 1)).flatMap (b.standIn (r :: rs)) = [] := by
    rw [List.flatMap_eq_nil_iff]
    rintro ⟨i, k⟩ hx
    have hlow := List.le_snd_of_mem_zipIdx hx
    have hhigh := List.snd_lt_add_of_mem_zipIdx hx
    rw [List.length_take] at hhigh
    rw [standIn_of_covers ⟨by omega, by omega⟩, if_neg (by omega)]
  conv_lhs => rw [hcons]
  rw [List.zipIdx_cons, List.flatMap_cons, hrest, standIn_of_covers ⟨Nat.le_refl _, hstart⟩,
    if_pos rfl, List.append_nil]

/-- The instructions in front of all spans stay. -/
theorem Body.flatMap_standIn_front {m : List Instruction} (h : ∀ r ∈ rs, k + m.length ≤ r.start) :
    (m.zipIdx k).flatMap (b.standIn rs) = m := by
  have hstay : ∀ x ∈ m.zipIdx k, b.standIn rs x = [x.1] := by
    rintro ⟨i, j⟩ hx
    have hhigh := List.snd_lt_add_of_mem_zipIdx hx
    refine standIn_of_not_covers fun r hr hcovers => ?_
    have hlow := h r hr
    have hcovered := hcovers.1
    omega
  rw [List.flatMap_congr hstay, ← List.map_eq_flatMap, List.zipIdx_map_fst]

/-- The spans behind one decide what stands behind it. -/
theorem Body.flatMap_standIn_behind {m : List Instruction} (h : r.stop < k) :
    (m.zipIdx k).flatMap (b.standIn (r :: rs)) = (m.zipIdx k).flatMap (b.standIn rs) := by
  refine List.flatMap_congr ?_
  rintro ⟨i, j⟩ hx
  have hlow := List.le_snd_of_mem_zipIdx hx
  refine standIn_cons fun hcovers => ?_
  have hcovered := hcovers.2
  omega

/-- The segments put everything in its place. -/
theorem flatMap_new_eq_standIn (h : Chained b.instructions.length position rs) :
    (segments position rs (b.instructions.drop position)).flatMap Segment.new
      = ((b.instructions.drop position).zipIdx position).flatMap (b.standIn rs) := by
  induction rs generalizing position with
  | nil => rw [segments, flatMap_keep_new, Body.flatMap_standIn_front (List.forall_mem_nil _)]
  | cons r rest ih =>
      have hstarts : Chained b.instructions.length r.start (r :: rest) := ⟨Nat.le_refl _, h.2⟩
      have hcut := flatMap_old (l := b.instructions.drop position) h
      rcases h with ⟨hstart, hspan, hstop, hrest⟩
      have hdrop {k : Nat} (hk : position ≤ k) :
          (b.instructions.drop position).drop (k - position) = b.instructions.drop k := by
        rw [List.drop_drop, Nat.add_sub_cancel' hk]
      have hsegments : segments position (r :: rest) (b.instructions.drop position)
          = ((b.instructions.drop position).take (r.start - position)).map .keep
            ++ .span (b.span r) r.code
              :: segments (r.stop + 1) rest (b.instructions.drop (r.stop + 1)) := by
        rw [segments, hdrop hstart, hdrop (by omega), Body.span]
      have hfront : position + ((b.instructions.drop position).take (r.start - position)).length
          = r.start := by
        rw [List.length_take, List.length_drop]
        omega
      have hstay := Body.flatMap_standIn_front (b := b) fun r' hr' =>
        Nat.le_trans (Nat.le_of_eq hfront) (hstarts.le_start hr')
      have hlength : r.start + (b.span r).length = r.stop + 1 := by
        rw [Body.span, List.length_take, List.length_drop]
        omega
      rw [hsegments, List.flatMap_append, List.flatMap_cons, flatMap_keep_old, flatMap_old hrest]
        at hcut
      change _ ++ (b.span r ++ _) = _ at hcut
      rw [hsegments, List.flatMap_append, List.flatMap_cons, flatMap_keep_new, ih hrest]
      -- The positions in front of the span, in the span and behind it.
      conv_rhs => rw [← hcut]
      rw [List.zipIdx_append, List.zipIdx_append, List.flatMap_append, List.flatMap_append, hfront,
        hlength, hstay, Body.flatMap_standIn_span hspan hstop,
        Body.flatMap_standIn_behind (Nat.lt_succ_self r.stop)]
      rfl

/-- A span of a list of spans that are apart is the only one that covers its positions. -/
theorem find?_covers (happart : l.Pairwise Replacement.Apart) (hr : r ∈ l) (hk : r.Covers k) :
    (l.find? fun r => r.Covers k) = some r := by
  induction l with
  | nil => cases hr
  | cons r' rest ih =>
      rw [List.pairwise_cons] at happart
      rw [List.find?_cons]
      rcases List.mem_cons.1 hr with rfl | hr
      · rw [decide_eq_true hk]
      · -- The first span is apart from the one that covers the position.
        have hother : ¬r'.Covers k := by
          intro hk'
          rcases happart.1 r hr with h | h <;> omega
        rw [decide_eq_false hother]
        exact ih happart.2 hr

/-- Which span covers a position does not depend on the order of the spans. -/
theorem Body.standIn_perm (b : Body) (h : l'.Perm l) (happart : l.Pairwise Replacement.Apart) :
    b.standIn l' = b.standIn l := by
  have happart' := happart.perm h.symm Replacement.Apart.symm
  funext ⟨i, k⟩
  by_cases hcovered : ∃ r ∈ l, r.Covers k
  · rcases hcovered with ⟨r, hr, hk⟩
    unfold standIn
    rw [find?_covers happart hr hk, find?_covers happart' (h.mem_iff.2 hr) hk]
  · have hfree : ∀ r ∈ l, ¬r.Covers k := fun r hr hk => hcovered ⟨r, hr, hk⟩
    rw [standIn_of_not_covers hfree, standIn_of_not_covers fun r hr => hfree r (h.mem_iff.1 hr)]

/-- Replacements that lie apart may be given in any order. -/
theorem Body.substitute_perm (b : Body) (h : l'.Perm l) (happart : l.Pairwise Replacement.Apart) :
    b.substitute l' = b.substitute l := by
  unfold substitute
  rw [b.standIn_perm h happart, (h.map Replacement.growth).sum_eq, h.isEmpty_eq]

end Positions

/-- The code that is put in for a segment. -/
def Segment.code : Segment → List Instruction
  | keep _ => []
  | span _ code => code

section Marks

variable {segs : List Segment}

/-- The new code is that of the replacements in order. -/
theorem flatMap_code (position : Nat) (rs : List Replacement) (l : List Instruction) :
    (segments position rs l).flatMap Segment.code = rs.flatMap Replacement.code := by
  have hkeep (l : List Instruction) : (l.map Segment.keep).flatMap Segment.code = [] := by
    rw [List.flatMap_map, List.flatMap_eq_nil_iff]
    exact fun _ _ => rfl
  induction rs generalizing position l with
  | nil => exact hkeep l
  | cons r rest ih =>
      rw [segments, List.flatMap_append, List.flatMap_cons, hkeep, ih, List.flatMap_cons]
      rfl

/-- Labels are placed where they were, and where new code places them. -/
theorem count_flatMap_new (x : Label) (segs : List Segment) :
    (segs.flatMap Segment.new).count (.label x)
      = (segs.flatMap Segment.old).count (.label x)
        + (segs.flatMap Segment.code).count (.label x) := by
  induction segs with
  | nil => rfl
  | cons g rest ih =>
      -- A label in a span is kept, and the new code may add others.
      have hsegment : g.new.count (.label x)
          = g.old.count (.label x) + g.code.count (.label x) := by
        cases g with
        | keep i => rfl
        | span old code =>
            change (old.filter Instruction.isPseudo ++ code).count (.label x) = _
            rw [List.count_append, List.count_filter rfl]
            rfl
      simp only [List.flatMap_cons, List.count_append, ih, hsegment]
      omega

/-- If new code is without marks, the marks stay as they were. -/
theorem filter_flatMap_new (h : RealCode (segs.flatMap Segment.code)) :
    (segs.flatMap Segment.new).filter Instruction.isPseudo
      = (segs.flatMap Segment.old).filter Instruction.isPseudo := by
  induction segs with
  | nil => rfl
  | cons g rest ih =>
      rw [List.flatMap_cons] at h
      rw [List.flatMap_cons, List.flatMap_cons, List.filter_append, List.filter_append,
        ih fun i hi => h i (List.mem_append_right _ hi)]
      congr 1
      cases g with
      | keep i => rfl
      | span old code =>
          -- The new code has no marks of its own.
          have hcode : code.filter Instruction.isPseudo = [] := by
            rw [List.filter_eq_nil_iff]
            exact fun i hi => Bool.eq_false_iff.1 (h i (List.mem_append_left _ hi))
          change (old.filter Instruction.isPseudo ++ code).filter Instruction.isPseudo = _
          rw [List.filter_append, List.filter_filter, hcode, List.append_nil]
          simp only [Bool.and_self]
          rfl

end Marks

section Apply

variable {l l' : List Replacement}

/-- Splicing is the same for no spans as for some. -/
theorem Body.splice_eq (b : Body) (l : List Replacement) :
    b.splice l =
      { b with
        instructions := JvmFold.weave 0 (byStart l) b.instructions
        maxStack := l.foldl Replacement.raise b.maxStack
        modified := b.modified || !l.isEmpty } := by
  cases l with
  | nil =>
      have hnone : byStart [] = [] := by
        rw [byStart, List.mergeSort_nil, List.reverse_nil]
      rw [hnone]
      change b = { b with modified := b.modified || false }
      rw [Bool.or_false]
  | cons r rest =>
      change { b with instructions := _, maxStack := _, modified := true } = Body.mk ..
      rw [List.isEmpty_cons, Bool.not_false, Bool.or_true]

/-- Splicing replaces one span in place after the other, the one that starts last first. -/
theorem Body.apply_instructions_eq_foldr (b : Body)
    (hspan : ∀ r ∈ l, r.start ≤ r.stop ∧ r.stop < b.instructions.length) :
    (b.apply l).1.instructions = (byStart l).foldr Replacement.spliceInto b.instructions := by
  have hstarts : ∀ r ∈ byStart l, 0 ≤ r.start ∧ r.start ≤ r.stop ∧
      r.start ≤ b.instructions.length := by
    intro r hr
    have hr := hspan r (mem_byStart.1 hr)
    omega
  rw [apply, b.splice_eq, ← weave_eq_foldr (byStart_pairwise l) hstarts]
  rfl

/-- Splicing puts everything in its place, and counts the spans. -/
theorem Body.apply_eq (b : Body) (happart : l.Pairwise Replacement.Apart)
    (hspan : ∀ r ∈ l, r.start ≤ r.stop ∧ r.stop < b.instructions.length) :
    b.apply l = (b.substitute l, l.length) := by
  have hchained := chained_byStart happart hspan
  have hinstructions : JvmFold.weave 0 (byStart l) b.instructions
      = b.instructions.zipIdx.flatMap (b.standIn l) := by
    rw [← flatMap_new hchained (Nat.zero_add _), ← b.standIn_perm (byStart_perm l) happart]
    exact flatMap_new_eq_standIn hchained
  have hlimit : l.foldl Replacement.raise b.maxStack
      = (min (b.maxStack.toNat + (l.map Replacement.growth).sum) 65535).toUInt16 := by
    rw [← UInt16.toNat_inj, toNat_foldl_raise]
    exact (Nat.mod_eq_of_lt (by omega)).symm
  rw [apply, b.splice_eq, hinstructions, hlimit]
  rfl

/-- Splicing spans that are apart puts everything in its place, whatever their order, and counts
    them. A label is placed as often as it was, and as often as new code places it; if new code is
    without marks, the marks of the body stay, in order. -/
theorem Body.apply_eq_substitute (b : Body) (happart : l.Pairwise Replacement.Apart)
    (hspan : ∀ r ∈ l, r.start ≤ r.stop ∧ r.stop < b.instructions.length) :
    b.apply l = (b.substitute l, l.length) ∧
      (∀ l', l'.Perm l → b.apply l' = b.apply l) ∧
      (∀ x, (b.apply l).1.instructions.count (.label x)
        = b.instructions.count (.label x) + (l.flatMap Replacement.code).count (.label x)) ∧
      ((∀ r ∈ l, RealCode r.code) →
        (b.apply l).1.instructions.filter Instruction.isPseudo
          = b.instructions.filter Instruction.isPseudo) := by
  have hchained := chained_byStart happart hspan
  have hinstructions : (b.apply l).1.instructions
      = (JvmFold.segments 0 (byStart l) b.instructions).flatMap Segment.new := by
    rw [apply, b.splice_eq, flatMap_new hchained (Nat.zero_add _)]
  have hcode := flatMap_code 0 (byStart l) b.instructions
  refine ⟨b.apply_eq happart hspan, fun l' hl' => ?_, fun x => ?_, fun hreal => ?_⟩
  · rw [b.apply_eq happart hspan, b.apply_eq (happart.perm hl'.symm Replacement.Apart.symm)
      fun r hr => hspan r (hl'.mem_iff.1 hr), b.substitute_perm hl' happart, hl'.length_eq]
  · rw [hinstructions, count_flatMap_new, flatMap_old hchained, hcode]
    -- A count does not see the order in which the spans were woven.
    congr 1
    exact ((byStart_perm l).flatMap_right Replacement.code).count_eq _
  · rw [hinstructions, filter_flatMap_new, flatMap_old hchained]
    -- The code of the segments is that of the spans, by their starts.
    rw [hcode]
    intro i hi
    rcases List.mem_flatMap.1 hi with ⟨r, hr, hi⟩
    exact hreal r (mem_byStart.1 hr) i hi

end Apply

/-- A body that adds two numbers that it parses. -/
def adding : Body where
  maxStack := 2
  maxLocals := 0
  instructions := [.label ⟨0⟩, .ldc (.string "1"), .line 7,
    .invoke .invokestatic ⟨"java/lang/Integer", "parseInt", "(Ljava/lang/String;)I"⟩ false,
    .ldc (.string "2"), .label ⟨1⟩,
    .invoke .invokestatic ⟨"java/lang/Integer", "parseInt", "(Ljava/lang/String;)I"⟩ false,
    .simple .iadd, .simple .ireturn]

/-- The numbers in place of the calls, of which the second comes right behind the first. -/
def parsed : List Replacement :=
  [⟨4, 6, [.simple .iconst2], 1⟩, ⟨1, 3, [.simple .iconst1], 1⟩]

/-- The marks of the calls stand in front of the numbers. -/
theorem apply_eq_substitute_parsed :
    (adding.apply parsed).1.instructions
        = [.label ⟨0⟩, .line 7, .simple .iconst1, .label ⟨1⟩, .simple .iconst2, .simple .iadd,
          .simple .ireturn] ∧
      (adding.apply parsed).1.maxStack = 2 ∧ (adding.apply parsed).2 = 2 ∧
      adding.apply parsed.reverse = adding.apply parsed ∧
      (adding.apply parsed).1.instructions.count (.label ⟨1⟩) = 1 ∧
      (adding.apply parsed).1.instructions.filter Instruction.isPseudo
        = [.label ⟨0⟩, .line 7, .label ⟨1⟩] := by
  -- The two calls are apart and inside, and the numbers are real code.
  have happart : parsed.Pairwise Replacement.Apart :=
    List.pairwise_pair.2 (Or.inr (by decide))
  have hspan : ∀ r ∈ parsed, r.start ≤ r.stop ∧ r.stop < adding.instructions.length := by
    decide
  have hreal : ∀ r ∈ parsed, RealCode r.code := by
    intro r hr
    unfold RealCode
    revert r
    decide
  rcases adding.apply_eq_substitute happart hspan with ⟨happly, horder, hlabels, hmarks⟩
  refine ⟨?_, ?_, ?_, horder _ (List.reverse_perm parsed), ?_, ?_⟩
  · rw [happly]
    rfl
  · rw [happly]
    rfl
  · rw [happly]
    rfl
  · rw [hlabels]
    rfl
  · rw [hmarks hreal]
    rfl

end JvmFold
