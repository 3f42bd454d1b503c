import JvmFold.Proofs.Analysis.Balance
import JvmFold.Proofs.Analysis.Blocks
import JvmFold.Proofs.Analysis.Frames
import JvmFold.Proofs.Analysis.Overlap
import JvmFold.Proofs.Body.Decoded
import JvmFold.Proofs.Splice.Arrivals

/-!
# Frames and Spans

A frame tells the types of the operand stack at one place of a body, and it is
right there only as long as the code around it stays around it. Splicing keeps
the marks of a span in front of the new code, so a frame inside a span comes to
stand in front of code that was in front of the frame.

Decoding gives every frame a label. Where something else refers to the label, a
block starts at the frame and no span holds it. Then what splicing makes of a
body is what it makes of the code in front of the frame, the frame, and what it
makes of the code behind it. Control comes to the frame with the operand stack
that it had, as long as new code does what the spans did.

But nothing has to refer to the label of a frame, and a frame does not count as
a reference to its own. So a span can hold a frame, and this is the only way in
which it can.

## Main definitions

* `Body.Names`: A label that stands at the place of a mark.
* `KeepsPlace`: A mark that stays between the same code.
* `FrameKept`: A frame that no span holds, with its place and the control that comes to it.
* `FrameMoved`: A frame that a span holds, with the code it comes to stand in front of.

## Theorems

* `segments_append`: Segments on the two sides of a position that no span holds.
* `depthAfter?_segments`: Balanced code in the place of balanced spans changes no depth behind it.
* `Body.exists_name`: Every frame of a decoded body has a label.
* `replacements_splices`: The replacements of a body can be spliced if they are apart.
* `frames_keep_place`: A frame keeps its place unless a span holds it and its label is its own.
-/

namespace JvmFold

section Sides

variable {last position q : Nat} {rs front back : List Replacement} {l : List Instruction}

/-- Every replacement ends before the code does. -/
theorem Chained.stop_lt (h : Chained last position rs) {r : Replacement} (hr : r ∈ rs) :
    r.stop < last := by
  induction rs generalizing position with
  | nil => cases hr
  | cons s rest ih =>
      rcases h with ⟨_, _, hstop, hrest⟩
      rcases List.mem_cons.1 hr with rfl | hr
      · exact hstop
      · exact ih hrest hr

/-- Spans in order start behind a position if the first one does. -/
theorem Chained.from (h : Chained last position rs) (hq : ∀ r ∈ rs, q ≤ r.start) :
    Chained last q rs := by
  cases rs with
  | nil => trivial
  | cons r rest => exact ⟨hq r List.mem_cons_self, h.2⟩

/-- Spans in order end in front of a position if all of them do. -/
theorem Chained.to (h : Chained last position (front ++ back)) (hq : ∀ r ∈ front, r.stop < q) :
    Chained q position front := by
  induction front generalizing position with
  | nil => trivial
  | cons r front ih =>
      rcases h with ⟨hstart, hspan, _, hrest⟩
      exact ⟨hstart, hspan, hq r List.mem_cons_self,
        ih hrest fun s hs => hq s (List.mem_cons_of_mem r hs)⟩

/-- The later replacements are chained as well. -/
theorem Chained.right (h : Chained last position (front ++ back)) : Chained last position back := by
  induction front generalizing position with
  | nil => exact h
  | cons r front ih =>
      rcases h with ⟨hstart, hspan, _, hrest⟩
      exact (ih hrest).mono (by omega)

/-- A position that no span holds has spans in front of it and spans behind. -/
theorem Chained.split (h : Chained last position rs) (hq : ∀ r ∈ rs, r.stop < q ∨ q ≤ r.start) :
    ∃ front back, rs = front ++ back ∧ (∀ r ∈ front, r.stop < q) ∧ ∀ r ∈ back, q ≤ r.start := by
  induction rs generalizing position with
  | nil => exact ⟨[], [], rfl, by simp, by simp⟩
  | cons r rest ih =>
      have hr := hq r List.mem_cons_self
      -- From the first replacement behind the place on, all of them are.
      by_cases hbehind : q ≤ r.start
      · refine ⟨[], r :: rest, rfl, by simp, fun s hs => ?_⟩
        rcases List.mem_cons.1 hs with rfl | hs
        · exact hbehind
        · have hle := h.2.2.2.le_start hs
          have hspan := h.2.1
          omega
      · rcases ih h.2.2.2 fun s hs => hq s (List.mem_cons_of_mem r hs) with
          ⟨front, back, rfl, hfront, hback⟩
        refine ⟨r :: front, back, rfl, List.forall_mem_cons.2 ⟨?_, hfront⟩, hback⟩
        omega

/-- What stands in front of all spans stays. -/
theorem segments_front {k : Nat} (h : Chained last (position + k) rs) :
    segments position rs l = (l.take k).map .keep ++ segments (position + k) rs (l.drop k) := by
  cases rs with
  | nil => rw [segments, segments, ← List.map_append, List.take_append_drop]
  | cons r rest =>
      -- The first span starts behind these instructions.
      have hstart := h.1
      have hspan := h.2.1
      have htake : l.take (r.start - position)
          = l.take k ++ (l.drop k).take (r.start - (position + k)) := by
        rw [← List.take_add]
        congr 1
        omega
      have hdrop : l.drop (r.start - position) = (l.drop k).drop (r.start - (position + k)) := by
        rw [List.drop_drop]
        congr 1
        omega
      have hrest : l.drop (r.stop + 1 - position)
          = (l.drop k).drop (r.stop + 1 - (position + k)) := by
        rw [List.drop_drop]
        congr 1
        omega
      rw [segments, segments, htake, hdrop, hrest, List.map_append, List.append_assoc]

/-- The segments on the two sides of a position that no span holds. -/
theorem segments_append (h : Chained last position (front ++ back)) (hle : position ≤ q)
    (hfront : ∀ r ∈ front, r.stop < q) (hback : ∀ r ∈ back, q ≤ r.start) :
    segments position (front ++ back) l
      = segments position front (l.take (q - position)) ++ segments q back (l.drop (q - position))
    := by
  induction front generalizing position l with
  | nil =>
      have hchained : Chained last (position + (q - position)) back := by
        rw [Nat.add_sub_cancel' hle]
        exact h.from hback
      rw [List.nil_append, segments_front hchained, Nat.add_sub_cancel' hle]
      rfl
  | cons r front ih =>
      rcases h with ⟨hstart, hspan, _, hrest⟩
      have hr := hfront r List.mem_cons_self
      -- The first span lies in front of the position, and cutting there leaves it whole.
      have hnext := ih (l := l.drop (r.stop + 1 - position)) hrest (by omega)
        fun s hs => hfront s (List.mem_cons_of_mem r hs)
      have hbehind : (l.drop (r.stop + 1 - position)).drop (q - (r.stop + 1))
          = l.drop (q - position) := by
        rw [List.drop_drop]
        congr 1
        omega
      have hfirst : (l.take (q - position)).take (r.start - position)
          = l.take (r.start - position) := by
        rw [List.take_take, Nat.min_eq_left (by omega)]
      have hold : ((l.take (q - position)).drop (r.start - position)).take (r.stop + 1 - r.start)
          = (l.drop (r.start - position)).take (r.stop + 1 - r.start) := by
        rw [List.drop_take, List.take_take, Nat.min_eq_left (by omega)]
      have hlater : (l.take (q - position)).drop (r.stop + 1 - position)
          = (l.drop (r.stop + 1 - position)).take (q - (r.stop + 1)) := by
        rw [List.drop_take]
        congr 1
        omega
      rw [List.cons_append, segments, hnext, hbehind, segments, hfirst, hold, hlater]
      simp only [List.append_assoc, List.cons_append]

end Sides

section Depths

variable {segs : List Segment} {floor d : Nat}

/-- Code that is balanced in the place of spans that are balanced changes no depth behind them. -/
theorem depthAfter?_segments
    (h : ∀ old code, Segment.span old code ∈ segs → RealCode code ∧
      ∃ k, Balanced (old.filter (!·.isPseudo)) k ∧ Balanced code k)
    (hle : floor ≤ d) :
    depthAfter? floor d ((segs.flatMap Segment.new).filter (!·.isPseudo))
      = depthAfter? floor d ((segs.flatMap Segment.old).filter (!·.isPseudo)) := by
  induction segs generalizing d with
  | nil => rfl
  | cons g segs ih =>
      have hrest : ∀ {e}, floor ≤ e → _ := fun he =>
        ih (fun old code hmem => h old code (List.mem_cons_of_mem g hmem)) he
      rw [List.flatMap_cons, List.flatMap_cons, List.filter_append, List.filter_append]
      cases g with
      | keep i =>
          change depthAfter? floor d ([i].filter (!·.isPseudo) ++ _)
            = depthAfter? floor d ([i].filter (!·.isPseudo) ++ _)
          cases hi : i.isPseudo with
          | true =>
              rw [List.filter_cons_of_neg (by simp [hi])]
              exact hrest hle
          | false =>
              rw [List.filter_cons_of_pos (by simp [hi])]
              simp only [List.filter_nil, List.cons_append, List.nil_append, depthAfter?]
              split
              · split
                · exact hrest (by omega)
                · rfl
              · rfl
      | span old code =>
          rcases h old code List.mem_cons_self with ⟨hreal, k, hold, hcode⟩
          -- The marks of the span count for nothing, so only its code is left.
          have hnew : (Segment.new (.span old code)).filter (!·.isPseudo) = code := by
            have hmarks : (old.filter Instruction.isPseudo).filter (!·.isPseudo) = [] := by
              rw [List.filter_filter]
              simp
            have hall : code.filter (!·.isPseudo) = code :=
              List.filter_eq_self.2 fun i hi => by simp [hreal i hi]
            rw [Segment.new, List.filter_append, hmarks, hall, List.nil_append]
          rw [hnew, Segment.old, depthAfter?_append (depthAfter?_lower (hcode d) hle),
            depthAfter?_append (depthAfter?_lower (hold d) hle)]
          exact hrest (by omega)

end Depths

/-- A label stands at a position of a list, with nothing but marks from there to another one. -/
def NamedIn (code : List Instruction) (l : Label) (q : Nat) : Prop :=
  ∃ k < q, code[k]? = some (.label l) ∧
    ∀ (j : Nat) (i : Instruction), k ≤ j → j ≤ q → code[j]? = some i → i.isPseudo = true

/-- A label of a body stands in front of a mark at the same place. -/
def Body.Names (b : Body) (l : Label) (q : Nat) : Prop :=
  NamedIn b.instructions l q

section Names

variable {a c : List Instruction} {l : Label} {q : Nat}

/-- Code behind a label changes nothing of its place. -/
theorem NamedIn.append_right (h : NamedIn a l q) (hq : q < a.length) (c : List Instruction) :
    NamedIn (a ++ c) l q := by
  rcases h with ⟨k, hk, hlabel, hmarks⟩
  refine ⟨k, hk, ?_, fun j i hkj hjq hj => hmarks j i hkj hjq ?_⟩
  · rw [List.getElem?_append_left (by omega), hlabel]
  · rwa [List.getElem?_append_left (by omega)] at hj

/-- Code in front of it moves it on. -/
theorem NamedIn.append_left (h : NamedIn c l q) (a : List Instruction) :
    NamedIn (a ++ c) l (a.length + q) := by
  rcases h with ⟨k, hk, hlabel, hmarks⟩
  refine ⟨a.length + k, by omega, ?_, fun j i hkj hjq hj => ?_⟩
  · rw [List.getElem?_append_right (by omega), Nat.add_sub_cancel_left, hlabel]
  · rw [List.getElem?_append_right (by omega)] at hj
    exact hmarks (j - a.length) i (by omega) (by omega) hj

end Names

namespace Body

section Frames

variable {t : LabelTable} {tables : Tables} {o q : Nat} {f : Frame}

/-- Among the marks at an offset a frame has the label of the offset in front of it. -/
theorem exists_namedIn_marksBefore (hnamed : FramesNamed t tables.frames)
    (hq : (marksBefore t.toList tables o)[q]? = some (.frame f)) :
    ∃ l, NamedIn (marksBefore t.toList tables o) l q := by
  have hmarks (j : Nat) (i : Instruction) (hj : (marksBefore t.toList tables o)[j]? = some i) :
      i.isPseudo = true := isPseudo_of_mem_marksBefore (List.mem_of_getElem? hj)
  -- A frame is none of the labels, so it stands behind all of them.
  have hlabels : (labelsAt t.toList o).length ≤ q := by
    by_contra hlt
    rw [marksBefore, List.getElem?_append_left (by omega)] at hq
    rcases List.mem_map.1 (List.mem_of_getElem? hq) with ⟨x, -, hx⟩
    cases hx
  have hframe : .frame f ∈ (tables.marksAt o).reverse := by
    rw [marksBefore, List.getElem?_append_right hlabels] at hq
    exact List.mem_of_getElem? hq
  have htable : tables.frames[o]? = some f := by
    simpa [Tables.marksAt] using hframe
  rcases hnamed o f htable with ⟨l, hl⟩
  have hmem : .label l ∈ labelsAt t.toList o :=
    mem_labelsAt.2 (Std.TreeMap.mem_toList_iff_getElem?_eq_some.2 hl)
  rcases List.mem_iff_getElem?.1 hmem with ⟨k, hk⟩
  have hlt : k < (labelsAt t.toList o).length := (List.getElem?_eq_some_iff.1 hk).1
  refine ⟨l, k, by omega, ?_, fun j i _ _ hj => hmarks j i hj⟩
  rw [marksBefore, List.getElem?_append_left hlt, hk]

/-- Between instructions a frame has a label in front of it. The induction is on the instructions;
    the marks of each stand in front of it. -/
theorem exists_namedIn_woven (hnamed : FramesNamed t tables.frames)
    {code : List (Nat × Instruction)} (hreal : ∀ x ∈ code, x.2.isPseudo = false) (stop : Nat)
    (hq : (code.flatMap (fun x => marksBefore t.toList tables x.1 ++ [x.2])
      ++ labelsAt t.toList stop)[q]? = some (.frame f)) :
    ∃ l, NamedIn (code.flatMap (fun x => marksBefore t.toList tables x.1 ++ [x.2])
      ++ labelsAt t.toList stop) l q := by
  induction code generalizing q with
  | nil =>
      rw [List.flatMap_nil, List.nil_append] at hq
      rcases List.mem_map.1 (List.mem_of_getElem? hq) with ⟨x, -, hx⟩
      cases hx
  | cons x code ih =>
      rw [List.forall_mem_cons] at hreal
      rw [List.flatMap_cons, List.append_assoc, List.append_assoc] at hq ⊢
      by_cases hmarks : q < (marksBefore t.toList tables x.1).length
      · rw [List.getElem?_append_left hmarks] at hq
        rcases exists_namedIn_marksBefore hnamed hq with ⟨l, hl⟩
        exact ⟨l, hl.append_right hmarks _⟩
      · -- Behind the marks stands the instruction itself, which is no frame.
        have hbehind : ∃ k, q = (marksBefore t.toList tables x.1).length + k :=
          ⟨q - (marksBefore t.toList tables x.1).length, by omega⟩
        rcases hbehind with ⟨k, rfl⟩
        rw [List.getElem?_append_right (by omega), Nat.add_sub_cancel_left] at hq
        cases k with
        | zero =>
            have hself : x.2 = .frame f := Option.some.inj hq
            rw [hself] at hreal
            exact absurd hreal.1 (by simp [Instruction.isPseudo])
        | succ k =>
            rcases ih hreal.2 hq with ⟨l, hl⟩
            have hbehind := hl.append_left [x.2]
            rw [List.length_singleton, Nat.add_comm 1 k] at hbehind
            exact ⟨l, hbehind.append_left _⟩

/-- Every frame of a decoded body has a label at its place. -/
theorem exists_name {data : Bytes} {p : Pool} {info : MethodInfo} {b : Body}
    (h : decode data p info = .ok b) (hf : b.instructions[q]? = some (.frame f)) :
    ∃ l, b.Names l q := by
  rcases exists_named_layout h with ⟨t, tables, code, stop, hlayout, hnamed⟩
  have hreal : ∀ x ∈ code.map fun x => (x.pc, x.instruction.relabel id), x.2.isPseudo = false := by
    intro x hx
    rcases List.mem_map.1 hx with ⟨y, hy, rfl⟩
    rw [Instruction.relabel_id]
    exact (hlayout.genuine y hy).1
  unfold Names
  rw [hlayout.instructions, map_woven] at hf ⊢
  exact exists_namedIn_woven hnamed hreal stop hf

end Frames

end Body

/-- A mark stays between the same code: what splicing makes of a body is what it makes of the code
    up to a position, of the code from there to the mark, the mark, and what it makes of the code
    behind. If the spans in between and their new code leave their values and take nothing else, the
    stack is as deep in front of the mark as it was. -/
structure KeepsPlace (b : Body) (rs : List Replacement) (p q : Nat) (i : Instruction)
    (front between back : List Replacement) : Prop where
  order : byStart rs = (front ++ between) ++ back
  front_lt : ∀ r ∈ front, r.stop < p
  between_lt : ∀ r ∈ between, p ≤ r.start ∧ r.stop < q
  lt_back : ∀ r ∈ back, q < r.start
  spliced : (b.splice rs).instructions = weave 0 front (b.instructions.take p)
    ++ (weave p between ((b.instructions.take q).drop p)
      ++ i :: weave (q + 1) back (b.instructions.drop (q + 1)))
  depth : (∀ r ∈ between, Balanced ((b.span r).filter (!·.isPseudo)) r.slots ∧
      Balanced r.code r.slots) → ∀ floor d, floor ≤ d →
    depthAfter? floor d ((weave p between ((b.instructions.take q).drop p)).filter (!·.isPseudo))
      = depthAfter? floor d (((b.instructions.take q).drop p).filter (!·.isPseudo))

/-- The place of an instruction or mark that no span holds, behind the spans in front of it. -/
def newPlace (b : Body) (front : List Replacement) (q : Nat) : Nat :=
  (weave 0 front (b.instructions.take q)).length

section Keeps

variable {b : Body} {rs : List Replacement} {p q : Nat} {i : Instruction}

/-- The spans around an instruction or mark that none of them holds, and the segments around it. -/
theorem exists_sides (h : b.Splices rs) (hi : b.instructions[q]? = some i)
    (hq : ∀ r ∈ rs, r.stop < q ∨ q < r.start) :
    ∃ front back, byStart rs = front ++ back ∧ Chained q 0 front ∧
      Chained b.instructions.length (q + 1) back ∧
      b.segments rs = segments 0 front (b.instructions.take q)
        ++ .keep i :: segments (q + 1) back (b.instructions.drop (q + 1)) := by
  have hchained := chained_byStart h.apart h.inside
  have hinside : ∀ r ∈ byStart rs, r.start ≤ r.stop := fun r hr =>
    (h.inside r (mem_byStart.1 hr)).1
  have hsides : ∀ r ∈ byStart rs, r.stop < q ∨ q < r.start := fun r hr =>
    hq r (mem_byStart.1 hr)
  unfold Body.segments
  generalize byStart rs = sorted at hchained hinside hsides ⊢
  rcases hchained.split fun r hr => (hsides r hr).imp_right Nat.le_of_lt with
    ⟨front, back, rfl, hfront, hback⟩
  -- The spans behind start behind the instruction itself.
  have hbehind : Chained b.instructions.length (q + 1) back := by
    refine hchained.right.from fun r hr => ?_
    have hstart := hback r hr
    have hspan := hinside r (List.mem_append_right front hr)
    rcases hsides r (List.mem_append_right front hr) with hside | hside <;> omega
  have hlt : q < b.instructions.length := (List.getElem?_eq_some_iff.1 hi).1
  have hdrop : b.instructions.drop q = i :: b.instructions.drop (q + 1) := by
    rw [List.drop_eq_getElem_cons hlt, (List.getElem?_eq_some_iff.1 hi).2]
  refine ⟨front, back, rfl, hchained.to hfront, hbehind, ?_⟩
  rw [segments_append hchained (Nat.zero_le q) hfront hback, Nat.sub_zero,
    segments_front hbehind, hdrop]
  rfl

/-- What is woven around an instruction or mark that stays. -/
theorem splice_of_sides {front back : List Replacement} (h : b.Splices rs)
    (hi : b.instructions[q]? = some i) (hfront : Chained q 0 front)
    (hback : Chained b.instructions.length (q + 1) back)
    (hsegments : b.segments rs = segments 0 front (b.instructions.take q)
      ++ .keep i :: segments (q + 1) back (b.instructions.drop (q + 1))) :
    (b.splice rs).instructions = weave 0 front (b.instructions.take q)
      ++ i :: weave (q + 1) back (b.instructions.drop (q + 1)) := by
  have hlt : q < b.instructions.length := (List.getElem?_eq_some_iff.1 hi).1
  have hwhole := flatMap_new (l := b.instructions) (chained_byStart h.apart h.inside)
    (Nat.zero_add _)
  have hleft := flatMap_new (l := b.instructions.take q) hfront
    (by rw [List.length_take]; omega)
  have hright := flatMap_new (l := b.instructions.drop (q + 1)) hback
    (by rw [List.length_drop]; omega)
  rw [splice_instructions, ← hwhole, ← hleft, ← hright]
  change (b.segments rs).flatMap Segment.new = _
  rw [hsegments, List.flatMap_append, List.flatMap_cons]
  rfl

/-- An instruction or mark that no span holds stays between the same code. -/
theorem keepsPlace_of_splices (h : b.Splices rs) (hcode : ∀ r ∈ rs, RealCode r.code)
    (hi : b.instructions[q]? = some i) (hq : ∀ r ∈ rs, r.stop < q ∨ q < r.start) (hpq : p ≤ q)
    (hp : ∀ r ∈ rs, r.stop < p ∨ p ≤ r.start) :
    ∃ front between back, KeepsPlace b rs p q i front between back := by
  rcases exists_sides h hi hq with ⟨left, back, horder, hleft, hback, hsegments⟩
  have hspliced := splice_of_sides h hi hleft hback hsegments
  have hmem : ∀ r ∈ left, r ∈ rs := fun r hr =>
    mem_byStart.1 (horder ▸ List.mem_append_left back hr)
  rcases hleft.split fun r hr => hp r (hmem r hr) with ⟨front, between, rfl, hfront, hbetween⟩
  -- The spans in front are parted once more, at the place that is looked back to.
  have hmiddle : Chained q p between := hleft.right.from hbetween
  have hlt : q < b.instructions.length := (List.getElem?_eq_some_iff.1 hi).1
  have htake : (b.instructions.take q).take p = b.instructions.take p := by
    rw [List.take_take, Nat.min_eq_left hpq]
  have hbehind : p + ((b.instructions.take q).drop p).length = q := by
    rw [List.length_drop, List.length_take]
    omega
  have hwoven := flatMap_new hmiddle hbehind
  have hwhole := flatMap_new (l := b.instructions.take q) hleft (by rw [List.length_take]; omega)
  have hfirst := flatMap_new (l := b.instructions.take p) (hleft.to hfront)
    (by rw [List.length_take]; omega)
  refine ⟨front, between, back, horder, hfront, fun r hr => ⟨hbetween r hr, hmiddle.stop_lt hr⟩,
    fun r hr => hback.le_start hr, ?_, fun hbalanced floor d hle => ?_⟩
  · rw [hspliced, ← hwhole, segments_append hleft (Nat.zero_le p) hfront hbetween, Nat.sub_zero,
      htake, List.flatMap_append, hfirst, hwoven, List.append_assoc]
  · have hkept := flatMap_old (l := (b.instructions.take q).drop p) hmiddle
    rw [← hwoven]
    nth_rewrite 2 [← hkept]
    refine depthAfter?_segments (fun old code hspan => ?_) hle
    rcases mem_segments hspan hmiddle with ⟨r, hr, rfl, rfl⟩
    have hold : ((b.instructions.take q).drop r.start).take (r.stop + 1 - r.start) = b.span r := by
      have hstop := hmiddle.stop_lt hr
      rw [Body.span, List.drop_take, List.take_take, Nat.min_eq_left (by omega)]
    rw [hold]
    exact ⟨hcode r (hmem r (List.mem_append_right front hr)), r.slots, hbalanced r hr⟩

/-- The marks of a span come to stand in front of its new code. -/
theorem splice_of_mem (h : b.Splices rs) {r : Replacement} (hr : r ∈ rs) :
    ∃ front back, byStart rs = front ++ r :: back ∧ (b.splice rs).instructions
      = weave 0 front (b.instructions.take r.start)
        ++ ((b.span r).filter Instruction.isPseudo
          ++ (r.code ++ weave (r.stop + 1) back (b.instructions.drop (r.stop + 1)))) := by
  have hchained := chained_byStart h.apart h.inside
  have hwhole := flatMap_new (l := b.instructions) hchained (Nat.zero_add _)
  rcases List.append_of_mem (mem_byStart.2 hr) with ⟨front, back, horder⟩
  rw [horder] at hchained
  have hback := hchained.right.2.2.2
  have hinside := h.inside r hr
  -- What comes earlier in the order and is apart ends earlier.
  have hfront : ∀ s ∈ front, s.stop < r.start := by
    intro s hs
    have hsorted := byStart_pairwise rs
    have happart : (byStart rs).Pairwise Replacement.Apart :=
      h.apart.perm ((List.reverse_perm _).trans (List.mergeSort_perm rs _)).symm
        Replacement.Apart.symm
    rw [horder, List.pairwise_append] at hsorted happart
    have hle := hsorted.2.2 s hs r List.mem_cons_self
    rcases happart.2.2 s hs r List.mem_cons_self with hlt | hlt <;> omega
  have hfirst := flatMap_new (l := b.instructions.take r.start) (hchained.to hfront)
    (by rw [List.length_take]; omega)
  have hlast := flatMap_new (l := b.instructions.drop (r.stop + 1)) hback
    (by rw [List.length_drop]; omega)
  have hsegments : segments 0 (byStart rs) b.instructions
      = segments 0 front (b.instructions.take r.start)
        ++ .span (b.span r) r.code :: segments (r.stop + 1) back (b.instructions.drop (r.stop + 1))
      := by
    have hstarts : ∀ s ∈ r :: back, r.start ≤ s.start := by
      refine List.forall_mem_cons.2 ⟨Nat.le_refl _, fun s hs => ?_⟩
      have hle := hback.le_start hs
      omega
    have hbehind : (b.instructions.drop r.start).drop (r.stop + 1 - r.start)
        = b.instructions.drop (r.stop + 1) := by
      rw [List.drop_drop]
      congr 1
      omega
    rw [horder, segments_append hchained (Nat.zero_le _) hfront hstarts, segments, Nat.sub_self,
      Nat.sub_zero, hbehind]
    rfl
  refine ⟨front, back, horder, ?_⟩
  rw [splice_instructions, ← hwhole, hsegments, ← hfirst, ← hlast, List.flatMap_append,
    List.flatMap_cons, Segment.new, List.append_assoc]

/-- Control comes to an instruction or mark that no span holds as it came to it before. -/
theorem arriveAlike_of_splices (h : b.Splices rs) (hi : b.instructions[q]? = some i)
    (hq : ∀ r ∈ rs, r.stop < q ∨ q < r.start) :
    ∃ front back, byStart rs = front ++ back ∧ (∀ r ∈ front, r.stop < q) ∧
      (∀ r ∈ back, q < r.start) ∧
      ∀ (owner : ClassFile) (member : Member) (env : Env) (same : Machine → Machine → Prop),
        Respected same owner env → (∀ r ∈ rs, r.Faithful same b owner env) →
        Together (fun x y => ArriveAlike x y env same q (newPlace b front q))
          (Prepared.ofBody owner member b) (Prepared.ofBody owner member (b.splice rs)) := by
  -- The replacements lie on one side of the instruction or on the other.
  rcases exists_sides h hi hq with ⟨front, back, horder, hfront, hback, hsegments⟩
  refine ⟨front, back, horder, fun r hr => hfront.stop_lt hr, fun r hr => hback.le_start hr,
    fun owner member env same hrespected hcode => ?_⟩
  refine (h.ofBody_together owner member).imp fun x y hm => ?_
  have hlt : q < b.instructions.length := (List.getElem?_eq_some_iff.1 hi).1
  have hkeep : (b.segments rs)[(segments 0 front (b.instructions.take q)).length]?
      = some (.keep i) := by
    rw [hsegments, List.getElem?_append_right (Nat.le_refl _), Nat.sub_self]
    rfl
  have hplace : places Segment.old (b.segments rs) (segments 0 front (b.instructions.take q)).length
      = q := by
    rw [hsegments, places_append, flatMap_old hfront, List.length_take]
    omega
  have hplace' : places Segment.new (b.segments rs)
      (segments 0 front (b.instructions.take q)).length = newPlace b front q := by
    rw [hsegments, places_append, flatMap_new hfront (by rw [List.length_take]; omega)]
    rfl
  have harrive := h.arriveAlike hm hrespected hcode hkeep
  rwa [hplace, hplace'] at harrive

end Keeps

section Runs

variable (s : Subject) (t : Tracker) (env : Env) (m : Machine)

/-- The spans that are replaced start at instructions and lie inside the body. -/
theorem replacements_within :
    ∀ r ∈ (Analysis.replacements s t env m).1.1, r.Within s 0 s.code.size := by
  rcases Analysis.replacements_eq s t env m with ⟨t', hclears, heq⟩
  rcases before_settled s t env m (Nat.le_refl _) with ⟨hstacked, hsettled⟩
  rw [heq]
  exact (hsettled.clears hstacked.ordered hclears).within

end Runs

section Replacements

variable {config : Config} {pass : Nat} {owner : ClassFile} {method : Method} {b : Body}
variable {t : Tracker} {env : Env} {m : Machine}

/-- The replacements of a body can be spliced if they are apart: nothing refers to a label in a
    span, and there are no labels in new code. -/
theorem replacements_splices
    (hapart : (Analysis.replacements (.ofBody config pass owner method b) t env m).1.1.Pairwise
      Replacement.Apart) :
    b.Splices (Analysis.replacements (.ofBody config pass owner method b) t env m).1.1 where
  apart := hapart
  inside r hr := by
    have hwithin := replacements_within _ t env m r hr
    exact ⟨hwithin.start_le, hwithin.stop_lt⟩
  unlabelled r hr l hl := by
    refine ⟨fun hmem => ?_, (replacements_realCode _ t env m r hr).label_not_mem l⟩
    rcases List.mem_iff_getElem?.1 hmem with ⟨k, hk⟩
    rw [Body.span, List.getElem?_take, List.getElem?_drop] at hk
    split at hk
    next hlt =>
      have hunbroken := replacements_unbroken _ t env m r hr
      exact hunbroken.not_referenced (Nat.le_add_right _ _) (by omega) hk hl
    · cases hk

/-- If something refers to a label at the place of a mark, no span holds the mark. -/
theorem not_referenced_of_within {r : Replacement} {q : Nat} {l : Label}
    (hr : r ∈ (Analysis.replacements (.ofBody config pass owner method b) t env m).1.1)
    (hstart : r.start ≤ q) (hstop : q ≤ r.stop) (hl : b.Names l q) :
    r.start < q ∧ l ∉ b.referenced := by
  rcases hl with ⟨k, hk, hlabel, hmarks⟩
  rcases (replacements_within _ t env m r hr).isReal with ⟨j, hj, hreal⟩
  have hj' : b.instructions[r.start]? = some j := List.getElem?_toArray.symm.trans hj
  -- The span starts at an instruction, and from the label on there are only marks.
  have hbefore : r.start < k := by
    by_contra hle
    have hpseudo := hmarks r.start j (by omega) hstart hj'
    rw [hreal] at hpseudo
    cases hpseudo
  have hunbroken := replacements_unbroken _ t env m r hr
  exact ⟨by omega, hunbroken.not_referenced (Nat.le_of_lt hbefore) (by omega) hlabel⟩

end Replacements

/-- A frame that no span holds: it stays between the same code, from every position in front of it
    that no span holds either, and control comes to it as before if new code does what the spans
    did. -/
structure FrameKept (b : Body) (rs : List Replacement) (owner : ClassFile) (q : Nat) (f : Frame) :
    Prop where
  outside : ∀ r ∈ rs, r.stop < q ∨ q < r.start
  place : ∀ p ≤ q, (∀ r ∈ rs, r.stop < p ∨ p ≤ r.start) →
    ∃ front between back, KeepsPlace b rs p q (.frame f) front between back
  control : ∃ front back, byStart rs = front ++ back ∧ (∀ r ∈ front, r.stop < q) ∧
    (∀ r ∈ back, q < r.start) ∧
    ∀ (member : Member) (env : Env) (same : Machine → Machine → Prop),
      Respected same owner env → (∀ r ∈ rs, r.Faithful same b owner env) →
      Together (fun x y => ArriveAlike x y env same q (newPlace b front q))
        (Prepared.ofBody owner member b) (Prepared.ofBody owner member (b.splice rs))

/-- A frame that a span holds behind its first instruction: it comes to stand in front of all of the
    new code. -/
def FrameMoved (b : Body) (rs : List Replacement) (q : Nat) (f : Frame) : Prop :=
  ∃ r ∈ rs, r.start < q ∧ q ≤ r.stop ∧ ∃ front back, byStart rs = front ++ r :: back ∧
    (b.splice rs).instructions = weave 0 front (b.instructions.take r.start)
      ++ ((b.span r).filter Instruction.isPseudo
        ++ (r.code ++ weave (r.stop + 1) back (b.instructions.drop (r.stop + 1)))) ∧
    .frame f ∈ (b.span r).filter Instruction.isPseudo

namespace FramedCast

/-- The bytes of the body: its frames are at the cast and behind the jump. -/
def data : Bytes :=
  [0, 1, 0, 0, 0, 0, 0, 9, 0x01, 0xC0, 0, 3, 0x57, 0xA7, 0, 3, 0xB1, 0, 0,
    0, 1, 0, 1, 0, 0, 0, 5, 0, 2, 65, 5, 6]

/-- The names of the example. -/
def pool : Pool :=
  ⟨#[.unusable, .utf8 "StackMapTable" (ModifiedUtf8.encode "StackMapTable"),
    .utf8 "java/lang/String" (ModifiedUtf8.encode "java/lang/String"), .classRef 2], ∅⟩

def info : MethodInfo :=
  ⟨⟨"demo/Cast", "run", "()V"⟩, true⟩

/-- The body is read from its bytes. -/
theorem decode_data : Body.decode data pool info = .ok body := by
  cbv

/-- Its frame belongs to the block at 7. -/
theorem names_block : body.Names ⟨0⟩ 7 := by
  refine ⟨6, by decide, rfl, fun j i hle hlt hj => ?_⟩
  have heq : j = 6 ∨ j = 7 := by omega
  rcases heq with rfl | rfl
  · cases hj
    rfl
  · cases hj
    rfl

end FramedCast

/-- Every frame of a decoded body has a label at its place, and no span that is replaced holds the
    frame if something refers to such a label. Where spans are apart, a frame that none of them
    holds keeps its place, its stack and the control that comes to it, and any other one moves. -/
theorem frames_keep_place {data : Bytes} {pool : Pool} {info : MethodInfo} {b : Body}
    (hb : Body.decode data pool info = .ok b) (config : Config) (pass : Nat) (owner : ClassFile)
    (method : Method) (t : Tracker) (env : Env) (m : Machine) {rs : List Replacement}
    (hrs : (Analysis.replacements (.ofBody config pass owner method b) t env m).1.1 = rs)
    {q : Nat} {f : Frame} (hf : b.instructions[q]? = some (.frame f)) :
    (∃ l, b.Names l q) ∧
    (∀ l ∈ b.referenced, b.Names l q → ∀ r ∈ rs, r.stop < q ∨ q < r.start) ∧
    (rs.Pairwise Replacement.Apart → FrameKept b rs owner q f ∨ FrameMoved b rs q f) := by
  subst hrs
  refine ⟨Body.exists_name hb hf, fun l hl hname r hr => ?_, fun hapart => ?_⟩
  · by_contra hheld
    exact (not_referenced_of_within hr (by omega) (by omega) hname).2 hl
  have hsplices := replacements_splices hapart
  by_cases hq : ∀ r ∈ (Analysis.replacements (.ofBody config pass owner method b) t env m).1.1,
      r.stop < q ∨ q < r.start
  · refine Or.inl ⟨hq, fun p hpq hp => ?_, ?_⟩
    · exact keepsPlace_of_splices hsplices (replacements_realCode _ t env m) hf hq hpq hp
    · rcases arriveAlike_of_splices hsplices hf hq with
        ⟨front, back, horder, hfront, hback, harrive⟩
      exact ⟨front, back, horder, hfront, hback, harrive owner⟩
  · -- A span holds the frame, and its marks are put in front of the new code.
    push Not at hq
    rcases hq with ⟨r, hr, hstop, hstart⟩
    rcases Body.exists_name hb hf with ⟨l, hl⟩
    have hlt := (not_referenced_of_within hr hstart hstop hl).1
    rcases splice_of_mem hsplices hr with ⟨front, back, horder, hspliced⟩
    refine Or.inr ⟨r, hr, hlt, hstop, front, back, horder, hspliced, List.mem_filter.2 ⟨?_, rfl⟩⟩
    rw [Body.span, List.mem_iff_getElem?]
    refine ⟨q - r.start, ?_⟩
    rw [List.getElem?_take, if_pos (by omega), List.getElem?_drop, Nat.add_sub_cancel' hstart, hf]

open FramedCast in
/-- The frame behind the jump keeps its place, since the jump refers to its label. -/
theorem framedCast_keeps_place :
    Body.decode data pool info = .ok body ∧ body.instructions[7]? = some (.frame ⟨[], []⟩) ∧
    body.Names ⟨0⟩ 7 ∧ ⟨0⟩ ∈ body.referenced ∧ (∀ r ∈ [span], r.stop < 7 ∨ 7 < r.start) ∧
    FrameKept body [span] owner 7 ⟨[], []⟩ := by
  have hframes := frames_keep_place decode_data config 1 owner method (Recorded.tracker ∅)
    Recorded.env Recorded.machine (replacements_eq config 1 owner method _ _ _) (q := 7)
    (f := ⟨[], []⟩) rfl
  have hreferenced : (⟨0⟩ : Label) ∈ body.referenced := by decide
  have houtside := hframes.2.1 ⟨0⟩ hreferenced names_block
  refine ⟨decode_data, rfl, names_block, hreferenced, houtside, ?_⟩
  rcases hframes.2.2 (List.pairwise_singleton _ _) with hkept | ⟨r, hr, hstart, hstop, -⟩
  · exact hkept
  · rcases houtside r hr with hside | hside <;> omega

open FramedCast in
/-- The frame at the cast stands inside the span that is replaced. It told of the `null` on the
    stack, and comes to stand in front of the instruction that puts it there. -/
theorem framedCast_frame_moved :
    Body.decode data pool info = .ok body ∧
    (Analysis.replacements (.ofBody config 1 owner method body) (Recorded.tracker ∅) Recorded.env
      Recorded.machine).1.1 = [span] ∧
    span.start < 2 ∧ 2 < span.stop ∧ body.instructions[2]? = some (.frame frame) ∧
    body.instructions.take 3 = [.simple .aconstNull, .label ⟨1⟩, .frame frame] ∧
    (body.splice [span]).instructions.take 3 = [.label ⟨1⟩, .frame frame, .simple .aconstNull] := by
  refine ⟨decode_data, replacements_eq config 1 owner method _ _ _, by decide, by decide, rfl, rfl,
    ?_⟩
  simp only [Body.splice, byStart, List.mergeSort]
  rfl

end JvmFold
