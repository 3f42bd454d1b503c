import JvmFold.Proofs.Machine.Straight
import JvmFold.Proofs.Splice.Segments

/-!
# The Places of Segments

A body and what splicing makes of it name positions by labels, and a label
stands at another position in each. But it stands at the start of the same
segment, unless a span holds it, and so do the ends of the ranges that
handlers guard. A position inside a range stays inside for the same reason:
what stays of the body is in the same order with the segments around it.

A body and its spliced form are made ready together. Either a label is missing
and it is the same for both, or both are ready and match.

## Main definitions

* `places`: Where segments start.
* `AtPlace`: Positions at the start of one segment.
* `Matched`: Two methods that are ready and made of the same segments.

## Theorems

* `labelPositions_atPlace`: A label is at one segment in both bodies.
* `Matched.handler?_eq`: A handler guards a segment in both methods or in none.
* `ofBody_matched`: Two bodies of the same segments are made ready together.
-/

namespace JvmFold

/-- The position at which a segment starts, in what one side of the segments makes up. -/
def places (side : Segment → List Instruction) (segs : List Segment) (n : Nat) : Nat :=
  ((segs.take n).flatMap side).length

section Places

variable {side : Segment → List Instruction} {segs done todo : List Segment} {n m : Nat}
variable {g g' : Segment}

theorem places_zero : places side segs 0 = 0 := by
  rw [places, List.take_zero]
  rfl

/-- Behind all segments is the end of the code. -/
theorem places_length : places side segs segs.length = (segs.flatMap side).length := by
  rw [places, List.take_length]

/-- Segments behind a place do not move it. -/
theorem places_append : places side (done ++ todo) done.length = (done.flatMap side).length := by
  rw [places, List.take_left]

/-- A segment moves the next place by its length. -/
theorem places_succ (h : segs[n]? = some g) :
    places side segs (n + 1) = places side segs n + (side g).length := by
  rw [places, List.take_add_one, h, List.flatMap_append, List.length_append]
  congr 2
  exact List.flatMap_singleton side g

-- So places are in order.
theorem places_mono (h : n ≤ m) : places side segs n ≤ places side segs m := by
  have hsplit := List.take_append_drop n (segs.take m)
  rw [List.take_take, Nat.min_eq_left h] at hsplit
  rw [places, places, ← hsplit, List.flatMap_append, List.length_append]
  omega

/-- What lies behind a place are the segments from there on. -/
theorem drop_places : (segs.flatMap side).drop (places side segs n)
    = (segs.drop n).flatMap side := by
  have hsplit : segs.flatMap side = (segs.take n).flatMap side ++ (segs.drop n).flatMap side := by
    rw [← List.flatMap_append, List.take_append_drop]
  rw [hsplit]
  exact List.drop_left

/-- What starts at a segment is not empty, so the segments around it are told apart from it. -/
theorem places_le_iff (h : segs[n]? = some g) (hg : (side g).length = 1) :
    places side segs m ≤ places side segs n ↔ m ≤ n := by
  constructor
  · intro hle
    by_cases hmn : m ≤ n
    · exact hmn
    · have hnext : places side segs (n + 1) ≤ places side segs m := places_mono (by omega)
      rw [places_succ h, hg] at hnext
      omega
  · exact places_mono

/-- Segments that are not empty start at different positions. -/
theorem places_inj (h : segs[n]? = some g) (hg : (side g).length = 1)
    (h' : segs[m]? = some g') (hg' : (side g').length = 1)
    (heq : places side segs n = places side segs m) : n = m :=
  Nat.le_antisymm ((places_le_iff h' hg').1 heq.le) ((places_le_iff h hg).1 heq.ge)

end Places

/-- Positions in two bodies at the start of one segment, or none in both. -/
def AtPlace (segs : List Segment) (x x' : Option Nat) : Prop :=
  ∃ o : Option Nat, (∀ n ∈ o, n ≤ segs.length) ∧
    x = o.map (places Segment.old segs) ∧ x' = o.map (places Segment.new segs)

/-- A segment that does not place a label and is no span that does has no mark of it. -/
theorem Segment.unmarked {l : Label} (g : Segment) (hkeep : g ≠ .keep (.label l))
    (hspan : ∀ old code, g = .span old code →
      Instruction.label l ∉ old ∧ Instruction.label l ∉ code) :
    Instruction.label l ∉ g.old ∧ Instruction.label l ∉ g.new := by
  cases g with
  | keep i =>
      have hnot : Instruction.label l ∉ [i] := by
        rw [List.mem_singleton]
        intro heq
        exact hkeep (by rw [heq])
      exact ⟨hnot, hnot⟩
  | span old code =>
      have hnot := hspan old code rfl
      refine ⟨hnot.1, ?_⟩
      rw [Segment.new, List.mem_append, not_or]
      exact ⟨fun hmem => hnot.1 (List.mem_filter.mp hmem).1, hnot.2⟩

section Labels

variable {position : Nat} {found found' : Std.HashMap Label Nat} {l : Label}
variable {segs todo : List Segment}

/-- Labels are found part by part. -/
theorem labelPositions_append (code rest : List Instruction) :
    Prepared.labelPositions position found (code ++ rest)
      = Prepared.labelPositions (position + code.length)
          (Prepared.labelPositions position found code) rest := by
  induction code generalizing position found with
  | nil => rfl
  | cons i code ih =>
      rw [List.cons_append, List.length_cons, Nat.add_comm code.length, ← Nat.add_assoc]
      cases i <;> exact ih

/-- A label that is not in the code keeps its place. -/
theorem labelPositions_other {code : List Instruction} (h : Instruction.label l ∉ code) :
    (Prepared.labelPositions position found code)[l]? = found[l]? := by
  induction code generalizing position found with
  | nil => rfl
  | cons i code ih =>
      rw [List.mem_cons, not_or] at h
      cases i with
      | label m =>
          have hm : ¬ (m == l) = true := by
            intro heq
            exact h.1 (by rw [eq_of_beq heq])
          rw [Prepared.labelPositions, ih h.2, Std.HashMap.getElem?_insert, if_neg hm]
      | _ => exact ih h.2

/-- A label that no span holds is at one segment in both bodies. -/
theorem labelPositions_atPlace (done : List Segment) (hsegs : segs = done ++ todo)
    (hspan : ∀ old code, Segment.span old code ∈ todo →
      Instruction.label l ∉ old ∧ Instruction.label l ∉ code)
    (hfound : AtPlace segs found[l]? found'[l]?) :
    AtPlace segs
      (Prepared.labelPositions (places Segment.old segs done.length) found
        (todo.flatMap Segment.old))[l]?
      (Prepared.labelPositions (places Segment.new segs done.length) found'
        (todo.flatMap Segment.new))[l]? := by
  induction todo generalizing done found found' with
  | nil => exact hfound
  | cons g todo ih =>
      have hget : segs[done.length]? = some g := by
        rw [hsegs, List.getElem?_append_right (Nat.le_refl _), Nat.sub_self]
        rfl
      have hsegs' : segs = (done ++ [g]) ++ todo := by
        rw [hsegs, List.append_assoc]
        rfl
      have hlength : (done ++ [g]).length = done.length + 1 := List.length_append
      have hrest : ∀ old code, Segment.span old code ∈ todo →
          Instruction.label l ∉ old ∧ Instruction.label l ∉ code :=
        fun old code hmem => hspan old code (List.mem_cons_of_mem _ hmem)
      rw [List.flatMap_cons, List.flatMap_cons, labelPositions_append, labelPositions_append,
        ← places_succ hget, ← places_succ hget, ← hlength]
      refine ih (done ++ [g]) hsegs' hrest ?_
      -- A later mark takes the place of an earlier one in both bodies alike.
      by_cases hg : g = .keep (.label l)
      · rw [hg]
        refine ⟨some done.length, ?_, ?_, ?_⟩
        · intro n hn
          cases hn
          rw [hsegs, List.length_append]
          omega
        · exact Std.HashMap.getElem?_insert_self
        · exact Std.HashMap.getElem?_insert_self
      · have hnot := g.unmarked hg fun old code heq => hspan old code (heq ▸ List.mem_cons_self)
        rw [labelPositions_other hnot.1, labelPositions_other hnot.2]
        exact hfound

end Labels

/-- The guard with its positions taken through a function. -/
def Guard.map (f : Nat → Nat) (g : Guard) : Guard where
  start := f g.start
  stop := f g.stop
  target := f g.target
  catchType := g.catchType

/-- The guard of a handler. -/
def Handler.guard (labels : Std.HashMap Label Nat) (h : Handler) : Except Fault Guard := do
  return {
    start := ← Prepared.position labels h.start
    stop := ← Prepared.position labels h.stop
    target := ← Prepared.position labels h.target
    catchType := h.catchType : Guard }

/-- Two ways to get something ready that fail in the same way, or give results that belong
    together. -/
inductive Together {α β : Type} (R : α → β → Prop) : Except Fault α → Except Fault β → Prop where
  | ok {x : α} {y : β} : R x y → Together R (.ok x) (.ok y)
  | error {e : Fault} : Together R (.error e) (.error e)

section Guards

variable {segs : List Segment} {labels labels' : Std.HashMap Label Nat}

/-- What is related may be weakened. -/
theorem Together.imp {α β : Type} {R Q : α → β → Prop} {x : Except Fault α} {y : Except Fault β}
    (h : Together R x y) (himp : ∀ a b, R a b → Q a b) : Together Q x y := by
  cases h with
  | ok hR => exact Together.ok (himp _ _ hR)
  | error => exact Together.error

/-- Two parts fail together one after the other. -/
theorem Together.bind {α β γ δ : Type} {R : α → β → Prop} {Q : γ → δ → Prop}
    {x : Except Fault α} {y : Except Fault β} {f : α → Except Fault γ} {g : β → Except Fault δ}
    (h : Together R x y) (hf : ∀ a b, R a b → Together Q (f a) (g b)) :
    Together Q (x >>= f) (y >>= g) := by
  cases h with
  | ok hR => exact hf _ _ hR
  | error => exact Together.error

/-- A position in two bodies at the start of one segment. -/
def SamePlace (segs : List Segment) (x x' : Nat) : Prop :=
  ∃ n ≤ segs.length, x = places Segment.old segs n ∧ x' = places Segment.new segs n

/-- A guard in two bodies that guards the same segments. -/
def SameGuard (segs : List Segment) (x x' : Guard) : Prop :=
  ∃ g : Guard, g.target ≤ segs.length ∧
    x = g.map (places Segment.old segs) ∧ x' = g.map (places Segment.new segs)

/-- A label that is kept is found in both codes or in neither. -/
theorem position_together {l : Label} (h : AtPlace segs labels[l]? labels'[l]?) :
    Together (SamePlace segs) (Prepared.position labels l) (Prepared.position labels' l) := by
  rcases h with ⟨o, hle, hold, hnew⟩
  unfold Prepared.position
  rw [hold, hnew]
  cases o with
  | none => exact Together.error
  | some n => exact Together.ok ⟨n, hle n rfl, rfl, rfl⟩

-- So is a guard.
theorem guard_together {h : Handler}
    (hlabels : ∀ l ∈ [h.start, h.stop, h.target], AtPlace segs labels[l]? labels'[l]?) :
    Together (SameGuard segs) (h.guard labels) (h.guard labels') := by
  have hstart := position_together (hlabels h.start (by simp))
  have hstop := position_together (hlabels h.stop (by simp))
  have htarget := position_together (hlabels h.target (by simp))
  refine hstart.bind ?_
  rintro _ _ ⟨i, _, rfl, rfl⟩
  refine hstop.bind ?_
  rintro _ _ ⟨j, _, rfl, rfl⟩
  refine htarget.bind ?_
  rintro _ _ ⟨k, hk, rfl, rfl⟩
  exact Together.ok ⟨⟨i, j, k, h.catchType⟩, hk, rfl, rfl⟩

/-- Guards in two bodies that guard the same segments, one after the other. -/
def SameGuards (segs : List Segment) (x x' : List Guard) : Prop :=
  ∃ gs : List Guard, (∀ g ∈ gs, g.target ≤ segs.length) ∧
    x = gs.map (Guard.map (places Segment.old segs)) ∧
    x' = gs.map (Guard.map (places Segment.new segs))

/-- All guards are found in both codes or in neither. -/
theorem guards_together {hs : List Handler}
    (hlabels : ∀ h ∈ hs, ∀ l ∈ [h.start, h.stop, h.target], AtPlace segs labels[l]? labels'[l]?) :
    Together (SameGuards segs) (hs.mapM (Handler.guard labels))
      (hs.mapM (Handler.guard labels')) := by
  induction hs with
  | nil =>
      refine Together.ok ⟨[], ?_, rfl, rfl⟩
      intro g hg
      cases hg
  | cons h hs ih =>
      rw [List.mapM_cons, List.mapM_cons]
      -- The guards are made one by one, and the first that fails does so in both.
      refine (guard_together (hlabels h List.mem_cons_self)).bind ?_
      rintro _ _ ⟨g, hg, rfl, rfl⟩
      refine (ih fun h' hh' => hlabels h' (List.mem_cons_of_mem _ hh')).bind ?_
      rintro _ _ ⟨gs, hgs, rfl, rfl⟩
      refine Together.ok ⟨g :: gs, ?_, rfl, rfl⟩
      intro g' hg'
      rcases List.mem_cons.mp hg' with rfl | hmem
      · exact hg
      · exact hgs g' hmem

end Guards

/-- Two methods that are ready and made of the same segments. Labels count where something refers
    to them. -/
structure Matched (segs : List Segment) (referenced : List Label) (c : ClassFile)
    (p p' : Prepared) : Prop where
  member : p'.member = p.member
  owner : p.owner = c
  owner' : p'.owner = c
  maxLocals : p'.maxLocals = p.maxLocals
  code : p.code.toList = segs.flatMap Segment.old
  code' : p'.code.toList = segs.flatMap Segment.new
  labels : ∀ l ∈ referenced, AtPlace segs p.labels[l]? p'.labels[l]?
  guards : SameGuards segs p.guards p'.guards

section Matched

variable {segs : List Segment} {referenced : List Label} {c : ClassFile} {p p' : Prepared}
variable {n : Nat}

/-- Where a guard stands by segments, it covers a segment of one instruction by its number. -/
theorem covers_map {side : Segment → List Instruction} {g : Segment} (h : segs[n]? = some g)
    (hg : (side g).length = 1) (guard : Guard) :
    (decide ((guard.map (places side segs)).start ≤ places side segs n)
        && decide (places side segs n < (guard.map (places side segs)).stop))
      = (decide (guard.start ≤ n) && decide (n < guard.stop)) := by
  have hstart : places side segs guard.start ≤ places side segs n ↔ guard.start ≤ n :=
    places_le_iff h hg
  have hstop : places side segs n < places side segs guard.stop ↔ n < guard.stop := by
    rw [← Nat.not_le, places_le_iff h hg, Nat.not_le]
  simp only [Guard.map, hstart, hstop]

/-- An exception at an instruction that stays goes to one handler in both methods. -/
theorem Matched.handler?_atPlace (hm : Matched segs referenced c p p') {i : Instruction}
    (h : segs[n]? = some (.keep i)) (u : Universe) (name : String) :
    AtPlace segs (p.handler? u (places Segment.old segs n) name)
      (p'.handler? u (places Segment.new segs n) name) := by
  rcases hm.guards with ⟨gs, hle, hold, hnew⟩
  -- Whether a guard covers the instruction is the same by segments.
  have hside {side : Segment → List Instruction} (hone : (side (.keep i)).length = 1) :
      (fun g : Guard => decide (g.start ≤ places side segs n)
          && decide (places side segs n < g.stop)
          && g.catchType.all (u.isSubtype name)) ∘ Guard.map (places side segs)
        = fun g => decide (g.start ≤ n) && decide (n < g.stop)
          && g.catchType.all (u.isSubtype name) := by
    funext g
    rw [Function.comp_apply, covers_map h hone]
    rfl
  unfold Prepared.handler?
  rw [hold, hnew, List.find?_map, List.find?_map, hside rfl, hside rfl]
  generalize hfind : List.find? _ gs = found
  refine ⟨found.map (·.target), ?_, ?_, ?_⟩
  · intro n hn
    rw [Option.mem_def, Option.map_eq_some_iff] at hn
    rcases hn with ⟨g, rfl, rfl⟩
    exact hle g (List.mem_of_find?_eq_some hfind)
  · rw [Option.map_map, Option.map_map]
    rfl
  · rw [Option.map_map, Option.map_map]
    rfl

end Matched

/-- Two bodies of the same segments are made ready together. -/
theorem ofBody_together {segs : List Segment} {b b' : Body} {owner : ClassFile} {member : Member}
    (hold : b.instructions = segs.flatMap Segment.old)
    (hnew : b'.instructions = segs.flatMap Segment.new)
    (hhandlers : b'.handlers = b.handlers) (hlocals : b'.maxLocals = b.maxLocals)
    (hspan : ∀ old code, Segment.span old code ∈ segs → ∀ l ∈ b.referenced,
      Instruction.label l ∉ old ∧ Instruction.label l ∉ code) :
    Together (Matched segs b.referenced owner) (Prepared.ofBody owner member b)
      (Prepared.ofBody owner member b') := by
  have hlabels : ∀ l ∈ b.referenced, AtPlace segs
      (Prepared.labelPositions 0 ∅ b.instructions)[l]?
      (Prepared.labelPositions 0 ∅ b'.instructions)[l]? := by
    intro l hl
    rw [hold, hnew]
    have hempty : AtPlace segs (∅ : Std.HashMap Label Nat)[l]? (∅ : Std.HashMap Label Nat)[l]? := by
      refine ⟨none, ?_, Std.HashMap.getElem?_empty, Std.HashMap.getElem?_empty⟩
      intro n hn
      cases hn
    exact labelPositions_atPlace [] rfl (fun old code hmem => hspan old code hmem l hl)
      hempty
  -- The labels of the handlers are referenced, so no span holds them.
  have hhandled : ∀ h ∈ b.handlers, ∀ l ∈ [h.start, h.stop, h.target], l ∈ b.referenced := by
    intro h hh l hl
    rw [Body.referenced, List.mem_append]
    exact Or.inr (List.mem_flatMap.mpr ⟨h, hh, hl⟩)
  have hguards := guards_together fun h hh l hl => hlabels l (hhandled h hh l hl)
  have hbody : Prepared.ofBody owner member b' = (b.handlers.mapM (Handler.guard
      (Prepared.labelPositions 0 ∅ b'.instructions)) >>= fun guards => .ok
        { member, owner, maxLocals := b'.maxLocals.toNat, code := b'.instructions.toArray,
          labels := Prepared.labelPositions 0 ∅ b'.instructions, guards }) := by
    rw [← hhandlers]
    rfl
  rw [hbody]
  refine hguards.bind ?_
  intro guards guards' hsame
  refine Together.ok ⟨rfl, rfl, rfl, ?_, ?_, ?_, hlabels, hsame⟩
  · rw [hlocals]
  · exact hold
  · exact hnew

end JvmFold
