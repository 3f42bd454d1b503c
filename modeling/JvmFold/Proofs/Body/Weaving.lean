import JvmFold.Proofs.Body.Placement
import JvmFold.Proofs.Body.Tables

/-!
# Marks Between Instructions

Decoding weaves labels, lines and frames between the instructions. Labels that
come up at offsets of instructions only, or at the end, all find their place,
and the result is again a row of instructions and marks one behind the other.
So positions in it go by offsets as they do in the body that was written, and
the two can be compared offset by offset.

Lines and frames come out of their tables by offset. They went in sorted by
offset, so grouping them by offset gives them back in the order they had.

## Main definitions

* `Body.entries`: What marks of a kind say, with their offsets.
* `Body.woven`: Instructions with marks between them.

## Theorems

* `Body.weave_eq`: Weaving succeeds.
* `Body.Spaced.positionOf`: The position of a label by its offset.
* `Body.Spaced.woven`: Marks do not move instructions.
* `Body.entries_woven`: The marks that were woven in.
* `Body.flatMap_filter`: Grouping what is sorted.
-/

namespace JvmFold

namespace Body

/-- The marks of the labels that belong to an offset. -/
def labelsAt (labels : List (Nat × Label)) (o : Nat) : List Instruction :=
  (labels.filter fun x => x.1 = o).map fun x => .label x.2

section Weave

variable {method : Member} {length : Nat} {tables : Tables} {labels : List (Nat × Label)}
variable {rest : List (Nat × Instruction)}

theorem labelsAt_cons_self (l : Label) (o : Nat) :
    labelsAt ((o, l) :: labels) o = .label l :: labelsAt labels o := by
  unfold labelsAt
  rw [List.filter_cons_of_pos (by simp)]
  rfl

theorem labelsAt_cons_of_ne {x : Nat × Label} {o : Nat} (h : x.1 ≠ o) :
    labelsAt (x :: labels) o = labelsAt labels o := by
  unfold labelsAt
  rw [List.filter_cons_of_neg (by simpa using h)]

theorem labelsAt_eq_nil {o : Nat} (h : ∀ x ∈ labels, x.1 ≠ o) : labelsAt labels o = [] := by
  unfold labelsAt
  rw [List.filter_eq_nil_iff.mpr (by simpa using h)]
  rfl

/-- At the end only labels are left, and each is put down. -/
theorem weaveEnd_eq (h : ∀ x ∈ labels, x.1 = length) (acc : List Instruction) :
    weaveEnd method length labels acc = .ok (acc.reverse ++ labelsAt labels length) := by
  induction labels generalizing acc with
  | nil => simp [weaveEnd, labelsAt]
  | cons x labels ih =>
      rw [List.forall_mem_cons] at h
      rcases x with ⟨o, l⟩
      rcases h with ⟨rfl, h⟩
      rw [weaveEnd, if_pos rfl, ih h, labelsAt_cons_self]
      simp

/-- The names of a table come by ascending offsets. -/
theorem toList_lt (t : LabelTable) : t.toList.Pairwise fun x y => x.1 < y.1 :=
  Std.TreeMap.ordered_keys_toList.imp fun h => Nat.compare_eq_lt.mp h

/-- Labels at offsets of instructions or at the end are put there, in front of lines and frames. -/
theorem weave_eq (hlabels : labels.Pairwise fun x y => x.1 < y.1)
    (hrest : (rest.map Prod.fst ++ [length]).Pairwise (· < ·))
    (hmem : ∀ x ∈ labels, x.1 ∈ rest.map Prod.fst ++ [length]) (acc : List Instruction) :
    weave method length tables labels rest acc = .ok (acc.reverse ++
      (rest.flatMap (fun x => labelsAt labels x.1 ++ (tables.marksAt x.1).reverse ++ [x.2])
        ++ labelsAt labels length)) := by
  fun_induction weave method length tables labels rest acc with
  | case1 labels acc =>
      refine weaveEnd_eq (fun x hx => ?_) acc
      exact List.mem_singleton.mp (hmem x hx)
  | case2 offset i rest acc ih =>
      rw [ih (by simp) (List.pairwise_cons.mp hrest).2 nofun]
      simp [labelsAt]
  | case3 place l labels offset i rest acc hlt =>
      -- Every offset that is left is at least that of the next instruction.
      rcases List.mem_cons.mp (hmem _ List.mem_cons_self) with heq | hplace
      · exact absurd heq (Nat.ne_of_lt hlt)
      · have hgt : offset < place := (List.pairwise_cons.mp hrest).1 _ hplace
        omega
  | case4 l labels offset i rest acc hlt ih =>
      rcases List.pairwise_cons.mp hlabels with ⟨_, hlabels⟩
      have hne : ∀ o ∈ rest.map Prod.fst ++ [length], (offset, l).1 ≠ o := by
        intro o ho
        exact Nat.ne_of_lt ((List.pairwise_cons.mp hrest).1 o ho)
      rw [ih hlabels hrest fun x hx => hmem x (List.mem_cons_of_mem _ hx)]
      have hrest' : (rest.flatMap fun x =>
            labelsAt ((offset, l) :: labels) x.1 ++ (tables.marksAt x.1).reverse ++ [x.2])
          = rest.flatMap fun x => labelsAt labels x.1 ++ (tables.marksAt x.1).reverse ++ [x.2] := by
        refine List.flatMap_congr fun x hx => ?_
        rw [labelsAt_cons_of_ne (hne _ (List.mem_append_left _ (List.mem_map_of_mem hx)))]
      have hend : labelsAt ((offset, l) :: labels) length = labelsAt labels length :=
        labelsAt_cons_of_ne (hne _ (List.mem_append_right _ List.mem_cons_self))
      rw [List.flatMap_cons, List.flatMap_cons, hrest', hend, labelsAt_cons_self]
      simp
  | case5 place l labels offset i rest acc hlt hne ih =>
      rcases List.pairwise_cons.mp hlabels with ⟨hfirst, _⟩
      have hlater : ∀ x ∈ (place, l) :: labels, offset < x.1 := by
        intro x hx
        rcases List.mem_cons.mp hx with rfl | hx
        · change offset < place
          omega
        · have hx' : place < x.1 := hfirst x hx
          omega
      rw [ih hlabels (List.pairwise_cons.mp hrest).2 fun x hx => ?_]
      · rw [List.flatMap_cons, labelsAt_eq_nil fun x hx => Nat.ne_of_gt (hlater x hx)]
        simp
      · rcases List.mem_cons.mp (hmem x hx) with heq | hx'
        · exact absurd heq (Nat.ne_of_gt (hlater x hx))
        · exact hx'

end Weave

/-- What marks of a kind say, with their offsets. -/
def entries {γ : Type} (k : Instruction → Option γ) (placed : List Placed) : List (Nat × γ) :=
  placed.filterMap fun x => (k x.instruction).map (x.pc, ·)

/-- The real instructions of what is placed. -/
def reals (placed : List Placed) : List Placed :=
  placed.filter Placed.isReal

/-- What is not a mark is an instruction. -/
theorem isPseudo_of_mem_reals {placed : List Placed} :
    ∀ x ∈ reals placed, x.instruction.isPseudo = false := by
  intro x hx
  have hreal := (List.mem_filter.mp hx).2
  unfold Placed.isReal at hreal
  simpa using hreal

section Positions

variable {pc stop : Nat} {placed : List Placed} {b : Body} {γ : Type}
variable {k : Instruction → Option γ}

/-- A label is at the position of its offset, if all its marks have that offset. -/
theorem Spaced.positionOf (h : Spaced 0 placed stop)
    (hb : b.instructions = placed.map Placed.instruction) {l : Label} {x : Placed}
    (hx : x ∈ placed) (hlabel : x.instruction = .label l)
    (hunique : ∀ y ∈ placed, y.instruction = .label l → y.pc = x.pc) :
    b.positionOf l = (offsets placed stop).idxOf x.pc := by
  unfold Body.positionOf
  rw [hb, h.counted, List.find?_map]
  cases hfind : placed.find? _ with
  | none =>
      have hnot := List.find?_eq_none.mp hfind x hx
      simp [hlabel] at hnot
  | some y =>
      have hy := List.find?_some hfind
      have hpc := hunique y (List.mem_of_find?_eq_some hfind) (by simpa using hy)
      rw [Option.map_some, Option.map_some, Option.getD_some, hpc]

/-- What marks say by position is what they say by offset. -/
theorem Spaced.filterMap_counted (h : Spaced 0 placed stop) (k : Instruction → Option γ) :
    (JvmFold.counted 0 (placed.map Placed.instruction)).filterMap (fun x => (k x.2).map (x.1, ·))
      = (entries k placed).map fun y => ((offsets placed stop).idxOf y.1, y.2) := by
  unfold entries
  rw [h.counted, List.filterMap_map, List.map_filterMap]
  refine List.filterMap_congr fun x _ => ?_
  cases hk : k x.instruction <;> simp [hk]

/-- Offsets never go back. -/
theorem Spaced.pairwise (h : Spaced pc placed stop) : placed.Pairwise fun x y => x.pc ≤ y.pc := by
  induction h with
  | nil => exact List.Pairwise.nil
  | mark _ h ih => exact List.pairwise_cons.mpr ⟨fun y hy => (h.le.2 y hy).1, ih⟩
  | real _ hlt h ih =>
      refine List.pairwise_cons.mpr ⟨fun y hy => ?_, ih⟩
      have hle := (h.le.2 y hy).1
      omega

/-- Entries lie in the order of the offsets. -/
theorem Spaced.entries_pairwise (h : Spaced pc placed stop) (k : Instruction → Option γ) :
    (entries k placed).Pairwise fun x y => x.1 ≤ y.1 := by
  unfold entries
  rw [List.pairwise_filterMap]
  refine h.pairwise.imp fun {x y} hle a ha c hc => ?_
  rw [Option.map_eq_some_iff] at ha hc
  rcases ha with ⟨_, _, rfl⟩
  rcases hc with ⟨_, _, rfl⟩
  exact hle

/-- An entry is made of an instruction at its offset. -/
theorem mem_entries {y : Nat × γ} :
    y ∈ entries k placed ↔ ∃ x ∈ placed, k x.instruction = some y.2 ∧ x.pc = y.1 := by
  unfold entries
  rw [List.mem_filterMap]
  constructor
  · rintro ⟨x, hx, hy⟩
    rcases Option.map_eq_some_iff.mp hy with ⟨a, ha, rfl⟩
    exact ⟨x, hx, ha, rfl⟩
  · rintro ⟨x, hx, hk, hpc⟩
    refine ⟨x, hx, ?_⟩
    rw [hk, hpc]
    rfl

/-- Without its marks the code is spaced in the same way. -/
theorem Spaced.reals (h : Spaced pc placed stop) : Spaced pc (reals placed) stop := by
  unfold Body.reals
  induction h with
  | nil => exact .nil
  | mark hx _ ih =>
      rw [List.filter_cons_of_neg (by rw [Placed.isReal, hx]; decide)]
      exact ih
  | real hx hlt _ ih =>
      rw [List.filter_cons_of_pos (by rw [Placed.isReal, hx]; decide)]
      exact .real hx hlt ih

end Positions

/-- Marks at an offset. -/
def marked (o : Nat) (marks : List Instruction) : List Placed :=
  marks.map fun i => ⟨i, 0, o⟩

/-- The marks in front of the instruction at an offset. -/
def marksBefore (labels : List (Nat × Label)) (tables : Tables) (o : Nat) : List Instruction :=
  labelsAt labels o ++ (tables.marksAt o).reverse

/-- Instructions with other labels, and the marks between them. -/
def woven (labels : List (Nat × Label)) (tables : Tables) (f : Label → Label)
    (code : List Placed) (stop : Nat) : List Placed :=
  (code.flatMap fun x => marked x.pc (marksBefore labels tables x.pc)
    ++ [{ x with instruction := x.instruction.relabel f }]) ++ marked stop (labelsAt labels stop)

section Woven

variable {pc stop : Nat} {labels : List (Nat × Label)} {tables : Tables} {f : Label → Label}
variable {code : List Placed} {γ : Type} {k : Instruction → Option γ}

/-- Labels are marks. -/
theorem isPseudo_of_mem_labelsAt {o : Nat} {i : Instruction} (h : i ∈ labelsAt labels o) :
    i.isPseudo = true := by
  unfold labelsAt at h
  rcases List.mem_map.mp h with ⟨x, _, rfl⟩
  rfl

-- So is all that is put in front of an instruction.
theorem isPseudo_of_mem_marksBefore {o : Nat} {i : Instruction}
    (h : i ∈ marksBefore labels tables o) : i.isPseudo = true := by
  rcases List.mem_append.mp h with h | h
  · exact isPseudo_of_mem_labelsAt h
  · rw [List.mem_reverse, Tables.marksAt, List.mem_append] at h
    rcases h with h | h
    · rcases Option.map_eq_some_iff.mp (Option.mem_toList.mp h) with ⟨_, _, rfl⟩
      rfl
    · rcases List.mem_map.mp h with ⟨_, _, rfl⟩
      rfl

/-- Marks in front of an offset keep the order. -/
theorem spaced_marked {marks : List Instruction} {rest : List Placed}
    (hmarks : ∀ i ∈ marks, i.isPseudo = true) (h : Spaced pc rest stop) :
    Spaced pc (marked pc marks ++ rest) stop := by
  induction marks with
  | nil => exact h
  | cons i marks ih =>
      rw [List.forall_mem_cons] at hmarks
      exact Spaced.mark (x := ⟨i, 0, pc⟩) hmarks.1 (ih hmarks.2)

/-- Marks do not move instructions. -/
theorem Spaced.woven (h : Spaced pc code stop)
    (hcode : ∀ x ∈ code, x.instruction.isPseudo = false) :
    Spaced pc (woven labels tables f code stop) stop := by
  induction h with
  | nil =>
      change Spaced _ (marked _ (labelsAt labels _)) _
      rw [← List.append_nil (marked _ _)]
      exact spaced_marked (fun i hi => isPseudo_of_mem_labelsAt hi) .nil
  | mark hx _ _ =>
      rw [hcode _ List.mem_cons_self] at hx
      cases hx
  | @real x rest next stop hx hlt _ ih =>
      rw [List.forall_mem_cons] at hcode
      have hrest := ih hcode.2
      unfold Body.woven at hrest ⊢
      rw [List.flatMap_cons, List.append_assoc, List.append_assoc]
      -- The marks come in front of the instruction, at its offset.
      refine spaced_marked (fun i hi => isPseudo_of_mem_marksBefore hi) ?_
      refine Spaced.real (x := { x with instruction := x.instruction.relabel f }) ?_ hlt hrest
      rw [Instruction.isPseudo_relabel, hx]

-- And add no offset.
theorem offsets_marked {marks : List Instruction} {rest : List Placed} {o : Nat}
    (hmarks : ∀ i ∈ marks, i.isPseudo = true) :
    offsets (marked o marks ++ rest) stop = offsets rest stop := by
  induction marks with
  | nil => rfl
  | cons i marks ih =>
      rw [List.forall_mem_cons] at hmarks
      exact (offsets_mark hmarks.1).trans (ih hmarks.2)

/-- The instructions stay at their offsets. -/
theorem offsets_woven (hcode : ∀ x ∈ code, x.instruction.isPseudo = false) :
    offsets (woven labels tables f code stop) stop = offsets code stop := by
  induction code with
  | nil =>
      change offsets (marked stop (labelsAt labels stop)) stop = _
      rw [← List.append_nil (marked _ _)]
      exact offsets_marked fun i hi => isPseudo_of_mem_labelsAt hi
  | cons x code ih =>
      rw [List.forall_mem_cons] at hcode
      have hrest := ih hcode.2
      unfold woven at hrest ⊢
      rw [List.flatMap_cons, List.append_assoc, List.append_assoc,
        offsets_marked fun i hi => isPseudo_of_mem_marksBefore hi, List.singleton_append,
        offsets_real (by rw [Instruction.isPseudo_relabel]; exact hcode.1),
        offsets_real hcode.1, hrest]

/-- Marks that are placed are the marks that were given. -/
theorem map_marked (o : Nat) (marks : List Instruction) :
    (marked o marks).map Placed.instruction = marks := by
  unfold marked
  rw [List.map_map]
  exact List.map_id marks

/-- What weaving makes of the instructions. -/
theorem map_woven : (woven labels tables f code stop).map Placed.instruction
    = (code.map fun x => (x.pc, x.instruction.relabel f)).flatMap (fun x =>
        labelsAt labels x.1 ++ (tables.marksAt x.1).reverse ++ [x.2]) ++ labelsAt labels stop := by
  unfold woven
  rw [List.map_append, map_marked, List.map_flatMap, List.flatMap_map]
  congr 1
  refine List.flatMap_congr fun x _ => ?_
  rw [List.map_append, map_marked]
  rfl

/-- The instructions between the marks. -/
theorem filter_woven (hcode : ∀ x ∈ code, x.instruction.isPseudo = false) :
    ((woven labels tables f code stop).map Placed.instruction).filter (fun i => !i.isPseudo)
      = code.map fun x => x.instruction.relabel f := by
  -- Marks are filtered out, wherever they come from.
  have hnone {marks : List Instruction} (hmarks : ∀ i ∈ marks, i.isPseudo = true) :
      marks.filter (fun i => !i.isPseudo) = [] := by
    refine List.filter_eq_nil_iff.mpr fun i hi => ?_
    rw [hmarks i hi]
    decide
  induction code with
  | nil =>
      change ((marked stop (labelsAt labels stop)).map Placed.instruction).filter _ = []
      rw [map_marked]
      exact hnone fun i hi => isPseudo_of_mem_labelsAt hi
  | cons x code ih =>
      rw [List.forall_mem_cons] at hcode
      have hrest := ih hcode.2
      unfold woven at hrest ⊢
      rw [List.flatMap_cons, List.append_assoc, List.append_assoc, List.map_append,
        List.filter_append, map_marked, hnone fun i hi => isPseudo_of_mem_marksBefore hi,
        List.nil_append, List.singleton_append, List.map_cons, List.filter_cons_of_pos, hrest,
        List.map_cons]
      rw [Instruction.isPseudo_relabel, hcode.1]
      rfl

theorem mem_marked {o : Nat} {marks : List Instruction} {x : Placed} (h : x ∈ marked o marks) :
    x.instruction ∈ marks ∧ x.pc = o := by
  unfold marked at h
  rcases List.mem_map.mp h with ⟨i, hi, rfl⟩
  exact ⟨hi, rfl⟩

/-- A label is put down at each offset that it belongs to. -/
theorem mem_labelsAt {o : Nat} {l : Label} : .label l ∈ labelsAt labels o ↔ (o, l) ∈ labels := by
  simp [labelsAt]

/-- Lines and frames are no labels. -/
theorem label_not_mem_marksAt {o : Nat} {l : Label} : .label l ∉ (tables.marksAt o).reverse := by
  simp [Tables.marksAt]

/-- A mark of a label stands at an offset of the label. -/
theorem mem_labels_of_mem_woven {l : Label} {x : Placed}
    (hcode : ∀ x ∈ code, x.instruction.isPseudo = false)
    (hx : x ∈ woven labels tables f code stop) (hl : x.instruction = .label l) :
    (x.pc, l) ∈ labels := by
  -- A label is put down in front of an instruction, or behind the last one.
  rcases List.mem_append.mp hx with hx | hx
  · rcases List.mem_flatMap.mp hx with ⟨y, hy, hx⟩
    rcases List.mem_append.mp hx with hx | hx
    · rcases mem_marked hx with ⟨hmark, hpc⟩
      rw [hl] at hmark
      rw [hpc]
      rcases List.mem_append.mp hmark with hmark | hmark
      · exact mem_labelsAt.mp hmark
      · exact absurd hmark label_not_mem_marksAt
    · rw [List.mem_singleton.mp hx] at hl
      have hlabel : y.instruction.relabel f = .label l := hl
      have hreal := hcode y hy
      rw [← Instruction.isPseudo_relabel f, hlabel] at hreal
      cases hreal
  · rcases mem_marked hx with ⟨hmark, hpc⟩
    rw [hl] at hmark
    rw [hpc]
    exact mem_labelsAt.mp hmark

/-- Every label has a mark. -/
theorem mem_woven_of_mem_labels {l : Label} {o : Nat} (hl : (o, l) ∈ labels)
    (ho : o ∈ code.map Placed.pc ++ [stop]) :
    ⟨.label l, 0, o⟩ ∈ woven labels tables f code stop := by
  rcases List.mem_append.mp ho with ho | ho
  · rcases List.mem_map.mp ho with ⟨y, hy, rfl⟩
    refine List.mem_append_left _ (List.mem_flatMap.mpr ⟨y, hy, List.mem_append_left _ ?_⟩)
    exact List.mem_map_of_mem (List.mem_append_left _ (mem_labelsAt.mpr hl))
  · rw [List.mem_singleton] at ho
    rw [ho] at hl ⊢
    exact List.mem_append_right _ (List.mem_map_of_mem (mem_labelsAt.mpr hl))

/-- Entries of marks all have the offset of the marks. -/
theorem entries_marked (o : Nat) (marks : List Instruction) :
    entries k (marked o marks) = (marks.filterMap k).map (o, ·) := by
  unfold entries marked
  rw [List.filterMap_map, List.map_filterMap]
  rfl

/-- The marks of a kind other than labels are those of the tables. -/
theorem entries_woven (hcode : ∀ x ∈ code, x.instruction.isPseudo = false)
    (hlabel : ∀ l, k (.label l) = none)
    (hreal : ∀ i : Instruction, i.isPseudo = false → k i = none) :
    entries k (woven labels tables f code stop) = (code.map Placed.pc).flatMap fun o =>
      ((tables.marksAt o).reverse.filterMap k).map (o, ·) := by
  -- Labels are of another kind, so they add nothing.
  have hlabels (o : Nat) : (labelsAt labels o).filterMap k = [] := by
    refine List.filterMap_eq_nil_iff.mpr fun i hi => ?_
    rcases List.mem_map.mp hi with ⟨x, _, rfl⟩
    exact hlabel x.2
  induction code with
  | nil =>
      change entries k (marked stop (labelsAt labels stop)) = []
      rw [entries_marked, hlabels]
      rfl
  | cons x code ih =>
      rw [List.forall_mem_cons] at hcode
      have hrest := ih hcode.2
      have hnone : k (x.instruction.relabel f) = none := by
        refine hreal _ ?_
        rw [Instruction.isPseudo_relabel]
        exact hcode.1
      unfold woven at hrest ⊢
      rw [List.flatMap_cons, List.append_assoc, List.append_assoc, List.singleton_append]
      unfold entries at hrest ⊢
      rw [List.filterMap_append, List.filterMap_cons_none (by rw [hnone]; rfl), hrest]
      change entries k (marked x.pc (marksBefore labels tables x.pc)) ++ _ = _
      rw [entries_marked, marksBefore, List.filterMap_append, hlabels, List.nil_append,
        List.map_cons, List.flatMap_cons]

end Woven

section Lookup

variable {γ : Type} {l : List (Nat × γ)} {os : List Nat} {o : Nat}

/-- Grouping what is sorted by offset changes nothing. -/
theorem flatMap_filter (hos : os.Pairwise (· < ·)) (hl : l.Pairwise fun x y => x.1 ≤ y.1)
    (hmem : ∀ x ∈ l, x.1 ∈ os) : os.flatMap (fun o => l.filter fun x => x.1 = o) = l := by
  induction l with
  | nil => exact List.flatMap_eq_nil_iff.mpr fun _ _ => rfl
  | cons x l ih =>
      rw [List.pairwise_cons] at hl
      rw [List.forall_mem_cons] at hmem
      have hrest := ih hl.2 hmem.2
      rcases List.append_of_mem hmem.1 with ⟨before, after, rfl⟩
      rcases List.pairwise_append.mp hos with ⟨_, hafter, hbefore⟩
      rw [List.pairwise_cons] at hafter
      -- The first one is filed at its offset, where everything else comes behind it.
      have hfront {l' : List (Nat × γ)} (hl' : ∀ y ∈ l', x.1 ≤ y.1) :
          before.flatMap (fun o => l'.filter fun y => y.1 = o) = [] := by
        refine List.flatMap_eq_nil_iff.mpr fun o ho => List.filter_eq_nil_iff.mpr fun y hy => ?_
        have hlt := hbefore o ho x.1 List.mem_cons_self
        have hle := hl' y hy
        simp only [decide_eq_true_eq]
        omega
      have hback : after.flatMap (fun o => (x :: l).filter fun y => y.1 = o)
          = after.flatMap fun o => l.filter fun y => y.1 = o := by
        refine List.flatMap_congr fun o ho => List.filter_cons_of_neg ?_
        have hlt := hafter.1 o ho
        simp only [decide_eq_true_eq]
        omega
      rw [List.flatMap_append, List.flatMap_cons, hfront hl.1, List.nil_append] at hrest
      have hself : ∀ y ∈ x :: l, x.1 ≤ y.1 := by
        rw [List.forall_mem_cons]
        exact ⟨Nat.le_refl _, hl.1⟩
      rw [List.flatMap_append, List.flatMap_cons, hfront hself, List.nil_append, hback,
        List.filter_cons_of_pos (by simp), List.cons_append, hrest]

/-- Lines of one offset are kept, the latest in front. -/
theorem foldl_addLine_lines (l : List (Nat × UInt16)) (tables : Tables) (o : Nat) :
    ((l.foldl Tables.addLine tables).lines[o]?).getD []
      = ((l.filter fun x => x.1 = o).map Prod.snd).reverse ++ (tables.lines[o]?).getD [] := by
  induction l generalizing tables with
  | nil => rfl
  | cons x l ih =>
      rw [List.foldl_cons, ih, Tables.addLine]
      by_cases hx : x.1 = o
      · rw [List.filter_cons_of_pos (by simpa using hx)]
        simp [hx]
      · rw [List.filter_cons_of_neg (by simpa using hx)]
        simp [Std.TreeMap.getElem?_insert, hx]

-- And nothing else changes.
theorem foldl_addLine_frames (l : List (Nat × UInt16)) (tables : Tables) :
    (l.foldl Tables.addLine tables).frames = tables.frames ∧
      (l.foldl Tables.addLine tables).locals = tables.locals := by
  induction l generalizing tables with
  | nil => exact ⟨rfl, rfl⟩
  | cons x l ih => exact ih _

/-- At each offset the last insertion is found. -/
theorem foldl_insert_getElem? (l : List (Nat × Frame)) (m : Std.TreeMap Nat Frame) (o : Nat) :
    (l.foldl (fun m x => m.insert x.1 x.2) m)[o]?
      = ((l.filter fun x => x.1 = o).map Prod.snd).getLast?.or m[o]? := by
  induction l generalizing m with
  | nil => rfl
  | cons x l ih =>
      rw [List.foldl_cons, ih]
      by_cases hx : x.1 = o
      · rw [List.filter_cons_of_pos (by simpa using hx)]
        simp [hx, List.getLast?_cons]
      · rw [List.filter_cons_of_neg (by simpa using hx)]
        simp [Std.TreeMap.getElem?_insert, hx]

/-- Where the offsets ascend, none occurs twice. -/
theorem length_filter_le_one {γ : Type} {l : List (Nat × γ)}
    (h : l.Pairwise fun x y => x.1 < y.1) (o : Nat) :
    (l.filter fun x => x.1 = o).length ≤ 1 := by
  have hfilter := h.filter fun x => x.1 = o
  have hself : ∀ x ∈ l.filter fun x => x.1 = o, x.1 = o := by
    intro x hx
    simpa using (List.mem_filter.mp hx).2
  generalize l.filter (fun x => x.1 = o) = found at hfilter hself ⊢
  rcases found with _ | ⟨x, _ | ⟨y, found⟩⟩
  · exact Nat.zero_le 1
  · exact Nat.le_refl 1
  · have hlt := (List.pairwise_cons.mp hfilter).1 y List.mem_cons_self
    have hx := hself x List.mem_cons_self
    have hy := hself y (List.mem_cons_of_mem _ List.mem_cons_self)
    omega

/-- The frame at an offset, of frames at different offsets. -/
theorem foldl_insert_toList {l : List (Nat × Frame)} (h : l.Pairwise fun x y => x.1 < y.1)
    (f : Frame → Frame) (o : Nat) :
    (((l.map fun x => (x.1, f x.2)).foldl (fun m x => m.insert x.1 x.2)
      (∅ : Std.TreeMap Nat Frame))[o]?).toList
        = (l.filter fun x => x.1 = o).map fun x => f x.2 := by
  have hone := length_filter_le_one h o
  rw [foldl_insert_getElem?, List.filter_map, List.map_map, Std.TreeMap.getElem?_emptyc,
    Option.or_none]
  change ((l.filter fun x => x.1 = o).map fun x => f x.2).getLast?.toList = _
  generalize l.filter (fun x => x.1 = o) = found at hone ⊢
  rcases found with _ | ⟨x, _ | ⟨y, found⟩⟩
  · rfl
  · rfl
  · rw [List.length_cons, List.length_cons] at hone
    omega

/-- The lines among the marks, in the order in which they were read. -/
theorem filterMap_line_marksAt (tables : Tables) (o : Nat) :
    (tables.marksAt o).reverse.filterMap Instruction.line?
      = ((tables.lines[o]?).getD []).reverse := by
  unfold Tables.marksAt
  rw [List.filterMap_reverse, List.filterMap_append, List.filterMap_map]
  congr 1
  cases tables.frames[o]? <;> simp [Instruction.line?, Function.comp_def]

/-- The frame among them, if there is one. -/
theorem filterMap_frame_marksAt (tables : Tables) (o : Nat) :
    (tables.marksAt o).reverse.filterMap Instruction.frame? = (tables.frames[o]?).toList := by
  unfold Tables.marksAt
  rw [List.filterMap_reverse, List.filterMap_append, List.filterMap_map]
  cases tables.frames[o]? <;> simp [Instruction.frame?, Function.comp_def]

end Lookup

end Body

end JvmFold
