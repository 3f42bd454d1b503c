import Mathlib.Data.List.Nodup
import JvmFold.Fold.Initializer

/-!
# The Assignments at the Front

The search for assignments that can be moved takes an initializer apart: the
code at its front, which loads constants and assigns them, and all that is
behind. What is left is what is behind, with the marks of the front before it.

A field that is given a constant stays what it is otherwise. Giving constants
to fields goes by name and descriptor and finds the first field, so it is the
same as giving them to all fields of that name and descriptor only where there
is just one.

## Main definitions

* `Initializer.Assigns`: Code that assigns constants.
* `Initializer.setConstants`: The fields with several constants given.

## Theorems

* `Initializer.leading_eq`: What the search takes apart.
* `Initializer.setConstant_eq_map`: A field that is the only one of its name gets the constant.
-/

namespace JvmFold

namespace Initializer

/-- Code that assigns constants to static fields, one after the other. -/
inductive Assigns : List (Member × Constant) → List Instruction → Prop where
  | nil : Assigns [] []
  | cons {f : Member} {k : Constant} {load : Instruction} {pairs : List (Member × Constant)}
      {code : List Instruction} (hload : load.literal? = some k) (hrest : Assigns pairs code) :
      Assigns ((f, k) :: pairs) (load :: .field .putstatic f :: code)

theorem Assigns.eq_nil {code : List Instruction} (h : Assigns [] code) : code = [] := by
  cases h
  rfl

section Search

variable {referenced : Std.HashSet Label} {test : Member → Constant → Bool}
variable {l marks rest : List Instruction} {i : Instruction}

/-- A mark in front of what is searched is one more mark. -/
theorem found_cons {found : Option (List Instruction × Instruction × List Instruction)}
    {j : Instruction} (hj : j.isPseudo = true)
    (ih : ∀ {marks}, found = some (marks, i, rest) →
      l = marks ++ i :: rest ∧ (∀ m ∈ marks, m.isPseudo = true) ∧ i.isPseudo = false)
    (h : found.map (fun x => (j :: x.1, x.2)) = some (marks, i, rest)) :
    j :: l = marks ++ i :: rest ∧ (∀ m ∈ marks, m.isPseudo = true) ∧ i.isPseudo = false := by
  rcases Option.map_eq_some_iff.mp h with ⟨⟨marks', r⟩, hr, he⟩
  cases he
  rcases ih hr with ⟨hl, hmarks, hi⟩
  exact ⟨congrArg (j :: ·) hl, List.forall_mem_cons.mpr ⟨hj, hmarks⟩, hi⟩

/-- The instruction that is found is the first real one. -/
theorem nextReal?_eq (h : nextReal? referenced l = some (marks, i, rest)) :
    l = marks ++ i :: rest ∧ (∀ m ∈ marks, m.isPseudo = true) ∧ i.isPseudo = false := by
  fun_induction nextReal? referenced l generalizing marks with
  | case1 => cases h
  | case2 => cases h
  | case3 rest' l hl ih => exact found_cons rfl ih h
  | case4 rest' n ih => exact found_cons rfl ih h
  | case5 rest' f ih => exact found_cons rfl ih h
  | case6 j rest' hlabel hline hframe =>
      cases h
      refine ⟨rfl, fun m hm => absurd hm List.not_mem_nil, ?_⟩
      -- What is none of the three marks is an instruction.
      cases i with
      | label l => exact absurd rfl (hlabel l)
      | line n => exact absurd rfl (hline n)
      | frame f => exact absurd rfl (hframe f)
      | _ => rfl

/-- What the search takes apart: the front, whose real instructions are the assignments found, and
    what is behind it. -/
theorem leading_eq (referenced : Std.HashSet Label) (test : Member → Constant → Bool)
    (l : List Instruction) :
    ∃ front rest, l = front ++ rest ∧
      (leading referenced test l).2 = front.filter Instruction.isPseudo ++ rest ∧
      Assigns (leading referenced test l).1 (front.filter (!·.isPseudo)) ∧
      ∀ x ∈ (leading referenced test l).1, test x.1 x.2 = true := by
  fun_induction leading referenced test l with
  | case3 l marks₁ load rest₁ h₁ marks₂ rest₂ k f h₂ hload htest pairs left hleading _ ih =>
      rw [hleading] at ih
      rcases ih with ⟨front, rest, hrest, hleft, hassigns, hpasses⟩
      rcases nextReal?_eq h₁ with ⟨hl, hmarks₁, hreal₁⟩
      rcases nextReal?_eq h₂ with ⟨hl₂, hmarks₂, hreal₂⟩
      change left = _ at hleft
      have hmarks {marks : List Instruction} (h : ∀ m ∈ marks, m.isPseudo = true) :
          marks.filter Instruction.isPseudo = marks ∧ marks.filter (!·.isPseudo) = [] :=
        ⟨List.filter_eq_self.mpr h, List.filter_eq_nil_iff.mpr fun m hm => by simp [h m hm]⟩
      have hreal {i : Instruction} (h : i.isPseudo = false) (l : List Instruction) :
          (i :: l).filter Instruction.isPseudo = l.filter Instruction.isPseudo ∧
            (i :: l).filter (!·.isPseudo) = i :: l.filter (!·.isPseudo) := by
        simp [h]
      -- The front grows by the marks, the load and the assignment, and the marks are what is left
      -- of them.
      refine ⟨marks₁ ++ load :: (marks₂ ++ .field .putstatic f :: front), rest, ?_, ?_, ?_, ?_⟩
      · rw [hl, hl₂, hrest]
        simp
      · simp only [List.filter_append, (hmarks hmarks₁).1, (hmarks hmarks₂).1, (hreal hreal₁ _).1,
          (hreal hreal₂ _).1, hleft, List.append_assoc]
      · simp only [List.filter_append, (hmarks hmarks₁).2, (hmarks hmarks₂).2, (hreal hreal₁ _).2,
          (hreal hreal₂ _).2, List.nil_append]
        exact .cons hload hassigns
      · exact List.forall_mem_cons.mpr ⟨htest, hpasses⟩
  | _ => exact ⟨[], _, rfl, rfl, .nil, nofun⟩

/-- What is left of an initializer stood there before, in the same order. -/
theorem leading_sublist (referenced : Std.HashSet Label) (test : Member → Constant → Bool)
    (l : List Instruction) : (leading referenced test l).2.Sublist l := by
  rcases leading_eq referenced test l with ⟨front, rest, hl, hleft, -, -⟩
  have hfront : (front.filter Instruction.isPseudo ++ rest).Sublist (front ++ rest) :=
    List.filter_sublist.append_right rest
  rw [hleft]
  rwa [← hl] at hfront

end Search

section Fields

variable {s : Signature} {k : Constant} {l : List Field}

/-- The fields with several constants given, one after the other. -/
def setConstants (pairs : List (Member × Constant)) (l : List Field) : List Field :=
  pairs.foldl (fun l (f, k) => setConstant f.signature k l) l

/-- The first assignment is made first. -/
theorem setConstants_cons (f : Member) (k : Constant) (pairs : List (Member × Constant))
    (l : List Field) :
    setConstants ((f, k) :: pairs) l = setConstants pairs (setConstant f.signature k l) :=
  rfl

/-- Giving a field its value keeps the fields apart. -/
theorem signature_setConstant (s : Signature) (k : Constant) (l : List Field) :
    (setConstant s k l).map (·.signature) = l.map (·.signature) := by
  induction l with
  | nil => rfl
  | cons f rest ih =>
      rw [setConstant]
      split
      · rfl
      · rw [List.map_cons, ih, List.map_cons]

/-- A field that is the only one of its name and descriptor gets the constant. -/
theorem setConstant_eq_map (hl : (l.map (·.signature)).Nodup) :
    setConstant s k l =
      l.map fun f => if f.signature = s then { f with constant := some k } else f := by
  induction l with
  | nil => rfl
  | cons f rest ih =>
      rw [List.map_cons, List.nodup_cons] at hl
      rw [setConstant, List.map_cons]
      split
      next hs =>
        -- No other field has that signature, so the rest stays as it is.
        have hrest : ∀ g ∈ rest,
            (if g.signature = s then { g with constant := some k } else g) = g :=
          fun g hg => if_neg fun hg' =>
            hl.1 (List.mem_map.mpr ⟨g, hg, hg'.trans hs.symm⟩)
        exact congrArg _ ((List.map_congr_left hrest).trans (List.map_id' rest)).symm
      · rw [ih hl.2]

/-- A field is found with its constant. -/
theorem find?_setConstant (s' : Signature) :
    (setConstant s k l).find? (·.signature == s') =
      (l.find? (·.signature == s')).map fun f =>
        if f.signature = s then { f with constant := some k } else f := by
  induction l with
  | nil => rfl
  | cons f rest ih =>
      -- A constant does not change what a field is found by.
      have hother (h : f.signature ≠ s') (g : Field) (hg : g.signature = f.signature) (l) :
          (g :: l).find? (·.signature == s') = l.find? (·.signature == s') :=
        List.find?_cons_of_neg (by simpa [hg] using h)
      have hfound (h : f.signature = s') (g : Field) (hg : g.signature = f.signature) (l) :
          (g :: l).find? (·.signature == s') = some g :=
        List.find?_cons_of_pos (by simpa [hg] using h)
      rw [setConstant]
      by_cases hs' : f.signature = s'
      · rw [hfound hs' f rfl]
        split
        next hs =>
          rw [hfound hs' { f with constant := some k } rfl, Option.map_some, if_pos hs]
        next hs =>
          rw [hfound hs' f rfl, Option.map_some, if_neg hs]
      · rw [hother hs' f rfl]
        split
        next hs =>
          rw [hother hs' { f with constant := some k } rfl]
          cases hfind : rest.find? (·.signature == s') with
          | none => rfl
          | some g =>
              have hg : g.signature = s' := by simpa using List.find?_some hfind
              rw [Option.map_some, if_neg fun hgs => hs' (hs.trans (hgs.symm.trans hg))]
        · rw [hother hs' f rfl, ih]

/-- Only static fields are given constants, so the others can as well be left out. -/
theorem filter_setConstant (h : ∀ g, l.find? (·.signature == s) = some g → g.isStatic = true) :
    (setConstant s k l).filter (·.isStatic) = setConstant s k (l.filter (·.isStatic)) := by
  induction l with
  | nil => rfl
  | cons f rest ih =>
      rw [setConstant]
      split
      next hs =>
        -- The field that is given the constant is the one that is found, and so it is static.
        have hstatic : f.isStatic = true := h f (List.find?_cons_of_pos (by simpa using hs))
        have hstatic' : ({ f with constant := some k } : Field).isStatic = true := hstatic
        rw [List.filter_cons_of_pos hstatic', List.filter_cons_of_pos hstatic, setConstant,
          if_pos hs]
      next hs =>
        have hrest := ih fun g hg =>
          h g ((List.find?_cons_of_neg (by simpa using hs)).trans hg)
        cases hstatic : f.isStatic with
        | true =>
            rw [List.filter_cons_of_pos hstatic, List.filter_cons_of_pos hstatic, setConstant,
              if_neg hs, hrest]
        | false =>
            rw [List.filter_cons_of_neg (Bool.eq_false_iff.mp hstatic),
              List.filter_cons_of_neg (Bool.eq_false_iff.mp hstatic), hrest]

/-- Where only static fields are given values, these may be picked out before or afterwards. -/
theorem filter_setConstants {pairs : List (Member × Constant)}
    (h : ∀ x ∈ pairs, ∀ g, l.find? (·.signature == x.1.signature) = some g → g.isStatic = true) :
    (setConstants pairs l).filter (·.isStatic) = setConstants pairs (l.filter (·.isStatic)) := by
  induction pairs generalizing l with
  | nil => rfl
  | cons x rest ih =>
      rcases List.forall_mem_cons.mp h with ⟨hx, hrest⟩
      rw [setConstants_cons, ih fun y hy g hg => ?_, filter_setConstant hx, setConstants_cons]
      rw [find?_setConstant] at hg
      rcases Option.map_eq_some_iff.mp hg with ⟨g', hg', rfl⟩
      split <;> exact hrest y hy g' hg'

-- Values for any number of fields keep them apart as well.
theorem signature_setConstants (pairs : List (Member × Constant)) (l : List Field) :
    (setConstants pairs l).map (·.signature) = l.map (·.signature) := by
  induction pairs generalizing l with
  | nil => rfl
  | cons x rest ih => rw [setConstants_cons, ih, signature_setConstant]

end Fields

end Initializer

end JvmFold
