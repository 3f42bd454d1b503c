import Mathlib
import JvmFold.Recipe.Selector

/-!
# The Normal Form of Selectors

A selector is a tree, and its leaves are tried from left to right. Where a leaf
stands is said by the path to it: which child to take at each node on the way
down. Going through a tree depth first means going through these paths in
lexicographic order, so an order on paths says what comes first without going
through the tree at all.

The normal form is described by what stands where. It lists every static field
and every executable recipe of the tree, each at the place where the tree has
it first. For recipes that is more than a matter of order: two recipes for one
member are the same whatever their accessors, and it is the first one whose
accessors are kept.

A normal form is flat and repeats nothing, so there is nothing left to do in it.

## Main definitions

* `ListsFirsts`: A list of what occurs somewhere, each once and in the order of first occurrence.
* `Selector.at?`: The leaf at the end of a path.
* `Selector.HasField`, `Selector.HasRecipe`: The places of static fields and executable recipes.
* `Selector.ofList`: The flat tree of some alternatives.

## Theorems

* `listsFirsts_eraseDupsBy`: Dropping repetitions keeps what occurs first.
* `Selector.mem_leaves`, `Selector.pairwise_leaves`: The leaves by their paths.
* `Selector.flatten_normal_form`: What the normal form of a tree consists of.
-/

namespace JvmFold

section Firsts

variable {π α : Type} [Preorder π] {occurs : π → α → Prop}

/-- Something occurs at a position, and nothing that is the same occurs before it. -/
def FirstAt (occurs : π → α → Prop) (same : α → α → Prop) (p : π) (x : α) : Prop :=
  occurs p x ∧ ∀ q y, occurs q y → same x y → p ≤ q

/-- What occurs somewhere is listed as it occurs first and in the order of these positions. -/
structure ListsFirsts (occurs : π → α → Prop) (same : α → α → Prop) (l : List α) : Prop where
  mem_iff : ∀ x, x ∈ l ↔ ∃ p, FirstAt occurs same p x
  ordered : l.Pairwise fun x y =>
    ∃ p q, FirstAt occurs same p x ∧ FirstAt occurs same q y ∧ p < q

/-- Nothing is listed twice. -/
theorem ListsFirsts.apart {same : α → α → Prop} {l : List α} (h : ListsFirsts occurs same l) :
    l.Pairwise fun x y => ¬same y x := by
  refine h.ordered.imp ?_
  rintro x y ⟨p, q, hp, hq, hlt⟩ hsame
  exact (hq.2 p x hp.1 hsame).not_gt hlt

/-- What is listed does not depend on how places and sameness are spelled. -/
theorem ListsFirsts.congr {same same' : α → α → Prop} {l : List α} {occurs' : π → α → Prop}
    (h : ListsFirsts occurs same l) (hoccurs : ∀ p x, occurs p x ↔ occurs' p x)
    (hsame : ∀ x y, same x y ↔ same' x y) : ListsFirsts occurs' same' l := by
  have heq : occurs = occurs' := funext₂ fun p x => propext (hoccurs p x)
  have heq' : same = same' := funext₂ fun x y => propext (hsame x y)
  rwa [← heq, ← heq']

variable {same : α → α → Bool}

/-- A list without repetitions stays as it is. -/
theorem eraseDupsBy_eq_self {l : List α} (h : l.Pairwise fun x y => same y x = false) :
    l.eraseDupsBy same = l := by
  induction l with
  | nil => rfl
  | cons a rest ih =>
      rcases List.pairwise_cons.1 h with ⟨ha, hrest⟩
      have hkept : (rest.filter fun b => decide (same b a = false)) = rest :=
        List.filter_eq_self.2 fun b hb => decide_eq_true (ha b hb)
      rw [List.eraseDupsBy_cons, hkept, ih hrest]

/-- Something stands at a position of a list whose entries name their positions. -/
def StandsIn (l : List (π × α)) (p : π) (x : α) : Prop :=
  (p, x) ∈ l

/-- The entries that are not the same as something. -/
def unlike (same : α → α → Bool) (a : α) (l : List (π × α)) : List (π × α) :=
  l.filter fun e => decide (same e.2 a = false)

omit [Preorder π] in
/-- Leaving out what is the same leaves the others in place. -/
@[simp]
theorem standsIn_unlike {a : α} {l : List (π × α)} {p : π} {x : α} :
    StandsIn (unlike same a l) p x ↔ StandsIn l p x ∧ same x a = false := by
  simp [StandsIn, unlike]

section Entries

variable {p q : π} {a x : α} {rest : List (π × α)}

/-- The first entry stands before all others. -/
theorem firstAt_head (h : ∀ e ∈ rest, p < e.1) :
    FirstAt (StandsIn ((p, a) :: rest)) (fun x y => same x y = true) p a := by
  refine ⟨List.mem_cons_self, fun q y hy _ => ?_⟩
  rcases List.mem_cons.1 hy with heq | hy
  · exact (Prod.ext_iff.1 heq).1.ge
  · exact (h _ hy).le

/-- Whatever is the same as the first entry stands first only if it is the first entry. -/
theorem eq_of_firstAt (h : ∀ e ∈ rest, p < e.1) (hsame : same x a = true)
    (hx : FirstAt (StandsIn ((p, a) :: rest)) (fun x y => same x y = true) q x) : x = a := by
  have hle := hx.2 p a List.mem_cons_self hsame
  rcases List.mem_cons.1 hx.1 with heq | hmem
  · exact (Prod.ext_iff.1 heq).2
  · exact absurd (h _ hmem) hle.not_gt

/-- Everything else stands first among the entries that are not the same as the first one. -/
theorem firstAt_cons_iff (hrefl : ∀ x, same x x = true)
    (htrans : ∀ x y z, same x y = true → same y z = true → same x z = true)
    (hne : same x a = false) :
    FirstAt (StandsIn ((p, a) :: rest)) (fun x y => same x y = true) q x ↔
      FirstAt (StandsIn (unlike same a rest)) (fun x y => same x y = true) q x := by
  -- What is not the same as the first stands where it stood in the rest.
  have hstands (q' : π) (y : α) (hy : same y a = false) :
      StandsIn ((p, a) :: rest) q' y ↔ StandsIn (unlike same a rest) q' y := by
    have hya : y ≠ a := by
      rintro rfl
      rw [hrefl] at hy
      cases hy
    rw [standsIn_unlike, and_iff_left hy]
    simp [StandsIn, hya]
  refine and_congr (hstands q x hne)
    ⟨fun hleast q' y hy hsame => ?_, fun hleast q' y hy hsame => ?_⟩
  · exact hleast q' y (List.mem_cons_of_mem _ (standsIn_unlike.1 hy).1) hsame
  · refine hleast q' y ((hstands q' y (Bool.eq_false_iff.2 fun hya => ?_)).1 hy) hsame
    rw [htrans x y a hsame hya] at hne
    cases hne

end Entries

/-- Without repetitions the list has what occurs first at ascending positions. -/
theorem listsFirsts_eraseDupsBy (hrefl : ∀ x, same x x = true)
    (htrans : ∀ x y z, same x y = true → same y z = true → same x z = true)
    {l : List (π × α)} (h : l.Pairwise fun x y => x.1 < y.1) :
    ListsFirsts (StandsIn l) (fun x y => same x y = true)
      ((l.map Prod.snd).eraseDupsBy same) := by
  -- What is the same as the first entry goes, so the induction is on the length.
  induction hn : l.length using Nat.strong_induction_on generalizing l with
  | _ n ih =>
      rcases l with _ | ⟨⟨p, a⟩, rest⟩
      · exact ⟨by simp [FirstAt, StandsIn], .nil⟩
      rcases List.pairwise_cons.1 h with ⟨hfirst, hrest⟩
      have hothers : ListsFirsts (StandsIn (unlike same a rest)) (fun x y => same x y = true)
          (((unlike same a rest).map Prod.snd).eraseDupsBy same) := by
        refine ih _ ?_ (hrest.filter _) rfl
        rw [← hn, List.length_cons]
        exact Nat.lt_succ_of_le (List.length_filter_le _ _)
      have htail {q : π} {x : α}
          (hx : FirstAt (StandsIn (unlike same a rest)) (fun x y => same x y = true) q x) :
          FirstAt (StandsIn ((p, a) :: rest)) (fun x y => same x y = true) q x :=
        (firstAt_cons_iff hrefl htrans (standsIn_unlike.1 hx.1).2).2 hx
      have heq : (((p, a) :: rest).map Prod.snd).eraseDupsBy same =
          a :: ((unlike same a rest).map Prod.snd).eraseDupsBy same := by
        rw [List.map_cons, List.eraseDupsBy_cons, List.filter_map]
        rfl
      rw [heq]
      refine ⟨fun x => ?_, List.pairwise_cons.2 ⟨fun y hy => ?_, ?_⟩⟩
      · rw [List.mem_cons, hothers.mem_iff]
        constructor
        · rintro (rfl | ⟨q, hq⟩)
          · exact ⟨p, firstAt_head hfirst⟩
          · exact ⟨q, htail hq⟩
        · rintro ⟨q, hq⟩
          cases hxa : same x a with
          | true => exact .inl (eq_of_firstAt hfirst hxa hq)
          | false => exact .inr ⟨q, (firstAt_cons_iff hrefl htrans hxa).1 hq⟩
      · rcases (hothers.mem_iff y).1 hy with ⟨q, hq⟩
        exact ⟨p, q, firstAt_head hfirst, htail hq, hfirst _ (standsIn_unlike.1 hq.1).1⟩
      · refine hothers.ordered.imp ?_
        rintro x y ⟨q, q', hx, hy, hlt⟩
        exact ⟨q, q', htail hx, htail hy, hlt⟩

end Firsts

namespace Selector

/-- The leaf at the end of a path, which names the child to take at each node. -/
def at? : Selector → List ℕ → Option Alternative
  | .only a, [] => some a
  | .first l, i :: path => l[i]?.bind fun s => s.at? path
  | _, _ => none

mutual
/-- The leaves with the paths to them. -/
def leaves : Selector → List (List ℕ × Alternative)
  | .only a => [([], a)]
  | .first l => leavesFrom 0 l

/-- The leaves of trees that are children of one node from some index on. -/
def leavesFrom (i : ℕ) : List Selector → List (List ℕ × Alternative)
  | [] => []
  | s :: rest => s.leaves.map (fun x => (i :: x.1, x.2)) ++ leavesFrom (i + 1) rest
end

mutual
/-- The leaves of a selector are its alternatives. -/
theorem map_snd_leaves : ∀ s : Selector, s.leaves.map Prod.snd = s.alternatives
  | .only _ => rfl
  | .first l => map_snd_leavesFrom 0 l

theorem map_snd_leavesFrom (i : ℕ) :
    ∀ l : List Selector, (leavesFrom i l).map Prod.snd = alternativesOf l
  | [] => rfl
  | s :: rest => by
      rw [leavesFrom, alternativesOf, List.map_append, List.map_map, ← map_snd_leaves s,
        ← map_snd_leavesFrom (i + 1) rest]
      rfl
end

mutual
/-- A leaf is listed with the path that leads to it. -/
theorem mem_leaves {path : List ℕ} {a : Alternative} :
    ∀ s : Selector, (path, a) ∈ s.leaves ↔ s.at? path = some a
  | .only b => by cases path <;> simp [leaves, at?, eq_comm]
  | .first l => by
      rw [leaves, mem_leavesFrom l]
      cases path <;> simp [at?, Option.bind_eq_some_iff]

/-- A leaf is found by the path that leads to it. -/
theorem mem_leavesFrom {path : List ℕ} {a : Alternative} : ∀ (l : List Selector) {i : ℕ},
    (path, a) ∈ leavesFrom i l ↔
      ∃ k rest s, path = (i + k) :: rest ∧ l[k]? = some s ∧ s.at? rest = some a
  | [], _ => by simp [leavesFrom]
  | s :: rest, i => by
      rw [leavesFrom, List.mem_append, mem_leavesFrom rest]
      constructor
      · rintro (hhere | ⟨k, path', t, rfl, ht, ha⟩)
        · rcases List.mem_map.1 hhere with ⟨⟨path', b⟩, hleaf, heq⟩
          cases heq
          exact ⟨0, path', s, rfl, rfl, (mem_leaves s).1 hleaf⟩
        · exact ⟨k + 1, path', t, by rw [Nat.add_assoc, Nat.add_comm 1 k], ht, ha⟩
      · rintro ⟨_ | k, path', t, rfl, ht, ha⟩
        · cases ht
          exact .inl (List.mem_map.2 ⟨(path', a), (mem_leaves s).2 ha, rfl⟩)
        · exact .inr ⟨k, path', t, by rw [Nat.add_assoc, Nat.add_comm 1 k], ht, ha⟩
end

mutual
/-- The leaves are listed in the order of their paths. -/
theorem pairwise_leaves : ∀ s : Selector, s.leaves.Pairwise fun x y => x.1 < y.1
  | .only _ => List.pairwise_singleton _ _
  | .first l => pairwise_leavesFrom 0 l

/-- The leaves stand in the order of their paths. -/
theorem pairwise_leavesFrom (i : ℕ) :
    ∀ l : List Selector, (leavesFrom i l).Pairwise fun x y => x.1 < y.1
  | [] => .nil
  | s :: rest => by
      rw [leavesFrom, List.pairwise_append, List.pairwise_map]
      refine ⟨(pairwise_leaves s).imp fun h => ?_, pairwise_leavesFrom (i + 1) rest, ?_⟩
      · exact List.cons_lt_cons_iff.2 (.inr ⟨rfl, h⟩)
      · -- What stands below a later child has a greater first index.
        rintro x hx ⟨path, a⟩ hy
        rcases List.mem_map.1 hx with ⟨⟨path', b⟩, -, rfl⟩
        rcases (mem_leavesFrom rest).1 hy with ⟨k, path'', t, rfl, -, -⟩
        exact List.cons_lt_cons_iff.2 (.inl (by omega))
end

variable {s : Selector}

/-- A static field stands in the leaf at the end of a path, at an index among its fields. A recipe
    that reads a static field has that field alone. -/
def HasField (s : Selector) (p : List ℕ ×ₗ ℕ) (m : Member) : Prop :=
  (∃ fields, s.at? (ofLex p).1 = some (.reuse fields) ∧ fields[(ofLex p).2]? = some m) ∨
    ∃ r, s.at? (ofLex p).1 = some (.recipe r) ∧ r.kind = .staticField ∧ r.member = m ∧
      (ofLex p).2 = 0

/-- A recipe that makes an object is the leaf at the end of a path. -/
def HasRecipe (s : Selector) (path : List ℕ) (r : Recipe) : Prop :=
  s.at? path = some (.recipe r) ∧ r.kind ≠ .staticField

/-- The fields of an alternative are those that it reuses, or the one that it reads. -/
theorem getElem?_fields {a : Alternative} {j : ℕ} {m : Member} : a.fields[j]? = some m ↔
    (∃ fields, a = .reuse fields ∧ fields[j]? = some m) ∨
      ∃ r, a = .recipe r ∧ r.kind = .staticField ∧ r.member = m ∧ j = 0 := by
  cases a with
  | reuse fields => simp [Alternative.fields]
  | recipe r =>
      by_cases hr : r.kind = .staticField
      · cases j <;> simp [Alternative.fields, Recipe.isExecutable, hr]
      · simp [Alternative.fields, Recipe.isExecutable, hr]

/-- A recipe can be executed unless it reads a field. -/
theorem executable?_eq_some {a : Alternative} {r : Recipe} :
    a.executable? = some r ↔ a = .recipe r ∧ r.kind ≠ .staticField := by
  cases a with
  | reuse fields => simp [Alternative.executable?]
  | recipe r' =>
      simp only [Alternative.executable?, Recipe.isExecutable, Option.ite_none_right_eq_some,
        Option.some.injEq, Alternative.recipe.injEq, bne_iff_ne]
      constructor
      · rintro ⟨hr, rfl⟩
        exact ⟨rfl, hr⟩
      · rintro ⟨rfl, hr⟩
        exact ⟨hr, rfl⟩

/-- The static fields with their places. -/
def placedFields (s : Selector) : List ((List ℕ ×ₗ ℕ) × Member) :=
  s.leaves.flatMap fun x => x.2.fields.zipIdx.map fun f => (toLex (x.1, f.2), f.1)

/-- The executable recipes with their places. -/
def placedRecipes (s : Selector) : List (List ℕ × Recipe) :=
  s.leaves.filterMap fun x => x.2.executable?.map (x.1, ·)

/-- Placing the fields leaves out none of them. -/
theorem map_snd_placedFields (s : Selector) :
    s.placedFields.map Prod.snd = s.alternatives.flatMap Alternative.fields := by
  rw [← map_snd_leaves, List.flatMap_map, placedFields, List.map_flatMap]
  refine List.flatMap_congr fun x _ => ?_
  rw [List.map_map]
  exact List.zipIdx_map_fst 0 _

-- Nor does placing the recipes.
theorem map_snd_placedRecipes (s : Selector) : s.placedRecipes.map Prod.snd = s.executable := by
  rw [executable, ← map_snd_leaves, List.filterMap_map, placedRecipes, List.map_filterMap]
  refine List.filterMap_congr fun x _ => ?_
  rw [Option.map_map]
  exact Option.map_id'

/-- A field stands where the selector has it. -/
theorem standsIn_placedFields {p : List ℕ ×ₗ ℕ} {m : Member} :
    StandsIn s.placedFields p m ↔ s.HasField p m := by
  -- A field is placed by the path of its alternative and its index there.
  have hleaf : StandsIn s.placedFields p m ↔
      ∃ a, s.at? (ofLex p).1 = some a ∧ a.fields[(ofLex p).2]? = some m := by
    simp only [StandsIn, placedFields, List.mem_flatMap, List.mem_map, Prod.exists, mem_leaves,
      List.mem_zipIdx_iff_getElem?]
    constructor
    · rintro ⟨path, a, ha, m', j, hj, heq⟩
      cases heq
      exact ⟨a, ha, hj⟩
    · rintro ⟨a, ha, hj⟩
      exact ⟨_, a, ha, m, _, hj, rfl⟩
  simp only [hleaf, getElem?_fields, HasField]
  constructor
  · rintro ⟨a, ha, ⟨fields, rfl, hj⟩ | ⟨r, rfl, hr⟩⟩
    · exact .inl ⟨fields, ha, hj⟩
    · exact .inr ⟨r, ha, hr⟩
  · rintro (⟨fields, ha, hj⟩ | ⟨r, ha, hr⟩)
    · exact ⟨_, ha, .inl ⟨fields, rfl, hj⟩⟩
    · exact ⟨_, ha, .inr ⟨r, rfl, hr⟩⟩

-- And so does a recipe.
theorem standsIn_placedRecipes {path : List ℕ} {r : Recipe} :
    StandsIn s.placedRecipes path r ↔ s.HasRecipe path r := by
  simp only [StandsIn, placedRecipes, List.mem_filterMap, Option.map_eq_some_iff, Prod.exists,
    mem_leaves, executable?_eq_some, HasRecipe]
  constructor
  · rintro ⟨path', a, ha, r', ⟨rfl, hr⟩, heq⟩
    cases heq
    exact ⟨ha, hr⟩
  · rintro ⟨ha, hr⟩
    exact ⟨path, _, ha, r, ⟨rfl, hr⟩, rfl⟩

/-- The fields stand in the order of their places. -/
theorem pairwise_placedFields (s : Selector) :
    s.placedFields.Pairwise fun x y => x.1 < y.1 := by
  refine List.pairwise_flatMap.2 ⟨fun x _ => ?_, s.pairwise_leaves.imp fun h => ?_⟩
  · have hindex : (x.2.fields.zipIdx.map Prod.snd).Pairwise (· < ·) := by
      rw [List.zipIdx_map_snd]
      exact List.pairwise_lt_range'
    refine List.pairwise_map.2 ((List.pairwise_map.1 hindex).imp fun h => ?_)
    exact Prod.Lex.toLex_lt_toLex.2 (.inr ⟨rfl, h⟩)
  · rintro f hf g hg
    rcases List.mem_map.1 hf with ⟨_, -, rfl⟩
    rcases List.mem_map.1 hg with ⟨_, -, rfl⟩
    exact Prod.Lex.toLex_lt_toLex.2 (.inl h)

-- And so do the recipes.
theorem pairwise_placedRecipes (s : Selector) :
    s.placedRecipes.Pairwise fun x y => x.1 < y.1 := by
  refine s.pairwise_leaves.filterMap _ fun x y h r hr q hq => ?_
  rcases Option.map_eq_some_iff.1 hr with ⟨_, -, rfl⟩
  rcases Option.map_eq_some_iff.1 hq with ⟨_, -, rfl⟩
  exact h

/-- Two recipes name the same member in the same way. -/
def SameMember (a b : Recipe) : Prop :=
  a.kind = b.kind ∧ a.member = b.member

/-- The flat tree of some alternatives; an only one stands for itself. -/
def ofList : List Alternative → Selector
  | [a] => .only a
  | l => .first (l.map .only)

/-- Recipes are the same if their members are. -/
theorem same_iff {a b : Recipe} : a.same b = true ↔ SameMember a b := by
  simp [Recipe.same, SameMember]

/-- The fields of a normal form stand as they come up first. -/
theorem listsFirsts_fields (s : Selector) : ListsFirsts s.HasField Eq s.fields := by
  have h : ListsFirsts (StandsIn s.placedFields) (fun x y => (x == y) = true)
      (s.placedFields.map Prod.snd).eraseDups :=
    listsFirsts_eraseDupsBy beq_self_eq_true (fun x y z hxy hyz => by rwa [eq_of_beq hxy])
      s.pairwise_placedFields
  rw [map_snd_placedFields] at h
  exact h.congr (fun p m => standsIn_placedFields) fun x y => beq_iff_eq

/-- The recipes of a normal form stand as they come up first. -/
theorem listsFirsts_recipes (s : Selector) :
    ListsFirsts s.HasRecipe SameMember s.recipes := by
  have h : ListsFirsts (StandsIn s.placedRecipes) (fun x y => x.same y = true)
      ((s.placedRecipes.map Prod.snd).eraseDupsBy Recipe.same) := by
    refine listsFirsts_eraseDupsBy (fun x => same_iff.2 ⟨rfl, rfl⟩) (fun x y z hxy hyz => ?_)
      s.pairwise_placedRecipes
    rw [same_iff] at hxy hyz ⊢
    exact ⟨hxy.1.trans hyz.1, hxy.2.trans hyz.2⟩
  rw [map_snd_placedRecipes] at h
  exact h.congr (fun p r => standsIn_placedRecipes) fun x y => same_iff

/-- No recipe that is listed reads a field. -/
theorem kind_of_mem_recipes {r : Recipe} (hr : r ∈ s.recipes) : r.kind ≠ .staticField := by
  rcases (s.listsFirsts_recipes.mem_iff r).1 hr with ⟨path, hfirst⟩
  exact hfirst.1.2

theorem alternativesOf_map_only (l : List Alternative) : alternativesOf (l.map .only) = l := by
  induction l with
  | nil => rfl
  | cons a rest ih => rw [List.map_cons, alternativesOf, alternatives, ih, List.singleton_append]

/-- A list of alternatives is made into a selector of them. -/
theorem alternatives_ofList (l : List Alternative) : (ofList l).alternatives = l := by
  unfold ofList
  split
  · rfl
  · exact alternativesOf_map_only l

theorem flatten_eq (s : Selector) : s.flatten = ofList s.normalAlternatives :=
  rfl

theorem alternatives_flatten (s : Selector) : s.flatten.alternatives = s.normalAlternatives := by
  rw [flatten_eq, alternatives_ofList]

/-- Flattening keeps the fields. -/
theorem fields_flatten (s : Selector) : s.flatten.fields = s.fields := by
  have hrecipes : (s.recipes.map Alternative.recipe).flatMap Alternative.fields = [] := by
    refine List.flatMap_eq_nil_iff.2 (List.forall_mem_map.2 fun r hr => ?_)
    simp [Alternative.fields, Recipe.isExecutable, kind_of_mem_recipes hr]
  have hfields : s.flatten.alternatives.flatMap Alternative.fields = s.fields := by
    rw [alternatives_flatten, normalAlternatives, List.flatMap_append, hrecipes, List.append_nil]
    cases s.fields <;> simp [Alternative.fields]
  rw [fields, hfields]
  exact eraseDupsBy_eq_self (s.listsFirsts_fields.apart.imp fun h => beq_eq_false_iff_ne.2 h)

-- And the recipes.
theorem recipes_flatten (s : Selector) : s.flatten.recipes = s.recipes := by
  have hrecipes : s.flatten.executable = s.recipes := by
    rw [executable, alternatives_flatten, normalAlternatives, List.filterMap_append]
    have hreuse : (if s.fields.isEmpty then [] else [Alternative.reuse s.fields]).filterMap
        Alternative.executable? = [] := by
      split <;> rfl
    rw [hreuse, List.nil_append, List.filterMap_map]
    refine (List.filterMap_congr fun r hr => ?_).trans List.filterMap_some
    exact executable?_eq_some.2 ⟨rfl, kind_of_mem_recipes hr⟩
  rw [recipes, hrecipes]
  refine eraseDupsBy_eq_self (s.listsFirsts_recipes.apart.imp fun h => ?_)
  exact Bool.eq_false_iff.2 (mt same_iff.1 h)

/-- A tree is flattened to one list of static fields in front, if it has any, and its executable
    recipes behind, and nothing is nested in it. The list has every static field of the tree once,
    and the recipes are those that no recipe for the same member comes before, with the accessors
    that they have there. Both are in the order of the places in the tree. Flattening once more
    changes nothing. -/
theorem flatten_normal_form (s : Selector) : ∃ (fields : List Member) (recipes : List Recipe)
    (l : List Alternative),
    l = (if fields = [] then [] else [.reuse fields]) ++ recipes.map .recipe ∧
      s.flatten = ofList l ∧ s.flatten.alternatives = l ∧
      ListsFirsts s.HasField Eq fields ∧ fields.Nodup ∧
      ListsFirsts s.HasRecipe SameMember recipes ∧
      recipes.Pairwise (fun a b => ¬SameMember a b) ∧ (∀ r ∈ recipes, r.kind ≠ .staticField) ∧
      s.flatten.flatten = s.flatten := by
  refine ⟨s.fields, s.recipes, s.normalAlternatives, ?_, s.flatten_eq, s.alternatives_flatten,
    s.listsFirsts_fields, s.listsFirsts_fields.apart.imp Ne.symm, s.listsFirsts_recipes,
    s.listsFirsts_recipes.apart.imp fun h => ?_, fun r => kind_of_mem_recipes, ?_⟩
  · simp only [normalAlternatives, List.isEmpty_iff]
  · exact mt (fun hsame => ⟨hsame.1.symm, hsame.2.symm⟩) h
  · rw [flatten_eq s.flatten, normalAlternatives, fields_flatten, recipes_flatten]
    rfl

example (a : Accessor) :
    (first [only (.recipe (.ofConstructor "A" "(I)V" [a])), only (.reuse [⟨"A", "ONE", "LA;"⟩]),
      first [only (.recipe (.ofField ⟨"A", "TEN", "LA;"⟩)),
        only (.recipe (.ofConstructor "A" "(I)V" [])),
        only (.reuse [⟨"A", "ONE", "LA;"⟩])]]).flatten
      = first [only (.reuse [⟨"A", "ONE", "LA;"⟩, ⟨"A", "TEN", "LA;"⟩]),
        only (.recipe (.ofConstructor "A" "(I)V" [a]))] := by
  rfl

end Selector

end JvmFold
