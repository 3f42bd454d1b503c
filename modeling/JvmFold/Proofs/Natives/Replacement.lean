import Mathlib
import JvmFold.Proofs.Machine.Adding

/-!
# Occurrences of a Text

A text is looked for by walking along another one and trying every place. What
comes out is said without the walk: a place is one where the text stands, with
something in front of it and something behind it, and the search gives the least
place from its start on. A text without units stands at every place, the one
behind the last unit included.

Occurrences can overlap, so replacing them has to say which ones it takes: the
first one, and then the first one in what is left behind it. This cuts the text
into pieces, and the new text is those pieces with the replacement between them,
as the old one is the pieces with the target between them. A target without
units would be found in front of the same unit for ever. It cuts around every
unit instead.

## Main definitions

* `Text.OccursAt`: A text stands in another one at a place.
* `Text.places`: The places from a start on.
* `Text.Cut`: The pieces that the occurrences of a text leave.
* `Natives.replaceMember`: The method of strings that replaces a text.

## Theorems

* `Text.find?_eq_some_iff`, `Text.find?_eq_none_iff`: The search gives the least place.
* `Text.exists_cut`: Every text is cut.
* `Text.Cut.intercalate_target`: The pieces make up the text.
* `Text.Cut.replace_eq`: Replacing puts the replacement between the pieces.
* `Natives.replace_pieces`: The method of strings.
-/

namespace JvmFold

namespace Text

variable {units needle target replacement before rest acc : List UInt16} {i k start : Nat}
  {pieces : List (List UInt16)}

/-- That a text stands in another one at a place. -/
def OccursAt (units needle : List UInt16) (i : Nat) : Prop :=
  ∃ before after, units = before ++ needle ++ after ∧ before.length = i

/-- The places of a text from a start on. -/
def places (units needle : List UInt16) (start : Nat) : Set Nat :=
  {i | start ≤ i ∧ OccursAt units needle i}

/-- A text occurs at a place if it starts what is left there. -/
theorem occursAt_iff : OccursAt units needle i ↔ i ≤ units.length ∧ needle <+: units.drop i := by
  constructor
  · rintro ⟨before, after, rfl, rfl⟩
    rw [List.append_assoc, List.drop_left]
    exact ⟨by simp, List.prefix_append needle after⟩
  · rintro ⟨hi, after, hafter⟩
    refine ⟨units.take i, after, ?_, List.length_take_of_le hi⟩
    rw [List.append_assoc, hafter, List.take_append_drop]

/-- A text without units stands everywhere. -/
theorem occursAt_nil : OccursAt units [] i ↔ i ≤ units.length := by
  rw [occursAt_iff]
  exact and_iff_left List.nil_prefix

theorem occursAt_zero : OccursAt units needle 0 ↔ needle <+: units := by
  rw [occursAt_iff, List.drop_zero]
  exact and_iff_right (Nat.zero_le _)

/-- A place of what is left of a text is one of the text. -/
theorem occursAt_append (before : List UInt16) (h : OccursAt rest needle i) :
    OccursAt (before ++ rest) needle (before.length + i) := by
  rcases h with ⟨front, after, rfl, rfl⟩
  exact ⟨before ++ front, after, by simp only [List.append_assoc], List.length_append⟩

/-- A place where the text occurs is the first one from there. -/
theorem isLeast_places (h : OccursAt units needle i) : IsLeast (places units needle i) i :=
  ⟨⟨le_rfl, h⟩, fun _ hk => hk.1⟩

/-- If it does not occur at a place, the others are further on. -/
theorem places_succ (h : ¬OccursAt units needle i) :
    places units needle (i + 1) = places units needle i := by
  ext k
  refine and_congr_left fun hk => ⟨Nat.le_of_succ_le, fun hle => ?_⟩
  refine Nat.lt_of_le_of_ne hle ?_
  rintro rfl
  exact h hk

/-- The search stops where the text occurs. -/
theorem findFrom_of_occursAt (h : OccursAt units needle i) :
    findFrom needle i (units.drop i) = some i := by
  unfold findFrom
  exact if_pos (List.isPrefixOf_iff_prefix.mpr (occursAt_iff.mp h).2)

-- And goes on by one where it does not.
theorem findFrom_of_not_occursAt (hi : i ≤ units.length) (h : ¬OccursAt units needle i) :
    findFrom needle i (units.drop i) =
      if i < units.length then findFrom needle (i + 1) (units.drop (i + 1)) else none := by
  have hprefix : ¬needle.isPrefixOf (units.drop i) = true := fun hprefix =>
    h (occursAt_iff.mpr ⟨hi, List.isPrefixOf_iff_prefix.mp hprefix⟩)
  rw [findFrom.eq_def, if_neg hprefix]
  split
  next hdrop =>
    rw [if_neg (not_lt.mpr (List.drop_eq_nil_iff.mp hdrop))]
  next u left hdrop =>
    have hlt : i < units.length := by
      by_contra hge
      rw [List.drop_eq_nil_of_le (not_lt.mp hge)] at hdrop
      cases hdrop
    rw [if_pos hlt, ← List.tail_drop, hdrop, List.tail_cons]

/-- The walk from a place on gives the least place. -/
theorem findFrom_drop_iff (hi : i ≤ units.length) :
    findFrom needle i (units.drop i) = some k ↔ IsLeast (places units needle i) k := by
  -- the induction is on the number of units that the walk still has before it
  induction hleft : units.length - i using Nat.strong_induction_on generalizing i with
  | _ left ih =>
      by_cases h : OccursAt units needle i
      · rw [findFrom_of_occursAt h, Option.some.injEq]
        exact ⟨fun heq => heq ▸ isLeast_places h, (isLeast_places h).unique⟩
      rw [findFrom_of_not_occursAt hi h]
      split
      next hlt => rw [ih _ (by omega) hlt rfl, places_succ h]
      next hend =>
        refine iff_of_false nofun fun hk => h ?_
        have heq : k = i := by
          have hle := (occursAt_iff.mp hk.1.2).1
          have hge := hk.1.1
          omega
        subst heq
        exact hk.1.2

/-- The search gives the least place from its start on. -/
theorem find?_eq_some_iff :
    find? units needle start = some i ↔ IsLeast (places units needle start) i := by
  unfold find?
  split
  next hlt =>
    refine iff_of_false nofun fun hi => ?_
    have hle := (occursAt_iff.mp hi.1.2).1
    have hge := hi.1.1
    omega
  next hle => exact findFrom_drop_iff (not_lt.mp hle)

/-- The search gives nothing if and only if there is no place. -/
theorem find?_eq_none_iff :
    find? units needle start = none ↔ places units needle start = ∅ := by
  constructor
  · intro hnone
    by_contra hplace
    -- places are natural numbers, so there is a least one
    rcases Set.nonempty_iff_ne_empty.mpr hplace with ⟨i, hi⟩
    rw [find?_eq_some_iff.mpr ⟨Nat.sInf_mem ⟨i, hi⟩, fun _ hk => Nat.sInf_le hk⟩] at hnone
    cases hnone
  · intro hempty
    refine Option.eq_none_iff_forall_ne_some.mpr fun i hi => ?_
    exact Set.eq_empty_iff_forall_notMem.mp hempty i (find?_eq_some_iff.mp hi).1

/-- A text without units is found where the search starts. -/
theorem find?_nil (h : start ≤ units.length) : find? units [] start = some start :=
  find?_eq_some_iff.mpr (isLeast_places (occursAt_nil.mpr h))

/-- The pieces that the occurrences of a text leave: those around every unit if it has no units,
    and else what is in front of its first occurrence and the pieces of what is behind it. -/
inductive Cut (target : List UInt16) : List UInt16 → List (List UInt16) → Prop
  | around (units : List UInt16) (h : target = []) :
      Cut target units ([] :: units.map ([·]) ++ [[]])
  | whole {units : List UInt16} (h : ∀ i, ¬OccursAt units target i) : Cut target units [units]
  | first {before rest : List UInt16} {pieces : List (List UInt16)} (hne : target ≠ [])
      (hfirst : ∀ i, OccursAt (before ++ target ++ rest) target i → before.length ≤ i)
      (hrest : Cut target rest pieces) : Cut target (before ++ target ++ rest) (before :: pieces)

/-- A text is cut into at least one piece. -/
theorem Cut.ne_nil (h : Cut target units pieces) : pieces ≠ [] := by
  cases h <;> exact List.cons_ne_nil _ _

/-- Every text is cut. -/
theorem exists_cut (target units : List UInt16) : ∃ pieces, Cut target units pieces := by
  rcases eq_or_ne target [] with hnil | hne
  · exact ⟨_, .around units hnil⟩
  -- what is behind an occurrence has fewer units, as the occurrence has some
  induction hlength : units.length using Nat.strong_induction_on generalizing units with
  | _ length ih =>
      cases hfind : find? units target 0 with
      | none =>
          refine ⟨_, .whole fun i hi => ?_⟩
          exact Set.eq_empty_iff_forall_notMem.mp (find?_eq_none_iff.mp hfind) i ⟨Nat.zero_le i, hi⟩
      | some k =>
          rcases find?_eq_some_iff.mp hfind with ⟨⟨-, before, rest, rfl, rfl⟩, hleast⟩
          have hpos := List.length_pos_iff.mpr hne
          have hshorter : rest.length < length := by
            rw [← hlength, List.length_append, List.length_append]
            omega
          rcases ih _ hshorter rest rfl with ⟨pieces, hpieces⟩
          exact ⟨_, .first hne (fun i hi => hleast ⟨Nat.zero_le i, hi⟩) hpieces⟩

/-- Joining puts the separator behind each piece but the last. -/
theorem intercalate_cons (sep before : List UInt16) (hne : pieces ≠ []) :
    sep.intercalate (before :: pieces) = before ++ sep ++ sep.intercalate pieces := by
  rcases List.exists_cons_of_ne_nil hne with ⟨piece, pieces, rfl⟩
  exact List.intercalate_cons_cons

-- With single units as the pieces, around each of them.
theorem intercalate_around (sep units : List UInt16) :
    sep.intercalate ([] :: units.map ([·]) ++ [[]]) = sep ++ units.flatMap (· :: sep) := by
  have hunits : sep.intercalate (units.map ([·]) ++ [[]]) = units.flatMap (· :: sep) := by
    induction units with
    | nil => rfl
    | cons u units ih =>
        rw [List.map_cons, List.cons_append, intercalate_cons _ _ (by simp), ih]
        rfl
  rw [List.cons_append, intercalate_cons _ _ (by simp), hunits]
  rfl

/-- The pieces make up the text, with the target between them. -/
theorem Cut.intercalate_target (h : Cut target units pieces) :
    target.intercalate pieces = units := by
  induction h with
  | around units h =>
      rw [h, intercalate_around, List.nil_append, List.flatMap_singleton']
  | whole h => exact List.intercalate_singleton
  | first hne hfirst hrest ih => rw [intercalate_cons _ _ hrest.ne_nil, ih]

/-- Units that belong to a match are passed over. -/
theorem replaceFrom_skip (skipped rest : List UInt16) :
    replaceFrom target replacement skipped.length acc (skipped ++ rest)
      = replaceFrom target replacement 0 acc rest := by
  induction skipped with
  | nil => rfl
  | cons u skipped ih =>
      rw [List.length_cons, List.cons_append, replaceFrom]
      exact ih

/-- At an occurrence the replacement is written, and its units are passed over. -/
theorem replaceFrom_target (hne : target ≠ []) :
    replaceFrom target replacement 0 acc (target ++ rest)
      = replaceFrom target replacement 0 (replacement.reverse ++ acc) rest := by
  rcases List.exists_cons_of_ne_nil hne with ⟨u, tail, rfl⟩
  rw [List.cons_append, replaceFrom, if_pos, List.length_cons, Nat.add_sub_cancel, replaceFrom_skip]
  rw [List.isPrefixOf_iff_prefix, ← List.cons_append]
  exact List.prefix_append _ _

/-- Units in front of the first occurrence are written as they are. -/
theorem replaceFrom_before
    (h : ∀ i, OccursAt (before ++ rest) target i → before.length ≤ i) :
    replaceFrom target replacement 0 acc (before ++ rest)
      = replaceFrom target replacement 0 (before.reverse ++ acc) rest := by
  induction before generalizing acc with
  | nil => rfl
  | cons u before ih =>
      -- The text does not occur here, so the unit is kept and the search goes on.
      have hzero : ¬target.isPrefixOf (u :: (before ++ rest)) = true := fun hprefix =>
        absurd (h 0 (occursAt_zero.mpr (List.isPrefixOf_iff_prefix.mp hprefix)))
          (Nat.not_succ_le_zero _)
      have hlater : ∀ i, OccursAt (before ++ rest) target i → before.length ≤ i := by
        intro i hi
        have hle := h _ (occursAt_append [u] hi)
        rw [List.length_cons, List.length_singleton] at hle
        omega
      rw [List.cons_append, replaceFrom, if_neg hzero, ih hlater, List.reverse_cons,
        List.append_assoc, List.singleton_append]

/-- Replacing joins the pieces by the replacement. -/
theorem Cut.replaceFrom_eq (h : Cut target units pieces) (hne : target ≠ [])
    (acc : List UInt16) :
    replaceFrom target replacement 0 acc units
      = acc.reverse ++ replacement.intercalate pieces := by
  -- the induction is on the pieces, with what is already written as a parameter
  induction h generalizing acc with
  | around units h => exact absurd h hne
  | @whole units h =>
      have hbefore := @replaceFrom_before target replacement units [] acc
        fun i hi => absurd (by rwa [List.append_nil] at hi) (h i)
      rw [List.append_nil] at hbefore
      rw [hbefore, replaceFrom, List.reverse_append, List.reverse_reverse,
        List.intercalate_singleton]
  | first _ hfirst hrest ih =>
      rw [List.append_assoc] at hfirst ⊢
      rw [replaceFrom_before hfirst, replaceFrom_target hne, ih, intercalate_cons _ _ hrest.ne_nil]
      simp only [List.reverse_append, List.reverse_reverse, List.append_assoc]

/-- Replacing puts the replacement between the pieces. -/
theorem Cut.replace_eq (h : Cut target units pieces) (replacement : List UInt16) :
    replace units target replacement = replacement.intercalate pieces := by
  unfold replace
  -- An empty text is put around every unit; any other is looked for.
  split
  next hempty =>
    rw [List.isEmpty_iff] at hempty
    cases h with
    | around units h => exact (intercalate_around _ _).symm
    | whole h =>
        subst hempty
        exact absurd (occursAt_nil.mpr (Nat.zero_le _)) (h 0)
    | first hne hfirst hrest => exact absurd hempty hne
  next hne =>
    rw [List.isEmpty_iff] at hne
    rw [h.replaceFrom_eq hne, List.reverse_nil, List.nil_append]

/-- A target without units is replaced around every unit. -/
example : replace [1, 2] [] [0] = [0, 1, 0, 2, 0] := by
  decide

end Text

namespace Natives

variable {r : HeapRef} {old new : Value} {units target replacement : Units} {env : Env}
  {s s₁ s₂ : Machine}

/-- The method of strings that replaces a text. -/
def replaceMember : Member :=
  ⟨"java/lang/String", "replace",
    "(Ljava/lang/CharSequence;Ljava/lang/CharSequence;)Ljava/lang/String;"⟩

/-- The text of a string is the string itself. -/
theorem sequenceText_string (hstring : s.heap.get? r = some (.string units)) (env : Env) :
    Emu.sequenceText (.ref r) env s = .ok units s := by
  unfold Emu.sequenceText
  dsimp only
  rw [Emu.bind_apply, Emu.object_apply hstring]
  rfl

/-- If nothing is found the string itself is given back. -/
theorem replaceText_apply (hstring : s.heap.get? r = some (.string units))
    (htarget : Emu.sequenceText old env s = .ok target s₁)
    (hreplacement : Emu.sequenceText new env s₁ = .ok replacement s₂) :
    replaceText [.ref r, old, new] env s =
      if (Text.find? units.toList target.toList 0).isNone then .ok (some (.ref r)) s₂
      else .ok (some (.ref ⟨s₂.heap.size⟩)) (s₂.adding
        [.string (Text.replace units.toList target.toList replacement.toList).toArray]) := by
  have hthis : thisText [.ref r, old, new] env s = .ok units.toList s := by
    change (Emu.stringUnits (.ref r) >>= fun units => pure units.toList) env s = _
    rw [Emu.bind_apply, Emu.stringUnits_apply hstring]
    rfl
  have hold : argSequence [.ref r, old, new] 1 env s = .ok target.toList s₁ := by
    change (Emu.sequenceText old >>= fun units => pure units.toList) env s = _
    rw [Emu.bind_apply, htarget]
    rfl
  have hnew : argSequence [.ref r, old, new] 2 env s₁ = .ok replacement.toList s₂ := by
    change (Emu.sequenceText new >>= fun units => pure units.toList) env s₁ = _
    rw [Emu.bind_apply, hreplacement]
    rfl
  unfold replaceText
  -- The two sequences are read in order, and reading one may change the state for the other.
  rw [Emu.bind_apply, hthis]
  dsimp only
  rw [Emu.bind_apply, hold]
  dsimp only
  rw [Emu.bind_apply, hnew]
  dsimp only
  split
  · rfl
  · unfold Natives.units Emu.newString
    rfl

/-- What the table of native methods gives for it. -/
theorem outcome_replace (args : List Value) (env : Env) (s : Machine) :
    outcome replaceMember args env s = some (replaceText args env s) := by
  have hclass : ("java/lang/String", stringMethods) ∈ all := by
    simp only [all, List.cons_append, List.mem_cons, true_or, or_true]
  have hmethod : method "replace"
      "(Ljava/lang/CharSequence;Ljava/lang/CharSequence;)Ljava/lang/String;" replaceText
      ∈ stringMethods := by
    simp [stringMethods]
  exact outcome_builtin hclass hmethod args

/-- For all texts, the search gives the least place from its start on where the one stands in the
    other, and nothing if and only if there is none; a text without units is found where the search
    starts, if that is within the other text.

    The method, called on a string with a target and a replacement that have texts, always has an
    answer. It is the string itself if the target stands nowhere in it. Otherwise it is a new
    string, the pieces that the leftmost occurrences of the target leave with the replacement
    between them. The string is cut into such pieces, and they make it up with the target between
    them. -/
theorem replace_pieces (hstring : s.heap.get? r = some (.string units))
    (htarget : Emu.sequenceText old env s = .ok target s₁)
    (hreplacement : Emu.sequenceText new env s₁ = .ok replacement s₂) :
    (∀ (text needle : List UInt16) (start : Nat),
      (∀ i, Text.find? text needle start = some i ↔ IsLeast (Text.places text needle start) i) ∧
      (Text.find? text needle start = none ↔ Text.places text needle start = ∅) ∧
      (start ≤ text.length → Text.find? text [] start = some start)) ∧
    (∃ pieces, Text.Cut target.toList units.toList pieces) ∧
    ∀ pieces, Text.Cut target.toList units.toList pieces →
      target.toList.intercalate pieces = units.toList ∧
      (Text.places units.toList target.toList 0 = ∅ →
        outcome replaceMember [.ref r, old, new] env s = some (.ok (some (.ref r)) s₂)) ∧
      (Text.places units.toList target.toList 0 ≠ ∅ →
        outcome replaceMember [.ref r, old, new] env s
          = some (.ok (some (.ref ⟨s₂.heap.size⟩))
            (s₂.adding [.string (replacement.toList.intercalate pieces).toArray]))) := by
  refine ⟨fun text needle start =>
      ⟨fun i => Text.find?_eq_some_iff, Text.find?_eq_none_iff, Text.find?_nil⟩,
    Text.exists_cut _ _,
    fun pieces hcut => ⟨hcut.intercalate_target, fun hempty => ?_, fun hplace => ?_⟩⟩
  · rw [outcome_replace, replaceText_apply hstring htarget hreplacement,
      Text.find?_eq_none_iff.mpr hempty]
    rfl
  · -- The search from the start finds the first place, so there is none if it fails.
    have hfound : ¬(Text.find? units.toList target.toList 0).isNone = true := by
      rw [Option.isNone_iff_eq_none, Text.find?_eq_none_iff]
      exact hplace
    rw [outcome_replace, replaceText_apply hstring htarget hreplacement, if_neg hfound,
      hcut.replace_eq]

/-- The strings `aaa`, `aa` and `b`. -/
def overlapping : Machine :=
  Machine.adding {} [.string #[0x61, 0x61, 0x61], .string #[0x61, 0x61], .string #[0x62]]

/-- Of two occurrences that overlap the left one is replaced. -/
theorem replace_pieces_overlapping :
    overlapping.heap.get? ⟨0⟩ = some (.string #[0x61, 0x61, 0x61]) ∧
    Emu.sequenceText (.ref ⟨1⟩) (Engine.env (.ofUniverse {}) {}) overlapping
      = .ok #[0x61, 0x61] overlapping ∧
    Emu.sequenceText (.ref ⟨2⟩) (Engine.env (.ofUniverse {}) {}) overlapping
      = .ok #[0x62] overlapping ∧
    outcome replaceMember [.ref ⟨0⟩, .ref ⟨1⟩, .ref ⟨2⟩] (Engine.env (.ofUniverse {}) {})
        overlapping
      = some (.ok (some (.ref ⟨3⟩)) (overlapping.adding [.string #[0x62, 0x61]])) := by
  -- The match at the second place overlaps the first one and is passed over.
  have hcut : Text.Cut [0x61, 0x61] ([] ++ [0x61, 0x61] ++ [0x61]) [[], [0x61]] := by
    refine .first (List.cons_ne_nil _ _) (fun i _ => Nat.zero_le i) (.whole fun i hi => ?_)
    have hlength := (Text.occursAt_iff.mp hi).2.length_le
    rw [List.length_drop] at hlength
    exact absurd hlength (by simp)
  have hplace : Text.places [0x61, 0x61, 0x61] [0x61, 0x61] 0 ≠ ∅ :=
    Set.nonempty_iff_ne_empty.mp ⟨0, le_rfl, [], [0x61], rfl, rfl⟩
  have htarget : Emu.sequenceText (.ref ⟨1⟩) (Engine.env (.ofUniverse {}) {}) overlapping
      = .ok #[0x61, 0x61] overlapping := sequenceText_string rfl _
  have hreplacement : Emu.sequenceText (.ref ⟨2⟩) (Engine.env (.ofUniverse {}) {}) overlapping
      = .ok #[0x62] overlapping := sequenceText_string rfl _
  exact ⟨rfl, htarget, hreplacement,
    ((replace_pieces (r := ⟨0⟩) rfl htarget hreplacement).2.2 _ hcut).2.2 hplace⟩

end Natives

end JvmFold
