import Mathlib
import JvmFold.Proofs.Machine.Adding
import JvmFold.Proofs.Text.Units

/-!
# Reversing by Code Points

A text is reversed unit by unit, which turns every surrogate pair around, and a
second pass puts the pairs back in order. The pass goes by pairs that are the
wrong way round and steps over what it has put right, so it has to be seen that
it finds those pairs and no others: a unit is the first half of a pair or the
second half but never both, so wherever two units do not make a pair, the pass
over what is in front of the one and that over what is behind the other have
nothing to do with each other.

What should come out is said by pieces. From the left, a text is split into
surrogate pairs and single units, and the pieces come out in reverse order. A
text without unpaired surrogates is split into the same pieces after that, so
reversing it twice gives it back. With unpaired ones two halves can meet that
were no pair before.

## Main definitions

* `Utf16.pieces`: Surrogate pairs and single units, from the left.
* `Utf16.Paired`: No piece is a surrogate.
* `Natives.reverseMember`: The method of builders that reverses the text.

## Theorems

* `Utf16.flatten_pieces`: The pieces make up the text.
* `Utf16.pieces_eq_map`: There is a piece for every code point.
* `Text.reversePairs_eq`: Reversing reverses the pieces.
* `Text.length_reversePairs`: The number of units is kept.
* `Text.reversePairs_reversePairs`: A text without unpaired surrogates is restored.
* `Natives.reverse_pieces`: The method of builders.
-/

namespace JvmFold

namespace Utf16

variable {u v : UInt16} {units rest : List UInt16} {p : List UInt16} {ps : List (List UInt16)}

/-- The text split into surrogate pairs and single units, from the left. -/
def pieces : List UInt16 → List (List UInt16)
  | [] => []
  | [u] => [[u]]
  | u :: v :: rest =>
    if isHigh u && isLow v then [u, v] :: pieces rest else [u] :: pieces (v :: rest)

/-- That no surrogate stands alone. -/
def Paired (units : List UInt16) : Prop :=
  ∀ u, [u] ∈ pieces units → isHigh u = false ∧ isLow u = false

/-- No unit is both halves of a pair. -/
theorem isHigh_eq_false_of_isLow (h : isLow u = true) : isHigh u = false := by
  rw [isLow_iff] at h
  rw [Bool.eq_false_iff, ne_eq, isHigh_iff]
  omega

/-- The pieces make up the text. -/
theorem flatten_pieces (units : List UInt16) : (pieces units).flatten = units := by
  fun_induction pieces units with
  | case1 => rfl
  | case2 u => rfl
  | case3 u v rest h ih => rw [List.flatten_cons, ih, List.cons_append, List.cons_append,
      List.nil_append]
  | case4 u v rest h ih => rw [List.flatten_cons, ih, List.singleton_append]

/-- The code points are the pieces of the text, whatever was gathered in front. -/
theorem map_ofCodePoint_go (acc : List Nat) (units : List UInt16) :
    (codePoints.go acc units).map ofCodePoint = acc.reverse.map ofCodePoint ++ pieces units := by
  fun_induction codePoints.go acc units with
  | case1 acc => rw [pieces, List.append_nil]
  | case2 acc u => rw [pieces, List.reverse_cons, List.map_append, List.map_singleton,
      ofCodePoint_toNat]
  | case3 acc u v rest h ih =>
      rw [pieces, if_pos h]
      rw [Bool.and_eq_true] at h
      rw [ih, List.reverse_cons, List.map_append, List.map_singleton,
        ofCodePoint_pairValue h.1 h.2, List.append_assoc, List.singleton_append]
  | case4 acc u v rest h ih =>
      rw [pieces, if_neg h, ih, List.reverse_cons, List.map_append, List.map_singleton,
        ofCodePoint_toNat, List.append_assoc, List.singleton_append]

/-- There is a piece for every code point. -/
theorem pieces_eq_map (units : List UInt16) : pieces units = (codePoints units).map ofCodePoint :=
  (map_ofCodePoint_go [] units).symm

/-- That a piece has no unpaired surrogate. -/
inductive Whole : List UInt16 → Prop
  | single {u : UInt16} (hhigh : isHigh u = false) (hlow : isLow u = false) : Whole [u]
  | pair {u v : UInt16} (hhigh : isHigh u = true) (hlow : isLow v = true) : Whole [u, v]

/-- Pieces without unpaired surrogates are those of the text that they make up. -/
theorem pieces_flatten (h : ∀ p ∈ ps, Whole p) : pieces ps.flatten = ps := by
  induction ps with
  | nil => rfl
  | cons p ps ih =>
      have hrest := ih fun q hq => h q (List.mem_cons_of_mem _ hq)
      rw [List.flatten_cons]
      cases h p List.mem_cons_self with
      | @single u hhigh hlow =>
          -- A unit by itself makes no pair with the one behind it.
          cases hflatten : ps.flatten with
          | nil =>
              rw [hflatten] at hrest
              rw [← hrest]
              rfl
          | cons v rest =>
              have hsingle : ¬(isHigh u && isLow v) = true := by simp [hhigh]
              rw [List.singleton_append, pieces, if_neg hsingle, ← hflatten, hrest]
      | @pair u v hhigh hlow =>
          rw [List.cons_append, List.singleton_append, pieces, if_pos (by rw [hhigh, hlow]; rfl),
            hrest]

/-- No piece is half of a pair. -/
theorem Paired.whole (h : Paired units) : ∀ p ∈ pieces units, Whole p := by
  -- What is no pair is a single unit, of which none is a surrogate.
  have hpiece : ∀ p ∈ pieces units, (∃ u, p = [u]) ∨ Whole p := by
    clear h
    fun_induction pieces units with
    | case1 => exact nofun
    | case2 u => exact fun p hp => .inl ⟨u, List.mem_singleton.mp hp⟩
    | case3 u v rest h ih =>
        rw [Bool.and_eq_true] at h
        exact List.forall_mem_cons.mpr ⟨.inr (.pair h.1 h.2), ih⟩
    | case4 u v rest h ih => exact List.forall_mem_cons.mpr ⟨.inl ⟨u, rfl⟩, ih⟩
  intro p hp
  rcases hpiece p hp with ⟨u, rfl⟩ | hwhole
  · exact .single (h u hp).1 (h u hp).2
  · exact hwhole

end Utf16

namespace Text

open Utf16

variable {u v : UInt16} {units : List UInt16}

/-- Where two units make no pair that has been turned around, the pass over the units up to the
    first of them and that over the units from the second one on do not depend on each other. -/
theorem mendPairs_append {front : List UInt16}
    (h : ∀ u, front.getLast? = some u → (isLow u && isHigh v) = false) (acc back : List UInt16) :
    mendPairs acc (front ++ v :: back) = mendPairs (mendPairs acc front).reverse (v :: back) := by
  fun_induction mendPairs acc front with
  | case1 acc => rw [List.nil_append, List.reverse_reverse]
  | case2 acc u =>
      rw [List.singleton_append, mendPairs, if_neg (by rw [h u rfl]; exact Bool.false_ne_true),
        List.reverse_reverse]
  | case3 acc u w rest hpair ih =>
      rw [List.cons_append, List.cons_append, mendPairs, if_pos hpair]
      refine ih fun x hx => h x ?_
      -- The last unit of the front is that of what is left of it.
      cases rest with
      | nil => cases hx
      | cons y rest => exact hx
  | case4 acc u w rest hpair ih =>
      rw [List.cons_append, List.cons_append, mendPairs, if_neg hpair]
      exact ih h

/-- Reversing reverses the pieces. -/
theorem reversePairs_eq (units : List UInt16) :
    reversePairs units = (pieces units).reverse.flatten := by
  unfold reversePairs
  fun_induction pieces units with
  | case1 => rfl
  | case2 u => rfl
  | case3 u v rest hpair ih =>
      -- the pair ends the reversed text, and its second half makes no pair with what is before it
      rw [Bool.and_eq_true] at hpair
      have hjoint : ∀ w, rest.reverse.getLast? = some w → (isLow w && isHigh v) = false :=
        fun w _ => by rw [isHigh_eq_false_of_isLow hpair.2, Bool.and_false]
      rw [List.reverse_cons, List.reverse_cons, List.append_assoc, List.singleton_append,
        mendPairs_append hjoint, ih, mendPairs, if_pos (by rw [hpair.1, hpair.2]; rfl), mendPairs,
        List.reverse_cons, List.reverse_cons, List.reverse_reverse, List.append_assoc,
        List.singleton_append, List.reverse_cons, List.flatten_append, List.flatten_singleton]
  | case4 u v rest hpair ih =>
      have hjoint : ∀ w, (v :: rest).reverse.getLast? = some w → (isLow w && isHigh u) = false := by
        intro w hw
        rw [List.getLast?_reverse, List.head?_cons, Option.some.injEq] at hw
        rw [← hw, Bool.and_comm, ← Bool.not_eq_true]
        exact hpair
      rw [List.reverse_cons, mendPairs_append hjoint, ih, mendPairs, List.reverse_cons,
        List.reverse_reverse, List.reverse_cons, List.flatten_append, List.flatten_singleton]

/-- No unit is lost. -/
theorem length_reversePairs (units : List UInt16) :
    (reversePairs units).length = units.length := by
  calc (reversePairs units).length = (pieces units).flatten.length := by
        rw [reversePairs_eq, (List.reverse_perm (pieces units)).flatten.length_eq]
    _ = units.length := by rw [flatten_pieces]

/-- A text without unpaired surrogates is restored when it is reversed twice. -/
theorem reversePairs_reversePairs (h : Paired units) :
    reversePairs (reversePairs units) = units := by
  have hpieces : pieces (pieces units).reverse.flatten = (pieces units).reverse :=
    pieces_flatten fun p hp => h.whole p (List.mem_reverse.mp hp)
  rw [reversePairs_eq (reversePairs units), reversePairs_eq units, hpieces, List.reverse_reverse,
    flatten_pieces]

/-- A second half in front of a first half is no pair, but the reversed text has one. -/
example : reversePairs (reversePairs [0xDC00, 0xD800]) = [0xD800, 0xDC00] := by
  decide

end Text

namespace Natives

variable {r : HeapRef} {units : Units} {env : Env} {s : Machine}

/-- The method of builders that reverses the text. -/
def reverseMember : Member :=
  ⟨"java/lang/StringBuilder", "reverse", "()Ljava/lang/StringBuilder;"⟩

/-- A builder is changed in place. -/
theorem changeBuilder_apply (hbuilder : s.heap.get? r = some (.builder units))
    (rest : List Value) (f : Units → Units) (env : Env) :
    changeBuilder (.ref r :: rest) f env s = .ok () (s.put r (.builder (f units))) := by
  have hthis : thisBuilder (.ref r :: rest) env s = .ok (r, units) s := by
    unfold thisBuilder
    refine Emu.bind_of_ok (a := .ref r) rfl ?_
    refine Emu.bind_of_ok (a := some r) rfl ?_
    exact Emu.bind_of_ok (Emu.object_apply hbuilder env) rfl
  unfold changeBuilder
  exact Emu.bind_of_ok hthis (Emu.modifyObject_apply hbuilder _ env)

/-- What the table of native methods gives for it. -/
theorem outcome_reverse (hbuilder : s.heap.get? r = some (.builder units)) (env : Env) :
    outcome reverseMember [.ref r] env s
      = some (.ok (some (.ref r))
        (s.put r (.builder (Text.reversePairs units.toList).toArray))) := by
  have hclass : ("java/lang/StringBuilder", builderMethods) ∈ all := by
    simp only [all, List.cons_append, List.mem_cons, true_or, or_true]
  have hmethod : (method "reverse" (chained "") fun args => do
      changeBuilder args fun units => (Text.reversePairs units.toList).toArray
      answerArg args 0) ∈ builderMethods := by
    simp [builderMethods]
  refine (outcome_builtin hclass hmethod [.ref r]).trans (congrArg some ?_)
  change (changeBuilder [.ref r] _ >>= fun _ => answerArg [.ref r] 0) env s = _
  rw [Emu.bind_apply, changeBuilder_apply hbuilder]
  rfl

/-- The method, called on a builder of any text, answers the builder and leaves in it the surrogate
    pairs and single units of the text, split from the left, in reverse order. They make up the
    text and are the units of its code points one by one, so the number of units is kept. No other
    object is changed. If the text has no unpaired surrogate, a second call restores everything. -/
theorem reverse_pieces (hbuilder : s.heap.get? r = some (.builder units)) (env : Env) :
    ∃ reversed : Units, ∃ s',
      outcome reverseMember [.ref r] env s = some (.ok (some (.ref r)) s') ∧
      s'.heap.get? r = some (.builder reversed) ∧
      (∀ q, q ≠ r → s'.heap.get? q = s.heap.get? q) ∧
      reversed.toList = (Utf16.pieces units.toList).reverse.flatten ∧
      (Utf16.pieces units.toList).flatten = units.toList ∧
      Utf16.pieces units.toList = (Utf16.codePoints units.toList).map Utf16.ofCodePoint ∧
      reversed.size = units.size ∧
      (Utf16.Paired units.toList →
        outcome reverseMember [.ref r] env s' = some (.ok (some (.ref r)) s)) := by
  have hafter := Machine.get?_put hbuilder (.builder (Text.reversePairs units.toList).toArray)
  refine ⟨_, _, outcome_reverse hbuilder env, hafter, fun q hq => Machine.get?_put_of_ne hq _,
    Text.reversePairs_eq units.toList, Utf16.flatten_pieces _, Utf16.pieces_eq_map _, ?_,
    fun hpaired => ?_⟩
  · rw [List.size_toArray, Text.length_reversePairs, Array.length_toList]
  · rw [outcome_reverse hafter, List.toList_toArray, Text.reversePairs_reversePairs hpaired,
      Array.toArray_toList, Machine.put_put_of_get? hbuilder]

/-- A builder of a letter, a surrogate pair and another letter. -/
def pairedBuilder : Machine :=
  Machine.adding {} [.builder #[0x61, 0xD83D, 0xDE00, 0x62]]

/-- The pair is kept, and a second call restores the builder. -/
theorem reverse_pieces_paired :
    pairedBuilder.heap.get? ⟨0⟩ = some (.builder #[0x61, 0xD83D, 0xDE00, 0x62]) ∧
    Utf16.Paired [0x61, 0xD83D, 0xDE00, 0x62] ∧
    ∃ s', outcome reverseMember [.ref ⟨0⟩] (Engine.env (.ofUniverse {}) {}) pairedBuilder
        = some (.ok (some (.ref ⟨0⟩)) s') ∧
      s'.heap.get? ⟨0⟩ = some (.builder #[0x62, 0xD83D, 0xDE00, 0x61]) ∧
      outcome reverseMember [.ref ⟨0⟩] (Engine.env (.ofUniverse {}) {}) s'
        = some (.ok (some (.ref ⟨0⟩)) pairedBuilder) := by
  have hpaired : Utf16.Paired [0x61, 0xD83D, 0xDE00, 0x62] := by
    intro u hu
    have hletter : u = 0x61 ∨ u = 0x62 := by
      simpa [Utf16.pieces, Utf16.isHigh, Utf16.isLow] using hu
    rcases hletter with rfl | rfl <;> decide
  rcases reverse_pieces (s := pairedBuilder) (r := ⟨0⟩) rfl (Engine.env (.ofUniverse {}) {}) with
    ⟨reversed, s', hanswer, hafter, -, hreversed, -, -, -, htwice⟩
  have heq : reversed = #[0x62, 0xD83D, 0xDE00, 0x61] := by
    rw [← Array.toList_inj, hreversed]
    rfl
  subst heq
  exact ⟨rfl, hpaired, s', hanswer, hafter, htwice hpaired⟩

end Natives

end JvmFold
