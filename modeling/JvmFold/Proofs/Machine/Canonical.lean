import Mathlib
import JvmFold.Proofs.Machine.Composition

/-!
# Canonical Objects

A program can tell whether two references are the same. So it matters which
requests to a heap are answered with one object. Three tables decide that, one
for the texts of interned strings, one for the names of classes and one for the
boxes of small values, and they share one row of objects.

What a request asks for can be read off it, apart from one kind: a string of the
program that is to be interned is known by its contents at that time. It becomes
the canonical one itself if there is none, and a literal of the same contents
that comes later gets it. So what has to be compared are not requests but what
they ask for.

Nothing is ever taken out of a table, and no object changes. So a request is
answered by the object that an earlier one for the same got, and the contents of
an object tell apart the requests for different things. A box outside the tables
is always new.

## Main definitions

* `Wrapper.Shares`: Two values have one box in the caches of the platform.
* `Heap.Request`, `Heap.answer`, `Heap.run`: Requests to a heap, one and many.
* `Heap.Asks`: What a request asks for.
* `Heap.Demand.Same`, `Heap.Demand.MetBy`: Asking for the same, and getting what was asked for.

## Theorems

* `Wrapper.shares_iff`: The values with one box are those with one number in the table.
* `Heap.extends_answer`, `Heap.evolves_answer`: What a request does to a heap.
* `Heap.boxes_run`: The boxes in the table are those that were asked for.
* `Heap.requests_answered_alike`: Which requests are answered with one object.
-/

namespace JvmFold

namespace Wrapper

variable {w : Wrapper} {v v' : Value} {k : Int}

/-- Two values have one box in the caches of the platform: those of one truth value, the first 128
    characters, and the whole numbers of eight bits with sign in all types that have them. -/
inductive Shares : Wrapper → Value → Value → Prop where
  | boolean {a b : Int32} (h : a = 0 ↔ b = 0) : Shares .boolean (.int a) (.int b)
  | character {a : Int32} (h : 0 ≤ a ∧ a ≤ 127) : Shares .character (.int a) (.int a)
  | small {w : Wrapper} (hw : w ∈ [Wrapper.byte, .short, .integer]) {a : Int32}
      (h : -128 ≤ a ∧ a ≤ 127) : Shares w (.int a) (.int a)
  | long {a : Int64} (h : -128 ≤ a ∧ a ≤ 127) : Shares .long (.long a) (.long a)

/-- A box holds the value, or at least one of the same truth value if it is one of a truth value. -/
def Agrees (w : Wrapper) (v v' : Value) : Prop :=
  v' = v ∨ w = .boolean ∧ ∃ a b, v = .int a ∧ v' = .int b ∧ (a = 0 ↔ b = 0)

/-- What shares a box has the same value. -/
theorem Shares.agrees (h : w.Shares v v') : w.Agrees v v' := by
  cases h with
  | boolean h => exact .inr ⟨rfl, _, _, rfl, rfl, h⟩
  | character | small | long => exact .inl rfl

/-- The value that has a number in the table, if the number is that of no truth value. -/
def ofCacheKey (w : Wrapper) (k : Int) : Value :=
  if w = .long then .long (.ofInt k) else .int (.ofInt k)

/-- Of the small wrappers, a value within a byte is its own key. -/
theorem of_small {a : Int32} (hw : w ∈ [Wrapper.byte, .short, .integer])
    (h : (if -128 ≤ a ∧ a ≤ 127 then some a.toInt else none) = some k) :
    w.Shares (.int a) (.int a) ∧ (w ≠ .boolean → .int a = w.ofCacheKey k) := by
  rcases Option.ite_none_right_eq_some.1 h with ⟨hrange, hk⟩
  cases hk
  refine ⟨.small hw hrange, fun _ => ?_⟩
  have hlong : w ≠ .long := by
    rintro rfl
    simp at hw
  simp [ofCacheKey, hlong]

/-- A value in the table shares its box with itself, and its number gives it back unless it is a
    truth value. -/
theorem of_cacheKey? (h : w.cacheKey? v = some k) :
    w.Shares v v ∧ (w ≠ .boolean → v = w.ofCacheKey k) := by
  -- The kinds of boxes are told apart in the order of the table.
  unfold cacheKey? at h
  split at h
  · exact ⟨.boolean .rfl, fun hne => absurd rfl hne⟩
  · rcases Option.ite_none_right_eq_some.1 h with ⟨hrange, hk⟩
    cases hk
    exact ⟨.character hrange, fun _ => by simp [ofCacheKey]⟩
  · exact of_small (by simp) h
  · exact of_small (by simp) h
  · exact of_small (by simp) h
  · rcases Option.ite_none_right_eq_some.1 h with ⟨hrange, hk⟩
    cases hk
    exact ⟨.long hrange, fun _ => by simp [ofCacheKey]⟩
  · cases h

/-- Truth values all have a key. -/
theorem cacheKey?_boolean (h : cacheKey? .boolean v = some k) :
    ∃ a, v = .int a ∧ k = if a = 0 then 0 else 1 := by
  cases v with
  | int a => exact ⟨a, rfl, (Option.some.inj h).symm⟩
  | _ => cases h

/-- Two values have one box exactly if they have one number in the table. -/
theorem shares_iff :
    w.Shares v v' ↔ ∃ k, w.cacheKey? v = some k ∧ w.cacheKey? v' = some k := by
  constructor
  · intro h
    cases h with
    | boolean h => exact ⟨_, rfl, by simp only [cacheKey?, h]⟩
    | character h => exact ⟨_, if_pos h, if_pos h⟩
    | small hw h =>
        simp only [List.mem_cons, List.not_mem_nil, or_false] at hw
        rcases hw with rfl | rfl | rfl
        all_goals exact ⟨_, if_pos h, if_pos h⟩
    | long h => exact ⟨_, if_pos h, if_pos h⟩
  · rintro ⟨k, h, h'⟩
    -- Truth values are told apart by whether they are zero, the others by their number.
    by_cases hw : w = .boolean
    · subst hw
      rcases cacheKey?_boolean h with ⟨a, rfl, ha⟩
      rcases cacheKey?_boolean h' with ⟨b, rfl, hb⟩
      refine .boolean ?_
      rw [ha] at hb
      by_cases ha : a = 0 <;> by_cases hb' : b = 0 <;> simp_all
    · rcases of_cacheKey? h with ⟨hself, heq⟩
      rwa [(of_cacheKey? h').2 hw, ← heq hw]

end Wrapper

namespace Heap

variable {h h' : Heap} {r : HeapRef} {w : Wrapper} {v : Value} {k : Int}

/-- A request to a heap. -/
inductive Request where
  | alloc (object : HeapObject)
  | newString (units : Units)
  | intern (units : Units)
  | internExisting (reference : HeapRef)
  | classObject (name : String)
  | boxed (wrapper : Wrapper) (value : Value)

/-- The answer to a request, and the heap behind it. -/
def answer (h : Heap) : Request → HeapRef × Heap
  | .alloc o => h.alloc o
  | .newString units => h.newString units
  | .intern units => h.intern units
  | .internExisting r => h.internExisting r
  | .classObject name => h.classObject name
  | .boxed w v => h.boxed w v

/-- The heap behind a sequence of requests. -/
def run (h : Heap) (l : List Request) : Heap :=
  l.foldl (fun h q => (h.answer q).2) h

/-- What can be asked for by contents. -/
inductive Demand where
  | text (units : Units)
  | type (name : String)
  | box (wrapper : Wrapper) (value : Value)

/-- A request to a heap asks for something by contents. A string that is to be interned stands for
    the contents that it has. -/
inductive Asks (h : Heap) : Request → Demand → Prop where
  | intern (units : Units) : Asks h (.intern units) (.text units)
  | internExisting {r : HeapRef} {units : Units} (hr : h.get? r = some (.string units)) :
      Asks h (.internExisting r) (.text units)
  | classObject (name : String) : Asks h (.classObject name) (.type name)
  | boxed (w : Wrapper) (v : Value) : Asks h (.boxed w v) (.box w v)

/-- What is asked for is the same: equal units, equal names, or values that have one box. -/
inductive Demand.Same : Demand → Demand → Prop where
  | text (units : Units) : Same (.text units) (.text units)
  | type (name : String) : Same (.type name) (.type name)
  | box {w : Wrapper} {v v' : Value} (h : w.Shares v v') : Same (.box w v) (.box w v')

/-- An object is what was asked for. -/
def Demand.MetBy : Demand → HeapObject → Prop
  | .text units, o => o = .string units
  | .type name, o => o = .classObject name
  | .box w v, o => ∃ v', o = .boxed w v' ∧ w.Agrees v v'

section Answer

variable {q : Request} {d : Demand}

/-- A new object leaves the others where they are. -/
theorem extends_alloc (h : Heap) (o : HeapObject) : h.Extends (h.alloc o).2 :=
  ⟨get?_alloc, id, id, .inl, .inl⟩

/-- The objects stay, and what becomes canonical has the contents that it stands for. -/
theorem extends_answer (h : Heap) (q : Request) : h.Extends (h.answer q).2 := by
  cases q with
  | alloc o => exact extends_alloc h o
  | newString units => exact extends_alloc h (.string units)
  | intern units => exact (h.intern_spec units).1
  | classObject name => exact (h.classObject_spec name).1
  | internExisting r =>
      change h.Extends (h.internExisting r).2
      unfold internExisting
      split
      next units hr =>
        split
        · exact .refl h
        -- The units are new, so the entry for them takes no other's place.
        next hnew =>
          refine ⟨id, getElem?_insert_of_new hnew, id, fun hr' => ?_, .inl⟩
          refine (getElem?_of_insert hr').imp_right fun hnow => ?_
          rw [hnow.1, hnow.2]
          exact hr
      · exact .refl h
  | boxed w v =>
      change h.Extends (h.boxed w v).2
      unfold boxed
      split
      · exact extends_alloc h _
      · split
        · exact .refl h
        · exact ⟨get?_alloc, id, id, .inl, .inl⟩

/-- The tables only grow. -/
theorem evolves_answer (h : Heap) (q : Request) : h.Evolves (h.answer q).2 := by
  cases q with
  | alloc o => exact evolves_alloc h o
  | newString units => exact evolves_alloc h (.string units)
  | intern units => exact evolves_intern h units
  | internExisting r => exact evolves_internExisting h r
  | classObject name => exact evolves_classObject h name
  | boxed w v => exact evolves_boxed h w v

/-- A box that is in the table behind a request was in it before, or is what the request asked
    for. -/
theorem boxes_answer (hr : (h.answer q).2.boxes[(w, k)]? = some r) :
    h.boxes[(w, k)]? = some r ∨ ∃ v, q = .boxed w v ∧ w.cacheKey? v = some k ∧
      (h.answer q).2.get? r = some (.boxed w v) := by
  cases q with
  | alloc o => exact .inl hr
  | newString units => exact .inl hr
  | intern units =>
      refine .inl ?_
      change (h.intern units).2.boxes[(w, k)]? = some r at hr
      unfold intern at hr
      split at hr <;> exact hr
  | internExisting r' =>
      refine .inl ?_
      change (h.internExisting r').2.boxes[(w, k)]? = some r at hr
      unfold internExisting at hr
      split at hr
      · split at hr <;> exact hr
      · exact hr
  | classObject name =>
      refine .inl ?_
      change (h.classObject name).2.boxes[(w, k)]? = some r at hr
      unfold classObject at hr
      split at hr <;> exact hr
  | boxed w' v =>
      change (h.boxed w' v).2.boxes[(w, k)]? = some r at hr
      change _ ∨ ∃ v', Request.boxed w' v = .boxed w v' ∧ _ ∧ (h.boxed w' v).2.get? r = _
      unfold boxed at hr ⊢
      split at hr
      · exact .inl hr
      next key hkey =>
        split at hr
        · exact .inl hr
        next hnew =>
          -- Only a box with a key that is new gets into the table.
          rcases getElem?_of_insert hr with hold | ⟨heq, rfl⟩
          · exact .inl hold
          · cases heq
            refine .inr ⟨v, rfl, hkey, ?_⟩
            exact get?_alloc_self _

/-- The reference that the tables of a heap have for a demand. -/
def Demand.StoredAt (h : Heap) (r : HeapRef) : Demand → Prop
  | .text units => h.interned[units]? = some r
  | .type name => h.classes[name]? = some r
  | .box w v => ∃ k, w.cacheKey? v = some k ∧ h.boxes[(w, k)]? = some r

/-- What is stored stays stored. -/
theorem Demand.StoredAt.mono (hr : d.StoredAt h r) (hh : h.Evolves h') : d.StoredAt h' r := by
  cases d with
  | text units => exact hh.interned hr
  | type name => exact hh.classes hr
  | box w v => exact hr.imp fun _ => And.imp_right hh.boxes

/-- Demands for the same thing find it in the same place. -/
theorem Demand.Same.storedAt {d' : Demand} (hsame : d.Same d') (hr : d.StoredAt h r) :
    d'.StoredAt h r := by
  cases hsame with
  | text | type => exact hr
  | box hshares =>
      rcases Wrapper.shares_iff.1 hshares with ⟨k, hk, hk'⟩
      rcases hr with ⟨l, hl, hr⟩
      rw [hk] at hl
      cases hl
      exact ⟨k, hk', hr⟩

/-- Everything that can be asked for has an object in the tables, apart from large values. -/
theorem Demand.same_self_iff :
    d.Same d ↔ ∀ w v, d = .box w v → ∃ k, w.cacheKey? v = some k := by
  constructor
  · rintro hsame w v rfl
    cases hsame with
    | box hshares => exact (Wrapper.shares_iff.1 hshares).imp fun _ => And.left
  · intro hkey
    cases d with
    | text units => exact .text units
    | type name => exact .type name
    | box w v =>
        rcases hkey w v rfl with ⟨k, hk⟩
        exact .box (Wrapper.shares_iff.2 ⟨k, hk, hk⟩)

theorem Demand.Same.self {d' : Demand} (hsame : d.Same d') : d.Same d := by
  cases hsame with
  | text units => exact .text units
  | type name => exact .type name
  | box hshares =>
      rcases Wrapper.shares_iff.1 hshares with ⟨k, hk, -⟩
      exact .box (Wrapper.shares_iff.2 ⟨k, hk, hk⟩)

/-- What the tables have is the answer. -/
theorem answer_of_storedAt (hasks : Asks h q d) (hr : d.StoredAt h r) : (h.answer q).1 = r := by
  -- Each table is looked at first, and what is found there is given back.
  cases hasks with
  | intern units =>
      change (h.intern units).1 = r
      rw [intern, show h.interned[units]? = some r from hr]
  | @internExisting r' units hunits =>
      change (h.internExisting r').1 = r
      rw [internExisting, hunits]
      dsimp only
      rw [show h.interned[units]? = some r from hr]
  | classObject name =>
      change (h.classObject name).1 = r
      rw [classObject, show h.classes[name]? = some r from hr]
  | boxed w v =>
      rcases hr with ⟨k, hk, hr⟩
      change (h.boxed w v).1 = r
      rw [boxed, hk]
      dsimp only
      rw [hr]

/-- The answer is in the tables afterwards. -/
theorem storedAt_answer (hasks : Asks h q d) (hself : d.Same d) :
    d.StoredAt (h.answer q).2 (h.answer q).1 := by
  cases hasks with
  | intern units => exact (h.intern_spec units).2
  | @internExisting r units hunits =>
      change (h.internExisting r).2.interned[units]? = some (h.internExisting r).1
      rw [internExisting, hunits]
      dsimp only
      split
      next canonical hr => exact hr
      · exact Std.HashMap.getElem?_insert_self
  | classObject name => exact (h.classObject_spec name).2
  | boxed w v =>
      -- A box is asked for with the same result only if its value has a key.
      rcases Demand.same_self_iff.1 hself w v rfl with ⟨k, hk⟩
      refine ⟨k, hk, ?_⟩
      change (h.boxed w v).2.boxes[(w, k)]? = some (h.boxed w v).1
      rw [boxed, hk]
      dsimp only
      split
      next r hr => exact hr
      · exact Std.HashMap.getElem?_insert_self

/-- A box of a large value is made anew. -/
theorem answer_of_not_same (hasks : Asks h q d) (hself : ¬d.Same d) :
    ∃ w v, d = .box w v ∧ w.cacheKey? v = none ∧ h.answer q = h.alloc (.boxed w v) := by
  cases hasks with
  | intern units => exact absurd (.text units) hself
  | internExisting => exact absurd (.text _) hself
  | classObject name => exact absurd (.type name) hself
  | boxed w v =>
      cases hk : w.cacheKey? v with
      | some k => exact absurd (.box (Wrapper.shares_iff.2 ⟨k, hk, hk⟩)) hself
      | none =>
          refine ⟨w, v, rfl, hk, ?_⟩
          change h.boxed w v = _
          rw [boxed, hk]

/-- The reference of a new object is that of no object before. -/
theorem get?_fst_alloc (h : Heap) (o : HeapObject) : h.get? (h.alloc o).1 = none :=
  Array.getElem?_size

end Answer

section Run

variable {l l' : List Request} {q : Request} {d d' : Demand} {o : HeapObject}

/-- Requests may be made in two goes. -/
theorem run_append (h : Heap) (l l' : List Request) : h.run (l ++ l') = (h.run l).run l' :=
  List.foldl_append

theorem run_cons (h : Heap) (q : Request) (l : List Request) :
    h.run (q :: l) = (h.answer q).2.run l :=
  rfl

/-- No request takes an object away. -/
theorem extends_run (h : Heap) (l : List Request) : h.Extends (h.run l) := by
  induction l generalizing h with
  | nil => exact .refl h
  | cons q l ih => exact (extends_answer h q).trans (ih _)

-- Nor does any change one into something else.
theorem evolves_run (h : Heap) (l : List Request) : h.Evolves (h.run l) := by
  induction l generalizing h with
  | nil => exact .refl h
  | cons q l ih => exact (evolves_answer h q).trans (ih _)

/-- A box in the table holds a value of its number that was asked for. -/
theorem boxes_run (hr : (({} : Heap).run l).boxes[(w, k)]? = some r) :
    ∃ v, .boxed w v ∈ l ∧ w.cacheKey? v = some k ∧
      (({} : Heap).run l).get? r = some (.boxed w v) := by
  induction l using List.reverseRecOn with
  | nil => cases Std.HashMap.getElem?_empty.symm.trans hr
  | append_singleton l q ih =>
      rw [run_append] at hr ⊢
      rcases boxes_answer hr with hold | ⟨v, rfl, hk, ho⟩
      · rcases ih hold with ⟨v, hv, hk, ho⟩
        exact ⟨v, List.mem_append_left _ hv, hk, (extends_answer _ q).objects ho⟩
      · exact ⟨v, by simp, hk, ho⟩

/-- What the tables have for a demand is what was asked for. -/
theorem Demand.StoredAt.met (hr : d.StoredAt (({} : Heap).run l) r) :
    ∃ o, (({} : Heap).run l).get? r = some o ∧ d.MetBy o := by
  cases d with
  | text units =>
      refine ⟨_, ((extends_run {} l).newText hr).resolve_left fun hnone => ?_, rfl⟩
      cases Std.HashMap.getElem?_empty.symm.trans hnone
  | type name =>
      refine ⟨_, ((extends_run {} l).newClass hr).resolve_left fun hnone => ?_, rfl⟩
      cases Std.HashMap.getElem?_empty.symm.trans hnone
  | box w v =>
      rcases hr with ⟨k, hk, hr⟩
      rcases boxes_run hr with ⟨v', -, hk', ho⟩
      exact ⟨_, ho, v', rfl, (Wrapper.shares_iff.2 ⟨k, hk, hk'⟩).agrees⟩

/-- One object in the tables for two demands is an object for the same. -/
theorem Demand.StoredAt.same (hr : d.StoredAt (({} : Heap).run l) r)
    (hr' : d'.StoredAt (({} : Heap).run l) r) : d.Same d' := by
  rcases hr.met with ⟨o, ho, hmet⟩
  rcases hr'.met with ⟨o', ho', hmet'⟩
  rw [ho] at ho'
  cases ho'
  cases d with
  | text units =>
      cases hmet
      cases d' with
      | text units' =>
          cases hmet'
          exact .text units
      | type name => cases hmet'
      | box w v =>
          rcases hmet' with ⟨v', heq, -⟩
          cases heq
  | type name =>
      cases hmet
      cases d' with
      | text units => cases hmet'
      | type name' =>
          cases hmet'
          exact .type name
      | box w v =>
          rcases hmet' with ⟨v', heq, -⟩
          cases heq
  | box w v =>
      rcases hmet with ⟨v₁, heq, -⟩
      subst heq
      cases d' with
      | text units => cases hmet'
      | type name => cases hmet'
      | box w' v' =>
          -- The value in the box has the numbers of both.
          rcases hr with ⟨k, hk, hr⟩
          rcases hr' with ⟨k', hk', hr'⟩
          rcases boxes_run hr with ⟨v₂, -, hk₂, ho₂⟩
          rcases boxes_run hr' with ⟨v₃, -, hk₃, ho₃⟩
          cases ho₂.symm.trans ho₃
          cases hk₂.symm.trans hk₃
          exact .box (Wrapper.shares_iff.2 ⟨k, hk, hk'⟩)

/-- A box in the tables has a number. -/
theorem Demand.StoredAt.cached (hr : d.StoredAt (({} : Heap).run l) r)
    (ho : (({} : Heap).run l).get? r = some (.boxed w v)) : ∃ k, w.cacheKey? v = some k := by
  rcases hr.met with ⟨o, ho', hmet⟩
  cases ho.symm.trans ho'
  cases d with
  | text units => cases hmet
  | type name => cases hmet
  | box w' v' =>
      rcases hr with ⟨k, -, hr⟩
      rcases boxes_run hr with ⟨v₂, -, hk, ho₂⟩
      cases ho.symm.trans ho₂
      exact ⟨k, hk⟩

/-- Every answer is what was asked for. -/
theorem met_answer (hasks : Asks (({} : Heap).run l) q d) :
    ∃ o, ((({} : Heap).run l).answer q).2.get? ((({} : Heap).run l).answer q).1 = some o ∧
      d.MetBy o := by
  by_cases hself : d.Same d
  · have hstored := storedAt_answer hasks hself
    have hrun : ((({} : Heap).run l).answer q).2 = ({} : Heap).run (l ++ [q]) :=
      (run_append {} l [q]).symm
    rw [hrun] at hstored ⊢
    exact hstored.met
  · rcases answer_of_not_same hasks hself with ⟨w, v, rfl, -, hanswer⟩
    rw [hanswer]
    exact ⟨_, get?_alloc_self _, v, rfl, .inl rfl⟩

/-- A box is new if no box was asked for before that is the same. -/
theorem new_of_unshared (hnew : ∀ v', .boxed w v' ∈ l → ¬w.Shares v' v) :
    (({} : Heap).run l).get? ((({} : Heap).run l).answer (.boxed w v)).1 = none := by
  have hanswer : (({} : Heap).run l).answer (.boxed w v) = (({} : Heap).run l).boxed w v := rfl
  rw [hanswer, boxed]
  cases hk : w.cacheKey? v with
  | none => exact get?_fst_alloc _ _
  | some k =>
      dsimp only
      cases hr : (({} : Heap).run l).boxes[(w, k)]? with
      | none => exact get?_fst_alloc _ (.boxed w v)
      | some r =>
          rcases boxes_run hr with ⟨v', hmem, hk', -⟩
          exact absurd (Wrapper.shares_iff.2 ⟨k, hk', hk⟩) (hnew v' hmem)

/-- Two requests that ask for something get one object exactly if they ask for the same. -/
theorem answers_eq_iff {before between : List Request} {q' : Request}
    (hasks : Asks (({} : Heap).run before) q d)
    (hasks' : Asks (({} : Heap).run (before ++ q :: between)) q' d') :
    ((({} : Heap).run before).answer q).1 =
        ((({} : Heap).run (before ++ q :: between)).answer q').1 ↔ d.Same d' := by
  have hrun : ({} : Heap).run (before ++ q :: between)
      = ((({} : Heap).run before).answer q).2.run between := by
    rw [run_append, run_cons]
  -- The table has what the first request got when the second one comes.
  have hkept (hself : d.Same d) : d.StoredAt (({} : Heap).run (before ++ q :: between))
      ((({} : Heap).run before).answer q).1 := by
    rw [hrun]
    exact (storedAt_answer hasks hself).mono (evolves_run _ _)
  have hold {o : HeapObject} (ho : ((({} : Heap).run before).answer q).2.get?
      ((({} : Heap).run before).answer q).1 = some o) :
      (({} : Heap).run (before ++ q :: between)).get? ((({} : Heap).run before).answer q).1 =
        some o := by
    rw [hrun]
    exact (extends_run _ _).objects ho
  constructor
  · intro heq
    by_cases hself' : d'.Same d'
    · have hstored' := storedAt_answer hasks' hself'
      have hlast : ((({} : Heap).run (before ++ q :: between)).answer q').2 =
          ({} : Heap).run (before ++ q :: between ++ [q']) := (run_append {} _ [q']).symm
      rw [← heq, hlast] at hstored'
      by_cases hself : d.Same d
      · have hstored := (hkept hself).mono (evolves_answer _ q')
        rw [hlast] at hstored
        exact hstored.same hstored'
      · -- The first one was made anew, so the tables do not have it.
        rcases answer_of_not_same hasks hself with ⟨w, v, rfl, hnone, hanswer⟩
        have ho := hold (o := .boxed w v) (by rw [hanswer]; exact get?_alloc_self _)
        have ho' := (extends_answer _ q').objects ho
        rw [hlast] at ho'
        rcases hstored'.cached ho' with ⟨k, hk⟩
        rw [hnone] at hk
        cases hk
    · -- A box that is made anew is no object that is there.
      rcases met_answer hasks with ⟨o, ho, -⟩
      rcases answer_of_not_same hasks' hself' with ⟨w, v, -, -, hanswer⟩
      have hthere := hold ho
      rw [heq, hanswer, get?_fst_alloc] at hthere
      cases hthere
  · intro hsame
    exact (answer_of_storedAt hasks' (hsame.storedAt (hkept hsame.self))).symm

/-- Requests to a heap that starts empty change no object that is there. Every answer is what was
    asked for, and it is the same object for two requests exactly if they ask for the same. For
    texts and names that is the case if they are equal, however a text is asked for, and for boxes
    if the caches of the platform have one for both. A box that is not in the caches, or that
    nobody has asked for before, is a new object. -/
theorem requests_answered_alike (before : List Request) :
    (∀ between r o, (({} : Heap).run before).get? r = some o →
        (({} : Heap).run (before ++ between)).get? r = some o) ∧
      (∀ q d, Asks (({} : Heap).run before) q d →
        (∃ o, ((({} : Heap).run before).answer q).2.get? ((({} : Heap).run before).answer q).1 =
          some o ∧ d.MetBy o) ∧
        ∀ between q' d', Asks (({} : Heap).run (before ++ q :: between)) q' d' →
          (((({} : Heap).run before).answer q).1 =
            ((({} : Heap).run (before ++ q :: between)).answer q').1 ↔ d.Same d')) ∧
      ∀ w v, (∀ v', .boxed w v' ∈ before → ¬w.Shares v' v) →
        (({} : Heap).run before).get? ((({} : Heap).run before).answer (.boxed w v)).1 = none := by
  refine ⟨fun between r o ho => ?_, fun q d hasks => ⟨met_answer hasks, ?_⟩,
    fun w v => new_of_unshared⟩
  · rw [run_append]
    exact (extends_run _ _).objects ho
  · exact fun between q' d' hasks' => answers_eq_iff hasks hasks'

end Run

namespace Interned

/-- The units of a string. -/
def units : Units :=
  #[0x61]

/-- A string of the program is interned. -/
def strings : List Request :=
  [.newString units, .internExisting ⟨0⟩]

/-- The text of the example is there to be interned. -/
theorem asks_existing :
    Asks (({} : Heap).run [.newString units]) (.internExisting ⟨0⟩) (.text units) :=
  .internExisting rfl

/-- Numbers beyond a byte have boxes of their own. -/
theorem not_shares_large : ¬Wrapper.Shares .integer (.int 1000) (.int 1000) := by
  rw [Wrapper.shares_iff]
  rintro ⟨k, hk, -⟩
  cases hk

theorem not_shares_other {v' : Value}
    (hv : Request.boxed .integer v' ∈ [.boxed .integer (.int 7)]) :
    ¬Wrapper.Shares .integer v' (.int 8) := by
  cases List.mem_singleton.1 hv
  rw [Wrapper.shares_iff]
  rintro ⟨k, hk, hk'⟩
  cases hk
  cases hk'

end Interned

open Interned in
/-- A literal that comes after an interned string of its contents is that string. Two boxes of a
    large number are two objects, and so are the boxes of two small ones. -/
theorem requests_answered_alike_interned :
    Asks (({} : Heap).run [.newString units]) (.internExisting ⟨0⟩) (.text units) ∧
      Asks (({} : Heap).run strings) (.intern units) (.text units) ∧
      ((({} : Heap).run [.newString units]).answer (.internExisting ⟨0⟩)).1 =
        ((({} : Heap).run strings).answer (.intern units)).1 ∧
      ((({} : Heap).run []).answer (.boxed .integer (.int 1000))).1 ≠
        ((({} : Heap).run [.boxed .integer (.int 1000)]).answer (.boxed .integer (.int 1000))).1 ∧
      (({} : Heap).run [.boxed .integer (.int 7)]).get?
        ((({} : Heap).run [.boxed .integer (.int 7)]).answer (.boxed .integer (.int 8))).1 =
          none := by
  rcases requests_answered_alike [.newString units] with ⟨-, hstring, -⟩
  rcases requests_answered_alike [] with ⟨-, hboxes, -⟩
  rcases requests_answered_alike [.boxed .integer (.int 7)] with ⟨-, -, hnew⟩
  refine ⟨asks_existing, .intern units, ?_, fun heq => ?_, hnew _ _ fun v' => not_shares_other⟩
  · exact ((hstring _ _ asks_existing).2 [] _ _ (.intern units)).2 (.text units)
  · cases ((hboxes _ _ (.boxed _ _)).2 [] _ _ (.boxed _ _)).1 heq with
    | box hshares => exact not_shares_large hshares

end Heap

end JvmFold
