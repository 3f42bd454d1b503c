import JvmFold.Proofs.Machine.Straight

/-!
# What Constants Come To

A constant is a value in every state. A number is the value itself; a text or
the name of a class is a reference to the canonical object for it, which is
made when it is first asked for. So the value depends on the state, and two
runs that ask for the same constants in different orders number their objects
differently.

What does not depend on the order is what a heap answers afterwards. A heap
that has taken up canonical objects extends the one before, and the value of a
constant is the canonical object, whenever it was made. Two heaps that extend
the same one hold matching values for the same constant.

## Main definitions

* `Heap.Extends`: A heap that has taken up canonical objects of texts and classes.
* `Heap.value?`: The value of a constant whose object is there.
* `Heap.Matches`: Values in two heaps that mean the same.

## Theorems

* `Emu.constant_eq`: A constant is a value in every state.
* `Heap.Extends.value?_matches`: The same constant has matching values.
-/

namespace JvmFold

namespace Heap

/-- The value of a constant, as far as the object for it is there. -/
def value? (h : Heap) : Constant → Option Value
  | .int v => some (.int v)
  | .float b => some (.float b)
  | .long v => some (.long v)
  | .double b => some (.double b)
  | .string text => (h.interned[Units.ofString text]?).map .ref
  | .classRef name => (h.classes[name]?).map .ref
  | .pool _ => none

/-- The objects stay as they are, and what becomes canonical is new and has the contents that it
    stands for. -/
structure Extends (h h' : Heap) : Prop where
  objects : ∀ {r o}, h.get? r = some o → h'.get? r = some o
  texts : ∀ {units : Units} {r}, h.interned[units]? = some r → h'.interned[units]? = some r
  classes : ∀ {name : String} {r}, h.classes[name]? = some r → h'.classes[name]? = some r
  newText : ∀ {units : Units} {r}, h'.interned[units]? = some r →
    h.interned[units]? = some r ∨ h'.get? r = some (.string units)
  newClass : ∀ {name : String} {r}, h'.classes[name]? = some r →
    h.classes[name]? = some r ∨ h'.get? r = some (.classObject name)

/-- Whether a reference is the canonical object of a text or of a class. -/
def HasCanonical (h : Heap) (r : HeapRef) : Prop :=
  (∃ units : Units, h.interned[units]? = some r) ∨ ∃ name : String, h.classes[name]? = some r

/-- Values in two heaps that go back to the same one: the same number or canonical object of
    before, or references to objects with the same contents. -/
inductive Matches (h h₁ h₂ : Heap) : Value → Value → Prop where
  | same {v : Value} (hv : ∀ r, v = .ref r → h.HasCanonical r) : Matches h h₁ h₂ v v
  | copy {r₁ r₂ : HeapRef} {o : HeapObject} (ho₁ : h₁.get? r₁ = some o)
      (ho₂ : h₂.get? r₂ = some o) : Matches h h₁ h₂ (.ref r₁) (.ref r₂)

variable {h h' h'' h₁ h₂ : Heap}

theorem Extends.refl (h : Heap) : h.Extends h :=
  ⟨id, id, id, .inl, .inl⟩

/-- A heap is extended step by step. -/
theorem Extends.trans (hh : h.Extends h') (hh' : h'.Extends h'') : h.Extends h'' where
  objects ho := hh'.objects (hh.objects ho)
  texts ht := hh'.texts (hh.texts ht)
  classes hc := hh'.classes (hh.classes hc)
  newText ht := (hh'.newText ht).elim (fun ht => (hh.newText ht).imp_right hh'.objects) .inr
  newClass hc := (hh'.newClass hc).elim (fun hc => (hh.newClass hc).imp_right hh'.objects) .inr

/-- A new object leaves the others where they are. -/
theorem get?_alloc {r : HeapRef} {o p : HeapObject} (ho : h.get? r = some o) :
    (h.alloc p).2.get? r = some o := by
  rcases Array.getElem?_eq_some_iff.mp ho with ⟨hlt, heq⟩
  exact (Array.getElem?_push_lt hlt).trans (congrArg some heq)

-- And is found itself.
theorem get?_alloc_self (o : HeapObject) : (h.alloc o).2.get? (h.alloc o).1 = some o :=
  Array.getElem?_push_size

section Table

variable {α : Type} [BEq α] [LawfulBEq α] [Hashable α] {table : Std.HashMap α HeapRef}
variable {key other : α} {r fresh : HeapRef}

/-- What is canonical stays so when something becomes canonical that nothing was for. -/
theorem getElem?_insert_of_new (hnew : table[key]? = none) (hr : table[other]? = some r) :
    (table.insert key fresh)[other]? = some r := by
  rw [Std.HashMap.getElem?_insert]
  split
  next heq =>
    rw [← eq_of_beq heq, hnew] at hr
    cases hr
  · exact hr

/-- What is found after an insertion was there or has been inserted. -/
theorem getElem?_of_insert (hr : (table.insert key fresh)[other]? = some r) :
    table[other]? = some r ∨ other = key ∧ r = fresh := by
  rw [Std.HashMap.getElem?_insert] at hr
  split at hr
  next heq =>
    exact .inr ⟨(eq_of_beq heq).symm, (Option.some.inj hr).symm⟩
  · exact .inl hr

end Table

/-- The canonical object of a text is there afterwards. -/
theorem intern_spec (h : Heap) (units : Units) :
    h.Extends (h.intern units).2 ∧
      (h.intern units).2.interned[units]? = some (h.intern units).1 := by
  unfold intern
  cases hfound : h.interned[units]? with
  | some r => exact ⟨.refl h, hfound⟩
  | none =>
      refine ⟨⟨get?_alloc, getElem?_insert_of_new hfound, id, fun hr => ?_, .inl⟩,
        Std.HashMap.getElem?_insert_self⟩
      rcases getElem?_of_insert hr with hold | ⟨rfl, rfl⟩
      · exact .inl hold
      · exact .inr (get?_alloc_self _)

/-- The object of a class is there afterwards. -/
theorem classObject_spec (h : Heap) (name : String) :
    h.Extends (h.classObject name).2 ∧
      (h.classObject name).2.classes[name]? = some (h.classObject name).1 := by
  unfold classObject
  cases hfound : h.classes[name]? with
  | some r => exact ⟨.refl h, hfound⟩
  | none =>
      refine ⟨⟨get?_alloc, id, getElem?_insert_of_new hfound, .inl, fun hr => ?_⟩,
        Std.HashMap.getElem?_insert_self⟩
      rcases getElem?_of_insert hr with hold | ⟨rfl, rfl⟩
      · exact .inl hold
      · exact .inr (get?_alloc_self _)

/-- The value of a constant stays the same. -/
theorem Extends.value? (hh : h.Extends h') {k : Constant} {v : Value} (hv : h.value? k = some v) :
    h'.value? k = some v := by
  cases k with
  | string text =>
      rcases Option.map_eq_some_iff.mp hv with ⟨r, hr, rfl⟩
      exact Option.map_eq_some_iff.mpr ⟨r, hh.texts hr, rfl⟩
  | classRef name =>
      rcases Option.map_eq_some_iff.mp hv with ⟨r, hr, rfl⟩
      exact Option.map_eq_some_iff.mpr ⟨r, hh.classes hr, rfl⟩
  | _ => exact hv

/-- References match if both are the object that was canonical before, or both have the contents
    of a new one. -/
theorem matches_ref {r₁ r₂ : HeapRef} {o : HeapObject} {old : HeapRef → Prop}
    (hold : ∀ r, old r → h.HasCanonical r ∧ r₁ = r ∧ r₂ = r)
    (hr₁ : old r₁ ∨ h₁.get? r₁ = some o) (hr₂ : old r₂ ∨ h₂.get? r₂ = some o) :
    h.Matches h₁ h₂ (.ref r₁) (.ref r₂) := by
  have hsame {r : HeapRef} (hr : old r) : h.Matches h₁ h₂ (.ref r₁) (.ref r₂) := by
    rcases hold r hr with ⟨hcanonical, rfl, rfl⟩
    refine .same fun r' hr' => ?_
    cases hr'
    exact hcanonical
  rcases hr₁ with hr₁ | ho₁
  · exact hsame hr₁
  · exact hr₂.elim hsame (.copy ho₁)

/-- The same constant has matching values in two heaps that extend the same one. -/
theorem Extends.value?_matches (hh₁ : h.Extends h₁) (hh₂ : h.Extends h₂) {k : Constant}
    {v w : Value} (hv : h₁.value? k = some v) (hw : h₂.value? k = some w) :
    h.Matches h₁ h₂ v w := by
  -- Texts and classes are objects, found in the tables of both heaps; other constants are no
  -- objects.
  cases k with
  | string text =>
      rcases Option.map_eq_some_iff.mp hv with ⟨r₁, hr₁, rfl⟩
      rcases Option.map_eq_some_iff.mp hw with ⟨r₂, hr₂, rfl⟩
      refine matches_ref (fun r hr => ⟨.inl ⟨_, hr⟩, ?_, ?_⟩) (hh₁.newText hr₁) (hh₂.newText hr₂)
      · exact Option.some.inj (hr₁.symm.trans (hh₁.texts hr))
      · exact Option.some.inj (hr₂.symm.trans (hh₂.texts hr))
  | classRef name =>
      rcases Option.map_eq_some_iff.mp hv with ⟨r₁, hr₁, rfl⟩
      rcases Option.map_eq_some_iff.mp hw with ⟨r₂, hr₂, rfl⟩
      refine matches_ref (fun r hr => ⟨.inr ⟨_, hr⟩, ?_, ?_⟩) (hh₁.newClass hr₁) (hh₂.newClass hr₂)
      · exact Option.some.inj (hr₁.symm.trans (hh₁.classes hr))
      · exact Option.some.inj (hr₂.symm.trans (hh₂.classes hr))
  | pool index => cases hv
  | _ =>
      cases hv
      cases hw
      exact .same nofun

end Heap

/-- A constant that is a value is one in every state; at most its object is new. -/
theorem Emu.constant_eq {k : Constant} (hk : ∀ i, k ≠ .pool i) (s : Machine) :
    ∃ v heap, (∀ env, constant k env s = .ok v { s with heap }) ∧ s.heap.Extends heap ∧
      heap.value? k = some v := by
  cases k with
  | pool i => exact absurd rfl (hk i)
  | string text =>
      rcases s.heap.intern_spec (.ofString text) with ⟨hextends, hcanonical⟩
      exact ⟨_, _, fun _ => rfl, hextends, congrArg (Option.map Value.ref) hcanonical⟩
  | classRef name =>
      rcases s.heap.classObject_spec name with ⟨hextends, hcanonical⟩
      exact ⟨_, _, fun _ => rfl, hextends, congrArg (Option.map Value.ref) hcanonical⟩
  | _ => exact ⟨_, s.heap, fun _ => rfl, .refl _, rfl⟩

end JvmFold
