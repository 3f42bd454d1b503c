import Mathlib
import JvmFold.Proofs.Machine.Straight

/-!
# Further Objects and Changed Ones

Much of what the machine does to its state is to put objects behind those that
there are. Nothing that was there is changed by that, and the reference of an
object that is added is its place in the row. To throw an exception is to add
two objects, the text of the message and the exception.

The other thing the machine does is to put an object in the place of one that is
there. That changes no other object and adds none, and putting the old one back
restores the state.

## Main definitions

* `Machine.adding`: A state with further objects.
* `Machine.exception`: The objects of an exception with a message.
* `Machine.put`: A state with another object in the place of a reference.

## Theorems

* `Machine.get?_adding_of_lt`: The objects that are there stay.
* `Machine.get?_put`, `Machine.get?_put_of_ne`: One object is another, and the others stay.
* `Machine.put_put_of_get?`: Putting the old object back restores the state.
* `Emu.alloc_apply`, `Emu.raise_apply`: Making an object, and throwing an exception.
* `Emu.modifyObject_apply`: Changing an object.
-/

namespace JvmFold

namespace Machine

variable {s : Machine}

/-- The state with further objects. -/
def adding (s : Machine) (l : List HeapObject) : Machine :=
  { s with heap := { s.heap with objects := s.heap.objects ++ l.toArray } }

theorem adding_nil (s : Machine) : s.adding [] = s := by
  unfold adding
  rw [Array.append_empty]

/-- Objects may be added in two goes. -/
theorem adding_adding (s : Machine) (l l' : List HeapObject) :
    (s.adding l).adding l' = s.adding (l ++ l') := by
  simp only [adding, Array.append_assoc, List.append_toArray]

theorem size_adding (s : Machine) (l : List HeapObject) :
    (s.adding l).heap.size = s.heap.size + l.length := by
  simp only [adding, Heap.size, Array.size_append, List.size_toArray]

/-- Objects that were there stay what they are. -/
theorem get?_adding_of_lt {r : HeapRef} (l : List HeapObject) (hr : r.index < s.heap.size) :
    (s.adding l).heap.get? r = s.heap.get? r :=
  Array.getElem?_append_left hr

/-- The objects that are there stay. -/
theorem get?_adding {r : HeapRef} {o : HeapObject} (l : List HeapObject)
    (hr : s.heap.get? r = some o) : (s.adding l).heap.get? r = some o := by
  rw [get?_adding_of_lt l (Array.getElem?_eq_some_iff.1 hr).1, hr]

/-- A further object is found in its place. -/
theorem get?_adding_append (s : Machine) (l : List HeapObject) (o : HeapObject)
    (l' : List HeapObject) :
    (s.adding (l ++ o :: l')).heap.get? ⟨s.heap.size + l.length⟩ = some o := by
  unfold adding Heap.get? Heap.size
  dsimp only
  rw [Array.getElem?_append_right (Nat.le_add_right _ _), Nat.add_sub_cancel_left,
    List.getElem?_toArray, List.getElem?_append_right (Nat.le_refl _), Nat.sub_self]
  rfl

/-- An exception of a class with a message, behind the text of the message. -/
def exception (s : Machine) (name message : String) : List HeapObject :=
  [.string (.ofString message),
    .instance name [(Throwable.messageField, .ref ⟨s.heap.size⟩)]]

/-- The state with another object in the place of a reference. -/
def put (s : Machine) (r : HeapRef) (o : HeapObject) : Machine :=
  { s with heap := s.heap.modify r fun _ => o }

section Put

variable {r q : HeapRef} {o : HeapObject}

/-- An object that is put is found. -/
theorem get?_put (hr : s.heap.get? r = some o) (o' : HeapObject) :
    (s.put r o').heap.get? r = some o' := by
  unfold put Heap.modify Heap.get?
  dsimp only
  rw [Array.getElem?_modify, if_pos rfl, ← Heap.get?, hr]
  rfl

/-- The other objects stay. -/
theorem get?_put_of_ne (h : q ≠ r) (o : HeapObject) :
    (s.put r o).heap.get? q = s.heap.get? q := by
  unfold put Heap.modify Heap.get?
  dsimp only
  exact (Array.getElem?_modify ..).trans (if_neg fun heq => h (congrArg HeapRef.mk heq.symm))

/-- What an object is changed to depends on that object alone. -/
theorem modify_eq_put (hr : s.heap.get? r = some o) (f : HeapObject → HeapObject) :
    { s with heap := s.heap.modify r f } = s.put r (f o) := by
  have hobjects : s.heap.objects.modify r.index f = s.heap.objects.modify r.index fun _ => f o := by
    refine Array.ext_getElem? fun i => ?_
    rw [Array.getElem?_modify, Array.getElem?_modify]
    split
    next hi =>
      rw [← hi, show s.heap.objects[r.index]? = some o from hr]
      rfl
    next => rfl
  unfold put Heap.modify
  rw [hobjects]

/-- Putting the old object back restores the state. -/
theorem put_put_of_get? (hr : s.heap.get? r = some o) (o' : HeapObject) :
    (s.put r o').put r o = s := by
  have hobjects : (s.heap.objects.modify r.index fun _ => o').modify r.index (fun _ => o)
      = s.heap.objects := by
    refine Array.ext_getElem? fun i => ?_
    rw [Array.getElem?_modify, Array.getElem?_modify]
    split
    next hi =>
      rw [← hi, show s.heap.objects[r.index]? = some o from hr]
      rfl
    next => rfl
  unfold put Heap.modify
  dsimp only
  rw [hobjects]

end Put

end Machine

namespace Emu

variable {α β : Type}

/-- An operation goes on with what its first part answers. -/
theorem bind_of_ok {x : Emu α} {f : α → Emu β} {a : α} {env : Env} {s s' : Machine}
    {result : EStateM.Result Fault Machine β} (hx : x env s = .ok a s')
    (hf : f a env s' = result) : (x >>= f) env s = result := by
  rw [bind_apply, hx]
  exact hf

/-- A new object comes behind all others. -/
theorem alloc_apply (o : HeapObject) (env : Env) (s : Machine) :
    alloc o env s = .ok ⟨s.heap.size⟩ (s.adding [o]) := by
  unfold Machine.adding
  rw [← Array.push_eq_append]
  rfl

-- So does a new text.
theorem newText_apply (text : String) (env : Env) (s : Machine) :
    newText text env s = .ok (.ref ⟨s.heap.size⟩) (s.adding [.string (.ofString text)]) := by
  unfold Machine.adding
  rw [← Array.push_eq_append]
  rfl

/-- Throwing an exception adds its message and itself. -/
theorem raise_apply (name message : String) (env : Env) (s : Machine) :
    (raise name (some message) : Emu α) env s
      = .error (.thrown ⟨s.heap.size + 1⟩) (s.adding (s.exception name message)) := by
  have hnew : newThrowable name (some message) env s
      = .ok ⟨s.heap.size + 1⟩ (s.adding (s.exception name message)) := by
    change (newText message >>= fun v =>
      alloc (.instance name [(Throwable.messageField, v)])) env s = _
    rw [bind_apply, newText_apply]
    dsimp only
    rw [alloc_apply, s.size_adding, s.adding_adding]
    rfl
  unfold raise
  rw [bind_apply, hnew]
  rfl

/-- The object of a reference that there is. -/
theorem object_apply {r : HeapRef} {o : HeapObject} {s : Machine} (hr : s.heap.get? r = some o)
    (env : Env) : object r env s = .ok o s := by
  change EStateM.Result.ok (s.heap.get r) s = _
  rw [Heap.get, hr]
  rfl

/-- Changing an object puts what it is changed to in its place. -/
theorem modifyObject_apply {r : HeapRef} {o : HeapObject} {s : Machine}
    (hr : s.heap.get? r = some o) (f : HeapObject → HeapObject) (env : Env) :
    modifyObject r f env s = .ok () (s.put r (f o)) := by
  rw [← Machine.modify_eq_put hr f]
  rfl

/-- The text of a string. -/
theorem stringUnits_apply {r : HeapRef} {units : Units} {s : Machine}
    (hr : s.heap.get? r = some (.string units)) (env : Env) :
    stringUnits (.ref r) env s = .ok units s := by
  unfold stringUnits
  dsimp only
  rw [bind_apply, object_apply hr]
  rfl

end Emu

end JvmFold
