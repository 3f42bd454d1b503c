import Mathlib
import JvmFold.Proofs.Machine.Adding

/-!
# Copying Elements between Arrays

Elements are copied from one array to another, or to another place in the same
one. Where the ranges overlap, the elements that are put there must be the old
ones, and they are, since all of them are read before the first is written. So
what an array holds afterwards is said by the two arrays before the call, and it
makes no difference whether they are the same.

Everything that can be wrong is found out before the first element is written:
an array that is missing or no array, two kinds of elements, a range beyond an
array, an element that the other array does not take. A call that is refused
adds the objects of an exception, at most, and leaves all others as they are.
The ends of the ranges are sums of two words of 32 bits, which 64 bits hold.

## Main definitions

* `Emu.Raises`: An operation fails and does nothing but add objects.
* `Natives.ElementCopy`: What a call asks to be copied, with the arrays it finds.
* `Natives.ElementCopy.Allowed`: Nothing is wrong with it.
* `Natives.ElementCopy.Copied`: What the array holds afterwards.

## Theorems

* `Natives.getElem?_overwrite`: Elements put over others.
* `Natives.copyElements_of_allowed`: What is allowed is done.
* `Natives.raises_copyElements`: What is not allowed is refused.
* `Natives.arraycopy_outcome`: The method.
-/

namespace JvmFold

namespace Emu

variable {α β : Type} {env : Env} {s : Machine}

/-- That an operation fails in a state and does nothing to it but to add objects. -/
def Raises (x : Emu α) (env : Env) (s : Machine) : Prop :=
  ∃ fault l, x env s = .error fault (s.adding l)

theorem raises_throw (fault : Fault) (env : Env) (s : Machine) :
    (throw fault : Emu α).Raises env s :=
  ⟨fault, [], by rw [s.adding_nil]; rfl⟩

/-- Raising an exception with a message ends in that exception. -/
theorem raises_raise (name message : String) (env : Env) (s : Machine) :
    (raise name (some message) : Emu α).Raises env s :=
  ⟨_, _, raise_apply name message env s⟩

theorem raises_raiseNull (env : Env) (s : Machine) : (raiseNull : Emu α).Raises env s := by
  refine ⟨.thrown ⟨s.heap.size⟩, [.instance "java/lang/NullPointerException" []], ?_⟩
  unfold Machine.adding
  rw [← Array.push_eq_append]
  rfl

/-- An operation raises if its first part does, or leaves the state alone and the rest raises. -/
theorem raises_bind {x : Emu α} {f : α → Emu β}
    (h : (∃ a, x env s = .ok a s ∧ (f a).Raises env s) ∨ x.Raises env s) :
    (x >>= f).Raises env s := by
  unfold Raises
  rw [bind_apply]
  rcases h with ⟨a, ha, hraises⟩ | ⟨fault, l, hx⟩
  · rw [ha]
    exact hraises
  · rw [hx]
    exact ⟨fault, l, rfl⟩

end Emu

namespace Natives

section Reading

variable {β : Type} {env : Env} {s : Machine} {args : List Value}

/-- A part that needs an object raises on null and on what is no object. -/
theorem raises_reference {i : Nat} {f : Option HeapRef → Emu β}
    (hnull : (f none).Raises env s)
    (href : ∀ r, args[i]? = some (Value.ref r) → (f (some r)).Raises env s) :
    (arg args i >>= fun v => Emu.lift v.asReference >>= f).Raises env s := by
  unfold arg
  cases hv : args[i]? with
  | none => exact Emu.raises_bind (.inr (Emu.raises_throw _ env s))
  | some v =>
      refine Emu.raises_bind (.inl ⟨v, rfl, ?_⟩)
      cases v with
      | ref r => exact Emu.raises_bind (.inl ⟨some r, rfl, href r hv⟩)
      | null => exact Emu.raises_bind (.inl ⟨none, rfl, hnull⟩)
      | _ => exact Emu.raises_bind (.inr (Emu.raises_throw _ env s))

-- And one that needs a number, on what is no number.
theorem raises_int {i : Nat} {f : Int32 → Emu β}
    (h : ∀ v, args[i]? = some (Value.int v) → (f v).Raises env s) :
    (argInt args i >>= f).Raises env s := by
  have hread : (∃ v, args[i]? = some (Value.int v) ∧ argInt args i env s = .ok v s) ∨
      (argInt args i).Raises env s := by
    unfold argInt arg
    cases args[i]? with
    | none => exact .inr (Emu.raises_bind (.inr (Emu.raises_throw _ env s)))
    | some v =>
        cases v with
        | int v => exact .inl ⟨v, rfl, rfl⟩
        | _ => exact .inr (Emu.raises_bind (.inl ⟨_, rfl, Emu.raises_throw _ env s⟩))
  exact Emu.raises_bind (hread.imp_left fun ⟨v, hv, hok⟩ => ⟨v, hok, h v hv⟩)

/-- The array of a reference is read, or what is there is no array. -/
theorem raises_array {r : HeapRef} {role : String} {f : FieldType × Array Value → Emu β}
    (h : ∀ component elements, s.heap.get? r = some (.array component elements) →
      (f (component, elements)).Raises env s) :
    (arrayParts r role >>= f).Raises env s := by
  have hread : (∃ component elements, s.heap.get? r = some (.array component elements) ∧
      arrayParts r role env s = .ok (component, elements) s) ∨
      (arrayParts r role).Raises env s := by
    unfold arrayParts
    cases hget : s.heap.get r with
    | array component elements =>
        refine .inl ⟨component, elements, ?_, ?_⟩
        · unfold Heap.get at hget
          cases hr : s.heap.get? r with
          | none =>
              rw [hr] at hget
              cases hget
          | some o =>
              rw [hr] at hget
              exact congrArg some hget
        · rw [Emu.bind_apply, show Emu.object r env s = .ok (s.heap.get r) s from rfl, hget]
          rfl
    -- Anything but an array is refused.
    | _ =>
        refine .inr (Emu.raises_bind (.inl ⟨s.heap.get r, rfl, ?_⟩))
        rw [hget]
        exact Emu.raises_raise _ _ env s
  exact Emu.raises_bind (hread.imp_left fun ⟨component, elements, hr, hok⟩ =>
    ⟨(component, elements), hok, h component elements hr⟩)

end Reading

/-- What a call asks to be copied, with the arrays it finds. -/
structure ElementCopy where
  source : HeapRef
  sourceType : FieldType
  elements : Array Value
  sourceStart : Int32
  target : HeapRef
  targetType : FieldType
  room : Array Value
  targetStart : Int32
  length : Int32

/-- That a range is one of an array of the given size, its ends taken as integers. -/
def InRange (start length : Int32) (size : Nat) : Prop :=
  0 ≤ start.toInt ∧ 0 ≤ length.toInt ∧ start.toInt + length.toInt ≤ size

namespace ElementCopy

/-- The values of the call. -/
def args (c : ElementCopy) : List Value :=
  [.ref c.source, .int c.sourceStart, .ref c.target, .int c.targetStart, .int c.length]

/-- That nothing is wrong with what a call asks: there are two arrays, of references or of the same
    primitive type, the ranges are within them, and every reference to be copied is to an object of
    the component type of the target. -/
structure Allowed (c : ElementCopy) (args : List Value) (u : Universe) (h : Heap) : Prop where
  asked : c.args <+: args
  source : h.get? c.source = some (.array c.sourceType c.elements)
  target : h.get? c.target = some (.array c.targetType c.room)
  kinds : c.sourceType = c.targetType ∨
    c.sourceType.isPrimitive = false ∧ c.targetType.isPrimitive = false
  sourceRange : InRange c.sourceStart c.length c.elements.size
  targetRange : InRange c.targetStart c.length c.room.size
  assignable : ∀ name, c.targetType.className? = some name → ∀ (i : Nat) r,
    c.sourceStart.toInt ≤ i → i < c.sourceStart.toInt + c.length.toInt →
    c.elements[i]? = some (.ref r) → u.isSubtype (h.get r).className name = true

/-- That an array holds the elements of the source in the range of the target, and its own
    elsewhere. -/
def Copied (c : ElementCopy) (result : Array Value) : Prop :=
  result.size = c.room.size ∧ ∀ i : Nat, result[i]? =
    if c.targetStart.toInt ≤ i ∧ i < c.targetStart.toInt + c.length.toInt
    then c.elements[i - c.targetStart.toInt.toNat + c.sourceStart.toInt.toNat]?
    else c.room[i]?

/-- The elements to be copied. -/
def copied (c : ElementCopy) : List Value :=
  (c.elements.toList.drop c.sourceStart.toInt.toNat).take c.length.toInt.toNat

/-- What the target holds afterwards. -/
def result (c : ElementCopy) : Array Value :=
  overwrite c.room c.targetStart.toInt.toNat c.copied

end ElementCopy

/-- Elements put over others are there in their range, and the others elsewhere. -/
theorem getElem?_overwrite {elements : Array Value} {start : Nat} {values : List Value}
    (h : start + values.length ≤ elements.size) (i : Nat) :
    (overwrite elements start values)[i]? =
      if start ≤ i ∧ i < start + values.length then values[i - start]? else elements[i]? := by
  have hfront : (elements.toList.take start).length = start := by
    rw [List.length_take_of_le]
    rw [Array.length_toList]
    omega
  unfold overwrite
  rw [List.getElem?_toArray]
  -- a place is in front of the range, in it or behind it
  rcases lt_or_ge i start with hlt | hge
  · rw [if_neg (by omega), List.append_assoc, List.getElem?_append_left (by omega),
      List.getElem?_take_of_lt hlt, Array.getElem?_toList]
  rcases lt_or_ge i (start + values.length) with hin | hbehind
  · rw [if_pos ⟨hge, hin⟩, List.getElem?_append_left (by rw [List.length_append]; omega),
      List.getElem?_append_right (by omega), hfront]
  · rw [if_neg (by omega), List.getElem?_append_right (by rw [List.length_append]; omega),
      List.length_append, hfront, List.getElem?_drop, Nat.add_sub_cancel' hbehind,
      Array.getElem?_toList]

/-- An array keeps its length. -/
theorem size_overwrite {elements : Array Value} {start : Nat} {values : List Value}
    (h : start + values.length ≤ elements.size) :
    (overwrite elements start values).size = elements.size := by
  unfold overwrite
  rw [List.size_toArray, List.length_append, List.length_append, List.length_drop,
    List.length_take, Array.length_toList]
  omega

/-- No element is refused exactly if each is of the class. -/
theorem firstMisfit?_eq_none_iff {u : Universe} {h : Heap} {name : String} {values : List Value} :
    firstMisfit? u h name values = none ↔
      ∀ r, .ref r ∈ values → u.isSubtype (h.get r).className name = true := by
  unfold firstMisfit?
  rw [List.findSome?_eq_none_iff]
  constructor
  · intro hfit r hr
    simpa [Value.reference?] using hfit _ hr
  · intro hfit v hv
    cases v with
    | ref r => simpa [Value.reference?] using hfit r hv
    | _ => rfl

namespace ElementCopy

variable {c : ElementCopy} {u : Universe}

/-- As many elements are copied as were asked for. -/
theorem length_copied (h : InRange c.sourceStart c.length c.elements.size) :
    c.copied.length = c.length.toInt.toNat := by
  rcases h with ⟨hstart, hlength, hend⟩
  unfold copied
  rw [List.length_take, List.length_drop, Array.length_toList]
  omega

/-- They are those of the range. -/
theorem mem_copied {v : Value} (h : InRange c.sourceStart c.length c.elements.size) :
    v ∈ c.copied ↔ ∃ i : Nat, c.sourceStart.toInt ≤ i ∧
      i < c.sourceStart.toInt + c.length.toInt ∧ c.elements[i]? = some v := by
  rcases h with ⟨hstart, hlength, hend⟩
  unfold copied
  rw [List.mem_iff_getElem?]
  constructor
  · rintro ⟨i, hi⟩
    rw [List.getElem?_take, List.getElem?_drop, Array.getElem?_toList] at hi
    rcases Option.ite_none_right_eq_some.mp hi with ⟨hlt, hi⟩
    exact ⟨_, by omega, by omega, hi⟩
  · rintro ⟨i, hge, hlt, hi⟩
    refine ⟨i - c.sourceStart.toInt.toNat, ?_⟩
    rw [List.getElem?_take_of_lt (by omega), List.getElem?_drop, Array.getElem?_toList,
      Nat.add_sub_cancel' (by omega), hi]

/-- The range is filled from the old elements of the source, whatever the target is. -/
theorem copied_result (hsource : InRange c.sourceStart c.length c.elements.size)
    (htarget : InRange c.targetStart c.length c.room.size) : c.Copied c.result := by
  have hlength := length_copied hsource
  rcases htarget with ⟨hstart, hpos, hend⟩
  have hroom : c.targetStart.toInt.toNat + c.copied.length ≤ c.room.size := by omega
  refine ⟨size_overwrite hroom, fun i => ?_⟩
  unfold result
  rw [getElem?_overwrite hroom]
  refine ite_congr (by rw [hlength, eq_iff_iff]; omega) (fun hi => ?_) fun _ => rfl
  unfold copied
  rw [List.getElem?_take_of_lt (by omega), List.getElem?_drop, Array.getElem?_toList, Nat.add_comm]

end ElementCopy

section Method

variable {env : Env} {s : Machine} {args : List Value} {c : ElementCopy}

/-- Components fit if they are the same, or both of them references. -/
theorem kinds_iff {a b : FieldType} : ¬((a.isPrimitive || b.isPrimitive) && a != b) = true ↔
    a = b ∨ a.isPrimitive = false ∧ b.isPrimitive = false := by
  rcases eq_or_ne a b with rfl | hne
  · simp
  · simp [hne]

-- And the two ranges are checked at both ends.
theorem ranges_iff {start start' length : Int32} {size size' : Nat} :
    ¬(decide (start.toInt < 0) || decide (start'.toInt < 0) || decide (length.toInt < 0)
        || decide ((size : Int) < start.toInt + length.toInt)
        || decide ((size' : Int) < start'.toInt + length.toInt)) = true ↔
      InRange start length size ∧ InRange start' length size' := by
  unfold InRange
  simp only [Bool.or_eq_true, decide_eq_true_eq]
  omega

/-- An array has a component and its elements. -/
theorem arrayParts_apply {r : HeapRef} {component : FieldType} {elements : Array Value}
    (hr : s.heap.get? r = some (.array component elements)) (role : String) (env : Env) :
    arrayParts r role env s = .ok (component, elements) s :=
  Emu.bind_of_ok (Emu.object_apply hr env) rfl

/-- What is allowed is done. -/
theorem copyElements_of_allowed (h : c.Allowed args env.program.classes s.heap) :
    copyElements args env s = .ok none (s.put c.target (.array c.targetType c.result)) := by
  rcases h.asked with ⟨rest, rfl⟩
  have hwrite : ∀ f, f (.array c.targetType c.room) = .array c.targetType c.result →
      Emu.modifyObject c.target f env s = .ok () (s.put c.target (.array c.targetType c.result)) :=
    fun f hf => hf ▸ Emu.modifyObject_apply h.target f env
  unfold copyElements
  -- the five values and the two arrays are read, in the order in which the method does it
  refine Emu.bind_of_ok (a := .ref c.source) rfl ?_
  refine Emu.bind_of_ok (a := some c.source) rfl ?_
  refine Emu.bind_of_ok (a := .ref c.target) rfl ?_
  refine Emu.bind_of_ok (a := some c.target) rfl ?_
  refine Emu.bind_of_ok (a := c.sourceStart) rfl ?_
  refine Emu.bind_of_ok (a := c.targetStart) rfl ?_
  refine Emu.bind_of_ok (a := c.length) rfl ?_
  refine Emu.bind_of_ok (arrayParts_apply h.source _ env) ?_
  refine Emu.bind_of_ok (arrayParts_apply h.target _ env) ?_
  dsimp only
  rw [if_neg (kinds_iff.mpr h.kinds), if_neg (ranges_iff.mpr ⟨h.sourceRange, h.targetRange⟩)]
  -- only elements that go where objects are kept are looked at
  cases hname : c.targetType.className? with
  | none => exact Emu.bind_of_ok (hwrite _ rfl) rfl
  | some name =>
      have hfit : firstMisfit? env.program.classes s.heap name c.copied = none := by
        refine firstMisfit?_eq_none_iff.mpr fun r hr => ?_
        rcases (ElementCopy.mem_copied h.sourceRange).mp hr with ⟨i, hge, hlt, hi⟩
        exact h.assignable name hname i r hge hlt hi
      refine Emu.bind_of_ok (a := env.program.classes) rfl ?_
      refine Emu.bind_of_ok (a := s.heap) rfl ?_
      unfold ElementCopy.copied at hfit
      rw [hfit]
      exact Emu.bind_of_ok (hwrite _ rfl) rfl

/-- The five arguments of the call. -/
theorem args_prefix (h₀ : args[0]? = some (Value.ref c.source))
    (h₁ : args[1]? = some (Value.int c.sourceStart)) (h₂ : args[2]? = some (Value.ref c.target))
    (h₃ : args[3]? = some (Value.int c.targetStart)) (h₄ : args[4]? = some (Value.int c.length)) :
    c.args <+: args := by
  refine List.prefix_iff_getElem?.mpr fun i hi => ?_
  have hi : i < 5 := hi
  interval_cases i <;> assumption

/-- What is not allowed is refused, whatever is wrong with it. -/
theorem raises_copyElements (h : ¬∃ c : ElementCopy, c.Allowed args env.program.classes s.heap) :
    (copyElements args).Raises env s := by
  unfold copyElements
  -- a source that is missing is found out only after the target has been read
  refine raises_reference ?_ fun source hsource => ?_
  · exact raises_reference (Emu.raises_raiseNull env s) fun _ _ => Emu.raises_raiseNull env s
  refine raises_reference (Emu.raises_raiseNull env s) fun target htarget => ?_
  refine raises_int fun sourceStart hsourceStart => ?_
  refine raises_int fun targetStart htargetStart => ?_
  refine raises_int fun length hlength => ?_
  refine raises_array fun sourceType elements hsourceArray => ?_
  refine raises_array fun targetType room htargetArray => ?_
  dsimp only
  split
  next => exact Emu.raises_bind (.inr (Emu.raises_raise _ _ env s))
  next hkinds =>
  split
  next => exact Emu.raises_bind (.inr (Emu.raises_raise _ _ env s))
  next hranges =>
  rcases ranges_iff.mp hranges with ⟨hsourceRange, htargetRange⟩
  -- all is as it should be so far, so one of the elements is not
  let c : ElementCopy :=
    ⟨source, sourceType, elements, sourceStart, target, targetType, room, targetStart, length⟩
  have hmisfit : ¬∀ name, targetType.className? = some name →
      firstMisfit? env.program.classes s.heap name c.copied = none := by
    intro hfit
    refine h ⟨c, args_prefix hsource hsourceStart htarget htargetStart hlength, hsourceArray,
      htargetArray, kinds_iff.mp hkinds, hsourceRange, htargetRange,
      fun name hname i r hge hlt hi => ?_⟩
    exact firstMisfit?_eq_none_iff.mp (hfit name hname) r
      ((ElementCopy.mem_copied (c := c) hsourceRange).mpr ⟨i, hge, hlt, hi⟩)
  cases hname : targetType.className? with
  | none => exact absurd (fun name h => nomatch hname.symm.trans h) hmisfit
  | some name =>
      refine Emu.raises_bind (.inl ⟨env.program.classes, rfl, ?_⟩)
      refine Emu.raises_bind (.inl ⟨s.heap, rfl, ?_⟩)
      cases hfirst : firstMisfit? env.program.classes s.heap name c.copied with
      | none =>
          refine absurd (fun name' hname' => ?_) hmisfit
          rwa [← Option.some_inj.mp (hname.symm.trans hname')]
      | some o =>
          unfold ElementCopy.copied at hfirst
          rw [hfirst]
          exact Emu.raises_bind (.inr (Emu.raises_raise _ _ env s))

/-- The method that copies elements. -/
def arraycopyMember : Member :=
  ⟨"java/lang/System", "arraycopy", "(Ljava/lang/Object;ILjava/lang/Object;II)V"⟩

/-- What the table of native methods gives for it. -/
theorem outcome_arraycopy (args : List Value) (env : Env) (s : Machine) :
    outcome arraycopyMember args env s = some (copyElements args env s) := by
  have hclass : ("java/lang/System", systemMethods) ∈ all := by
    simp only [all, List.cons_append, List.mem_cons, true_or, or_true]
  have hmethod : method "arraycopy" "(Ljava/lang/Object;ILjava/lang/Object;II)V" copyElements
      ∈ systemMethods := List.mem_cons_self
  exact outcome_builtin hclass hmethod args

/-- The sum of two words of 32 bits is taken with 64 bits as it is with integers. -/
theorem toInt_add_toInt64 (a b : Int32) : (a.toInt64 + b.toInt64).toInt = a.toInt + b.toInt := by
  have ha := a.le_toInt
  have ha' := a.toInt_lt
  have hb := b.le_toInt
  have hb' := b.toInt_lt
  rw [Int64.toInt_add, Int32.toInt_toInt64, Int32.toInt_toInt64]
  exact Int.bmod_eq_of_le (by omega) (by omega)

/-- If nothing is wrong with what a call asks, it answers nothing and leaves in the range of the
    target what the source held there before the call, and else everything as it was, also when
    source and target are the same array. If anything is wrong, whatever the values of the call are,
    it fails and every object is as it was. The ends of the ranges are sums of integers, and 64 bits
    are enough for them. -/
theorem arraycopy_outcome (args : List Value) (env : Env) (s : Machine) :
    (∀ c : ElementCopy, c.Allowed args env.program.classes s.heap →
      ∃ result s', outcome arraycopyMember args env s = some (.ok none s') ∧
        s'.heap.get? c.target = some (.array c.targetType result) ∧ c.Copied result ∧
        ∀ r, r ≠ c.target → s'.heap.get? r = s.heap.get? r) ∧
    ((¬∃ c : ElementCopy, c.Allowed args env.program.classes s.heap) →
      ∃ fault s', outcome arraycopyMember args env s = some (.error fault s') ∧
        ∀ r o, s.heap.get? r = some o → s'.heap.get? r = some o) ∧
    ∀ a b : Int32, (a.toInt64 + b.toInt64).toInt = a.toInt + b.toInt := by
  refine ⟨fun c h => ?_, fun h => ?_, toInt_add_toInt64⟩
  · refine ⟨c.result, s.put c.target (.array c.targetType c.result), ?_,
      Machine.get?_put h.target _, ElementCopy.copied_result h.sourceRange h.targetRange,
      fun r hr => Machine.get?_put_of_ne hr _⟩
    rw [outcome_arraycopy, copyElements_of_allowed h]
  · rcases raises_copyElements h with ⟨fault, l, hraises⟩
    refine ⟨fault, s.adding l, ?_, fun r o => Machine.get?_adding l⟩
    rw [outcome_arraycopy, hraises]

/-- An array of four elements. -/
def fourInts : Machine :=
  Machine.adding {} [.array .int #[.int 1, .int 2, .int 3, .int 4]]

/-- Its elements but the last one moved up by one place. -/
def movedUp : ElementCopy :=
  ⟨⟨0⟩, .int, #[.int 1, .int 2, .int 3, .int 4], 0, ⟨0⟩, .int,
    #[.int 1, .int 2, .int 3, .int 4], 1, 3⟩

/-- The places are filled with the old elements, and a range from the greatest position on is
    refused. -/
theorem arraycopy_outcome_four :
    movedUp.Allowed movedUp.args {} fourInts.heap ∧
    (∃ s', outcome arraycopyMember movedUp.args (Engine.env (.ofUniverse {}) {}) fourInts
        = some (.ok none s') ∧
      s'.heap.get? ⟨0⟩ = some (.array .int #[.int 1, .int 1, .int 2, .int 3])) ∧
    ∃ fault s', outcome arraycopyMember
        [.ref ⟨0⟩, .int Int32.maxValue, .ref ⟨0⟩, .int Int32.maxValue, .int Int32.maxValue]
        (Engine.env (.ofUniverse {}) {}) fourInts = some (.error fault s') ∧
      s'.heap.get? ⟨0⟩ = fourInts.heap.get? ⟨0⟩ := by
  have hrange : InRange 0 3 4 ∧ InRange 1 3 4 := by
    unfold InRange
    decide
  have hallowed : movedUp.Allowed movedUp.args {} fourInts.heap :=
    ⟨List.prefix_refl _, rfl, rfl, .inl rfl, hrange.1, hrange.2, nofun⟩
  refine ⟨hallowed, ?_, ?_⟩
  · rcases (arraycopy_outcome movedUp.args (Engine.env (.ofUniverse {}) {}) fourInts).1 movedUp
      hallowed with ⟨result, s', hanswer, hafter, ⟨-, hcopied⟩, -⟩
    -- what the array holds is said place by place
    have heq : result = #[.int 1, .int 1, .int 2, .int 3] := by
      refine Array.ext_getElem? fun i => (hcopied i).trans ?_
      rcases lt_or_ge i 4 with hi | hi
      · interval_cases i <;> rfl
      · have hbehind : ¬(i : Int) < 1 + 3 := by omega
        rw [if_neg fun h => hbehind h.2, Array.getElem?_eq_none hi, Array.getElem?_eq_none hi]
    subst heq
    exact ⟨s', hanswer, hafter⟩
  · have hrefused : ¬∃ c : ElementCopy, c.Allowed
        [.ref ⟨0⟩, .int Int32.maxValue, .ref ⟨0⟩, .int Int32.maxValue, .int Int32.maxValue]
        (Engine.env (.ofUniverse {}) {}).program.classes fourInts.heap := by
      -- the end of the range is greater than any position
      rintro ⟨c, ⟨rest, hargs⟩, hsource, -, -, ⟨-, -, hend⟩, -, -⟩
      simp only [ElementCopy.args, List.cons_append, List.cons.injEq, Value.ref.injEq,
        Value.int.injEq] at hargs
      rcases hargs with ⟨hreference, hstart, -, -, hlength, -⟩
      rw [hreference] at hsource
      injection hsource with hsource
      injection hsource with _ helements
      rw [hstart, hlength, ← helements] at hend
      exact absurd hend (by decide)
    rcases (arraycopy_outcome _ _ _).2.1 hrefused with ⟨fault, s', hanswer, hstays⟩
    exact ⟨fault, s', hanswer, hstays _ _ rfl⟩

end Method

end Natives

end JvmFold
