import Mathlib
import JvmFold.Proofs.Bytes.Reading
import JvmFold.Proofs.Machine.Adding

/-!
# Arrays of Arrays

One instruction makes a whole tree of arrays, level by level and the elements of
an array in front of it. A length is looked at when the first array of its level
is to be made, so a negative one is refused before anything has been made. Below
an array without elements nothing is made any more, and the further lengths are
not looked at, negative ones among them.

## Main definitions

* `FieldType.depth`: How deep a type of arrays is nested.
* `Heap.ArrayTree`: A tree of arrays of given lengths, with its references.
* `Emu.refused?`: The length that is refused.
* `Emu.Makes`: Operations that make something of new objects and nothing else.

## Theorems

* `Heap.ArrayTree.mono`: A tree stays one when objects are added.
* `Emu.Makes.several`: The elements of an array are made one after the other.
* `Emu.makes_newArrays`: Arrays of arrays are a tree of new objects.
* `Emu.newArrays_refused`: A refused length is refused before anything has been made.
* `Emu.multiNewArray_refused_iff`: The instruction.
-/

namespace JvmFold

/-- How deep a type of arrays is nested. -/
def FieldType.depth : FieldType → Nat
  | .array component => component.depth + 1
  | _ => 0

/-- An array type has a component. -/
theorem FieldType.exists_component {type : FieldType} (h : type.depth ≠ 0) :
    ∃ component, type = .array component := by
  cases type with
  | array component => exact ⟨component, rfl⟩
  | _ => exact absurd rfl h

namespace Heap

variable {h h' : Heap}

/-- The value refers to an array of the first length, the elements of which are trees of the further
    lengths, and so on down to the value that the last component type starts with. The references
    are those of all arrays in it. -/
def ArrayTree (h : Heap) : FieldType → List Int32 → Value → List HeapRef → Prop
  | type, [], v, refs => v = .default type ∧ refs = []
  | .array component, length :: lengths, v, refs =>
    ∃ r elements trees, v = .ref r ∧ h.get? r = some (.array component elements) ∧
      (elements.size : Int) = length.toInt ∧
      List.Forall₂ (ArrayTree h component lengths) elements.toList trees ∧
      refs = trees.flatten ++ [r]
  | _, _ :: _, _, _ => False

theorem arrayTree_nil (h : Heap) (type : FieldType) : h.ArrayTree type [] (.default type) [] := by
  unfold ArrayTree
  exact ⟨rfl, rfl⟩

/-- A tree stays one as long as its objects stay. -/
theorem ArrayTree.mono (hstays : ∀ {r o}, h.get? r = some o → h'.get? r = some o)
    {lengths : List Int32} {type : FieldType} {v : Value} {refs : List HeapRef}
    (htree : h.ArrayTree type lengths v refs) : h'.ArrayTree type lengths v refs := by
  induction lengths generalizing type v refs with
  | nil =>
      unfold ArrayTree at htree ⊢
      exact htree
  | cons length lengths ih =>
      cases type with
      | array component =>
          rcases htree with ⟨r, elements, trees, hv, hr, hsize, hall, hrefs⟩
          exact ⟨r, elements, trees, hv, hstays hr, hsize, hall.imp fun _ _ => ih, hrefs⟩
      | _ => exact htree.elim

/-- The references of the next objects. -/
def fresh (h : Heap) (n : Nat) : List HeapRef :=
  (List.range' h.size n).map HeapRef.mk

/-- Places that are yet to be filled are all different. -/
theorem nodup_fresh (h : Heap) (n : Nat) : (h.fresh n).Nodup :=
  List.Nodup.map (fun _ _ heq => congrArg HeapRef.index heq) List.nodup_range'

theorem le_of_mem_fresh {n : Nat} {r : HeapRef} (hr : r ∈ h.fresh n) : h.size ≤ r.index := by
  rcases List.mem_map.1 hr with ⟨i, hi, rfl⟩
  exact (List.mem_range'_1.1 hi).1

end Heap

/-- The next references come in front of those that follow them. -/
theorem Machine.fresh_add (s : Machine) (l : List HeapObject) (n : Nat) :
    s.heap.fresh l.length ++ (s.adding l).heap.fresh n = s.heap.fresh (l.length + n) := by
  unfold Heap.fresh
  rw [size_adding, ← List.map_append, List.range'_append_1]

namespace Emu

variable {α : Type} {env : Env} {s : Machine}

/-- The number of values is made one by one. -/
theorem several_eq_repeated (n : Nat) (make : Emu Value) : several n make = repeated n make := by
  have hgo (n : Nat) (acc : List Value) : several.go make n acc = repeated.go make acc n := by
    induction n generalizing acc with
    | zero => rfl
    | succ n ih =>
        rw [several.go, repeated.go]
        congr 1
        funext v
        exact ih (v :: acc)
  exact hgo n []

/-- An operation makes a value of new objects, all of which belong to it, and changes nothing. -/
def Makes (make : Emu Value) (T : Heap → Value → List HeapRef → Prop) : Prop :=
  ∀ env s, ∃ v l, make env s = .ok v (s.adding l) ∧
    T (s.adding l).heap v (s.heap.fresh l.length)

/-- Values that are made one after the other stay what they are. -/
theorem Makes.several {make : Emu Value} {T : Heap → Value → List HeapRef → Prop}
    (hmake : Makes make T)
    (hstays : ∀ {s : Machine} {v refs} l, T s.heap v refs → T (s.adding l).heap v refs)
    (n : Nat) (env : Env) (s : Machine) :
    ∃ vs l trees, several n make env s = .ok vs (s.adding l) ∧ vs.length = n ∧
      List.Forall₂ (T (s.adding l).heap) vs trees ∧ trees.flatten = s.heap.fresh l.length := by
  rw [several_eq_repeated]
  induction n generalizing s with
  | zero => exact ⟨[], [], [], by rw [s.adding_nil]; rfl, rfl, .nil, rfl⟩
  | succ n ih =>
      -- The first array is made, and stays what it is while the others are.
      rcases hmake env s with ⟨v, l, hv, htree⟩
      rcases ih (s.adding l) with ⟨vs, l', trees, hvs, hlength, htrees, hrefs⟩
      refine ⟨v :: vs, l ++ l', s.heap.fresh l.length :: trees, ?_, ?_, ?_, ?_⟩
      · rw [repeated_succ, bind_apply, hv]
        dsimp only
        rw [bind_apply, hvs, s.adding_adding]
        rfl
      · rw [List.length_cons, hlength]
      · rw [← s.adding_adding]
        exact .cons (hstays l' htree) htrees
      · rw [List.flatten_cons, hrefs, s.fresh_add, List.length_append]

/-- The length that is refused: the first one that is not positive, if it is negative. -/
def refused? (lengths : List Int32) : Option Int32 :=
  (lengths.find? (· ≤ 0)).filter (· < 0)

/-- The first length that is not positive decides. -/
theorem refused?_cons (length : Int32) (lengths : List Int32) :
    refused? (length :: lengths)
      = if length < 0 then some length else if length = 0 then none else refused? lengths := by
  unfold refused?
  rw [List.find?_cons]
  by_cases hneg : length < 0
  · have hle : length ≤ 0 := Int32.le_of_lt hneg
    simp [hneg, hle]
  · by_cases hzero : length = 0
    · simp [hzero]
    · have hle : ¬length ≤ 0 := fun h => hneg (Int32.lt_of_le_of_ne h hzero)
      simp [hneg, hzero, hle]

/-- One length makes one array. -/
theorem newArrays_single (component : FieldType) (length : Int32) :
    newArrays (.array component) [length] = newArray component length :=
  rfl

/-- More of them make an array of arrays. -/
theorem newArrays_cons (component : FieldType) (length next : Int32) (lengths : List Int32) :
    newArrays (.array component) (length :: next :: lengths)
      = if length < 0 then raiseNegative length
        else several length.toInt.toNat (newArrays component (next :: lengths)) >>= fun elements =>
          alloc (.array component elements.toArray) >>= fun r => pure (.ref r) :=
  rfl

/-- A length that is not negative counts. -/
theorem toNat_of_nonneg {length : Int32} (h : ¬length < 0) :
    (length.toInt.toNat : Int) = length.toInt :=
  Int.toNat_of_nonneg (Int32.le_iff_toInt_le.1 (Int32.not_lt.1 h))

section Tree

variable {component : FieldType} {length : Int32} {lengths : List Int32} {elements : Array Value}
  {trees : List (List HeapRef)} {l : List HeapObject}

/-- An array of trees that have just been made is a tree. -/
theorem alloc_array (hsize : (elements.size : Int) = length.toInt)
    (htrees : List.Forall₂ ((s.adding l).heap.ArrayTree component lengths) elements.toList trees)
    (hrefs : trees.flatten = s.heap.fresh l.length) (env : Env) :
    ∃ v l', (alloc (.array component elements) >>= fun r => pure (.ref r) : Emu Value) env
        (s.adding l) = .ok v (s.adding l') ∧
      (s.adding l').heap.ArrayTree (.array component) (length :: lengths) v
        (s.heap.fresh l'.length) := by
  refine ⟨.ref ⟨s.heap.size + l.length⟩, l ++ [.array component elements], ?_,
    ⟨s.heap.size + l.length⟩, elements, trees, rfl, s.get?_adding_append l _ [], hsize, ?_, ?_⟩
  · rw [bind_apply, alloc_apply, s.size_adding, s.adding_adding]
    rfl
  · rw [← s.adding_adding]
    exact htrees.imp fun _ _ => Heap.ArrayTree.mono (Machine.get?_adding _)
  · rw [hrefs, List.length_append, ← s.fresh_add, Heap.fresh, Heap.fresh, s.size_adding]
    rfl

/-- Equal values need no array of their own. -/
theorem forall₂_replicate {T : Value → List HeapRef → Prop} {v : Value} (n : Nat) (hv : T v []) :
    List.Forall₂ T (List.replicate n v) (List.replicate n []) := by
  induction n with
  | zero => exact .nil
  | succ n ih => exact .cons hv ih

end Tree

/-- Arrays of arrays are a tree of new objects, if no length is refused. -/
theorem makes_newArrays {type : FieldType} {lengths : List Int32} (hne : lengths ≠ [])
    (hdepth : lengths.length ≤ type.depth) (haccepted : refused? lengths = none) :
    Makes (newArrays type lengths) fun h => h.ArrayTree type lengths := by
  induction lengths generalizing type with
  | nil => exact absurd rfl hne
  | cons length lengths ih =>
      intro env s
      rcases type.exists_component (Nat.ne_zero_of_lt hdepth) with ⟨component, rfl⟩
      rw [refused?_cons] at haccepted
      have hneg : ¬length < 0 := fun h => by
        rw [if_pos h] at haccepted
        cases haccepted
      rw [if_neg hneg] at haccepted
      cases lengths with
      | nil =>
          rw [newArrays_single]
          unfold newArray
          rw [if_neg hneg]
          have halloc := @alloc_array s component length []
            (Array.replicate length.toInt.toNat (Value.default component))
            (List.replicate length.toInt.toNat []) []
            (by rw [Array.size_replicate, toNat_of_nonneg hneg])
            (by
              rw [Array.toList_replicate]
              exact forall₂_replicate _ (Heap.arrayTree_nil _ component))
            (by rw [List.flatten_replicate_nil]; rfl) env
          rwa [s.adding_nil] at halloc
      | cons next lengths =>
          rw [newArrays_cons, if_neg hneg]
          -- Below an array without elements nothing is made, so nothing has to be known of it.
          have hmake : ∃ vs l trees,
              several length.toInt.toNat (newArrays component (next :: lengths)) env s
                = .ok vs (s.adding l) ∧ vs.length = length.toInt.toNat ∧
              List.Forall₂ ((s.adding l).heap.ArrayTree component (next :: lengths)) vs trees ∧
              trees.flatten = s.heap.fresh l.length := by
            by_cases hzero : length = 0
            · rw [hzero]
              exact ⟨[], [], [], by rw [s.adding_nil]; rfl, rfl, .nil, rfl⟩
            · rw [if_neg hzero] at haccepted
              exact (ih (List.cons_ne_nil _ _) (Nat.le_of_succ_le_succ hdepth) haccepted).several
                (fun l => Heap.ArrayTree.mono (Machine.get?_adding l)) _ env s
          rcases hmake with ⟨vs, l, trees, hvs, hlength, htrees, hrefs⟩
          rw [bind_apply, hvs]
          refine alloc_array ?_ htrees hrefs env
          rw [List.size_toArray, hlength, toNat_of_nonneg hneg]

/-- What a negative length raises. -/
theorem raiseNegative_apply (length : Int32) (env : Env) (s : Machine) :
    (raiseNegative length : Emu α) env s
      = .error (.thrown ⟨s.heap.size + 1⟩) (s.adding
          (s.exception "java/lang/NegativeArraySizeException" (toString length.toInt))) :=
  raise_apply _ _ env s

/-- A refused length is refused before anything has been made. -/
theorem newArrays_refused {type : FieldType} {lengths : List Int32} {length : Int32}
    (hdepth : lengths.length ≤ type.depth) (hrefused : refused? lengths = some length)
    (env : Env) (s : Machine) :
    newArrays type lengths env s
      = .error (.thrown ⟨s.heap.size + 1⟩) (s.adding
          (s.exception "java/lang/NegativeArraySizeException" (toString length.toInt))) := by
  induction lengths generalizing type with
  | nil => cases hrefused
  | cons first lengths ih =>
      rcases type.exists_component (Nat.ne_zero_of_lt hdepth) with ⟨component, rfl⟩
      rw [refused?_cons] at hrefused
      by_cases hneg : first < 0
      · rw [if_pos hneg] at hrefused
        cases hrefused
        cases lengths with
        | nil =>
            rw [newArrays_single]
            unfold newArray
            rw [if_pos hneg, raiseNegative_apply]
        | cons next lengths => rw [newArrays_cons, if_pos hneg, raiseNegative_apply]
      · rw [if_neg hneg] at hrefused
        rcases Option.ite_none_left_eq_some.1 hrefused with ⟨hzero, hrefused⟩
        cases lengths with
        | nil => cases hrefused
        | cons next lengths =>
            -- The first element is made at once, and does not get further either.
            have hpositive : ∃ n, first.toInt.toNat = n + 1 := by
              refine Nat.exists_eq_succ_of_ne_zero fun hnat => hzero (Int32.toInt.inj ?_)
              have hint := toNat_of_nonneg hneg
              rw [hnat] at hint
              exact hint.symm
            rcases hpositive with ⟨n, hn⟩
            have hfirst := ih (Nat.le_of_succ_le_succ hdepth) hrefused
            rw [newArrays_cons, if_neg hneg, hn, several_eq_repeated, bind_apply, repeated_succ,
              bind_apply, hfirst]

/-- Lengths are numbers. -/
theorem mapM_asInt (lengths : List Int32) :
    (lengths.map Value.int).mapM Value.asInt = .ok lengths := by
  induction lengths with
  | nil => rfl
  | cons length lengths ih =>
      rw [List.map_cons, List.mapM_cons, ih]
      rfl

/-- The instruction makes arrays of the lengths on the stack. -/
theorem step_multiNewArray {c : ClassFile} {name : String} {dimensions : UInt8} {type : FieldType}
    {lengths : List Int32} {a : Activation} {rest : Stack} (hname : FieldType.parse name = .ok type)
    (hcount : dimensions.toNat = lengths.length)
    (hstack : a.stack = (lengths.map Value.int).reverse ++ rest) :
    step c (.multiNewArray name dimensions) a
      = newArrays type lengths >>= fun v => pure (.next (v :: rest)) := by
  unfold step newNestedArray
  dsimp only
  rw [hstack, hcount, ← lengths.length_map (f := Value.int), popMany_reverse, hname]
  change (lift ((lengths.map Value.int).mapM Value.asInt) >>= _) >>= _ = _
  rw [mapM_asInt]
  change (pure lengths >>= fun lengths => pure type >>= fun type =>
    newArrays type lengths >>= fun v => pure (v :: rest) : Emu Stack) >>=
      (fun s => pure (Flow.next s)) = _
  simp only [pure_bind, bind_assoc]

/-- An instruction for arrays of as many lengths as the stack has for it, in an array type that is
    nested at least as deep, throws the exception for a negative length if and only if the first
    length that is not positive is negative. Otherwise it leaves a tree of arrays of the lengths,
    which are all different and are all new objects. In both cases the objects that there were stay
    as they were. -/
theorem multiNewArray_refused_iff {c : ClassFile} {name : String} {dimensions : UInt8}
    {type : FieldType} {lengths : List Int32} {a : Activation} {rest : Stack}
    (hname : FieldType.parse name = .ok type) (htype : type.depth ≠ 0)
    (hdepth : lengths.length ≤ type.depth) (hcount : dimensions.toNat = lengths.length)
    (hstack : a.stack = (lengths.map Value.int).reverse ++ rest) (env : Env) (s : Machine) :
    (∀ length, refused? lengths = some length →
      step c (.multiNewArray name dimensions) a env s
        = .error (.thrown ⟨s.heap.size + 1⟩) (s.adding
            (s.exception "java/lang/NegativeArraySizeException" (toString length.toInt)))) ∧
    (refused? lengths = none → ∃ v l refs,
      step c (.multiNewArray name dimensions) a env s = .ok (.next (v :: rest)) (s.adding l) ∧
        (s.adding l).heap.ArrayTree type lengths v refs ∧ refs.Nodup ∧ refs.length = l.length ∧
        ∀ r ∈ refs, s.heap.size ≤ r.index) ∧
    ∀ l r, r.index < s.heap.size → (s.adding l).heap.get? r = s.heap.get? r := by
  rw [step_multiNewArray hname hcount hstack]
  refine ⟨fun length hrefused => ?_, fun haccepted => ?_, fun l r => Machine.get?_adding_of_lt l⟩
  · rw [bind_apply, newArrays_refused hdepth hrefused]
  · have hmade : ∃ v l refs, newArrays type lengths env s
          = .ok v (s.adding l) ∧ (s.adding l).heap.ArrayTree type lengths v refs ∧
        refs = s.heap.fresh l.length := by
      -- No lengths at all make the default value of the type.
      by_cases hne : lengths = []
      · subst hne
        rcases FieldType.exists_component htype with ⟨component, rfl⟩
        exact ⟨.null, [], [], by rw [s.adding_nil]; rfl, Heap.arrayTree_nil _ _, rfl⟩
      · rcases makes_newArrays hne hdepth haccepted env s with ⟨v, l, hmakes, htree⟩
        exact ⟨v, l, _, hmakes, htree, rfl⟩
    rcases hmade with ⟨v, l, refs, hmakes, htree, hrefs⟩
    subst hrefs
    refine ⟨v, l, _, ?_, htree, s.heap.nodup_fresh _, ?_, fun r => Heap.le_of_mem_fresh⟩
    · rw [bind_apply, hmakes]
      rfl
    · rw [Heap.fresh, List.length_map, List.length_range']

/-- The stack for two arrays of which each has one array of three elements. -/
theorem multiNewArray_refused_iff_table :
    FieldType.parse "[[[J" = .ok (.array (.array (.array .long))) ∧
      ∃ v l refs, step default (.multiNewArray "[[[J" 3)
          { stack := [.int 3, .int 1, .int 2] } (Engine.env (.ofUniverse {}) {}) {}
            = .ok (.next [v]) (Machine.adding {} l) ∧
        (Machine.adding {} l).heap.ArrayTree (.array (.array (.array .long))) [2, 1, 3] v refs ∧
        refs.Nodup ∧ refs.length = l.length ∧ ∀ r ∈ refs, 0 ≤ r.index := by
  have hname : FieldType.parse "[[[J" = .ok (.array (.array (.array .long))) := by rfl
  have hstack : ([.int 3, .int 1, .int 2] : Stack)
      = (([2, 1, 3] : List Int32).map Value.int).reverse ++ [] := rfl
  exact ⟨hname, (multiNewArray_refused_iff hname (by decide) (by decide) rfl hstack _ _).2.1
    (by decide)⟩

/-- Behind a length of zero a negative one is accepted: there is an array without elements. -/
theorem negative_length_accepted :
    (-1 : Int32) ∈ ([0, -1] : List Int32) ∧ (-1 : Int32) < 0 ∧
      step default (.multiNewArray "[[I" 2) { stack := [.int (-1), .int 0] }
          (Engine.env (.ofUniverse {}) {}) {}
        = .ok (.next [.ref ⟨0⟩]) (Machine.adding {} [.array (.array .int) #[]]) := by
  refine ⟨by decide, by decide, ?_⟩
  have hname : FieldType.parse "[[I" = .ok (.array (.array .int)) := by rfl
  have hstack : ([.int (-1), .int 0] : Stack)
      = (([0, -1] : List Int32).map Value.int).reverse ++ [] := rfl
  rw [step_multiNewArray hname rfl hstack]
  rfl

end Emu

end JvmFold
