import Mathlib
import JvmFold.Fold.Analysis

/-!
# What a Step of the Analysis Can Do

An analysis asks a machine that it knows nothing about: every value it meets
comes from outside, and so does the outcome of every evaluation. What it does
to its stack and to its replacements does not depend on that machine, except
for which of a few things happens. The relations here say which things those
are, so that a property of the analysis is a property of them.

`Emits` says which replacements come of giving values up: a value stays, is
written back whole, or is given up for the values it was made from. `Pops`
takes operands off the stack; an operand of two slots that does not come off
as one value is given up on the way. `Move` puts these together. A value that
is made takes its operands off the stack with it, and any other operand is
given up; nothing is both.

A value whose object was handed to an evaluation is stale, and is not written
back itself. `Emits` does not ask for that, since spans are apart whether they
can be written back or not; `Replacement.Replaces` does.

## Main definitions

* `Fold.parts`: A value with all the values it was made from.
* `Emits`: The replacements that come of giving values up.
* `Replacement.Replaces`: A replacement of a value that is not stale.
* `PopsOne`, `Pops`: Taking operands off the stack.
* `Makes`: The instructions that make a value, with the widths of their operands.
* `Move`: What an instruction does to the stack.

## Theorems

* `Emits.append`: Giving values up one after the other.
* `Pops.perm`: What came off the stack is an operand or was given up.
* `Pops.lost_eq_nil`: If all operands are known, nothing was given up on the way.
* `Pops.operands_perm`: Known operands are values of the stack.
-/

namespace JvmFold

/-- The known value of a slot. -/
def Slot.fold? : Slot → Option Fold
  | .known f => some f
  | _ => none

/-- The known values of slots, in their order. -/
def knownIn (l : List Slot) : List Fold :=
  l.filterMap Slot.fold?

theorem knownIn_append (a b : List Slot) : knownIn (a ++ b) = knownIn a ++ knownIn b :=
  List.filterMap_append

/-- Slots that are not known hold no value. -/
theorem knownIn_unknowns (k : Nat) (rest : List Slot) :
    knownIn (List.replicate k .unknown ++ rest) = knownIn rest := by
  rw [knownIn_append]
  have hnone : knownIn (List.replicate k .unknown) = [] := by
    rw [knownIn, List.filterMap_replicate]
    rfl
  rw [hnone, List.nil_append]

/-- The known values of a stack are those in its slots. -/
theorem mem_knownIn {f : Fold} {stack : List Slot} : f ∈ knownIn stack ↔ .known f ∈ stack := by
  rw [knownIn, List.mem_filterMap]
  constructor
  · rintro ⟨slot, hmem, hslot⟩
    -- Only a known slot has a fold.
    cases slot with
    | known g =>
        rw [Slot.fold?, Option.some.injEq] at hslot
        rw [← hslot]
        exact hmem
    | unknown => cases hslot
    | upper => cases hslot
    | uninitialized u => cases hslot
  · intro hmem
    exact ⟨_, hmem, rfl⟩

mutual
/-- A value with all the values it was made from. -/
def Fold.parts : Fold → List Fold
  | ⟨origin, start, stop, value, type, member, children, stale⟩ =>
      ⟨origin, start, stop, value, type, member, children, stale⟩ :: Fold.partsAll children

/-- Several values with all the values they were made from. -/
def Fold.partsAll : List Fold → List Fold
  | [] => []
  | f :: rest => f.parts ++ Fold.partsAll rest
end

/-- The parts of a value are itself and those of what it was made from. -/
theorem Fold.parts_eq (f : Fold) : f.parts = f :: Fold.partsAll f.children := by
  rcases f with ⟨⟩
  rw [Fold.parts]

theorem Fold.mem_parts (f : Fold) : f ∈ f.parts := by
  rw [f.parts_eq]
  exact List.mem_cons_self

theorem Fold.partsAll_cons (f : Fold) (rest : List Fold) :
    Fold.partsAll (f :: rest) = f :: (Fold.partsAll f.children ++ Fold.partsAll rest) := by
  rw [Fold.partsAll, f.parts_eq, List.cons_append]

theorem Fold.partsAll_append (a b : List Fold) :
    Fold.partsAll (a ++ b) = Fold.partsAll a ++ Fold.partsAll b := by
  induction a with
  | nil => rfl
  | cons f rest ih => rw [List.cons_append, Fold.partsAll, Fold.partsAll, ih, List.append_assoc]

/-- The order of the values is that of their parts. -/
theorem Fold.partsAll_perm {a b : List Fold} (h : a.Perm b) :
    (Fold.partsAll a).Perm (Fold.partsAll b) := by
  induction h with
  | nil => exact List.Perm.refl _
  | cons f _ ih =>
      rw [Fold.partsAll, Fold.partsAll]
      exact ih.append_left _
  | swap f g rest =>
      simp only [Fold.partsAll, ← List.append_assoc]
      exact List.perm_append_comm.append_right _
  | trans _ _ ih ih' => exact ih.trans ih'

/-- What one of several values was made from is among what they were all made from. -/
theorem Fold.partsAll_children_subset {f : Fold} :
    (l : List Fold) → f ∈ partsAll l → partsAll f.children ⊆ partsAll l
  | [], h => nomatch h
  | g :: rest, h => by
      rw [partsAll_cons] at h ⊢
      rcases List.mem_cons.1 h with rfl | h
      · exact fun x hx => List.mem_cons_of_mem _ (List.mem_append_left _ hx)
      -- The fold is the first of the list, a part of the first, or a part of the rest.
      rcases List.mem_append.1 h with h | h
      · have hsize : sizeOf g.children < sizeOf (g :: rest) := by
          rcases g with ⟨⟩
          simp +arith
        exact fun x hx => List.mem_cons_of_mem _
          (List.mem_append_left _ (partsAll_children_subset g.children h hx))
      · exact fun x hx => List.mem_cons_of_mem _
          (List.mem_append_right _ (partsAll_children_subset rest h hx))
termination_by l => sizeOf l

/-- The replacements that come of giving values up, one after the other: each of them stays as it
    is, is written back, or is given up for the values it was made from. -/
inductive Emits : List Fold → List Replacement → Prop where
  | nil : Emits [] []
  | keep {f : Fold} {rest : List Fold} {new : List Replacement} :
      Emits rest new → Emits (f :: rest) new
  | write {f : Fold} {rest : List Fold} {new : List Replacement} (code : List Instruction) :
      Emits rest new → Emits (f :: rest) (⟨f.start, f.stop, code, f.value.slots⟩ :: new)
  | expand {f : Fold} {rest : List Fold} {inner new : List Replacement} :
      Emits f.children inner → Emits rest new → Emits (f :: rest) (inner ++ new)

/-- What two lists of values come to, given up one after the other. -/
theorem Emits.append {a b : List Fold} {new new' : List Replacement} (ha : Emits a new)
    (hb : Emits b new') : Emits (a ++ b) (new ++ new') := by
  induction ha with
  | nil => exact hb
  | keep _ ih => exact Emits.keep ih
  | write code _ ih => exact Emits.write code ih
  | expand hc _ _ ih =>
      rw [List.append_assoc]
      exact Emits.expand hc ih

/-- A replacement of the span of one of the values or of one that they were made from, which is not
    stale. -/
def Replacement.Replaces (folds : List Fold) (r : Replacement) : Prop :=
  ∃ f ∈ Fold.partsAll folds, f.stale = false ∧ r.start = f.start ∧ r.stop = f.stop

theorem Replacement.Replaces.left {a : List Fold} {r : Replacement} (h : r.Replaces a)
    (b : List Fold) : r.Replaces (a ++ b) := by
  rcases h with ⟨f, hf, hspan⟩
  rw [Replacement.Replaces, Fold.partsAll_append]
  exact ⟨f, List.mem_append_left _ hf, hspan⟩

theorem Replacement.Replaces.right {b : List Fold} {r : Replacement} (h : r.Replaces b)
    (a : List Fold) : r.Replaces (a ++ b) := by
  rcases h with ⟨f, hf, hspan⟩
  rw [Replacement.Replaces, Fold.partsAll_append]
  exact ⟨f, List.mem_append_right _ hf, hspan⟩

/-- What replaces something that a value was made from replaces a part of the value. -/
theorem Replacement.Replaces.of_children {f : Fold} {r : Replacement} (h : r.Replaces f.children) :
    r.Replaces [f] := by
  rcases h with ⟨g, hg, hspan⟩
  refine ⟨g, ?_, hspan⟩
  rw [Fold.partsAll, f.parts_eq]
  exact List.mem_append_left _ (List.mem_cons_of_mem f hg)

/-- Taking one operand of the given width off a stack, top first, with the values that are given
    up on the way. An operand of two slots is known only as a value with its upper slot. -/
inductive PopsOne : Nat → List Slot → Operand → List Slot → List Fold → Prop where
  | wide {f : Fold} {rest : List Slot} : PopsOne 2 (.upper :: .known f :: rest) (.known f) rest []
  | narrow {w : Nat} {f : Fold} {rest : List Slot} (h : w ≠ 2) :
      PopsOne w (.known f :: rest) (.known f) rest []
  | object {w : Nat} {u : Uninitialized} {rest : List Slot} (h : w ≠ 2) :
      PopsOne w (.uninitialized u :: rest) (.uninitialized u) rest []
  | lost {w : Nat} {stack : List Slot} (n : Nat) :
      PopsOne w stack .unknown (stack.drop n) (knownIn (stack.take n).reverse)

/-- Taking operands of the given widths off a stack, the last of them first. -/
inductive Pops : List Nat → List Slot → List Operand → List Slot → List Fold → Prop where
  | nil {stack : List Slot} : Pops [] stack [] stack []
  | cons {w : Nat} {ws : List Nat} {stack mid rest : List Slot} {o : Operand} {l : List Operand}
      {lost lost' : List Fold} :
      Pops ws stack l mid lost → PopsOne w mid o rest lost' →
        Pops (w :: ws) stack (o :: l) rest (lost ++ lost')

/-- Operands come off the top of the stack, and a known value in what came off is an operand or
    was given up. -/
theorem PopsOne.perm {w : Nat} {stack rest : List Slot} {o : Operand} {lost : List Fold}
    (h : PopsOne w stack o rest lost) :
    ∃ n, rest = stack.drop n ∧ (lost ++ o.fold?.toList).Perm (knownIn (stack.take n)) := by
  cases h with
  | wide => exact ⟨2, rfl, List.Perm.refl _⟩
  | narrow _ => exact ⟨1, rfl, List.Perm.refl _⟩
  | object _ => exact ⟨1, rfl, List.Perm.refl _⟩
  | lost n =>
      refine ⟨n, rfl, ?_⟩
      simp only [Operand.fold?, Option.toList_none, List.append_nil, knownIn]
      exact List.Perm.filterMap _ (List.reverse_perm _)

/-- Popping takes slots off the top, and each known value in them is an operand or lost. -/
theorem Pops.perm {ws : List Nat} {stack rest : List Slot} {l : List Operand} {lost : List Fold}
    (h : Pops ws stack l rest lost) :
    ∃ n, rest = stack.drop n ∧
      (lost ++ l.filterMap Operand.fold?).Perm (knownIn (stack.take n)) := by
  induction h with
  | nil => exact ⟨0, rfl, List.Perm.refl _⟩
  | @cons w ws stack mid rest o l lost lost' _ hone ih =>
      rcases ih with ⟨n, rfl, hperm⟩
      rcases hone.perm with ⟨k, rfl, hperm'⟩
      refine ⟨n + k, by rw [List.drop_drop], ?_⟩
      have hl : (o :: l).filterMap Operand.fold? = o.fold?.toList ++ l.filterMap Operand.fold? := by
        cases ho : o.fold? with
        | none => rw [List.filterMap_cons_none ho]; rfl
        | some f => rw [List.filterMap_cons_some ho]; rfl
      rw [hl, List.take_add, knownIn, List.filterMap_append]
      -- Both sides hold what the later operands gave and then what this one gave.
      refine List.Perm.trans ?_ (hperm.append hperm')
      simp only [List.append_assoc]
      refine List.Perm.append_left _ ?_
      have hcomm : ((lost' ++ o.fold?.toList) ++ l.filterMap Operand.fold?).Perm
          (l.filterMap Operand.fold? ++ (lost' ++ o.fold?.toList)) := List.perm_append_comm
      simpa only [List.append_assoc] using hcomm

/-- Operands that are all known are the known values. -/
theorem eq_map_known {l : List Operand} {fs : List Fold} (hk : knownFolds? l = some fs) :
    l = fs.map .known := by
  induction l generalizing fs with
  | nil =>
      simp only [knownFolds?, List.mapM_nil, Option.pure_def, Option.some.injEq] at hk
      rw [← hk]
      rfl
  | cons o l ih =>
      simp only [knownFolds?, List.mapM_cons, Option.pure_def, Option.bind_eq_bind,
        Option.bind_eq_some_iff, Option.some.injEq] at hk
      rcases hk with ⟨f, hf, fs', hfs', rfl⟩
      rw [ih hfs', List.map_cons]
      -- Only a known operand has a value.
      cases o with
      | known g =>
          simp only [Operand.fold?, Option.some.injEq] at hf
          rw [hf]
      | unknown => simp only [Operand.fold?, reduceCtorEq] at hf
      | uninitialized _ => simp only [Operand.fold?, reduceCtorEq] at hf

/-- If all operands are known, nothing was given up on the way. -/
theorem Pops.lost_eq_nil {ws : List Nat} {stack rest : List Slot} {l : List Operand}
    {lost fs : List Fold} (h : Pops ws stack l rest lost) (hl : l = fs.map .known) :
    lost = [] := by
  induction h generalizing fs with
  | nil => rfl
  | cons _ hone ih =>
      cases fs with
      | nil => cases hl
      | cons f fs' =>
          simp only [List.map_cons, List.cons.injEq] at hl
          rw [ih hl.2, List.nil_append]
          -- A value is lost only if it is taken as an operand that is not known.
          cases hone with
          | wide => rfl
          | narrow _ => rfl
          | object _ => rfl
          | lost _ => cases hl.1

/-- Operands that come off without giving anything up are values of the stack if they are known,
    and the others stay. -/
theorem Pops.known_perm {ws : List Nat} {stack rest : List Slot} {l : List Operand}
    (h : Pops ws stack l rest []) :
    (l.filterMap Operand.fold? ++ knownIn rest).Perm (knownIn stack) := by
  rcases h.perm with ⟨n, rfl, hperm⟩
  have hall := hperm.append_right (knownIn (stack.drop n))
  rwa [← knownIn_append, List.take_append_drop] at hall

theorem filterMap_known (fs : List Fold) :
    (fs.map Operand.known).filterMap Operand.fold? = fs := by
  rw [List.filterMap_map]
  exact List.filterMap_some

/-- Known operands are values of the stack, and the others stay. -/
theorem Pops.operands_perm {ws : List Nat} {stack rest : List Slot} {fs : List Fold}
    (h : Pops ws stack (fs.map .known) rest []) : (fs ++ knownIn rest).Perm (knownIn stack) := by
  have hperm := h.known_perm
  rwa [filterMap_known] at hperm

/-- The widths of the receiver of a call, if it has one. -/
def InvokeKind.receiverWidths (k : InvokeKind) : List Nat :=
  if k.hasReceiver then [1] else []

/-- The instructions that make a value, with the widths and the values of their operands. What is
    known of the new value without asking the machine comes with it. -/
inductive Makes : Instruction → List Nat → List Fold → Fold → Prop where
  | literal {i : Instruction} {c : Constant} {f : Fold} (hi : i.literal? = some c)
      (ho : f.origin = .literal) (hv : f.value.slots = c.slots) : Makes i [] [] f
  | null {f : Fold} (ho : f.origin = .literal) (hv : f.value = .null) :
      Makes (.simple .aconstNull) [] [] f
  | staticField {m : Member} {type : FieldType} {f : Fold}
      (hd : FieldType.parse m.descriptor = .ok type) (ho : f.origin = .staticField) :
      Makes (.field .getstatic m) [] [] f
  | field {m : Member} {type : FieldType} {object f : Fold}
      (hd : FieldType.parse m.descriptor = .ok type) (ho : f.origin = .field) :
      Makes (.field .getfield m) [1] [object] f
  | cast {name : String} {object f : Fold} (ho : f.origin = .cast) (hv : f.value = object.value) :
      Makes (.typed .checkcast name) [1] [object] f
  | call {op : Opcode} {kind : InvokeKind} {m : Member} {isInterface : Bool} {type : MethodType}
      {result : FieldType} {fs : List Fold} {f : Fold} (hk : InvokeKind.ofOpcode? op = some kind)
      (hd : MethodType.parse m.descriptor = .ok type) (hr : type.result = some result)
      (hc : (m.isConstructor && kind == .special) = false) (ho : f.origin = .call) :
      Makes (.invoke op m isInterface)
        (kind.receiverWidths ++ type.parameters.map FieldType.slots) fs f
  | callSite {bootstrap : UInt16} {name descriptor : String} {type : MethodType} {fs : List Fold}
      {f : Fold} (hd : MethodType.parse descriptor = .ok type) (ho : f.origin = .call) :
      Makes (.invokeDynamic bootstrap name descriptor) (type.parameters.map FieldType.slots) fs f

/-- A value on top of a stack, with its upper slot if it takes two. -/
def onStack (f : Fold) (stack : List Slot) : List Slot :=
  if f.value.slots = 2 then .upper :: .known f :: stack else .known f :: stack

theorem knownIn_onStack (f : Fold) (rest : List Slot) :
    knownIn (onStack f rest) = [f] ++ knownIn rest := by
  rw [onStack]
  split <;> rfl

/-- Values some of which became stale. -/
def Aged (operands aged : List Fold) : Prop :=
  ∃ stale : Fold → Bool, (∀ g, g.stale = true → stale g = true) ∧
    aged = operands.map fun g => { g with stale := stale g }

/-- A value that a span makes from the values of its operands, which may have become stale. -/
structure Spans (start stop : Nat) (operands : List Fold) (f : Fold) : Prop where
  start_eq : f.start = start
  stop_eq : f.stop = stop
  children_eq : Aged operands f.children
  stale_eq : f.stale = false

/-- What an instruction at a position does to the stack, with the values that it gives up. -/
inductive Move (s : Subject) (p : Nat) :
    Instruction → List Slot → List Slot → List Fold → Prop where
  /-- It takes slots off and gives up what is known of them. -/
  | lose {i : Instruction} {stack : List Slot} {lost : List Fold} (n k : Nat)
      (h : lost.Perm (knownIn (stack.take n))) :
      Move s p i stack (List.replicate k .unknown ++ stack.drop n) lost
  /-- It gives up an object that was not initialized as well. -/
  | forget {i : Instruction} {stack : List Slot} {lost : List Fold} (n : Nat) (u : Uninitialized)
      (h : lost.Perm (knownIn (stack.take n))) :
      Move s p i stack (Analysis.settle u .unknown .unknown (stack.drop n)) lost
  /-- It makes a value from known operands that stand right in front of it. -/
  | make {i : Instruction} {ws : List Nat} {stack rest : List Slot} {fs : List Fold} {f : Fold}
      (hm : Makes i ws fs f) (hp : Pops ws stack (fs.map .known) rest [])
      (hc : s.isContiguous p none fs = true)
      (hf : Spans ((fs.head?.map Fold.start).getD p) p fs f) :
      Move s p i stack (onStack f rest) []
  /-- It makes an object. -/
  | create {name : String} {stack : List Slot} :
      Move s p (.typed .new name) stack (.uninitialized ⟨p, p⟩ :: stack) []
  /-- It copies the reference to an object. -/
  | copy {u : Uninitialized} {rest : List Slot} :
      Move s p (.simple .dup) (.uninitialized u :: rest)
        (.uninitialized ⟨u.start, p⟩ :: .uninitialized ⟨u.start, p⟩ :: rest) []
  /-- It initializes an object, the reference to which is still on the stack. -/
  | build {m : Member} {isInterface : Bool} {type : MethodType} {stack rest : List Slot}
      {u : Uninitialized} {fs : List Fold} {f : Fold} (hi : m.isConstructor = true)
      (hd : MethodType.parse m.descriptor = .ok type) (ho : f.origin = .call)
      (hp : Pops (1 :: type.parameters.map FieldType.slots) stack
        (.uninitialized u :: fs.map .known) rest [])
      (hc : s.isContiguous p (some (s.nextReal (u.stop + 1))) fs = true)
      (hu : Analysis.holds u rest = true) (hf : Spans u.start p fs f) :
      Move s p (.invoke .invokespecial m isInterface) stack
        (Analysis.settle u (.known f) .unknown rest) []

end JvmFold
