import JvmFold.Proofs.Analysis.Recorded
import JvmFold.Proofs.Analysis.Stack

/-!
# What Replacements Take Out of a Body

A replacement puts one value in the place of a span. That is the same to the
rest of the body only if the span does the same: it needs nothing of the stack
below it, leaves as many slots as the value has, and holds nothing but
instructions that make values. `Balances` says this of a span, by the effects
of its instructions.

The spans of an analysis balance under what the analysis takes for granted.
Values have the categories that the descriptors declare; a `dup` of an object
stands right behind its `new`; and the instructions are regular, so that their
effects are what the analysis assumes. A constructor with a result leaves a
slot too many, and a call with more than 65535 slots of arguments has an
effect that is counted modulo 65536.

The heart of the proof is that operands are as wide as the instruction takes
them to be. A value of two slots without its upper slot can be an operand of
one slot only if an instruction in between was followed that belongs to no
value, and then the operands do not follow each other.

## Main definitions

* `depthAfter?`: The depth of the stack behind instructions.
* `Balanced`: Code that needs nothing of the stack and leaves some slots.
* `Instruction.isProducer`: The instructions that make values.
* `Instruction.Regular`: Instructions whose effects are those of well-formed ones.
* `Balances`: A replacement of balanced code.

## Theorems

* `realSpan_row`: The instructions of a call are those of its operands and the call.
* `Pops.widths`: Operands are as wide as they are taken to be.
* `Makes.effect`: An instruction takes its operands and leaves its value.
* `replacements_balanced`: The replacements of a body balance.
-/

namespace JvmFold

/-- The depth of the stack behind instructions that are followed by their effects from a depth on,
    unless one of them takes slots from below the floor or has no effect that is known. -/
def depthAfter? (floor : Nat) : Nat → List Instruction → Option Nat
  | d, [] => some d
  | d, i :: rest =>
      match i.stackEffect? with
      | some (popped, pushed) =>
          if floor + popped ≤ d then depthAfter? floor (d - popped + pushed) rest else none
      | none => none

/-- Code that takes nothing from the stack it starts on and leaves some slots on it. -/
def Balanced (code : List Instruction) (slots : Nat) : Prop :=
  ∀ d, depthAfter? d d code = some (d + slots)

section Depths

variable {floor d e n : Nat} {a b code : List Instruction} {i : Instruction}

/-- Two pieces of code change the depth one after the other. -/
theorem depthAfter?_append (h : depthAfter? floor d a = some e) :
    depthAfter? floor d (a ++ b) = depthAfter? floor e b := by
  induction a generalizing d with
  | nil =>
      simp only [depthAfter?, Option.some.injEq] at h
      rw [List.nil_append, h]
  | cons i rest ih =>
      rw [List.cons_append, depthAfter?]
      rw [depthAfter?] at h
      -- The instruction must have an effect, and leave the depth above the floor.
      split at h
      · split at h
        next hle =>
          rw [if_pos hle]
          exact ih h
        · cases h
      · cases h

/-- What needs nothing below a floor needs nothing below a lower one. -/
theorem depthAfter?_lower {floor' : Nat} (h : depthAfter? floor d code = some e)
    (hle : floor' ≤ floor) : depthAfter? floor' d code = some e := by
  induction code generalizing d with
  | nil => exact h
  | cons i rest ih =>
      rw [depthAfter?] at h ⊢
      split at h
      · split at h
        next hfloor =>
          rw [if_pos (by omega)]
          exact ih h
        · cases h
      · cases h

/-- No code pushes nothing. -/
theorem balanced_nil : Balanced [] 0 :=
  fun _ => rfl

/-- An instruction that takes nothing. -/
theorem balanced_singleton (hi : i.stackEffect? = some (0, n)) : Balanced [i] n := by
  intro d
  simp only [depthAfter?, hi, Nat.add_zero, Nat.sub_zero, Nat.le_refl, if_true]

/-- Code that pushes some slots and then code that pushes more. -/
theorem Balanced.append {k : Nat} (ha : Balanced a n) (hb : Balanced b k) :
    Balanced (a ++ b) (n + k) := by
  intro d
  rw [depthAfter?_append (ha d), ← Nat.add_assoc]
  exact depthAfter?_lower (hb (d + n)) (by omega)

/-- Code that is followed by an instruction that takes only of what the code leaves. -/
theorem Balanced.snoc {popped pushed : Nat} (h : Balanced code n)
    (hi : i.stackEffect? = some (popped, pushed)) (hle : popped ≤ n) :
    Balanced (code ++ [i]) (n - popped + pushed) := by
  intro d
  rw [depthAfter?_append (h d), depthAfter?, hi]
  simp only [depthAfter?]
  rw [if_pos (by omega), Option.some.injEq]
  omega

end Depths

namespace Instruction

/-- The instructions that make values, or parts of them. -/
def isProducer : Instruction → Bool
  | .simple .aconstNull | .simple .dup | .typed .new _ | .typed .checkcast _
  | .field .getstatic _ | .field .getfield _ | .invoke _ _ _ | .invokeDynamic _ _ _ => true
  | i => i.literal?.isSome

/-- The slots of the value that an instruction makes, as its descriptor declares them. What a
    constructor makes is an object. -/
def declaredSlots? : Instruction → Option Nat
  | .field .getstatic m | .field .getfield m =>
      (FieldType.parse m.descriptor).toOption.map FieldType.slots
  | .invoke op m _ =>
      if op = .invokespecial ∧ m.isConstructor = true then some 1
      else (MethodType.parse m.descriptor).toOption.map MethodType.resultSlots
  | .invokeDynamic _ _ descriptor =>
      (MethodType.parse descriptor).toOption.map MethodType.resultSlots
  | _ => none

/-- Instructions whose effects are those of well-formed ones: a small number is loaded by an
    instruction that loads one, the arguments of a call have fewer than 65536 slots together, and
    constructors have no result. -/
def Regular : Instruction → Prop
  | .push op _ => op = .bipush ∨ op = .sipush
  | .invoke op m _ => ∀ type, MethodType.parse m.descriptor = .ok type →
      (type.parameters.map FieldType.slots).sum + (if op = .invokestatic then 0 else 1) < 65536 ∧
        (op = .invokespecial → m.isConstructor = true → type.result = none)
  | .invokeDynamic _ _ descriptor => ∀ type, MethodType.parse descriptor = .ok type →
      (type.parameters.map FieldType.slots).sum < 65536
  | _ => True

end Instruction

/-- The slots of the parameters are counted in 16 bits, which is enough for every method there is.
    -/
theorem parameterSlots_eq (type : MethodType)
    (h : (type.parameters.map FieldType.slots).sum < 65536) :
    type.parameterSlots = (type.parameters.map FieldType.slots).sum := by
  have hfold : ∀ (l : List FieldType) (n : Nat),
      l.foldl (fun n p => n + p.slots) n = n + (l.map FieldType.slots).sum := by
    intro l
    induction l with
    | nil => exact fun n => rfl
    | cons t rest ih =>
        intro n
        rw [List.foldl_cons, ih, List.map_cons, List.sum_cons, Nat.add_assoc]
  rw [MethodType.parameterSlots, hfold, Nat.zero_add, Nat.mod_eq_of_lt h]

/-- A call takes its arguments and leaves the result, by its descriptor. -/
theorem Instruction.effect_invoke {op : Opcode} {m : Member} {isInterface : Bool}
    {type : MethodType} (hd : MethodType.parse m.descriptor = .ok type)
    (hslots : (type.parameters.map FieldType.slots).sum + (if op = .invokestatic then 0 else 1)
      < 65536) :
    (Instruction.invoke op m isInterface).stackEffect? =
      some ((type.parameters.map FieldType.slots).sum + (if op = .invokestatic then 0 else 1),
        type.resultSlots) := by
  have hparameters := parameterSlots_eq type (by omega)
  rw [Instruction.stackEffect?, hd]
  change some ((type.parameterSlots + _) % 65536, _) = _
  rw [hparameters, Nat.mod_eq_of_lt hslots]

/-- A literal pushes the slots of its constant and takes nothing. -/
theorem literal_effect {i : Instruction} {c : Constant} (h : i.literal? = some c)
    (hi : i.Regular) : i.stackEffect? = some (0, c.slots) := by
  unfold Instruction.literal? at h
  split at h <;> cases h <;> try rfl
  next op v => rcases hi with rfl | rfl <;> rfl

/-- An instruction takes its operands and leaves its value. -/
theorem Makes.effect {i : Instruction} {ws : List Nat} {fs : List Fold} {f : Fold}
    (hm : Makes i ws fs f) (hi : i.Regular) (hw : fs.map (fun g => g.value.slots) = ws)
    (hf : ∀ k, i.declaredSlots? = some k → f.value.slots = k) :
    i.stackEffect? = some (ws.sum, f.value.slots) ∧ i.isProducer = true := by
  cases hm with
  | literal hc _ hv =>
      refine ⟨?_, ?_⟩
      · rw [hv]
        exact literal_effect hc hi
      · -- Which loads there are is decided by the constant they load.
        unfold Instruction.isProducer
        split <;> first | rfl | rw [hc]; rfl
  | null _ hv =>
      rw [hv]
      exact ⟨rfl, rfl⟩
  | @staticField m type _ hd _ =>
      refine ⟨?_, rfl⟩
      rw [hf type.slots (by rw [Instruction.declaredSlots?, hd]; rfl), Instruction.stackEffect?, hd]
      rfl
  | @field m type object _ hd _ =>
      refine ⟨?_, rfl⟩
      rw [hf type.slots (by rw [Instruction.declaredSlots?, hd]; rfl), Instruction.stackEffect?, hd]
      rfl
  | @cast name object _ _ hv =>
      refine ⟨?_, rfl⟩
      rw [List.map_cons, List.map_nil, List.cons.injEq] at hw
      rw [hv, hw.1]
      rfl
  | @call op kind m isInterface type result _ _ hk hd hr hc _ =>
      refine ⟨?_, rfl⟩
      -- A constructor makes no value by a call, so what is declared is the result of the
      -- descriptor.
      have hdeclared : (Instruction.invoke op m isInterface).declaredSlots?
          = some type.resultSlots := by
        rw [Instruction.declaredSlots?, if_neg, hd]
        · rfl
        · rintro ⟨rfl, hctor⟩
          cases hk
          rw [hctor] at hc
          cases hc
      -- The effect counts the receiver as one slot, and so do the widths that are popped.
      have hreceiver : kind.receiverWidths.sum = if op = .invokestatic then 0 else 1 := by
        cases op <;> cases hk <;> rfl
      rw [hf _ hdeclared, Instruction.effect_invoke hd (hi type hd).1, List.sum_append, hreceiver,
        Nat.add_comm]
  | @callSite bootstrap name descriptor type _ _ hd _ =>
      refine ⟨?_, rfl⟩
      have hdeclared : (Instruction.invokeDynamic bootstrap name descriptor).declaredSlots?
          = some type.resultSlots := by
        rw [Instruction.declaredSlots?, hd]
        rfl
      rw [hf _ hdeclared, Instruction.stackEffect?, hd, ← parameterSlots_eq type (hi type hd)]
      rfl

namespace Subject

variable {s : Subject} {p q : Nat} {i : Instruction}

/-- The code of a span of one instruction. -/
theorem realSpan_self (hi : s.code[p]? = some i) :
    s.realSpan p p = if i.isPseudo then [] else [i] := by
  rcases Array.getElem?_eq_some_iff.mp hi with ⟨hlt, hget⟩
  have hone : s.code.extract p (p + 1) = #[i] := by
    rw [Array.extract_succ_right (by omega) hlt, hget, Array.extract_eq_empty_of_le (by omega)]
    rfl
  rw [realSpan, hone]
  cases hp : i.isPseudo <;> simp [hp]

/-- The code of a span can be cut anywhere. -/
theorem realSpan_split {a b c : Nat} (hab : a ≤ b + 1) (hbc : b ≤ c) :
    s.realSpan a c = s.realSpan a b ++ s.realSpan (b + 1) c := by
  rw [realSpan, realSpan, realSpan, ← List.filter_append, ← Array.toList_append,
    Array.extract_append_extract]
  congr 3 <;> omega

/-- Marks in front of an instruction do not count. -/
theorem realSpan_skip (hp : s.IsReal p) (hq : q ≤ p) :
    s.realSpan q p = s.realSpan (s.nextReal q) p := by
  rcases hp with ⟨i, hi, hreal⟩
  rcases Array.getElem?_eq_some_iff.mp hi with ⟨hlt, hget⟩
  -- The marks up to the next instruction are skipped one by one, so the induction is on the
  -- distance.
  induction hn : p - q generalizing q with
  | zero =>
      have hpq : q = p := by omega
      rw [hpq, nextReal, dif_pos hlt, hget, hreal]
      rfl
  | succ n ih =>
      have hqlt : q < s.code.size := by omega
      rw [nextReal, dif_pos hqlt]
      split
      next hpseudo =>
        rw [← ih (by omega) (by omega), realSpan_split (b := q) (by omega) hq,
          realSpan_self (Array.getElem?_eq_getElem hqlt), if_pos hpseudo]
        rfl
      · rfl

/-- The instructions of a call are those of its operands and the call. -/
theorem realSpan_row {fs : List Fold} {cursor : Nat} (hi : s.code[p]? = some i)
    (hreal : i.isPseudo = false) (hc : s.isContiguous p (some cursor) fs = true)
    (hfs : ∀ g ∈ fs, g.start ≤ g.stop ∧ g.stop < p) :
    s.realSpan cursor p = (fs.flatMap fun g => s.realSpan g.start g.stop) ++ [i] := by
  induction fs generalizing cursor with
  | nil =>
      rw [isContiguous, Option.all_some, beq_iff_eq] at hc
      rw [hc, realSpan_self hi, hreal]
      rfl
  | cons g rest ih =>
      rw [isContiguous, Option.all_some, Bool.and_eq_true, beq_iff_eq] at hc
      -- The first operand starts at the cursor, and the others follow with only marks in between.
      rcases hc with ⟨hstart, hrest⟩
      have hspan := hfs g List.mem_cons_self
      rw [hstart, List.flatMap_cons, List.append_assoc,
        ← ih hrest fun g' hg' => hfs g' (List.mem_cons_of_mem _ hg'),
        ← realSpan_skip ⟨i, hi, hreal⟩ (by omega)]
      exact realSpan_split (by omega) (by omega)

end Subject

section Operands

variable {s : Subject} {copied : Nat → Nat → Prop} {p : Nat} {stack rest : List Slot}

/-- Operands are as wide as they are taken to be: one that is not would have an instruction behind
    it that belongs to none of them. -/
theorem Pops.widths {ws : List Nat} {fs lost : List Fold} {cursor : Option Nat}
    (hp : Pops ws stack (fs.map .known) rest lost) (h : Ordered s copied p stack)
    (hreal : s.IsReal p) (hc : s.isContiguous p cursor fs = true)
    (hws : ∀ w ∈ ws, w = 1 ∨ w = 2) (hfs : ∀ g ∈ fs, s.BuildsAt g.stop → g.value.slots = 1) :
    fs.map (fun g => g.value.slots) = ws := by
  induction fs generalizing ws rest lost cursor with
  | nil =>
      cases hp
      rfl
  | cons g fs ih =>
      cases hp with
      | cons htail hone =>
          rw [Subject.isContiguous, Bool.and_eq_true] at hc
          rcases htail.ordered h hreal with ⟨start, hstart, _, _, _, hmid⟩
          rw [List.map_cons, ih htail hc.2 (fun w hw => hws w (List.mem_cons_of_mem _ hw))
            fun g' hg' => hfs g' (List.mem_cons_of_mem _ hg')]
          -- The operand ends where the next one starts, as there is no gap between them.
          have hnext : s.nextReal (g.stop + 1) = start := by
            rw [← hstart]
            have hrest := hc.2
            cases fs with
            | nil => simpa [Subject.isContiguous] using hrest
            | cons g' fs' =>
                rw [Subject.isContiguous, Option.all_some, Bool.and_eq_true, beq_iff_eq] at hrest
                exact hrest.1
          -- There is nothing between one slot and two, so the parity of what stands behind decides.
          have hslots : g.value.slots = 1 ∨ g.value.slots = 2 := by
            cases g.value <;> simp [Value.slots]
          have hw := hws _ List.mem_cons_self
          congr 1
          rcases (hone.ordered hmid).2.2 with hiff | ⟨hne, hbuilds⟩ | hlone
          · omega
          · have hone := hfs g List.mem_cons_self hbuilds
            omega
          · omega

/-- Operands one behind the other push the slots of all of them. -/
theorem balanced_flatMap {fs : List Fold}
    (h : ∀ g ∈ fs, Balanced (s.realSpan g.start g.stop) g.value.slots) :
    Balanced (fs.flatMap fun g => s.realSpan g.start g.stop)
      (fs.map fun g => g.value.slots).sum := by
  induction fs with
  | nil => exact balanced_nil
  | cons g rest ih =>
      rw [List.flatMap_cons, List.map_cons, List.sum_cons]
      refine (h g List.mem_cons_self).append (ih fun g' hg' => ?_)
      exact h g' (List.mem_cons_of_mem _ hg')

end Operands

/-- A replacement of balanced code that makes values and does nothing else. -/
structure Balances (s : Subject) (r : Replacement) : Prop where
  balanced : Balanced (s.realSpan r.start r.stop) r.slots
  producers : ∀ i ∈ s.realSpan r.start r.stop, i.isProducer = true

/-- Whatever comes of the values balances. -/
def Sound (s : Subject) (fs : List Fold) : Prop :=
  ∀ new, Emits fs new → ∀ r ∈ new, Balances s r

section Sound

variable {s : Subject} {p : Nat} {f : Fold} {a b fs : List Fold}

theorem sound_nil : Sound s [] := by
  intro new h
  cases h
  exact nofun

/-- What is sound one by one is sound together. -/
theorem Sound.append (ha : Sound s a) (hb : Sound s b) : Sound s (a ++ b) := by
  intro new hnew r hr
  rcases hnew.split with ⟨n, n', rfl, hn, hn'⟩
  rcases List.mem_append.mp hr with hr | hr
  · exact ha n hn r hr
  · exact hb n' hn' r hr

theorem Sound.left (h : Sound s (a ++ b)) : Sound s a := by
  intro new hnew r hr
  refine h (new ++ []) (hnew.append (emits_nothing b)) r ?_
  rw [List.append_nil]
  exact hr

theorem Sound.right (h : Sound s (a ++ b)) : Sound s b := by
  intro new hnew
  exact h new ((emits_nothing a).append hnew)

/-- The order of the values does not matter. -/
theorem Sound.perm (hperm : a.Perm b) (h : Sound s a) : Sound s b := by
  intro new hnew r hr
  rcases hnew.perm hperm.symm with ⟨new', hnew', hemits⟩
  exact h new' hemits r (hnew'.mem_iff.mp hr)

/-- Every value of a sound list is balanced by itself. -/
theorem Sound.member (h : Sound s fs) {g : Fold} (hg : g ∈ fs) :
    Balances s ⟨g.start, g.stop, [], g.value.slots⟩ :=
  h _ (emits_member hg) _ List.mem_cons_self

/-- A value is sound if its span balances and the values it was made from are sound. -/
theorem Spans.sound {start : Nat} (hf : Spans start p fs f) (hfs : Sound s fs)
    (hself : Balanced (s.realSpan start p) f.value.slots)
    (hproducers : ∀ i ∈ s.realSpan start p, i.isProducer = true) : Sound s [f] := by
  intro new hnew
  -- The value is written back whole, or its parts are; there is no third way.
  rcases hnew.of_singleton with rfl | ⟨code, rfl⟩ | hchildren
  · exact nofun
  · intro r hr
    rw [List.mem_singleton] at hr
    subst hr
    refine ⟨?_, ?_⟩
    · change Balanced (s.realSpan f.start f.stop) f.value.slots
      rw [hf.start_eq, hf.stop_eq]
      exact hself
    · change ∀ i ∈ s.realSpan f.start f.stop, i.isProducer = true
      rw [hf.start_eq, hf.stop_eq]
      exact hproducers
  · rcases hf.children_eq with ⟨stale, _, hstale⟩
    rw [hstale] at hchildren
    exact hfs new hchildren.of_stale

end Sound

/-- A reference that is copied right behind the instruction that made the object. -/
def Adjacent (s : Subject) (x y : Nat) : Prop :=
  s.code[y]? = some (.simple .dup) ∧ s.nextReal (x + 1) = y

section Moves

variable {s : Subject} {p : Nat} {i : Instruction} {stack stack' rest : List Slot}
variable {ws : List Nat} {f : Fold} {fs : List Fold}

/-- What is needed of the operands of an instruction at a position: they are as wide as they are
    taken to be, and the instructions from the cursor on are theirs and the instruction. -/
structure Row (s : Subject) (p cursor : Nat) (i : Instruction) (ws : List Nat) (fs : List Fold) :
    Prop where
  widths : fs.map (fun g => g.value.slots) = ws
  span : s.realSpan cursor p = (fs.flatMap fun g => s.realSpan g.start g.stop) ++ [i]
  sound : Sound s fs

/-- The operands that are popped lie in a row in front of the instruction. -/
theorem Pops.row {copied : Nat → Nat → Prop} {cursor : Nat}
    (hp : Pops ws stack (fs.map .known) rest []) (h : Ordered s copied p stack)
    (hi : s.code[p]? = some i) (hreal : i.isPseudo = false)
    (hc : s.isContiguous p (some cursor) fs = true) (hws : ∀ w ∈ ws, w = 1 ∨ w = 2)
    (htyped : ∀ g, .known g ∈ stack → s.BuildsAt g.stop → g.value.slots = 1)
    (hsound : Sound s (knownIn stack)) : Row s p cursor i ws fs := by
  have hall := Sound.perm hp.operands_perm.symm hsound
  have hmem : ∀ g ∈ fs, .known g ∈ stack := fun g hg =>
    mem_knownIn.mp (hp.operands_perm.mem_iff.mp (List.mem_append_left _ hg))
  rcases hp.ordered h ⟨i, hi, hreal⟩ with ⟨start, _, _, _, hfs, _⟩
  -- The widths, and then the code between the first operand and the instruction.
  refine ⟨?_, ?_, hall.left⟩
  · exact hp.widths h ⟨i, hi, hreal⟩ hc hws fun g hg => htyped g (hmem g hg)
  · refine Subject.realSpan_row hi hreal hc fun g hg => ?_
    have hw := (hfs _ (emits_member hg)).1 _ List.mem_cons_self
    exact ⟨hw.start_le, hw.stop_lt⟩

/-- The operands and the instruction, behind code that leaves some slots. -/
theorem Row.balanced {cursor n popped pushed : Nat} (h : Row s p cursor i ws fs)
    {a : List Instruction} (ha : Balanced a n) (hi : i.stackEffect? = some (popped, pushed))
    (hle : popped ≤ n + ws.sum) :
    Balanced (a ++ s.realSpan cursor p) (n + ws.sum - popped + pushed) := by
  rw [h.span, ← List.append_assoc]
  refine Balanced.snoc (ha.append ?_) hi hle
  rw [← h.widths]
  exact balanced_flatMap fun g hg => (h.sound.member hg).balanced

-- With an instruction that produces a value, nothing but producers lies in a row.
theorem Row.producers {cursor : Nat} (h : Row s p cursor i ws fs) (hi : i.isProducer = true) :
    ∀ j ∈ s.realSpan cursor p, j.isProducer = true := by
  intro j hj
  rw [h.span] at hj
  rcases List.mem_append.mp hj with hj | hj
  · rcases List.mem_flatMap.mp hj with ⟨g, hg, hj⟩
    exact (h.sound.member hg).producers j hj
  · rw [List.mem_singleton] at hj
    rw [hj]
    exact hi

theorem slots_eq (type : FieldType) : type.slots = 1 ∨ type.slots = 2 := by
  cases type <;> simp [FieldType.slots]

/-- A parameter takes one slot or two. -/
theorem parameter_widths (l : List FieldType) :
    ∀ w ∈ l.map FieldType.slots, w = 1 ∨ w = 2 := by
  intro w hw
  rcases List.mem_map.mp hw with ⟨type, _, rfl⟩
  exact slots_eq type

/-- The operands of an instruction that makes a value have one or two slots. -/
theorem Makes.widths (hm : Makes i ws fs f) : ∀ w ∈ ws, w = 1 ∨ w = 2 := by
  have hone : ∀ w ∈ [1], w = 1 ∨ w = 2 := by simp
  cases hm with
  | literal _ _ _ => exact nofun
  | null _ _ => exact nofun
  | staticField _ _ => exact nofun
  | field _ _ => exact hone
  | cast _ _ => exact hone
  | @call op kind m isInterface type result _ _ _ _ _ _ _ =>
      -- A receiver takes one slot; the parameters may take two.
      intro w hw
      rcases List.mem_append.mp hw with hw | hw
      · rw [InvokeKind.receiverWidths] at hw
        split at hw
        · exact hone w hw
        · cases hw
      · exact parameter_widths _ w hw
  | callSite _ _ => exact parameter_widths _

/-- An instruction whose descriptor declares the value that it makes does not end a block. -/
theorem Makes.canEnd_eq_false {k : Nat} (hm : Makes i ws fs f)
    (hk : i.declaredSlots? = some k) : Analysis.canEnd i = false := by
  cases hm with
  | literal hc _ _ =>
      unfold Instruction.literal? at hc
      split at hc <;> cases hc <;> cases hk
  | null _ _ => cases hk
  | staticField _ _ => rfl
  | field _ _ => rfl
  | cast _ _ => cases hk
  | @call op _ _ _ _ _ _ _ hop _ _ _ _ => cases op <;> cases hop <;> rfl
  | callSite _ _ => rfl

/-- No value but that of a constructor is made where a constructor is called. -/
theorem Makes.not_buildsAt (hm : Makes i ws fs f) (hi : s.code[p]? = some i) :
    ¬ s.BuildsAt p := by
  rintro ⟨m, isInterface, hcode, hctor⟩
  rw [hi, Option.some.injEq] at hcode
  subst hcode
  cases hm with
  | literal hc _ _ => cases hc
  | call hk _ _ hc _ =>
      cases hk
      rw [hctor] at hc
      cases hc

/-- The values of a stack are sound, and those that constructors made take one slot. -/
structure Kept (s : Subject) (stack : List Slot) : Prop where
  typed : ∀ f, .known f ∈ stack → s.BuildsAt f.stop → f.value.slots = 1
  sound : Sound s (knownIn stack)

/-- What holds of the stack holds of what is below. -/
theorem Kept.drop (h : Kept s stack) (n : Nat) : Kept s (stack.drop n) := by
  refine ⟨fun f hf => h.typed f (List.mem_of_mem_drop hf), ?_⟩
  have hall := h.sound
  rw [← List.take_append_drop n stack, knownIn_append] at hall
  exact hall.right

/-- A value on top of a stack. -/
theorem Kept.cons_known (h : Kept s rest) (hf : Sound s [f])
    (htyped : s.BuildsAt f.stop → f.value.slots = 1) : Kept s (.known f :: rest) := by
  refine ⟨fun g hg => ?_, hf.append h.sound⟩
  rcases List.mem_cons.mp hg with hg | hg
  · cases hg
    exact htyped
  · exact h.typed g hg

/-- The invariant holds with one more sound value on the stack. -/
theorem Kept.onStack (h : Kept s rest) (hf : Sound s [f])
    (htyped : s.BuildsAt f.stop → f.value.slots = 1) : Kept s (JvmFold.onStack f rest) := by
  have hknown := h.cons_known hf htyped
  rw [JvmFold.onStack]
  split
  · refine ⟨fun g hg => ?_, hknown.sound⟩
    rcases List.mem_cons.mp hg with hg | hg
    · cases hg
    · exact hknown.typed g hg
  · exact hknown

/-- An instruction that makes a value makes a sound one. -/
theorem sound_of_make {copied : Nat → Nat → Prop} (h : Kept s stack)
    (hst : Ordered s copied p stack) (hi : s.code[p]? = some i) (hreal : i.isPseudo = false)
    (hregular : i.Regular) (hm : Makes i ws fs f)
    (hp : Pops ws stack (fs.map .known) rest []) (hc : s.isContiguous p none fs = true)
    (hf : Spans ((fs.head?.map Fold.start).getD p) p fs f)
    (hdeclared : ∀ k, i.declaredSlots? = some k → f.value.slots = k) : Sound s [f] := by
  have hrow := hp.row hst hi hreal (isContiguous_some hc) hm.widths h.typed h.sound
  rcases hm.effect hregular hrow.widths hdeclared with ⟨heffect, hproducer⟩
  refine hf.sound hrow.sound ?_ (hrow.producers hproducer)
  have hself := hrow.balanced balanced_nil heffect (by omega)
  rw [Nat.zero_add, Nat.sub_self, Nat.zero_add] at hself
  exact hself

/-- A constructor that is called on an object and its copy makes a sound value: the object is made
    and copied, the arguments follow, and the call takes them and the copy. -/
theorem sound_of_build {m : Member} {isInterface : Bool} {type : MethodType}
    {u : Uninitialized} {copied : Nat → Nat → Prop} (h : Kept s stack)
    (hst : Ordered s copied p stack)
    (hi : s.code[p]? = some (.invoke .invokespecial m isInterface))
    (hregular : (Instruction.invoke .invokespecial m isInterface).Regular)
    (hctor : m.isConstructor = true) (hd : MethodType.parse m.descriptor = .ok type)
    (hp : Pops (type.parameters.map FieldType.slots) stack (fs.map .known) rest [])
    (hc : s.isContiguous p (some (s.nextReal (u.stop + 1))) fs = true) (hnew : s.NewAt u.start)
    (hcopied : Adjacent s u.start u.stop) (hstart : u.start < u.stop) (hstop : u.stop < p)
    (hf : Spans u.start p fs f) (hslots : f.value.slots = 1) : Sound s [f] := by
  have hrow := hp.row hst hi rfl hc (parameter_widths _) h.typed h.sound
  rcases hregular type hd with ⟨hcount, hvoid⟩
  rw [if_neg (by decide)] at hcount
  have heffect : (Instruction.invoke .invokespecial m isInterface).stackEffect?
      = some ((type.parameters.map FieldType.slots).sum + 1, 0) := by
    rw [Instruction.stackEffect?, hd]
    change some ((type.parameterSlots + 1) % 65536, type.resultSlots) = _
    rw [parameterSlots_eq type (by omega), Nat.mod_eq_of_lt hcount, MethodType.resultSlots,
      hvoid rfl hctor]
    rfl
  rcases hnew with ⟨name, hname⟩
  have hreal : s.IsReal p := ⟨_, hi, rfl⟩
  -- The object is made and copied, and what follows are the arguments and the call.
  have hspan : s.realSpan u.start p
      = [.typed .new name, .simple .dup] ++ s.realSpan (s.nextReal (u.stop + 1)) p := by
    rw [Subject.realSpan_split (b := u.start) (by omega) (by omega),
      Subject.realSpan_self hname, Subject.realSpan_skip hreal (by omega), hcopied.2,
      Subject.realSpan_split (b := u.stop) (by omega) (by omega),
      Subject.realSpan_self hcopied.1, Subject.realSpan_skip hreal (by omega)]
    rfl
  have hobject : Balanced [.typed .new name, .simple .dup] 2 := by
    have hmade := balanced_nil.snoc (i := .typed .new name) rfl (Nat.le_refl 0)
    exact hmade.snoc (i := .simple .dup) rfl (Nat.le_refl 1)
  refine hf.sound hrow.sound ?_ ?_
  · have hself := hrow.balanced hobject heffect (by omega)
    rw [hspan, hslots]
    have hone : 2 + (type.parameters.map FieldType.slots).sum
        - ((type.parameters.map FieldType.slots).sum + 1) + 0 = 1 := by omega
    rw [hone] at hself
    exact hself
  · rw [hspan]
    intro j hj
    rcases List.mem_append.mp hj with hj | hj
    · simp only [List.mem_cons, List.not_mem_nil, or_false] at hj
      rcases hj with rfl | rfl <;> rfl
    · exact hrow.producers rfl j hj

/-- Every move keeps the values of the stack sound and gives up sound ones only. -/
theorem Move.kept {lost : List Fold} (hm : Move s p i stack stack' lost)
    (hst : Stacked s (Adjacent s) p stack) (hi : s.code[p]? = some i)
    (hreal : i.isPseudo = false) (hregular : i.Regular)
    (hdeclared : Analysis.canEnd i = false → ∀ f, .known f ∈ stack' → f.stop = p →
      ∀ k, i.declaredSlots? = some k → f.value.slots = k)
    (h : Kept s stack) : Kept s stack' ∧ Sound s lost := by
  -- What is given up comes from the stack, and all of the stack is sound.
  have hlost : ∀ n, lost.Perm (knownIn (stack.take n)) → Sound s lost := by
    intro n hperm
    have hall := h.sound
    rw [← List.take_append_drop n stack, knownIn_append] at hall
    exact Sound.perm hperm.symm hall.left
  cases hm with
  | lose n k hperm =>
      refine ⟨⟨fun f hf => ?_, ?_⟩, hlost n hperm⟩
      · rcases List.mem_append.mp hf with hf | hf
        · cases List.eq_of_mem_replicate hf
        · exact (h.drop n).typed f hf
      · rw [knownIn_unknowns]
        exact (h.drop n).sound
  | forget n u hperm =>
      rw [settle_unknown]
      refine ⟨⟨fun f hf => ?_, ?_⟩, hlost n hperm⟩
      · rw [← mem_knownIn, knownIn_without, mem_knownIn] at hf
        exact (h.drop n).typed f hf
      · rw [knownIn_without]
        exact (h.drop n).sound
  | @make _ ws _ rest fs f hmakes hpops hc hf =>
      have hrest : Kept s rest := by
        rcases hpops.perm with ⟨n, hrest, _⟩
        rw [hrest]
        exact h.drop n
      -- The category of the new value is what its instruction declares.
      have hon : .known f ∈ onStack f rest := by
        rw [← mem_knownIn, knownIn_onStack]
        exact List.mem_cons_self
      refine ⟨hrest.onStack ?_ ?_, sound_nil⟩
      · refine sound_of_make h hst.ordered hi hreal hregular hmakes hpops hc hf ?_
        intro k hk
        exact hdeclared (hmakes.canEnd_eq_false hk) f hon hf.stop_eq k hk
      · rw [hf.stop_eq]
        exact fun hbuilds => absurd hbuilds (hmakes.not_buildsAt hi)
  | create =>
      refine ⟨⟨fun f hf => ?_, h.sound⟩, sound_nil⟩
      rcases List.mem_cons.mp hf with hf | hf
      · cases hf
      · exact h.typed f hf
  | copy =>
      refine ⟨⟨fun f hf => ?_, h.sound⟩, sound_nil⟩
      rcases List.mem_cons.mp hf with hf | hf
      · cases hf
      · rcases List.mem_cons.mp hf with hf | hf
        · cases hf
        · exact h.typed f (List.mem_cons_of_mem _ hf)
  | @build m isInterface type _ rest u fs f hctor hd _ hpops hc hu hf =>
      -- The copy stands right behind its object, so nothing in the span is between the two.
      rcases hpops.constructing hst.ordered ⟨_, hi, hreal⟩ hu with ⟨below, rfl, hbuilt⟩
      rw [hbuilt.settle] at hdeclared ⊢
      have hslots : f.value.slots = 1 := by
        refine hdeclared rfl f List.mem_cons_self hf.stop_eq 1 ?_
        rw [Instruction.declaredSlots?, if_pos ⟨rfl, hctor⟩]
      have hbelow : Kept s below := by
        rcases hbuilt.exists_drop with ⟨n, hn⟩
        rw [hn]
        exact h.drop n
      refine ⟨hbelow.cons_known ?_ fun _ => hslots, sound_nil⟩
      exact sound_of_build h hst.ordered hi hregular hctor hd hbuilt.pops hc hbuilt.newAt
        hbuilt.copy hbuilt.start_lt hbuilt.stop_lt hf hslots

end Moves

section Runs

variable (s : Subject) (t : Tracker) (env : Env) (m : Machine)

theorem Kept.nil : Kept s [] :=
  ⟨nofun, sound_nil⟩

/-- What is written of sound values balances. -/
theorem Sound.wrote {s : Subject} {t t' : Tracker} {lost : List Fold} (h : Sound s lost)
    (hw : Wrote t lost t') (hold : ∀ r ∈ t.replacements.toList, Balances s r) :
    ∀ r ∈ t'.replacements.toList, Balances s r := by
  rcases hw with ⟨new, he, _, hr⟩
  rw [hr]
  intro r hmem
  rcases List.mem_append.mp hmem with hmem | hmem
  · exact hold r hmem
  · exact h new he r hmem

/-- The values of the stack are sound in front of every position, and the replacements balance. -/
theorem before_kept
    (hdup : ∀ p u rest, s.code[p]? = some (.simple .dup) →
      (Analysis.before s t env m p).1.stack = .uninitialized u :: rest →
        s.nextReal (u.start + 1) = p)
    (hregular : ∀ i ∈ s.code, i.Regular)
    (hdeclared : ∀ p i f k, s.code[p]? = some i →
      .known f ∈ (Analysis.before s t env m (p + 1)).1.stack → f.stop = p →
        i.declaredSlots? = some k → f.value.slots = k)
    {k : Nat} (hk : k ≤ s.code.size) :
    Stacked s (Adjacent s) k (Analysis.before s t env m k).1.stack ∧
      Kept s (Analysis.before s t env m k).1.stack ∧
        ∀ r ∈ (Analysis.before s t env m k).1.replacements.toList, Balances s r := by
  refine Analysis.before_invariant s t env m
    (P := fun k u => Stacked s (Adjacent s) k u.stack ∧ Kept s u.stack ∧
      ∀ r ∈ u.replacements.toList, Balances s r) ?_ ?_ ?_ ?_ hk
  · intro u hstack hr
    rw [hstack, hr]
    exact ⟨stacked_nil, Kept.nil s, nofun⟩
  · intro k u v h hquiet
    rw [hquiet.1, hquiet.2]
    exact ⟨h.1.succ, h.2⟩
  · intro k i v hi hreal hnext h hmoves
    rcases h with ⟨hst, hkept, hold⟩
    rcases hmoves with ⟨lost, hmove, hwrote⟩
    -- What is declared is said of the stack behind the instruction, before a block ends there.
    have hvalue : Analysis.canEnd i = false → ∀ f, .known f ∈ v.stack → f.stop = k →
        ∀ n, i.declaredSlots? = some n → f.value.slots = n := by
      intro hcan f hf hstop n hn
      rw [← hnext hcan] at hf
      exact hdeclared k i f n hi hf hstop hn
    rcases hmove.kept hst hi hreal (hregular i (Array.mem_of_getElem? hi)) hvalue hkept
      with ⟨hkept', hlost⟩
    refine ⟨?_, hkept', hlost.wrote hwrote hold⟩
    refine hmove.stacked hi hreal hst fun u rest hi' hstack => ?_
    rw [hi'] at hi
    exact ⟨hi, hdup k u rest hi hstack⟩
  · intro k u v h hclears
    rcases hclears with ⟨hstack, lost, hperm, hwrote⟩
    rw [hstack]
    exact ⟨stacked_nil, Kept.nil s, (Sound.perm hperm.symm h.2.1.sound).wrote hwrote h.2.2⟩

/-- Every replacement of a body in which the `dup`s of objects stand right behind their `new`s,
    the instructions are regular and the values have the categories that are declared takes out
    code that makes values, needs nothing of the stack and leaves the slots of its value. -/
theorem replacements_balanced
    (hdup : ∀ p u rest, s.code[p]? = some (.simple .dup) →
      (Analysis.before s t env m p).1.stack = .uninitialized u :: rest →
        s.nextReal (u.start + 1) = p)
    (hregular : ∀ i ∈ s.code, i.Regular)
    (hdeclared : ∀ p i f k, s.code[p]? = some i →
      .known f ∈ (Analysis.before s t env m (p + 1)).1.stack → f.stop = p →
        i.declaredSlots? = some k → f.value.slots = k) :
    ∀ r ∈ (Analysis.replacements s t env m).1.1,
      (∀ d, depthAfter? d d (s.realSpan r.start r.stop) = some (d + r.slots)) ∧
        ∀ i ∈ s.realSpan r.start r.stop, i.isProducer = true := by
  rcases Analysis.replacements_eq s t env m with ⟨t', hclears, heq⟩
  rcases before_kept s t env m hdup hregular hdeclared (Nat.le_refl _) with ⟨_, hkept, hold⟩
  rcases hclears with ⟨_, lost, hperm, hwrote⟩
  intro r hr
  rw [heq] at hr
  -- What is left at the end is given up as at the end of a block, and all of it is sound.
  have hbalances := (Sound.perm hperm.symm hkept.sound).wrote hwrote hold r hr
  exact ⟨hbalances.balanced, hbalances.producers⟩

end Runs

section Made

open Recorded

/-- A body that makes an object, copies the reference, initializes the object by a constructor of
    the given descriptor and answers it. -/
def madeCode (descriptor : String) : Array Instruction :=
  #[.typed .new "java/lang/String", .simple .dup,
    .invoke .invokespecial ⟨"java/lang/String", "<init>", descriptor⟩ false, .simple .areturn]

/-- The record of its call. -/
def madeRecord (descriptor : String) : Record :=
  (∅ : Record).insert (site 0 2) (.ok (⟨"java/lang/String", "<init>", descriptor⟩, .ref ⟨0⟩))

/-- The value that it makes. -/
def madeFold (descriptor : String) : Fold :=
  ⟨.call, 0, 2, .ref ⟨0⟩, .object "java/lang/String",
    some ⟨"java/lang/String", "<init>", descriptor⟩, [], false⟩

variable {descriptor : String} {result : Option FieldType}

/-- The analysis of the body, instruction by instruction, up to the replacement. -/
theorem madeCode_shows (hd : MethodType.parse descriptor = .ok ⟨[], result⟩) :
    Shows (madeCode descriptor) (madeRecord descriptor) 1 [.uninitialized ⟨0, 0⟩] #[] ∧
    Shows (madeCode descriptor) (madeRecord descriptor) 2
      [.uninitialized ⟨0, 1⟩, .uninitialized ⟨0, 1⟩] #[] ∧
    Shows (madeCode descriptor) (madeRecord descriptor) 3 [.known (madeFold descriptor)] #[] ∧
    Shows (madeCode descriptor) (madeRecord descriptor) 4 []
      #[⟨0, 2, [.ldc (.string "")], 1⟩] := by
  have hnew : Shows (madeCode descriptor) (madeRecord descriptor) 1 [.uninitialized ⟨0, 0⟩] #[] :=
    shows_zero.succ rfl fun _ => ⟨_, rfl⟩
  have hdup : Shows (madeCode descriptor) (madeRecord descriptor) 2
      [.uninitialized ⟨0, 1⟩, .uninitialized ⟨0, 1⟩] #[] := hnew.succ rfl fun _ => ⟨_, rfl⟩
  have hinit : Shows (madeCode descriptor) (madeRecord descriptor) 3
      [.known (madeFold descriptor)] #[] := by
    -- Nothing lies between the copy and the constructor call.
    have hnext : (subject (madeCode descriptor)).nextReal 2 = 2 := by
      rw [Subject.nextReal]
      rfl
    refine hdup.succ rfl fun log => ⟨log, Analysis.advance_gives ?_ rfl⟩
    exact Analysis.construct_gives (t := state (madeRecord descriptor) log [] _) (w := ⟨0, 1⟩) hd
      rfl hnext List.not_mem_nil Std.HashMap.getElem?_insert_self
  exact ⟨hnew, hdup, hinit, hinit.succ rfl fun _ => ⟨_, rfl⟩⟩

/-- What is shown of an analysis is its stack. -/
theorem Recorded.Shows.stack_eq {code : Array Instruction} {record : Record} {k : Nat}
    {stack : List Slot} {replacements : Array Replacement}
    (h : Shows code record k stack replacements) :
    (Analysis.before (subject code) (tracker record) env machine k).1.stack = stack := by
  rcases h with ⟨log, hlog⟩
  rw [hlog]
  rfl

/-- The copy is made right behind the object. -/
theorem madeCode_adjacent (hd : MethodType.parse descriptor = .ok ⟨[], result⟩) (p : Nat)
    (u : Uninitialized) (rest : List Slot)
    (hp : (subject (madeCode descriptor)).code[p]? = some (.simple .dup))
    (hstack : (Analysis.before (subject (madeCode descriptor)) (tracker (madeRecord descriptor)) env
      machine p).1.stack = .uninitialized u :: rest) :
    (subject (madeCode descriptor)).nextReal (u.start + 1) = p := by
  rcases madeCode_shows hd with ⟨hnew, _⟩
  -- The only `dup` stands right behind the `new`.
  match p with
  | 0 => cases hp
  | 1 =>
      rw [hnew.stack_eq] at hstack
      cases hstack
      rw [Subject.nextReal]
      rfl
  | 2 => cases hp
  | 3 => cases hp
  | p + 4 => cases hp

/-- The value is an object, as is declared. -/
theorem madeCode_declared (hd : MethodType.parse descriptor = .ok ⟨[], result⟩) (p : Nat)
    (i : Instruction) (f : Fold) (k : Nat)
    (hp : (subject (madeCode descriptor)).code[p]? = some i)
    (hf : .known f ∈ (Analysis.before (subject (madeCode descriptor))
      (tracker (madeRecord descriptor)) env machine (p + 1)).1.stack)
    (_ : f.stop = p) (hk : i.declaredSlots? = some k) : f.value.slots = k := by
  rcases madeCode_shows hd with ⟨hnew, hdup, hinit, hend⟩
  -- Only the constructor call leaves a value; before it the object is uninitialized.
  match p with
  | 0 =>
      rw [hnew.stack_eq] at hf
      simp at hf
  | 1 =>
      rw [hdup.stack_eq] at hf
      simp at hf
  | 2 =>
      rw [hinit.stack_eq, List.mem_singleton] at hf
      cases hf
      cases hp
      cases hk
      rfl
  | 3 =>
      rw [hend.stack_eq] at hf
      cases hf
  | p + 4 => cases hp

/-- The replacement of that body balances if the constructor has no result. -/
theorem replacements_balanced_made :
    ⟨0, 2, [.ldc (.string "")], 1⟩ ∈ (Analysis.replacements (subject (madeCode "()V"))
      (tracker (madeRecord "()V")) env machine).1.1 ∧
    ∀ r ∈ (Analysis.replacements (subject (madeCode "()V")) (tracker (madeRecord "()V")) env
      machine).1.1,
      (∀ d, depthAfter? d d ((subject (madeCode "()V")).realSpan r.start r.stop)
        = some (d + r.slots)) ∧
        ∀ i ∈ (subject (madeCode "()V")).realSpan r.start r.stop, i.isProducer = true := by
  have hd : MethodType.parse "()V" = .ok ⟨[], none⟩ := by cbv
  refine ⟨?_, replacements_balanced _ _ _ _ (madeCode_adjacent hd) ?_ (madeCode_declared hd)⟩
  · rw [(madeCode_shows hd).2.2.2.replacements_eq]
    exact List.mem_cons_self
  · intro i hi
    simp only [subject, madeCode, List.mem_toArray, List.mem_cons, List.not_mem_nil, or_false] at hi
    -- Only the constructor call has a result to be declared.
    rcases hi with rfl | rfl | rfl | rfl
    · trivial
    · trivial
    · intro type htype
      rw [hd] at htype
      cases htype
      exact ⟨by decide, fun _ _ => rfl⟩
    · trivial

/-- A constructor with a result leaves a slot more than the value that is put in the place of its
    span, though the copy stands behind its object and the value is what is declared. -/
theorem replacements_unbalanced :
    (∀ p u rest, (subject (madeCode "()I")).code[p]? = some (.simple .dup) →
      (Analysis.before (subject (madeCode "()I")) (tracker (madeRecord "()I")) env
        machine p).1.stack = .uninitialized u :: rest →
        (subject (madeCode "()I")).nextReal (u.start + 1) = p) ∧
    (∀ p i f k, (subject (madeCode "()I")).code[p]? = some i →
      .known f ∈ (Analysis.before (subject (madeCode "()I")) (tracker (madeRecord "()I")) env
        machine (p + 1)).1.stack → f.stop = p → i.declaredSlots? = some k → f.value.slots = k) ∧
    ¬ ∀ r ∈ (Analysis.replacements (subject (madeCode "()I")) (tracker (madeRecord "()I")) env
      machine).1.1,
      ∀ d, depthAfter? d d ((subject (madeCode "()I")).realSpan r.start r.stop)
        = some (d + r.slots) := by
  have hd : MethodType.parse "()I" = .ok ⟨[], some .int⟩ := by cbv
  refine ⟨madeCode_adjacent hd, madeCode_declared hd, fun hall => ?_⟩
  have hmem : ⟨0, 2, [.ldc (.string "")], 1⟩ ∈ (Analysis.replacements (subject (madeCode "()I"))
      (tracker (madeRecord "()I")) env machine).1.1 := by
    rw [(madeCode_shows hd).2.2.2.replacements_eq]
    exact List.mem_cons_self
  -- By its descriptor the call takes the object and leaves a number.
  have heffect : (Instruction.invoke .invokespecial
      ⟨"java/lang/String", "<init>", "()I"⟩ false).stackEffect? = some (1, 1) := by
    rw [Instruction.stackEffect?, hd]
    rfl
  have hdepth := hall _ hmem 0
  change depthAfter? 0 2 [.invoke .invokespecial ⟨"java/lang/String", "<init>", "()I"⟩ false]
    = some 1 at hdepth
  rw [depthAfter?, heffect] at hdepth
  cases hdepth

end Made

end JvmFold
