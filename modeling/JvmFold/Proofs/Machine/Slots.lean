import JvmFold.Proofs.Evaluation.Dispatch

/-!
# The Stack Counted in Slots

An instruction says by its effect how many slots it pops and pushes, and the
machine that executes it works on values, of which some take two slots. The two
agree: if the machine gets through an instruction, the stack has changed by as
many slots as the effect says.

The instructions that rearrange the stack decide by the categories of the
values what they take for one unit, and an effect that is the same for all
forms of an opcode fits only the forms that the opcode has. Applied to other
values they tear a value of two slots apart, and the count is off. Every other
instruction checks what it takes off the stack, so nothing has to be said of
the values there.

The elements of arrays are left out. What an array holds is not compared with
the opcode that loads from it.

## Main definitions

* `Stack.depth`: The number of slots on a stack.
* `Opcode.forms`: The categories of values that an opcode can be applied to.
* `Instruction.IsCounted`: The instructions whose effect the machine keeps to.
* `Stack.Moves`, `Emu.Moves`: Operations that pop and push a number of slots.

## Theorems

* `Stack.compute?_moves`: Computing keeps to the effect.
* `Stack.shuffle?_moves`: Rearranging keeps to the effect, on values of a form of the opcode.
* `Stack.branch?_moves`: A test takes off the stack what it looks at.
* `Emu.simple_moves`: The instructions without operands keep to the effect.
* `Emu.step_moves_slots`: The machine and the effects of instructions agree.
-/

namespace JvmFold

/-- The number of slots on a stack. -/
def Stack.depth (s : Stack) : Nat :=
  (s.map Value.slots).sum

/-- A value takes its own slots. -/
@[simp]
theorem Stack.depth_cons (v : Value) (s : Stack) :
    Stack.depth (v :: s) = v.slots + Stack.depth s := by
  simp [depth]

/-- The stack that an instruction leaves; the end of a method leaves none. -/
def Flow.stack? : Flow → Option Stack
  | .next s | .store _ _ s | .jump _ s => some s
  | .finish _ => none

namespace Opcode

/-- The categories of the values that the opcode can be applied to, top first, for each of its
    forms. The instructions that do not rearrange the stack check the values themselves. -/
def forms : Opcode → List (List Nat)
  | .pop | .dup => [[1]]
  | .pop2 | .dup2 => [[1, 1], [2]]
  | .dupX1 | .swap => [[1, 1]]
  | .dupX2 => [[1, 1, 1], [1, 2]]
  | .dup2X1 => [[1, 1, 1], [2, 1]]
  | .dup2X2 => [[1, 1, 1, 1], [2, 1, 1], [1, 1, 2], [2, 2]]
  | _ => [[]]

/-- Whether the opcode loads or stores an element of an array. -/
def accessesElement : Opcode → Bool
  | .iaload | .laload | .faload | .daload | .aaload | .baload | .caload | .saload
  | .iastore | .lastore | .fastore | .dastore | .aastore | .bastore | .castore | .sastore => true
  | _ => false

end Opcode

/-- The values at the top have these categories. -/
def Stack.Shows : List Nat → Stack → Prop
  | [], _ => True
  | n :: form, v :: s => v.slots = n ∧ Stack.Shows form s
  | _ :: _, [] => False

/-- The instructions whose effect the machine keeps to, on a stack: those that compute or rearrange
    the stack, load a constant, count a local variable up, branch, or make an array of a primitive
    type. A small number is pushed by one of the two opcodes for that. -/
def Instruction.IsCounted (s : Stack) : Instruction → Prop
  | .simple op => op.accessesElement = false ∧ op.isReturn = false ∧
      ∃ form ∈ op.forms, Stack.Shows form s
  | .push op _ => op = .bipush ∨ op = .sipush
  | .ldc k => ∀ index, k ≠ .pool index
  | .iinc _ _ | .jump _ _ | .tableSwitch _ _ _ _ | .lookupSwitch _ _ | .newArray _ => True
  | _ => False

namespace Stack

variable {s s' : Stack}

/-- What a value of one kind is read as leaves a stack without that value. -/
theorem depth_of_popped {α : Type} {read : Value → Except Fault α} {n : Nat} {a : α}
    (hread : ∀ v a, read v = .ok a → v.slots = n)
    (h : (do let (v, s) ← pop s; return (← read v, s)) = .ok (a, s')) :
    depth s = depth s' + n := by
  rcases except_bind_ok h with ⟨⟨v, s₁⟩, hpop, h⟩
  rcases except_bind_ok h with ⟨b, hv, h⟩
  cases h
  cases s with
  | nil => cases hpop
  | cons w s =>
      cases hpop
      rw [depth_cons, hread v a hv, Nat.add_comm]

/-- What is popped takes its slots away. -/
theorem depth_pop {v : Value} (h : pop s = .ok (v, s')) : depth s = depth s' + v.slots := by
  cases s with
  | nil => cases h
  | cons w s =>
      cases h
      rw [depth_cons, Nat.add_comm]

theorem depth_popInt {a : Int32} (h : popInt s = .ok (a, s')) : depth s = depth s' + 1 :=
  depth_of_popped (fun v _ hv => by cases v <;> cases hv; rfl) h

theorem depth_popLong {a : Int64} (h : popLong s = .ok (a, s')) : depth s = depth s' + 2 :=
  depth_of_popped (fun v _ hv => by cases v <;> cases hv; rfl) h

theorem depth_popFloat {a : Bits32} (h : popFloat s = .ok (a, s')) : depth s = depth s' + 1 :=
  depth_of_popped (fun v _ hv => by cases v <;> cases hv; rfl) h

theorem depth_popDouble {a : Bits64} (h : popDouble s = .ok (a, s')) : depth s = depth s' + 2 :=
  depth_of_popped (fun v _ hv => by cases v <;> cases hv; rfl) h

theorem depth_popReference {a : Option HeapRef} (h : popReference s = .ok (a, s')) :
    depth s = depth s' + 1 :=
  depth_of_popped (fun v _ hv => by cases v <;> cases hv <;> rfl) h

/-- Where the operation does not fail it pops and pushes so many slots. -/
def Moves (f : Stack → Except Fault Stack) (popped pushed : Nat) : Prop :=
  ∀ s s', f s = .ok s' → depth s' + popped = depth s + pushed

/-- Values off the stack and one that takes their place. -/
theorem depth_pushed {v : Value} {popped : Nat} (h : depth s = depth s' + popped) :
    depth (v :: s') + popped = depth s + v.slots := by
  rw [depth_cons, h]
  omega

/-- A value that is pushed brings its slots. -/
theorem moves_push (v : Value) : Moves (fun s => .ok (v :: s)) 0 v.slots := by
  intro s s' h
  cases h
  exact depth_pushed rfl

/-- A value is taken off the stack, and what is made of it takes its place. -/
theorem moves_one {α : Type} {take : Stack → Except Fault (α × Stack)} {k n : Nat} {f : α → Value}
    (htake : ∀ {s s' a}, take s = .ok (a, s') → depth s = depth s' + k)
    (hf : ∀ a, (f a).slots = n) :
    Moves (fun s => do let (a, s) ← take s; return f a :: s) k n := by
  intro s s' h
  rcases except_bind_ok h with ⟨⟨a, s₁⟩, ha, h⟩
  cases h
  rw [← hf a]
  exact depth_pushed (htake ha)

/-- Two values are taken off the stack, and what is made of them takes their place. -/
theorem moves_two {α β : Type} {take : Stack → Except Fault (β × Stack)}
    {take' : Stack → Except Fault (α × Stack)} {k k' n : Nat} {f : α → β → Value}
    (htake : ∀ {s s' b}, take s = .ok (b, s') → depth s = depth s' + k)
    (htake' : ∀ {s s' a}, take' s = .ok (a, s') → depth s = depth s' + k')
    (hf : ∀ a b, (f a b).slots = n) :
    Moves (fun s => do let (b, s) ← take s; let (a, s) ← take' s; return f a b :: s)
      (k' + k) n := by
  intro s s' h
  rcases except_bind_ok h with ⟨⟨b, s₁⟩, hb, h⟩
  rcases except_bind_ok h with ⟨⟨a, s₂⟩, ha, h⟩
  cases h
  rw [← hf a b]
  exact depth_pushed (by rw [htake hb, htake' ha, Nat.add_assoc])

theorem moves_ofInt {f : Int32 → Value} {n : Nat} (hf : ∀ a, (f a).slots = n) :
    Moves (ofInt f) 1 n :=
  moves_one depth_popInt hf

theorem moves_ofLong {f : Int64 → Value} {n : Nat} (hf : ∀ a, (f a).slots = n) :
    Moves (ofLong f) 2 n :=
  moves_one depth_popLong hf

theorem moves_ofFloat {f : Bits32 → Value} {n : Nat} (hf : ∀ a, (f a).slots = n) :
    Moves (ofFloat f) 1 n :=
  moves_one depth_popFloat hf

theorem moves_ofDouble {f : Bits64 → Value} {n : Nat} (hf : ∀ a, (f a).slots = n) :
    Moves (ofDouble f) 2 n :=
  moves_one depth_popDouble hf

theorem moves_ofInts (f : Int32 → Int32 → Int32) : Moves (ofInts f) 2 1 :=
  moves_two (f := fun a b => .int (f a b)) depth_popInt depth_popInt fun _ _ => rfl

theorem moves_ofLongs {f : Int64 → Int64 → Value} {n : Nat} (hf : ∀ a b, (f a b).slots = n) :
    Moves (ofLongs f) 4 n :=
  moves_two depth_popLong depth_popLong hf

theorem moves_ofShift (f : Int64 → Int64 → Int64) : Moves (ofShift f) 3 2 :=
  moves_two (f := fun a (b : Int32) => .long (f a (b &&& 63).toInt64)) depth_popInt
    depth_popLong fun _ _ => rfl

theorem moves_ofFloats {f : Bits32 → Bits32 → Value} {n : Nat} (hf : ∀ a b, (f a b).slots = n) :
    Moves (ofFloats f) 2 n :=
  moves_two depth_popFloat depth_popFloat hf

theorem moves_ofDoubles {f : Bits64 → Bits64 → Value} {n : Nat} (hf : ∀ a b, (f a b).slots = n) :
    Moves (ofDoubles f) 4 n :=
  moves_two depth_popDouble depth_popDouble hf

/-- A comparison gives a number. -/
theorem slots_ordering (unordered : Int32) (o : Option Ordering) :
    (ordering unordered o).slots = 1 := by
  rcases o with _ | _ | _ | _ <;> rfl

/-- Computing keeps to the effect of the opcode. -/
theorem compute?_moves {op : Opcode} {f : Stack → Except Fault Stack} (h : compute? op = some f) :
    ∃ popped pushed, (Instruction.simple op).stackEffect? = some (popped, pushed) ∧
      Moves f popped pushed := by
  cases op <;> cases h <;> refine ⟨_, _, rfl, ?_⟩
  case nop =>
    intro s s' h
    cases h
    rfl
  -- Comparisons come to an order, whatever the kind of the numbers.
  case lcmp => exact moves_ofLongs fun _ _ => slots_ordering _ _
  case fcmpl | fcmpg => exact moves_ofFloats fun _ _ => slots_ordering _ _
  case dcmpl | dcmpg => exact moves_ofDoubles fun _ _ => slots_ordering _ _
  all_goals first
    | exact moves_push _
    | exact moves_ofInts _
    | exact moves_ofShift _
    | exact moves_ofInt fun _ => rfl
    | exact moves_ofLong fun _ => rfl
    | exact moves_ofFloat fun _ => rfl
    | exact moves_ofDouble fun _ => rfl
    | exact moves_ofLongs fun _ _ => rfl
    | exact moves_ofFloats fun _ _ => rfl
    | exact moves_ofDoubles fun _ _ => rfl

/-- The top of the stack has its own number of slots. -/
theorem shows_cons {n : Nat} {form : List Nat} :
    Shows (n :: form) s ↔ ∃ v rest, s = v :: rest ∧ v.slots = n ∧ Shows form rest := by
  cases s with
  | nil => simp [Shows]
  | cons v rest => simp [Shows]

/-- Rearranging values of one of the forms of the opcode keeps to its effect. -/
theorem shuffle?_moves {op : Opcode} {f : Stack → Except Fault Stack} (hf : shuffle? op = some f)
    (hshows : ∃ form ∈ op.forms, Shows form s) (h : f s = .ok s') :
    ∃ popped pushed, (Instruction.simple op).stackEffect? = some (popped, pushed) ∧
      depth s' + popped = depth s + pushed := by
  rcases hshows with ⟨form, hform, hshows⟩
  cases op <;> cases hf <;> refine ⟨_, _, rfl, ?_⟩
  all_goals
    simp only [Opcode.forms, List.mem_cons, List.not_mem_nil, or_false] at hform
    rcases hform with rfl | rfl | rfl | rfl
  -- A form names one to four values; a shorter one uses only the beginning of the pattern.
  all_goals
    simp only [shows_cons] at hshows
    rcases hshows with ⟨a, _, rfl, ha, b, _, rfl, hb, c, _, rfl, hc, d, rest, rfl, hd, -⟩
    simp [isWide, *] at h
    subst h
    simp only [depth_cons]
    omega

/-- A test looks at the values that the effect of the branch takes off the stack. -/
theorem branch?_moves {op : Opcode} (label : Label) {test : Stack → Except Fault (Bool × Stack)}
    {taken : Bool} (htest : branch? op = some test) (h : test s = .ok (taken, s')) :
    ∃ popped pushed, (Instruction.jump op label).stackEffect? = some (popped, pushed) ∧
      depth s' + popped = depth s + pushed := by
  -- A test takes one or two values, numbers or references.
  have hint (f : Int32 → Bool) (h : branch?.intTest f s = .ok (taken, s')) :
      depth s' + 1 = depth s := by
    rcases except_bind_ok h with ⟨⟨a, s₁⟩, ha, h⟩
    cases h
    exact (depth_popInt ha).symm
  have hints (f : Int32 → Int32 → Bool) (h : branch?.intsTest f s = .ok (taken, s')) :
      depth s' + 2 = depth s := by
    rcases except_bind_ok h with ⟨⟨b, s₁⟩, hb, h⟩
    rcases except_bind_ok h with ⟨⟨a, s₂⟩, ha, h⟩
    cases h
    rw [depth_popInt hb, depth_popInt ha]
  have hreference (f : Option HeapRef → Bool) (h : branch?.referenceTest f s = .ok (taken, s')) :
      depth s' + 1 = depth s := by
    rcases except_bind_ok h with ⟨⟨a, s₁⟩, ha, h⟩
    cases h
    exact (depth_popReference ha).symm
  have hreferences (f : Option HeapRef → Option HeapRef → Bool)
      (h : branch?.referencesTest f s = .ok (taken, s')) : depth s' + 2 = depth s := by
    rcases except_bind_ok h with ⟨⟨b, s₁⟩, hb, h⟩
    rcases except_bind_ok h with ⟨⟨a, s₂⟩, ha, h⟩
    cases h
    rw [depth_popReference hb, depth_popReference ha]
  cases op <;> cases htest <;> refine ⟨_, _, rfl, ?_⟩
  case goto | gotoW =>
    cases h
    rfl
  all_goals first
    | exact hint _ h
    | exact hints _ h
    | exact hreference _ h
    | exact hreferences _ h

end Stack

namespace Emu

variable {env : Env} {s s' : Stack} {m m' : Machine}

/-- Where the operation comes to an end it pops and pushes so many slots. -/
def Moves (f : Stack → Emu Stack) (popped pushed : Nat) : Prop :=
  ∀ {s s' env m m'}, f s env m = .ok s' m' →
    Stack.depth s' + popped = Stack.depth s + pushed

/-- Division takes two numbers and gives one, or raises. -/
theorem moves_divideInts (op : Int32 → Int32 → Int32) : Moves (divideInts op) 2 1 := by
  intro s s' env m m' h
  rcases bind_ok h with ⟨⟨b, s₁⟩, _, hb, h⟩
  rcases bind_ok h with ⟨⟨a, s₂⟩, _, ha, h⟩
  dsimp only at h
  split at h
  · exact absurd h raise_ne_ok
  · cases h
    exact Stack.depth_pushed (by
      rw [Stack.depth_popInt (lift_eq_ok.1 hb).1, Stack.depth_popInt (lift_eq_ok.1 ha).1])

-- So does division of long numbers.
theorem moves_divideLongs (op : Int64 → Int64 → Int64) : Moves (divideLongs op) 4 2 := by
  intro s s' env m m' h
  rcases bind_ok h with ⟨⟨b, s₁⟩, _, hb, h⟩
  rcases bind_ok h with ⟨⟨a, s₂⟩, _, ha, h⟩
  dsimp only at h
  split at h
  · exact absurd h raise_ne_ok
  · cases h
    exact Stack.depth_pushed (by
      rw [Stack.depth_popLong (lift_eq_ok.1 hb).1, Stack.depth_popLong (lift_eq_ok.1 ha).1])

/-- A monitor takes the object. -/
theorem moves_monitor : Moves monitor 1 0 := by
  intro s s' env m m' h
  rcases bind_ok h with ⟨⟨object, s₁⟩, _, hobject, h⟩
  cases object with
  | none =>
      rcases bind_ok (m := raiseNull _) h with ⟨_, _, hraise, -⟩
      exact absurd hraise raise_ne_ok
  | some r =>
      cases h
      exact (Stack.depth_popReference (lift_eq_ok.1 hobject).1).symm

/-- An array is a reference, since nothing else has a length. -/
theorem moves_arrayLength : Moves arrayLength 1 1 := by
  intro s s' env m m' h
  rcases bind_ok h with ⟨⟨array, s₁⟩, _, harray, h⟩
  rcases bind_ok h with ⟨r, _, hr, h⟩
  rcases bind_ok h with ⟨o, _, _, h⟩
  rcases bind_ok hr with ⟨reference, _, hreference, -⟩
  -- The array is a reference, which takes one slot.
  have hslots : array.slots = 1 := by
    have hread := (lift_eq_ok.1 hreference).1
    cases array <;> cases hread <;> rfl
  have hpop := Stack.depth_pop (lift_eq_ok.1 harray).1
  rw [hslots] at hpop
  cases o with
  | array component elements =>
      cases h
      exact Stack.depth_pushed hpop
  | _ => cases h

/-- An array takes its length and brings itself. -/
theorem moves_newPrimitiveArray (kind : UInt8) : Moves (newPrimitiveArray kind) 1 1 := by
  intro s s' env m m' h
  rcases bind_ok h with ⟨⟨length, s₁⟩, _, hlength, h⟩
  have hpop := Stack.depth_popInt (lift_eq_ok.1 hlength).1
  -- Without a component type the instruction fails.
  cases hkind : FieldType.ofArrayKind? kind with
  | none =>
      rw [hkind] at h
      cases h
  | some component =>
      rw [hkind] at h
      rcases bind_ok h with ⟨v, _, hv, h⟩
      cases h
      unfold newArray at hv
      split at hv
      · exact absurd hv raise_ne_ok
      · cases hv
        exact Stack.depth_pushed hpop

/-- What throws the top of the stack does not go on. -/
theorem throwTop_ne_ok {α : Type} {x : α} : throwTop s env m ≠ .ok x m' := by
  intro h
  rcases bind_ok h with ⟨⟨exception, s₁⟩, _, _, h⟩
  cases exception with
  | none => exact raise_ne_ok h
  | some r => cases h

/-- The instructions that need more than the stack keep to the effect, unless they access the
    elements of an array. -/
theorem simpleEffect_moves {op : Opcode} (helement : op.accessesElement = false)
    (h : simpleEffect op s env m = .ok s' m') :
    ∃ popped pushed, (Instruction.simple op).stackEffect? = some (popped, pushed) ∧
      Stack.depth s' + popped = Stack.depth s + pushed := by
  cases op
  case arraylength => exact ⟨_, _, rfl, moves_arrayLength h⟩
  case idiv | irem => exact ⟨_, _, rfl, moves_divideInts _ h⟩
  case ldiv | lrem => exact ⟨_, _, rfl, moves_divideLongs _ h⟩
  case athrow => exact absurd h throwTop_ne_ok
  case monitorenter | monitorexit => exact ⟨_, _, rfl, moves_monitor h⟩
  all_goals first
    | cases h
    | contradiction

/-- The instructions without operands keep to the effect. -/
theorem simple_moves {op : Opcode} {flow : Flow} (helement : op.accessesElement = false)
    (hreturn : op.isReturn = false) (hshows : ∃ form ∈ op.forms, Stack.Shows form s)
    (h : simple op s env m = .ok flow m') :
    ∃ popped pushed s', (Instruction.simple op).stackEffect? = some (popped, pushed) ∧
      flow.stack? = some s' ∧ Stack.depth s' + popped = Stack.depth s + pushed := by
  unfold simple at h
  cases hcompute : Stack.compute? op with
  | some f =>
      rw [hcompute] at h
      rcases bind_ok h with ⟨s', _, hf, h⟩
      cases h
      rcases Stack.compute?_moves hcompute with ⟨popped, pushed, heffect, hmoves⟩
      exact ⟨popped, pushed, s', heffect, rfl, hmoves s s' (lift_eq_ok.1 hf).1⟩
  | none =>
      cases hshuffle : Stack.shuffle? op with
      | some f =>
          rw [hcompute, hshuffle] at h
          rcases bind_ok h with ⟨s', _, hf, h⟩
          cases h
          rcases Stack.shuffle?_moves hshuffle hshows (lift_eq_ok.1 hf).1 with
            ⟨popped, pushed, heffect, hmoves⟩
          exact ⟨popped, pushed, s', heffect, rfl, hmoves⟩
      | none =>
          rw [hcompute, hshuffle] at h
          dsimp only [Option.or] at h
          split at h
          -- The cases in front of the last are those of the instructions that return.
          case h_7 =>
            rcases bind_ok h with ⟨s', _, hs, h⟩
            cases h
            rcases simpleEffect_moves helement hs with ⟨popped, pushed, heffect, hmoves⟩
            exact ⟨popped, pushed, s', heffect, rfl, hmoves⟩
          all_goals cases hreturn

/-- A constant takes as many slots as a value as it does in a class. -/
theorem slots_constant {k : Constant} {v : Value} (h : constant k env m = .ok v m') :
    v.slots = k.slots := by
  -- Texts and classes are references.
  cases k with
  | string text =>
      rcases bind_ok h with ⟨r, _, _, h⟩
      cases h
      rfl
  | classRef name =>
      rcases bind_ok h with ⟨r, _, _, h⟩
      cases h
      rfl
  | pool index => cases h
  | _ =>
      cases h
      rfl

/-- If the machine gets through an instruction, the stack has changed by as many slots as the effect
    of the instruction says. -/
theorem step_moves_slots (c : ClassFile) (i : Instruction) (a : Activation) (env : Env)
    (m m' : Machine) (flow : Flow) (hi : i.IsCounted a.stack)
    (h : step c i a env m = .ok flow m') :
    ∃ popped pushed s', i.stackEffect? = some (popped, pushed) ∧ flow.stack? = some s' ∧
      (Stack.depth s' : Int) - Stack.depth a.stack = pushed - popped := by
  -- Added up instead of taken away, so that the cases are about natural numbers.
  have hsuffices : ∃ popped pushed s', i.stackEffect? = some (popped, pushed) ∧
      flow.stack? = some s' ∧ Stack.depth s' + popped = Stack.depth a.stack + pushed := by
    cases i with
    | simple op =>
        rcases hi with ⟨helement, hreturn, hshows⟩
        exact simple_moves helement hreturn hshows h
    | push op v =>
        cases h
        rcases hi with rfl | rfl <;> exact ⟨_, _, _, rfl, rfl, Stack.depth_pushed rfl⟩
    | ldc k =>
        rcases bind_ok h with ⟨v, _, hv, h⟩
        cases h
        refine ⟨0, k.slots, _, rfl, rfl, ?_⟩
        rw [← slots_constant hv]
        exact Stack.depth_pushed rfl
    | iinc index delta =>
        rcases bind_ok h with ⟨v, _, _, h⟩
        rcases bind_ok h with ⟨n, _, _, h⟩
        cases h
        exact ⟨_, _, _, rfl, rfl, rfl⟩
    | jump op label =>
        cases htest : Stack.branch? op with
        | none =>
            simp only [step, htest] at h
            cases h
        | some test =>
            simp only [step, htest] at h
            rcases bind_ok h with ⟨⟨taken, s'⟩, _, htaken, h⟩
            cases h
            rcases Stack.branch?_moves label htest (lift_eq_ok.1 htaken).1 with
              ⟨popped, pushed, heffect, hmoves⟩
            refine ⟨popped, pushed, s', heffect, ?_, hmoves⟩
            cases taken <;> rfl
    | tableSwitch default low high targets =>
        rcases bind_ok h with ⟨⟨key, s'⟩, _, hkey, h⟩
        cases h
        exact ⟨_, _, _, rfl, rfl, (Stack.depth_popInt (lift_eq_ok.1 hkey).1).symm⟩
    | lookupSwitch default pairs =>
        rcases bind_ok h with ⟨⟨key, s'⟩, _, hkey, h⟩
        cases h
        exact ⟨_, _, _, rfl, rfl, (Stack.depth_popInt (lift_eq_ok.1 hkey).1).symm⟩
    | newArray kind =>
        rcases bind_ok h with ⟨s', _, hs, h⟩
        cases h
        exact ⟨_, _, _, rfl, rfl, moves_newPrimitiveArray kind hs⟩
    | _ => cases hi
  rcases hsuffices with ⟨popped, pushed, s', heffect, hflow, hdepth⟩
  exact ⟨popped, pushed, s', heffect, hflow, by omega⟩

/-- Two values of one slot above one of two slots, copied below it. -/
theorem step_dup2X2_over_long :
    (Instruction.simple .dup2X2).IsCounted [.int 1, .int 2, .long 3] ∧
    step { name := "demo/A" } (.simple .dup2X2)
        { locals := #[], stack := [.int 1, .int 2, .long 3] } (Engine.env (.ofUniverse {}) {}) {}
      = .ok (.next [.int 1, .int 2, .long 3, .int 1, .int 2]) {} ∧
    ∃ popped pushed s', (Instruction.simple .dup2X2).stackEffect? = some (popped, pushed) ∧
      (Flow.next [.int 1, .int 2, .long 3, .int 1, .int 2]).stack? = some s' ∧
      (Stack.depth s' : Int) - Stack.depth [.int 1, .int 2, .long 3] = pushed - popped := by
  have hcounted : (Instruction.simple .dup2X2).IsCounted [.int 1, .int 2, .long 3] :=
    ⟨rfl, rfl, [1, 1, 2], by simp [Opcode.forms], by simp [Stack.Shows, Value.slots]⟩
  exact ⟨hcounted, rfl, step_moves_slots { name := "demo/A" } _
    { locals := #[], stack := [.int 1, .int 2, .long 3] } (Engine.env (.ofUniverse {}) {}) {} {} _
    hcounted rfl⟩

end Emu

end JvmFold
