import JvmFold.Body.Basic

/-!
# What a Body Says

Two bodies can say the same with different labels. A label stands for a
position among the real instructions, or for the end, and that is all that
counts about it: neither its number nor where its mark stands among other
marks, and no body needs a label that nothing refers to. Lines and frames
belong to a position in the same way.

The view of a body has all labels replaced by their positions, so bodies say
the same if their views are equal.

## Main definitions

* `Instruction.relabel`: An instruction with other labels.
* `counted`: Instructions and marks by position.
* `Body.positionOf`: The position of a label.
* `Body.view`: What a body says.

## Theorems

* `Instruction.relabel_inj`, `Frame.relabel_inj`: Only the labels that are referred to matter.
-/

namespace JvmFold

/-- The type with another label. -/
def SlotType.relabel (f : Label → Label) : SlotType → SlotType
  | .uninitialized l => .uninitialized (f l)
  | t => t

/-- The frame with other labels. -/
def Frame.relabel (f : Label → Label) (frame : Frame) : Frame where
  locals := frame.locals.map (SlotType.relabel f)
  stack := frame.stack.map (SlotType.relabel f)

/-- The instruction or mark with other labels. -/
def Instruction.relabel (f : Label → Label) : Instruction → Instruction
  | .label l => .label (f l)
  | .frame g => .frame (g.relabel f)
  | .jump op target => .jump op (f target)
  | .tableSwitch default low high targets => .tableSwitch (f default) low high (targets.map f)
  | .lookupSwitch default pairs =>
      .lookupSwitch (f default) (pairs.map fun pair => (pair.1, f pair.2))
  | i => i

/-- The handler with other labels. -/
def Handler.relabel (f : Label → Label) (h : Handler) : Handler :=
  { h with start := f h.start, stop := f h.stop, target := f h.target }

/-- The name of a local variable with other labels. -/
def LocalVariable.relabel (f : Label → Label) (v : LocalVariable) : LocalVariable :=
  { v with start := f v.start, stop := f v.stop }

/-- The labels of a handler. -/
def Handler.labels (h : Handler) : List Label :=
  [h.start, h.stop, h.target]

/-- The labels around the range of a local variable. -/
def LocalVariable.labels (v : LocalVariable) : List Label :=
  [v.start, v.stop]

section Relabel

variable {f g : Label → Label}

/-- Two renamings make one. -/
theorem SlotType.relabel_relabel (f g : Label → Label) (t : SlotType) :
    (t.relabel f).relabel g = t.relabel fun l => g (f l) := by
  cases t <;> rfl

/-- A renaming is seen only in the labels that occur. -/
theorem SlotType.relabel_inj {t : SlotType} :
    t.relabel f = t.relabel g ↔ ∀ l, t = .uninitialized l → f l = g l := by
  cases t with
  | uninitialized l => simp [SlotType.relabel]
  | _ => simp [SlotType.relabel]

theorem Frame.relabel_relabel (f g : Label → Label) (frame : Frame) :
    (frame.relabel f).relabel g = frame.relabel fun l => g (f l) := by
  simp only [Frame.relabel, List.map_map]
  congr 1 <;> exact List.map_congr_left fun t _ => t.relabel_relabel f g

/-- The labels of a frame are those of its uninitialized entries. -/
theorem Body.mem_frameLabels {frame : Frame} {l : Label} :
    l ∈ Body.frameLabels frame ↔ SlotType.uninitialized l ∈ frame.locals ++ frame.stack := by
  unfold Body.frameLabels
  rw [List.mem_filterMap]
  constructor
  · rintro ⟨t, ht, hl⟩
    cases t <;> cases hl
    exact ht
  · intro ht
    exact ⟨_, ht, rfl⟩

/-- Two ways to relabel a frame are the same if they agree on the labels in it. -/
theorem Frame.relabel_inj {frame : Frame} :
    frame.relabel f = frame.relabel g ↔ ∀ l ∈ Body.frameLabels frame, f l = g l := by
  simp only [Frame.relabel, Frame.mk.injEq, List.map_inj_left, Body.mem_frameLabels,
    List.mem_append, SlotType.relabel_inj]
  constructor
  · rintro ⟨hlocals, hstack⟩ l hl
    -- hl | A label of the frame stands among its variables or on its stack.
    rcases hl with hl | hl
    · exact hlocals _ hl l rfl
    · exact hstack _ hl l rfl
  · intro h
    refine ⟨fun t ht l heq => h l (Or.inl ?_), fun t ht l heq => h l (Or.inr ?_)⟩
    · rw [← heq]
      exact ht
    · rw [← heq]
      exact ht

/-- Renaming twice is renaming by both. -/
theorem Instruction.relabel_relabel (f g : Label → Label) (i : Instruction) :
    (i.relabel f).relabel g = i.relabel fun l => g (f l) := by
  cases i with
  | frame frame => exact congrArg Instruction.frame (frame.relabel_relabel f g)
  | tableSwitch default low high targets =>
      simp only [Instruction.relabel, List.map_map]
      rfl
  | lookupSwitch default pairs =>
      simp only [Instruction.relabel, List.map_map]
      rfl
  | _ => rfl

theorem Instruction.relabel_id (i : Instruction) : i.relabel id = i := by
  cases i with
  | frame frame =>
      have hslot (t : SlotType) : t.relabel id = t := by cases t <;> rfl
      simp [Instruction.relabel, Frame.relabel, funext hslot]
  | _ => simp [Instruction.relabel]

/-- Two ways to relabel an instruction are the same if they agree on its targets. -/
theorem Instruction.relabel_inj {i : Instruction} (hi : i.isPseudo = false) :
    i.relabel f = i.relabel g ↔ ∀ l ∈ i.targets, f l = g l := by
  cases i with
  | label l | line n | frame g => cases hi
  | lookupSwitch default pairs =>
      simp only [Instruction.relabel, Instruction.targets, Instruction.lookupSwitch.injEq,
        List.map_inj_left, Prod.mk.injEq, true_and, List.forall_mem_cons, List.forall_mem_map]
  | _ => simp [Instruction.relabel, Instruction.targets]

/-- A mark stays a mark. -/
theorem Instruction.isPseudo_relabel (f : Label → Label) (i : Instruction) :
    (i.relabel f).isPseudo = i.isPseudo := by
  cases i <;> rfl

theorem Handler.relabel_inj {h : Handler} :
    h.relabel f = h.relabel g ↔ ∀ l ∈ h.labels, f l = g l := by
  simp [Handler.relabel, Handler.labels]

theorem LocalVariable.relabel_inj {v : LocalVariable} :
    v.relabel f = v.relabel g ↔ ∀ l ∈ v.labels, f l = g l := by
  simp [LocalVariable.relabel, LocalVariable.labels]

end Relabel

/-- Instructions and marks with their positions: the number of real instructions in front. -/
def counted (position : Nat) : List Instruction → List (Nat × Instruction)
  | [] => []
  | i :: rest => (position, i) :: counted (if i.isPseudo then position else position + 1) rest

/-- The label of a mark. -/
def Instruction.label? : Instruction → Option Label
  | .label l => some l
  | _ => none

/-- The line number of a mark. -/
def Instruction.line? : Instruction → Option UInt16
  | .line n => some n
  | _ => none

/-- The frame of a mark. -/
def Instruction.frame? : Instruction → Option Frame
  | .frame f => some f
  | _ => none

namespace Body

/-- The position of a label. One that has no mark is behind all positions. -/
def positionOf (b : Body) (l : Label) : Nat :=
  (((counted 0 b.instructions).find? fun x => x.2 = .label l).map Prod.fst).getD (b.real.length + 1)

/-- All labels that something refers to. -/
def labels (b : Body) : List Label :=
  b.referenced ++ b.locals.flatMap LocalVariable.labels

/-- Labels stand in the instructions, the handlers and the variables. -/
theorem mem_labels {b : Body} {l : Label} :
    l ∈ b.labels ↔ (∃ i ∈ b.instructions, l ∈ instructionLabels i) ∨
      (∃ h ∈ b.handlers, l ∈ h.labels) ∨ ∃ v ∈ b.locals, l ∈ v.labels := by
  simp only [labels, referenced, List.mem_append, List.mem_flatMap, Handler.labels, or_assoc]

theorem mem_instructionLabels {i : Instruction} {l : Label} (h : l ∈ i.targets) :
    l ∈ instructionLabels i := by
  cases i with
  | frame f => cases h
  | _ => exact h

/-- A position as a label. -/
def canonical (b : Body) (l : Label) : Label :=
  ⟨b.positionOf l⟩

/-- What a body says, with positions for labels. -/
structure View where
  /-- The greatest depth of the stack. -/
  maxStack : UInt16
  /-- The number of local variables. -/
  maxLocals : UInt16
  /-- The real instructions. -/
  code : List Instruction
  /-- The exception handlers. -/
  handlers : List Handler
  /-- The names of local variables. -/
  locals : List LocalVariable
  /-- The line numbers with their positions. -/
  lines : List (Nat × UInt16)
  /-- The frames with their positions. -/
  frames : List (Nat × Frame)
deriving DecidableEq, Repr

/-- What the body says. -/
def view (b : Body) : View where
  maxStack := b.maxStack
  maxLocals := b.maxLocals
  code := b.real.map (Instruction.relabel b.canonical)
  handlers := b.handlers.map (Handler.relabel b.canonical)
  locals := b.locals.map (LocalVariable.relabel b.canonical)
  lines := (counted 0 b.instructions).filterMap fun x => x.2.line?.map (x.1, ·)
  frames := (counted 0 b.instructions).filterMap fun x =>
    x.2.frame?.map fun f => (x.1, f.relabel b.canonical)

end Body

end JvmFold
