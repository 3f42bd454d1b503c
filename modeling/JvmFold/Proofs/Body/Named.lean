import JvmFold.Proofs.Body.Reencoding

/-!
# Every Label Has an Offset

Reading a body hands out a label wherever an offset comes up, so each label in
what is read is the name of an offset in the table of labels. This goes through
everything that has labels: the targets of branches and switches, the ranges of
handlers and local variables, and the objects that a frame says are not
initialized yet. A frame takes over slots from the one before it, and the first
one from the types that the method starts with, which have no labels.

Names are kept, so this holds of the table that is left in the end, and there
every label has one offset.

## Main definitions

* `LabelTable.Names`: A label that is the name of an offset.
* `SlotType.Named`: A slot whose label is one.
* `Body.LabelsNamed`: A body all of whose labels are.

## Theorems

* `Body.grants_readBody_labels`: The labels that are read are names.
* `Body.ReadAs.named`: The labels of a body that was decoded are names.
-/

namespace JvmFold

/-- The label is the name of an offset. -/
def LabelTable.Names (t : LabelTable) (l : Label) : Prop :=
  ∃ o : Nat, t[o]? = some l

/-- The label of a slot, if it has one, is the name of an offset. -/
def SlotType.Named (t : LabelTable) (s : SlotType) : Prop :=
  ∀ l, s = .uninitialized l → t.Names l

/-- The types that a method starts with have no labels. -/
theorem MethodInfo.named_initialLocals {method : MethodInfo} {locals : List SlotType}
    (h : method.initialLocals = .ok locals) (t : LabelTable) : ∀ s ∈ locals, s.Named t := by
  rcases except_bind_ok h with ⟨type, -, hlocals⟩
  cases hlocals
  rintro s hs l rfl
  rcases List.mem_append.1 hs with hs | hs
  · split_ifs at hs <;> simp at hs
  · rcases List.mem_map.1 hs with ⟨f, -, hf⟩
    cases f <;> cases hf

namespace Body

open Decode LabelTable

/-- The labels of a body are names of offsets. -/
structure LabelsNamed (t : LabelTable) (code : List Instruction) (handlers : List Handler)
    (tables : Tables) : Prop where
  code : ∀ i ∈ code, ∀ l ∈ i.targets, t.Names l
  handlers : ∀ h ∈ handlers, ∀ l ∈ h.labels, t.Names l
  locals : ∀ v ∈ tables.locals, ∀ l ∈ v.labels, t.Names l
  frames : ∀ (o : Nat) f, tables.frames[o]? = some f → ∀ s ∈ f.locals ++ f.stack, s.Named t

section Instructions

variable {p : Pool} {length pc : Nat} {op : Opcode}

/-- A label that is asked for is in the table. -/
theorem grants_labelAt_names (o : Nat) : Grants (labelAt o) Names :=
  (grants_labelAt o).imp fun _ _ h => ⟨o, h⟩

-- So is one that is asked for by a displacement.
theorem grants_labelFrom_names (pc : Nat) (displacement : Int) :
    Grants (labelFrom pc displacement) Names := by
  unfold labelFrom
  dsimp only
  split
  · exact grants_throw _
  · exact grants_labelAt_names _

/-- The targets of an instruction are names. -/
def TargetsNamed (t : LabelTable) (i : Instruction) : Prop :=
  ∀ l ∈ i.targets, t.Names l

/-- An instruction without targets names no label. -/
theorem TargetsNamed.of_nil {i : Instruction} (h : i.targets = []) (t : LabelTable) :
    TargetsNamed t i := by
  intro l hl
  rw [h] at hl
  cases hl

/-- The targets of a table switch are in the table. -/
theorem grants_readTableSwitch_targets :
    Grants (readTableSwitch length pc) TargetsNamed := by
  -- The default is named first, and stays named while the targets are read.
  have hread (default : Label) (low high : Int32) (n : Nat) : Grants (do
      let targets ← repeated n do Decode.labelFrom pc (← Read.i32).toInt
      return Instruction.tableSwitch default low high targets) fun t i =>
        t.Names default → TargetsNamed t i := by
    refine (grants_repeated (P := Names) ((grants_any _).bind fun _ _ =>
      grants_labelFrom_names _ _) _).bindNamed fun targets => ?_
    exact grants_pure fun t htargets hdefault =>
      List.forall_mem_cons.2 ⟨hdefault, htargets.2⟩
  unfold readTableSwitch
  refine (grants_any _).bind fun _ _ => (grants_any _).bind fun _ _ => ?_
  refine (grants_labelFrom_names _ _).bindNamed fun default => ?_
  refine (grants_any _).bind fun low _ => (grants_any _).bind fun high _ => ?_
  split
  · exact (grants_throw (P := fun _ _ => False) _).bind nofun
  · dsimp only
    split
    · exact (grants_throw (P := fun _ _ => False) _).bind nofun
    · exact hread default low high _

/-- The targets of a lookup switch are in the table. -/
theorem grants_readLookupSwitch_targets :
    Grants (readLookupSwitch length pc) TargetsNamed := by
  have hpair : Grants (do
      let key ← Read.i32
      return (key, ← Decode.labelFrom pc (← Read.i32).toInt)) fun t (pair : Int32 × Label) =>
        t.Names pair.2 :=
    (grants_any _).bind fun key _ => (grants_any _).bind fun _ _ =>
      (grants_labelFrom_names _ _).bindNamed fun l => grants_pure fun _ hl => hl
  -- The default was named before the pairs, and stays named while they are read.
  have hread (default : Label) (n : Nat) : Grants (do
      let pairs ← repeated n do
        let key ← Read.i32
        return (key, ← Decode.labelFrom pc (← Read.i32).toInt)
      return Instruction.lookupSwitch default pairs) fun t i =>
        t.Names default → TargetsNamed t i := by
    refine (grants_repeated hpair _).bindNamed fun pairs => ?_
    refine grants_pure fun t hpairs hdefault => List.forall_mem_cons.2 ⟨hdefault, fun l hl => ?_⟩
    rcases List.mem_map.1 hl with ⟨pair, hmem, rfl⟩
    exact hpairs.2 pair hmem
  unfold readLookupSwitch
  refine (grants_any _).bind fun _ _ => (grants_any _).bind fun _ _ => ?_
  refine (grants_labelFrom_names _ _).bindNamed fun default => (grants_any _).bind fun count _ => ?_
  split
  · exact (grants_throw (P := fun _ _ => False) _).bind nofun
  · exact hread default _

/-- An opcode without a case of its own branches to a name, if it branches. -/
theorem grants_readOperands_other_targets (hop : op.isSpecial = false) :
    Grants (readOperands p length pc op) TargetsNamed := by
  -- Only a branch has a target here.
  have hjump (displacement : Int) : Grants (labelFrom pc displacement >>= fun l =>
      pure (Instruction.jump op l)) TargetsNamed :=
    (grants_labelFrom_names _ _).bindNamed fun l => grants_pure fun _ hl l' hl' => by
      rw [List.mem_singleton.1 hl']
      exact hl
  rw [readOperands_other hop]
  split
  · exact (grants_any _).bind fun _ _ => grants_pure (.of_nil rfl)
  · split
    · exact (grants_any _).bind fun _ _ => hjump _
    · split
      · exact (grants_any _).bind fun _ _ => hjump _
      · split <;> exact grants_pure (.of_nil rfl)

/-- The targets of every instruction that is read are names. -/
theorem grants_readOperands_targets : Grants (readOperands p length pc op) TargetsNamed := by
  cases hop : op.isSpecial with
  | false => exact grants_readOperands_other_targets hop
  | true =>
      -- Only the switches among the special opcodes have targets.
      cases op with
      | tableswitch => exact grants_readTableSwitch_targets
      | lookupswitch => exact grants_readLookupSwitch_targets
      | ldc | ldcW | ldc2W | getstatic | putstatic | getfield | putfield | invokevirtual
      | invokespecial | invokestatic | new | anewarray | checkcast | instanceof | iinc =>
          refine (grants_any _).bind fun _ _ => (grants_any _).bind fun _ _ => ?_
          exact grants_pure (.of_nil rfl)
      | bipush | sipush | newarray =>
          exact (grants_any _).bind fun _ _ => grants_pure (.of_nil rfl)
      | multianewarray | invokeinterface =>
          refine (grants_any _).bind fun _ _ => (grants_any _).bind fun _ _ => ?_
          exact (grants_any _).bind fun _ _ => grants_pure (.of_nil rfl)
      | invokedynamic =>
          refine (grants_any _).bind fun _ _ => (grants_any _).bind fun _ _ => ?_
          refine (grants_any _).bind fun e _ => ?_
          split
          · exact (grants_any _).bind fun _ _ => grants_pure (.of_nil rfl)
          · exact grants_throw _
      | wide =>
          refine (grants_any _).bind fun _ _ => ?_
          split
          · refine (grants_any _).bind fun _ _ => (grants_any _).bind fun _ _ => ?_
            exact grants_pure (.of_nil rfl)
          · split
            · exact (grants_any _).bind fun _ _ => grants_pure (.of_nil rfl)
            · exact grants_throw _
      | _ => cases hop

/-- The targets of all instructions are names, if those of the instructions read so far are. -/
theorem grants_readInstructions_targets (rounds : Nat) (acc : List (Nat × Instruction)) :
    Grants (readInstructions p length rounds acc) fun t l =>
      (∀ x ∈ acc, TargetsNamed t x.2) → ∀ x ∈ l, TargetsNamed t x.2 := by
  -- The instructions are gathered backwards, and turned around at the end.
  have hdone (acc : List (Nat × Instruction)) : Grants (pure acc.reverse : Decode _) fun t l =>
      (∀ x ∈ acc, TargetsNamed t x.2) → ∀ x ∈ l, TargetsNamed t x.2 :=
    grants_pure fun t hacc x hx => hacc x (List.mem_reverse.1 hx)
  induction rounds generalizing acc with
  | zero => exact hdone acc
  | succ rounds ih =>
      have hread : Grants (readInstruction p length) fun t x => TargetsNamed t x.2 := by
        unfold readInstruction
        refine (grants_any _).bind fun pc _ => (grants_any _).bind fun op _ => ?_
        exact grants_readOperands_targets.bindNamed fun i => grants_pure fun _ hi => hi
      rw [readInstructions]
      refine (grants_any _).bind fun more _ => ?_
      split
      · refine hread.bindNamed fun x => (ih (x :: acc)).imp fun t l hl hx hacc => ?_
        exact hl (List.forall_mem_cons.2 ⟨hx, hacc⟩)
      · exact hdone acc

end Instructions

section Tables

variable {p : Pool} {method : MethodInfo}

/-- A handler names labels of the table. -/
theorem grants_readHandler_labels :
    Grants (readHandler p) fun t h => ∀ l ∈ h.labels, t.Names l := by
  unfold readHandler
  refine (grants_any _).bind fun _ _ => (grants_labelAt_names _).bindNamed fun start => ?_
  refine (grants_any _).bind fun _ _ => (grants_labelAt_names _).bindNamed fun stop => ?_
  refine (grants_any _).bind fun _ _ => (grants_labelAt_names _).bindNamed fun target => ?_
  -- The three labels are named one after the other, whether or not a class follows.
  have hend (catchType : Option String) :
      Grants (pure { start, stop, target, catchType } : Decode Handler) fun t h =>
        t.Names target → t.Names stop → t.Names start → ∀ l ∈ h.labels, t.Names l := by
    refine grants_pure fun t htarget hstop hstart => ?_
    simp only [Handler.labels, List.forall_mem_cons]
    exact ⟨hstart, hstop, htarget, List.forall_mem_nil _⟩
  refine (grants_any _).bind fun index _ => ?_
  split
  · exact hend none
  · exact (grants_any _).bind fun _ _ => hend _

theorem grants_readSlotType : Grants (readSlotType p) fun t s => s.Named t := by
  have hplain {s : SlotType} (hs : ∀ l, s ≠ .uninitialized l) (t : LabelTable) : s.Named t :=
    fun l hl => absurd hl (hs l)
  unfold readSlotType
  refine (grants_any _).bind fun tag _ => ?_
  split
  -- Only an uninitialized entry refers to a label.
  case h_9 =>
    refine (grants_any _).bind fun _ _ => (grants_labelAt_names _).bindNamed fun l => ?_
    exact grants_pure fun t hl l' hl' => by cases hl'; exact hl
  case h_8 =>
    refine (grants_any _).bind fun _ _ => (grants_any _).bind fun _ _ => ?_
    exact grants_pure (hplain fun l hl => by cases hl)
  case h_10 => exact grants_throw _
  all_goals exact grants_pure (hplain fun l hl => by cases hl)

/-- A frame has names if the slots have that it takes over. -/
theorem grants_readFrameChange (m : Member) (locals : List SlotType) :
    Grants (readFrameChange p m locals) fun t x =>
      (∀ s ∈ locals, s.Named t) → ∀ s ∈ x.2.1 ++ x.2.2, s.Named t := by
  have hkeep (delta : Nat) : Grants (pure (delta, locals, []) : Decode _) fun t x =>
      (∀ s ∈ locals, s.Named t) → ∀ s ∈ x.2.1 ++ x.2.2, s.Named t :=
    grants_pure fun t h => by rwa [List.append_nil]
  have hone (delta : Nat) : Grants (do return (delta, locals, [← readSlotType p])) fun t x =>
      (∀ s ∈ locals, s.Named t) → ∀ s ∈ x.2.1 ++ x.2.2, s.Named t := by
    refine grants_readSlotType.bindNamed fun s => grants_pure fun t hs h => ?_
    exact List.forall_mem_append.2 ⟨h, List.forall_mem_singleton.2 hs⟩
  have hslots (n : Nat) : Grants (repeated n (readSlotType p)) fun t l => ∀ s ∈ l, s.Named t :=
    (grants_repeated grants_readSlotType n).imp fun _ _ h => h.2
  unfold readFrameChange
  refine (grants_any _).bind fun kind _ => ?_
  dsimp only
  split_ifs
  · exact hkeep _
  · exact hone _
  · exact grants_throw _
  · exact (grants_any _).bind fun delta _ => hone _
  -- a frame can chop off more slots than there are
  · refine (grants_any _).bind fun delta _ => ?_
    exact (grants_throw (P := fun _ _ => False) _).bind nofun
  · refine (grants_any _).bind fun delta _ => grants_pure fun t h => ?_
    rw [List.append_nil]
    exact fun s hs => h s (List.mem_of_mem_take hs)
  · exact (grants_any _).bind fun delta _ => hkeep _
  · refine (grants_any _).bind fun delta _ => (hslots _).bindNamed fun added => ?_
    refine grants_pure fun t hadded h => ?_
    rw [List.append_nil]
    exact List.forall_mem_append.2 ⟨h, hadded⟩
  · refine (grants_any _).bind fun delta _ => (grants_any _).bind fun count _ => ?_
    refine (hslots _).bindNamed fun locals => (grants_any _).bind fun height _ => ?_
    refine (hslots _).bindNamed fun stack => grants_pure fun t hstack hlocals _ => ?_
    exact List.forall_mem_append.2 ⟨hlocals, hstack⟩

/-- The frames that were read have names, and so has what the next one takes over. -/
structure FrameState.Named (t : LabelTable) (s : FrameState) : Prop where
  locals : ∀ k ∈ s.locals, k.Named t
  frames : ∀ (o : Nat) f, s.frames[o]? = some f → ∀ k ∈ f.locals ++ f.stack, k.Named t

/-- A frame keeps it that all labels of the frames are in the table. -/
theorem grants_readFrame_labels (m : Member) (s : FrameState) : Grants (readFrame p m s)
    fun t s' => s.Named t → s'.Named t := by
  unfold readFrame
  refine (grants_readFrameChange m s.locals).bindNamed fun change => ?_
  rcases change with ⟨delta, locals, stack⟩
  refine (grants_any _).bind fun _ _ => grants_pure fun t hchange h => ?_
  have hslots := hchange h.locals
  refine ⟨fun k hk => hslots k (List.mem_append_left _ hk), fun o f hf => ?_⟩
  rw [Std.TreeMap.getElem?_insert] at hf
  split_ifs at hf with hposition
  · cases hf
    exact hslots
  · exact h.frames o f hf

/-- The labels in the tables of a body are names. -/
structure Tables.Named (t : LabelTable) (tables : Tables) : Prop where
  locals : ∀ v ∈ tables.locals, ∀ l ∈ v.labels, t.Names l
  frames : ∀ (o : Nat) f, tables.frames[o]? = some f → ∀ k ∈ f.locals ++ f.stack, k.Named t

/-- An attribute keeps it that the labels of the variables and frames are names. -/
theorem grants_readAttribute_labels (tables : Tables) : Grants (readAttribute p method tables)
    fun t tables' => tables.Named t → tables'.Named t := by
  -- Lines have no labels of their own.
  have hline (tables : Tables) : Grants (readLine tables) fun t tables' =>
      tables.Named t → tables'.Named t := by
    unfold readLine
    refine (grants_any _).bind fun _ _ => (grants_any _).bind fun _ _ => ?_
    exact (grants_any _).bind fun _ _ => grants_pure fun _ h => ⟨h.locals, h.frames⟩
  unfold readAttribute
  refine (grants_any _).bind fun _ _ => (grants_any _).bind fun name _ => ?_
  refine (grants_any _).bind fun data _ => ?_
  split
  · exact grants_within ((grants_any _).bind fun count _ => grants_iterated hline _ tables)
  · split
    · refine grants_within ((grants_any _).bind fun count _ => ?_)
      refine (grants_repeated grants_readLocal _).bindNamed fun locals => ?_
      refine grants_pure fun t hlocals h => ⟨fun v hv => ?_, h.frames⟩
      rcases List.mem_append.1 hv with hv | hv
      · exact h.locals v hv
      · rcases hlocals.2 v hv with ⟨o, o', hstart, hstop, -⟩
        simp only [LocalVariable.labels, List.forall_mem_cons]
        exact ⟨⟨o, hstart⟩, ⟨o', hstop⟩, List.forall_mem_nil _⟩
    · split
      · refine grants_within ((grants_any _).bind fun count _ => ?_)
        refine (grants_ofExcept _).bind fun entry hentry => ?_
        refine (grants_iterated (P := fun t s => FrameState.Named t s)
          (fun s => grants_readFrame_labels method.member s) _ _).bindNamed fun s => ?_
        refine grants_pure fun t hs h => ⟨h.locals, (hs ⟨?_, h.frames⟩).frames⟩
        exact method.named_initialLocals hentry t
      · exact grants_pure fun t h => h

/-- Whatever a body that is read refers to has been given a label. -/
theorem grants_readBody_labels : Grants (readBody p method) fun t r =>
    LabelsNamed t (r.2.2.2.1.map Prod.snd) r.2.2.2.2.1 r.2.2.2.2.2 := by
  unfold readBody
  refine (grants_any _).bind fun maxStack _ => (grants_any _).bind fun maxLocals _ => ?_
  refine (grants_any _).bind fun length _ => (grants_any _).bind fun code _ => ?_
  refine (grants_within (grants_readInstructions_targets _ _)).bindNamed fun instructions => ?_
  refine (grants_any _).bind fun count _ => ?_
  refine (grants_repeated grants_readHandler_labels _).bindNamed fun handlers => ?_
  refine (grants_any _).bind fun attributes _ => ?_
  refine (grants_iterated (fun tables => grants_readAttribute_labels tables) _ _).bindNamed
    fun tables => grants_pure fun t htables hhandlers hcode => ?_
  -- There are no tables before the first attribute.
  have hnamed : tables.Named t := htables ⟨nofun, fun o f hf => by
    rw [Std.TreeMap.getElem?_emptyc] at hf
    cases hf⟩
  refine ⟨fun i hi => ?_, hhandlers.2, hnamed.locals, hnamed.frames⟩
  rcases List.mem_map.1 hi with ⟨x, hx, rfl⟩
  exact hcode (List.forall_mem_nil _) x hx

end Tables

/-- The labels of a body that was decoded are names. -/
theorem ReadAs.named {p : Pool} {method : MethodInfo} {data : Bytes} {b : Body} {t : LabelTable}
    {r : UInt16 × UInt16 × Nat × List (Nat × Instruction) × List Handler × Tables}
    (h : ReadAs p method data b t r) : ∀ l ∈ b.labels, t.Names l := by
  rcases h.run with ⟨c, hrun⟩
  have hnamed := grants_readBody_labels _ _ _ _ _ _ valid_empty hrun (extends_refl t)
  have hlayout := h.layout
  intro l hl
  rcases mem_labels.1 hl with ⟨i, hi, hl⟩ | ⟨g, hg, hl⟩ | ⟨v, hv, hl⟩
  · -- A mark that has labels is a frame, and it was read from a table.
    cases hpseudo : i.isPseudo with
    | true =>
        cases i with
        | frame f =>
            rcases hlayout.exists_frame hi with ⟨o, ho⟩
            exact hnamed.frames o f ho _ (mem_frameLabels.1 hl) l rfl
        | label l' | line n => cases hl
        | _ => cases hpseudo
    | false =>
        have hreal : i ∈ b.real := List.mem_filter.2 ⟨hi, by rw [hpseudo]; rfl⟩
        rw [hlayout.real_eq, List.map_map] at hreal
        refine hnamed.code i hreal l ?_
        cases i with
        | frame f => cases hpseudo
        | _ => exact hl
  · exact hnamed.handlers g (h.handlers ▸ hg) l hl
  · exact hnamed.locals v (h.locals ▸ hv) l hl

end Body

end JvmFold
