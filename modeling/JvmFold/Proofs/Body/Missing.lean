import JvmFold.Proofs.Body.RoundTrip

/-!
# What Encoding Misses

Encoding looks up the offset of every label that a branch, a handler, the range
of a local variable or a frame refers to, and fails if one has no mark. Nothing
else that can go wrong is reported in that way, so a report of a label that is
not placed names one that the body refers to and that has no mark.

## Main definitions

* `Error.missing?`: The label that an error reports.
* `Misses`: A computation that misses no label but those of a kind.
* `Pool.Edit.Misses`: The same of a computation that adds to a pool.
* `Body.Unplaced`: A label that the body refers to and that has no mark.

## Theorems

* `Body.misses_emit`: An instruction misses no label but its targets.
* `Body.unplaced_of_encode`: A label that encoding misses has no mark.
-/

namespace JvmFold

/-- The label of a method that an error reports as not placed. -/
def Error.missing? : Error → Option (Nat × Member)
  | .malformed (.labelNotPlaced l m) => some (l, m)
  | _ => none

/-- The computation does not report a label of a method that is not placed unless it is one of a
    kind. -/
class Misses {α : Type} (P : Nat → Member → Prop) (x : Except Error α) : Prop where
  only : ∀ {l m}, x = .error (.malformed (.labelNotPlaced l m)) → P l m

/-- The computation does not report a label of a method that is not placed unless it is one of a
    kind, whatever pool it adds to. -/
class Pool.Edit.Misses {α : Type} (P : Nat → Member → Prop) (x : Pool.Edit α) : Prop where
  only : ∀ {p q l m}, x p = .error (.malformed (.labelNotPlaced l m)) q → P l m

section Rules

variable {α β : Type} {P : Nat → Member → Prop}

instance (a : α) : Misses P (.ok a) where
  only h := by cases h

instance (a : α) : Misses P (pure a : Except Error α) where
  only h := by cases h

/-- An error of another kind misses no label. -/
theorem misses_error {e : Error} (h : e.missing? = none) :
    Misses P (.error e : Except Error α) where
  only he := by
    cases he
    cases h

/-- Two parts miss only what one of them misses. -/
theorem Misses.bind {x : Except Error α} {f : α → Except Error β} (hx : Misses P x)
    (hf : ∀ a, Misses P (f a)) : Misses P (x >>= f) where
  only h := by
    cases x with
    | ok a => exact (hf a).only h
    | error e => exact hx.only (congrArg Except.error (Except.error.inj h))

instance {x : Except Error α} {f : α → Except Error β} [hx : Misses P x]
    [hf : ∀ a, Misses P (f a)] : Misses P (x >>= f) :=
  hx.bind hf

-- So does a list of parts.
theorem misses_mapM {f : α → Except Error β} {l : List α} (h : ∀ a ∈ l, Misses P (f a)) :
    Misses P (l.mapM f) := by
  induction l with
  | nil => exact inferInstanceAs (Misses P (pure []))
  | cons a l ih =>
      have ha := h a List.mem_cons_self
      have hl := ih fun a' ha' => h a' (List.mem_cons_of_mem a ha')
      rw [List.mapM_cons]
      infer_instance

namespace Pool.Edit

instance (a : α) : Misses P (pure a : Edit α) where
  only h := by cases h

theorem misses_throw {e : Error} (h : e.missing? = none) :
    Misses P (throw e : Edit α) where
  only he := by
    cases he
    cases h

/-- A computation misses what its first part does, and what the rest does with what that answers. -/
theorem Misses.bind {x : Edit α} {f : α → Edit β} (hx : Misses P x)
    (hf : ∀ p a q, x p = .ok a q → Misses P (f a)) : Misses P (x >>= f) where
  only {p q l m} h := by
    change EStateM.bind x f p = _ at h
    unfold EStateM.bind at h
    cases hrun : x p with
    | ok a r =>
        rw [hrun] at h
        exact (hf p a r hrun).only h
    | error e r =>
        rw [hrun] at h
        rw [(EStateM.Result.error.inj h).1] at hrun
        exact hx.only hrun

instance {x : Edit α} {f : α → Edit β} [hx : Misses P x] [hf : ∀ a, Misses P (f a)] :
    Misses P (x >>= f) :=
  hx.bind fun _ a _ _ => hf a

theorem misses_mapM {f : α → Edit β} {l : List α} (h : ∀ a ∈ l, Misses P (f a)) :
    Misses P (l.mapM f) := by
  induction l with
  | nil => exact inferInstanceAs (Misses P (pure []))
  | cons a l ih =>
      have ha := h a List.mem_cons_self
      have hl := ih fun a' ha' => h a' (List.mem_cons_of_mem a ha')
      rw [List.mapM_cons]
      infer_instance

instance {f : α → Edit β} [hf : ∀ a, Misses P (f a)] (l : List α) : Misses P (l.mapM f) :=
  misses_mapM fun a _ => hf a

instance : Misses P (get : Edit Pool) where
  only h := by cases h

instance (e : PoolEntry) : Misses P (push e) where
  only {p q l m} h := by
    unfold push at h
    split at h
    · cases h
    · dsimp only at h
      by_cases hsize : 65535 < p.size + if e.isWide then 2 else 1
      · rw [if_pos hsize] at h
        cases h
      · rw [if_neg hsize] at h
        cases h

instance (text : String) : Misses P (addUtf8 text) where
  only h := by
    unfold addUtf8 at h
    split at h
    · cases h
    · dsimp only at h
      split at h
      · cases h
      · exact Misses.only h

instance (name : String) : Misses P (addClass name) := by
  unfold addClass
  infer_instance

instance (name descriptor : String) : Misses P (addNameAndType name descriptor) := by
  unfold addNameAndType
  infer_instance

instance (m : Member) : Misses P (addField m) := by
  unfold addField
  infer_instance

instance (m : Member) (isInterface : Bool) : Misses P (addMethod m isInterface) := by
  unfold addMethod
  infer_instance

instance (bootstrap : UInt16) (name descriptor : String) :
    Misses P (addInvokeDynamic bootstrap name descriptor) := by
  unfold addInvokeDynamic
  infer_instance

instance (c : Constant) : Misses P (addConstant c) := by
  cases c with
  | int v | float b | long v | double b => exact inferInstanceAs (Misses P (push _))
  | string t => exact inferInstanceAs (Misses P (addUtf8 t >>= fun i => push (.string i)))
  | classRef n => exact inferInstanceAs (Misses P (addClass n))
  | pool index => exact inferInstanceAs (Misses P (pure index))

end Pool.Edit

theorem FieldType.misses_parseFrom (cs : List Char) : Misses P (parseFrom cs) := by
  -- The induction is on the text, since an array type reads the rest of it.
  induction cs with
  | nil => exact misses_error rfl
  | cons c rest ih =>
      rw [parseFrom]
      split
      · exact ih.bind fun x => inferInstanceAs (Misses P (pure _))
      · split
        · unfold parseName
          dsimp only
          split
          · exact misses_error rfl
          · split
            · exact misses_error rfl
            · infer_instance
        · split
          · infer_instance
          · exact misses_error rfl

instance (descriptor : String) : Misses P (FieldType.parse descriptor) := by
  unfold FieldType.parse
  refine (FieldType.misses_parseFrom _).bind fun x => ?_
  split
  · infer_instance
  · exact misses_error rfl

theorem MethodType.misses_parseParameters (whole : String) (acc : List FieldType)
    (cs : List Char) : Misses P (parseParameters whole acc cs) := by
  fun_induction parseParameters whole acc cs with
  | case1 => exact misses_error rfl
  | case2 => infer_instance
  | case3 acc c rest hc e hparse =>
      constructor
      intro l m he
      exact (FieldType.misses_parseFrom _).only
        (hparse.trans (congrArg Except.error (Except.error.inj he)))
  | case4 acc c rest hc t rest' hparse ih => exact ih

instance (descriptor : String) : Misses P (MethodType.parse descriptor) := by
  unfold MethodType.parse
  split
  · refine (MethodType.misses_parseParameters _ _ _).bind fun x => ?_
    dsimp only
    split <;> infer_instance
  · exact misses_error rfl

end Rules

namespace Body

variable {P : Nat → Member → Prop} {offsetOf : Label → Except Error Nat} {method : Member}

instance {α : Type} (x : Except Error α) [hx : Misses P x] : Pool.Edit.Misses P (liftEdit x) where
  only h := by
    cases x with
    | ok a => cases h
    | error e => exact hx.only (congrArg Except.error (EStateM.Result.error.inj h).1)

instance (i : Instruction) : Pool.Edit.Misses P (poolIndex i) := by
  cases i <;> (unfold poolIndex; infer_instance)

/-- An instruction misses no label but its targets. -/
theorem misses_emit {pool : Pool} {x : Placed}
    (h : ∀ l ∈ x.instruction.targets, Misses P (offsetOf l)) :
    Misses P (emit pool method offsetOf x) := by
  rcases x with ⟨i, index, pc⟩
  -- All targets are looked up in the same way.
  have hbranch (l : Label) (hl : l ∈ i.targets) :
      Misses P (offsetOf l >>= fun o => pure ((o : Int) - pc)) :=
    (h l hl).bind fun _ => inferInstance
  unfold emit
  dsimp only
  cases i with
  | label l | line n | frame f | simple op | newArray kind | var op index | typed op name
  | field op m | invokeDynamic bootstrap name descriptor | ldc c | multiNewArray name n =>
      infer_instance
  | push op v | iinc index delta =>
      dsimp only
      split <;> infer_instance
  | invoke op m isInterface =>
      dsimp only
      split <;> infer_instance
  | jump op target =>
      refine (hbranch target List.mem_cons_self).bind fun displacement => ?_
      split
      · infer_instance
      · split
        · infer_instance
        · exact misses_error rfl
  | tableSwitch default low high targets =>
      refine (hbranch default List.mem_cons_self).bind fun displacement => ?_
      refine (misses_mapM fun l hl => hbranch l ?_).bind fun _ => inferInstance
      exact List.mem_cons_of_mem _ hl
  | lookupSwitch default pairs =>
      refine (hbranch default List.mem_cons_self).bind fun displacement => ?_
      refine (misses_mapM fun pair hpair => ?_).bind fun _ => inferInstance
      refine (hbranch pair.2 ?_).bind fun _ => inferInstance
      exact List.mem_cons_of_mem _ (List.mem_map_of_mem hpair)

/-- A handler misses no label but its own three. -/
theorem misses_handlerBytes {g : Handler} (h : ∀ l ∈ g.labels, Misses P (offsetOf l)) :
    Pool.Edit.Misses P (handlerBytes offsetOf g) := by
  simp only [Handler.labels, List.forall_mem_cons] at h
  rcases h with ⟨hstart, hstop, htarget, -⟩
  unfold handlerBytes
  cases g.catchType <;> infer_instance

/-- A local variable misses no label but the two of its range. -/
theorem misses_localBytes {v : LocalVariable} (h : ∀ l ∈ v.labels, Misses P (offsetOf l)) :
    Pool.Edit.Misses P (localBytes offsetOf v) := by
  simp only [LocalVariable.labels, List.forall_mem_cons] at h
  rcases h with ⟨hstart, hstop, -⟩
  unfold localBytes
  infer_instance

/-- A frame entry misses a label only if it is an uninitialized one. -/
theorem misses_slotBytes {s : SlotType} (h : ∀ l, s = .uninitialized l → Misses P (offsetOf l)) :
    Pool.Edit.Misses P (slotBytes offsetOf s) := by
  cases s with
  | uninitialized l =>
      have hl := h l rfl
      unfold slotBytes
      infer_instance
  | _ =>
      unfold slotBytes
      infer_instance

/-- A frame misses only labels of its entries. -/
theorem misses_frameBytes {f : Frame} (h : ∀ l ∈ frameLabels f, Misses P (offsetOf l))
    (last : Option Nat) (pc : Nat) : Pool.Edit.Misses P (frameBytes offsetOf last pc f) := by
  have hslot (s : SlotType) (hs : s ∈ f.locals ++ f.stack) :
      Pool.Edit.Misses P (slotBytes offsetOf s) :=
    misses_slotBytes fun l hl => h l (mem_frameLabels.2 (hl ▸ hs))
  have hlocals := Pool.Edit.misses_mapM fun s hs => hslot s (List.mem_append_left _ hs)
  have hstack := Pool.Edit.misses_mapM fun s hs => hslot s (List.mem_append_right _ hs)
  unfold frameBytes
  infer_instance

/-- The frames that are written are among the marks. -/
theorem frame_mem_of_frameEntries {placed : List Placed} {x : Nat × Frame}
    (h : x ∈ frameEntries placed) : .frame x.2 ∈ placed.map Placed.instruction := by
  -- What holds of the entries at every step of the fold.
  let Kept (acc : List (Nat × Frame)) : Prop :=
    ∀ x ∈ acc, .frame x.2 ∈ placed.map Placed.instruction
  have hkept : Kept (placed.foldl addFrameEntry []) := by
    refine List.foldlRecOn (motive := Kept) _ _ (List.forall_mem_nil _) fun acc hacc y hy => ?_
    have hmem := List.mem_map_of_mem (f := Placed.instruction) hy
    unfold addFrameEntry
    split
    next f last g rest hf =>
      rw [hf] at hmem
      have hrest := (List.forall_mem_cons.1 hacc).2
      split
      · exact List.forall_mem_cons.2 ⟨hmem, hrest⟩
      · exact List.forall_mem_cons.2 ⟨hmem, hacc⟩
    next f hf =>
      rw [hf] at hmem
      exact List.forall_mem_singleton.2 hmem
    · exact hacc
  exact hkept x (List.mem_reverse.1 h)

theorem misses_framesBytes {frames : List (Nat × Frame)}
    (h : ∀ x ∈ frames, ∀ l ∈ frameLabels x.2, Misses P (offsetOf l)) :
    Pool.Edit.Misses P (framesBytes offsetOf frames) := by
  unfold framesBytes
  refine Pool.Edit.misses_mapM fun x hx => ?_
  exact misses_frameBytes (h x.2 (List.of_mem_zip hx).2) _ _

instance (name : String) (contents : Bytes) :
    Pool.Edit.Misses P (attributeBytes name contents) := by
  unfold attributeBytes
  infer_instance

/-- The attributes of a body miss only labels of the variables and the frames. -/
theorem misses_attributes {placed : List Placed} {locals : List LocalVariable}
    (hlocals : ∀ v ∈ locals, ∀ l ∈ v.labels, Misses P (offsetOf l))
    (hframes : ∀ x ∈ frameEntries placed, ∀ l ∈ frameLabels x.2, Misses P (offsetOf l)) :
    Pool.Edit.Misses P (attributes offsetOf placed locals) := by
  have hnames := Pool.Edit.misses_mapM fun v hv => misses_localBytes (hlocals v hv)
  have hentries := misses_framesBytes hframes
  have hoptional (isEmpty : Bool) (m : Pool.Edit Bytes) [Pool.Edit.Misses P m] :
      Pool.Edit.Misses P (optional isEmpty m) := by
    unfold optional
    split <;> infer_instance
  rw [attributes_eq]
  infer_instance

/-- The body refers to the label, which has no mark. -/
structure Unplaced (b : Body) (l : Label) : Prop where
  referred : l ∈ b.labels
  unmarked : .label l ∉ b.instructions

/-- A label that has a mark has an offset. -/
theorem mem_labelOffsets {l : Label} {placed : List Placed}
    (h : .label l ∈ placed.map Placed.instruction) : l ∈ labelOffsets placed := by
  -- The table is filled from the front, and an entry stays in it.
  induction placed using List.reverseRecOn with
  | nil => cases h
  | append_singleton placed x ih =>
      rw [List.map_append, List.mem_append] at h
      unfold labelOffsets at ih ⊢
      rw [List.foldl_append, List.foldl_cons, List.foldl_nil]
      rcases h with h | h
      · split
        · exact Std.HashMap.mem_insert.2 (.inr (ih h))
        · exact ih h
      · rw [← List.mem_singleton.1 h]
        exact Std.HashMap.mem_insert_self

/-- A label of the body that is not found has no mark in it. -/
theorem misses_resolve {b : Body} {placed : List Placed} {l : Label}
    (hplaced : placed.map Placed.instruction = b.instructions) (hl : l ∈ b.labels) :
    Misses (fun n m => m = method ∧ b.Unplaced ⟨n⟩) (resolve method (labelOffsets placed) l) := by
  constructor
  intro n m h
  unfold resolve at h
  split at h
  · cases h
  next hnone =>
    cases h
    refine ⟨rfl, hl, fun hmark => ?_⟩
    rw [← hplaced] at hmark
    have hmem := mem_labelOffsets hmark
    rw [Std.HashMap.mem_iff_isSome_getElem?, hnone] at hmem
    cases hmem

/-- A label that encoding misses has no mark. -/
theorem unplaced_of_encode {b : Body} {p q : Pool} {l : Nat} {m : Member}
    (h : encode b method p = .error (.malformed (.labelNotPlaced l m)) q) :
    m = method ∧ b.Unplaced ⟨l⟩ := by
  have hindexed : Pool.Edit.Misses (fun n m => m = method ∧ b.Unplaced ⟨n⟩)
      (indexed b.instructions) := by
    unfold indexed
    infer_instance
  have hmisses : Pool.Edit.Misses (fun n m => m = method ∧ b.Unplaced ⟨n⟩) (encode b method) := by
    refine hindexed.bind fun u indices v hindices => ?_
    have hplaced : (place indices).1.map Placed.instruction = b.instructions := by
      have hmap := congrArg (List.map Prod.fst) (place_laid indices).2
      rw [List.map_map, map_fst_of_indexed hindices] at hmap
      exact hmap
    have hmarked {x : Placed} (hx : x ∈ (place indices).1) : x.instruction ∈ b.instructions := by
      rw [← hplaced]
      exact List.mem_map_of_mem hx
    -- A label without an offset has no mark, and every label that is looked up is one of the body.
    have hoffset (l : Label) (hl : l ∈ b.labels) : Misses _ _ :=
      @misses_resolve method b _ l hplaced hl
    have hlarge : Pool.Edit.Misses (fun n m => m = method ∧ b.Unplaced ⟨n⟩)
        (throw (.codeTooLarge method) : Pool.Edit PUnit) := Pool.Edit.misses_throw rfl
    have hcode (pool : Pool) := misses_mapM fun x hx => @misses_emit _ _ method pool x fun l hl =>
      hoffset l (mem_labels.2 (.inl ⟨_, hmarked hx, mem_instructionLabels hl⟩))
    have hhandlers := Pool.Edit.misses_mapM fun g hg => misses_handlerBytes fun l hl =>
      hoffset l (mem_labels.2 (.inr (.inl ⟨g, hg, hl⟩)))
    have hattributes := misses_attributes
      (fun v hv l hl => hoffset l (mem_labels.2 (.inr (.inr ⟨v, hv, hl⟩))))
      (fun x hx l hl => hoffset l (mem_labels.2
        (.inl ⟨.frame x.2, hplaced ▸ frame_mem_of_frameEntries hx, hl⟩)))
    dsimp only
    split <;> infer_instance
  exact hmisses.only h

end Body

end JvmFold
