import JvmFold.Proofs.Body.Decoded
import JvmFold.Proofs.Body.Stability

/-!
# Encoding What Was Decoded

A body that was decoded has its labels, lines and frames where decoding has
woven them in: every label once, one frame at a position, and nothing but
labels behind the last instruction. That is all that is needed for it to be
given back when it is encoded and decoded again, as long as no dynamic constant
of two slots is loaded by its index and every count that is written has 16
bits.

The last condition is not about the bytes that the body was read from. A body
can have several tables of one kind, and frames that each add to the slots of
the frame before, so there can be more lines, names or slots than a single
count can say.

## Main definitions

* `Body.CountsFit`: A body with no more than what its counts can say.

## Theorems

* `Body.Layout.regular`: A body that was decoded is regular.
* `Body.decode_reencoded`: A body that was decoded and encoded again is given back.
-/

namespace JvmFold

/-- An instruction has its own operands in every pool that has grown. -/
theorem Instruction.Proper.mono {p q : Pool} {i : Instruction} (h : i.Proper p)
    (hg : Pool.Grows p q) : i.Proper q := by
  cases i with
  | ldc k =>
      cases k with
      | pool index =>
          rcases h with ⟨kind, reference, he⟩ | ⟨descriptor, he⟩ | ⟨bootstrap, nat, s, he, hs, hd⟩
          · exact .inl ⟨kind, reference, hg.entry he⟩
          · exact .inr (.inl ⟨descriptor, hg.entry he⟩)
          · exact .inr (.inr ⟨bootstrap, nat, s, hg.entry he, hg.nameAndType hs, hd⟩)
      | _ => exact h
  | _ => exact h

namespace Body

/-- What is written of the body with a count is no more than the count can say. -/
structure CountsFit (b : Body) : Prop where
  lines : (b.instructions.filterMap Instruction.line?).length ≤ 65535
  locals : b.locals.length ≤ 65535
  frames : ∀ f, .frame f ∈ b.instructions → f.locals.length ≤ 65535 ∧ f.stack.length ≤ 65535

section Woven

variable {labels : List (Nat × Label)} {tables : Tables} {f : Label → Label}
variable {code : List Placed} {stop : Nat}

/-- What entries are made of is found in the order of the instructions. -/
theorem map_snd_entries {γ : Type} (k : Instruction → Option γ) (placed : List Placed) :
    (entries k placed).map Prod.snd = (placed.map Placed.instruction).filterMap k := by
  unfold entries
  rw [List.map_filterMap, List.filterMap_map]
  refine List.filterMap_congr fun x _ => ?_
  rw [Option.map_map]
  exact congrFun Option.map_id (k x.instruction)

theorem entries_append {γ : Type} (k : Instruction → Option γ) (l l' : List Placed) :
    entries k (l ++ l') = entries k l ++ entries k l' :=
  List.filterMap_append

/-- The labels at an offset are those of the table. -/
theorem entries_labelsAt (labels : List (Nat × Label)) (o : Nat) :
    entries Instruction.label? (marked o (labelsAt labels o)) = labels.filter fun x => x.1 = o := by
  rw [entries_marked, labelsAt, List.filterMap_map, List.map_filterMap]
  refine (List.filterMap_congr fun x hx => ?_).trans List.filterMap_some
  have ho : x.1 = o := of_decide_eq_true (List.mem_filter.1 hx).2
  rw [← ho]
  rfl

/-- The labels that were woven in are those of the table. -/
theorem entries_label_woven (hcode : ∀ x ∈ code, x.instruction.isPseudo = false)
    (hsorted : (code.map Placed.pc ++ [stop]).Pairwise (· < ·))
    (hlabels : labels.Pairwise fun x y => x.1 < y.1)
    (hmem : ∀ x ∈ labels, x.1 ∈ code.map Placed.pc ++ [stop]) :
    entries Instruction.label? (woven labels tables f code stop) = labels := by
  have hreal (i : Instruction) (hi : i.isPseudo = false) : i.label? = none := by
    cases i <;> first | rfl | cases hi
  have htables (o : Nat) :
      entries Instruction.label? (marked o (tables.marksAt o).reverse) = [] := by
    rw [entries_marked, List.filterMap_eq_nil_iff.2, List.map_nil]
    intro i hi
    cases i with
    | label l => exact absurd hi label_not_mem_marksAt
    | _ => rfl
  -- The labels that were woven in are gathered offset by offset; the order of the table does the
  -- rest.
  have hoffsets : entries Instruction.label? (woven labels tables f code stop)
      = (code.map Placed.pc ++ [stop]).flatMap fun o => labels.filter fun x => x.1 = o := by
    clear hsorted hmem
    induction code with
    | nil =>
        change entries _ (marked stop (labelsAt labels stop)) = _
        rw [entries_labelsAt]
        exact (List.append_nil _).symm
    | cons x code ih =>
        rw [List.forall_mem_cons] at hcode
        have hx : entries Instruction.label? [{ x with instruction := x.instruction.relabel f }]
            = [] := by
          refine List.filterMap_cons_none ?_
          rw [hreal _ ((Instruction.isPseudo_relabel f _).trans hcode.1)]
          rfl
        have hrest := ih hcode.2
        unfold woven at hrest ⊢
        rw [List.flatMap_cons, List.append_assoc, entries_append, entries_append, hrest, hx,
          List.append_nil, marksBefore, marked, List.map_append]
        change entries _ (marked x.pc (labelsAt labels x.pc) ++
          marked x.pc (tables.marksAt x.pc).reverse) ++ _ = _
        rw [entries_append, entries_labelsAt, htables, List.append_nil]
        rfl
  rw [hoffsets]
  exact flatMap_filter hsorted (hlabels.imp Nat.le_of_lt) hmem

end Woven

section Layout

variable {p q : Pool} {method : MethodInfo} {b : Body} {t : LabelTable} {tables : Tables}
variable {code : List Placed} {stop : Nat}

/-- In ascending order, what is less comes first. -/
theorem idxOf_le_of_le {os : List Nat} (h : os.Pairwise (· < ·)) {o o' : Nat} (ho : o ∈ os)
    (ho' : o' ∈ os) (hle : o ≤ o') : os.idxOf o ≤ os.idxOf o' := by
  by_contra hlt
  have hlater := le_of_idxOf_le h ho' ho (by omega)
  have heq : o = o' := by omega
  rw [heq] at hlt
  exact hlt (Nat.le_refl _)

namespace Layout

/-- The instructions that were read are no marks. -/
theorem real_code (h : Layout p method b t tables code stop) :
    ∀ x ∈ code, x.instruction.isPseudo = false :=
  fun x hx => (h.genuine x hx).1

/-- The instructions of the body without the marks are those that it is made of. -/
theorem real_eq (h : Layout p method b t tables code stop) :
    b.real = code.map Placed.instruction := by
  unfold Body.real
  rw [h.instructions, filter_woven h.real_code]
  exact List.map_congr_left fun x _ => Instruction.relabel_id x.instruction

/-- The offsets are those of the instructions, and the end. -/
theorem offsets_eq (h : Layout p method b t tables code stop) :
    offsets code stop = code.map Placed.pc ++ [stop] := by
  unfold offsets
  rw [List.filter_eq_self.2 fun x hx => by rw [Placed.isReal, h.real_code x hx]; rfl]

/-- Marks that are woven in keep the order of the offsets. -/
theorem spaced_woven (h : Layout p method b t tables code stop) :
    Spaced 0 (woven t.toList tables id code stop) stop :=
  h.spaced.woven h.real_code

-- And add none.
theorem offsets_placed (h : Layout p method b t tables code stop) :
    offsets (woven t.toList tables id code stop) stop = offsets code stop :=
  offsets_woven h.real_code

/-- The labels of the body are those of the table, each placed once. -/
theorem placed_once (h : Layout p method b t tables code stop) :
    (b.instructions.filterMap Instruction.label?).Nodup := by
  have hlt := h.spaced.offsets_lt.1
  have hknown : ∀ x ∈ t.toList, x.1 ∈ offsets code stop := fun x hx =>
    h.known x.1 x.2 (Std.TreeMap.mem_toList_iff_getElem?_eq_some.1 hx)
  rw [h.offsets_eq] at hlt hknown
  rw [h.instructions, ← map_snd_entries, entries_label_woven h.real_code hlt (toList_lt t) hknown,
    List.Nodup, List.pairwise_map]
  refine (toList_lt t).imp_of_mem fun {x y} hx hy hxy heq => ?_
  have hget := Std.TreeMap.mem_toList_iff_getElem?_eq_some.1 hx
  have hget' := Std.TreeMap.mem_toList_iff_getElem?_eq_some.1 hy
  rw [← heq] at hget'
  have hsame := h.sound.inj _ _ _ hget hget'
  omega

/-- A label has a mark at its offset. -/
theorem mark_mem (h : Layout p method b t tables code stop) {o : Nat} {l : Label}
    (hl : t[o]? = some l) : ⟨.label l, 0, o⟩ ∈ woven t.toList tables id code stop :=
  mem_woven_of_mem_labels (Std.TreeMap.mem_toList_iff_getElem?_eq_some.2 hl)
    (h.offsets_eq ▸ h.known o l hl)

/-- A label is at the position of its offset. -/
theorem positionOf (h : Layout p method b t tables code stop) {o : Nat} {l : Label}
    (hl : t[o]? = some l) : b.positionOf l = (offsets code stop).idxOf o := by
  rw [h.spaced_woven.positionOf h.instructions (h.mark_mem hl) rfl fun y hy hlabel => ?_,
    h.offsets_placed]
  have hy' := mem_labels_of_mem_woven h.real_code hy hlabel
  exact h.sound.inj _ _ l (Std.TreeMap.mem_toList_iff_getElem?_eq_some.1 hy') hl

/-- The frames of the body by offset; there is one at most in front of every instruction. -/
theorem entries_frame (h : Layout p method b t tables code stop) :
    entries Instruction.frame? (woven t.toList tables id code stop)
      = (code.map Placed.pc).flatMap fun o => (tables.frames[o]?).toList.map (o, ·) := by
  rw [entries_woven h.real_code (fun _ => rfl) fun i hi => by cases i <;> first | rfl | cases hi]
  exact List.flatMap_congr fun o _ => by rw [filterMap_frame_marksAt]

/-- A line or a frame is in front of an instruction. -/
theorem attached (h : Layout p method b t tables code stop) :
    ∀ x ∈ counted 0 b.instructions,
      x.2.line?.isSome ∨ x.2.frame?.isSome → x.1 < b.real.length := by
  have hlength : b.real.length = code.length := by
    rw [h.real_eq, List.length_map]
  intro x hx hmark
  rw [h.instructions, h.spaced_woven.counted, h.offsets_placed, h.offsets_eq] at hx
  rcases List.mem_map.1 hx with ⟨y, hy, rfl⟩
  have hpc : y.pc ∈ code.map Placed.pc := by
    rcases List.mem_append.1 hy with hy | hy
    · rcases List.mem_flatMap.1 hy with ⟨z, hz, hy⟩
      rcases List.mem_append.1 hy with hy | hy
      · rw [(mem_marked hy).2]
        exact List.mem_map_of_mem hz
      · rw [List.mem_singleton.1 hy]
        exact List.mem_map.2 ⟨z, hz, rfl⟩
    · -- Behind the last instruction there are only labels.
      rcases List.mem_map.1 (mem_marked hy).1 with ⟨z, -, hz⟩
      rw [← hz] at hmark
      rcases hmark with hmark | hmark <;> cases hmark
  rw [hlength]
  change (code.map Placed.pc ++ [stop]).idxOf y.pc < _
  rw [List.idxOf_append_of_mem hpc]
  exact (List.idxOf_lt_length_iff.2 hpc).trans_eq (List.length_map _)

/-- The positions of the frames are those of their offsets. -/
theorem framePositions (h : Layout p method b t tables code stop) :
    ((counted 0 b.instructions).filterMap fun x => x.2.frame?.map fun _ => x.1)
      = (entries Instruction.frame? (woven t.toList tables id code stop)).map fun y =>
        (offsets code stop).idxOf y.1 := by
  have hcounted := congrArg (List.map Prod.fst)
    (h.spaced_woven.filterMap_counted Instruction.frame?)
  rw [← h.instructions, List.map_filterMap, List.map_map, h.offsets_placed] at hcounted
  simp only [Option.map_map, Function.comp_def] at hcounted
  exact hcounted

/-- There is one frame at a position. -/
theorem framed_once (h : Layout p method b t tables code stop) :
    ((counted 0 b.instructions).filterMap fun x => x.2.frame?.map fun _ => x.1).Nodup := by
  have hlt := h.spaced.offsets_lt.1
  rw [h.framePositions, h.entries_frame, List.map_flatMap, List.Nodup, List.pairwise_flatMap]
  rw [h.offsets_eq] at hlt ⊢
  constructor
  · intro o _
    cases tables.frames[o]? with
    | none => exact .nil
    | some f => exact List.pairwise_singleton _ _
  · refine (List.pairwise_append.1 hlt).1.imp_of_mem fun {o o'} ho ho' hoo x hx y hy hxy => ?_
    -- Frames at two offsets have as many instructions in front of them as those offsets.
    have hindex {o n : Nat} (hn : n ∈ ((tables.frames[o]?).toList.map (o, ·)).map
        fun y => (code.map Placed.pc ++ [stop]).idxOf y.1) :
        n = (code.map Placed.pc ++ [stop]).idxOf o := by
      rcases List.mem_map.1 hn with ⟨z, hz, rfl⟩
      rcases List.mem_map.1 hz with ⟨f, -, rfl⟩
      rfl
    rw [hindex hx, hindex hy, List.idxOf_inj (List.mem_append_left _ ho)] at hxy
    omega

/-- There are no more frames than instructions. -/
theorem length_frames_le (h : Layout p method b t tables code stop) :
    (b.instructions.filterMap Instruction.frame?).length ≤ b.real.length := by
  have hlt : ∀ n ∈ (counted 0 b.instructions).filterMap fun x => x.2.frame?.map fun _ => x.1,
      n < b.real.length := by
    intro n hn
    rcases List.mem_filterMap.1 hn with ⟨x, hx, hframe⟩
    rcases Option.map_eq_some_iff.1 hframe with ⟨f, hf, rfl⟩
    exact h.attached x hx (.inr (by rw [hf]; rfl))
  have hle := (h.framed_once.subperm fun n hn => List.mem_range.2 (hlt n hn)).length_le
  rw [h.framePositions, List.length_map, length_entries, ← h.instructions, List.length_range] at hle
  exact hle

/-- The range of a local variable does not stop before it starts. -/
theorem ranges (h : Layout p method b t tables code stop) :
    ∀ v ∈ b.locals, b.positionOf v.start ≤ b.positionOf v.stop := by
  intro v hv
  rcases h.fit.ranges v (h.locals ▸ hv) with ⟨o, o', hstart, hstop, hle⟩
  rw [h.positionOf hstart, h.positionOf hstop]
  exact idxOf_le_of_le h.spaced.offsets_lt.1 (h.known _ _ hstart) (h.known _ _ hstop) hle

/-- An instruction of the body has its own operands in every pool that has grown. -/
theorem proper (h : Layout p method b t tables code stop) (hg : Pool.Grows p q)
    (hloads : ∀ i ∈ b.instructions, i.LoadsOneSlot p) (hfit : b.CountsFit) :
    ∀ i ∈ b.instructions, i.Proper q := by
  intro i hi
  cases hpseudo : i.isPseudo with
  | true =>
      cases i with
      | label l | line n => trivial
      | frame f => exact hfit.frames f hi
      | _ => cases hpseudo
  | false =>
      have hreal : i ∈ b.real := List.mem_filter.2 ⟨hi, by rw [hpseudo]; rfl⟩
      rw [h.real_eq] at hreal
      rcases List.mem_map.1 hreal with ⟨x, hx, rfl⟩
      exact ((h.genuine x hx).2 (hloads _ hi)).mono hg

/-- A body that was decoded is regular, if there are no more instructions than can be written. -/
theorem regular (h : Layout p method b t tables code stop) (hg : Pool.Grows p q)
    (hloads : ∀ i ∈ b.instructions, i.LoadsOneSlot p) (hfit : b.CountsFit)
    (hreal : b.real.length ≤ 65535) : b.Regular q where
  proper := h.proper hg hloads hfit
  placed_once := h.placed_once
  framed_once := h.framed_once
  attached := h.attached
  ranges := h.ranges
  handlers_le := h.handlers_le
  locals_le := hfit.locals
  lines_le := hfit.lines
  frames_le := h.length_frames_le.trans hreal

/-- A frame of the body is the frame of an offset. -/
theorem exists_frame (h : Layout p method b t tables code stop) {f : Frame}
    (hf : .frame f ∈ b.instructions) : ∃ o : Nat, tables.frames[o]? = some f := by
  have hmem : f ∈ b.instructions.filterMap Instruction.frame? :=
    List.mem_filterMap.2 ⟨_, hf, rfl⟩
  rw [h.instructions, ← map_snd_entries, h.entries_frame] at hmem
  rcases List.mem_map.1 hmem with ⟨y, hy, rfl⟩
  rcases List.mem_flatMap.1 hy with ⟨o, -, hy⟩
  rcases List.mem_map.1 hy with ⟨g, hg, rfl⟩
  exact ⟨o, Option.mem_toList.1 hg⟩

/-- Frames come with the types that the method starts with. -/
theorem initialLocals (h : Layout p method b t tables code stop)
    (hframe : ∃ f, .frame f ∈ b.instructions) : ∃ entry, method.initialLocals = .ok entry := by
  rcases hframe with ⟨f, hf⟩
  rcases h.exists_frame hf with ⟨o, ho⟩
  exact h.fit.entry o f ho

end Layout

end Layout

section Reencoding

variable {p u v r : Pool} {method : MethodInfo} {b : Body} {data w : Bytes}

/-- There is an offset for each instruction, and one for the end. -/
theorem Passes.length_offsets {member : Member} (s : Passes b member p) :
    (offsets s.placed s.length).length = b.real.length + 1 := by
  unfold offsets Body.real
  rw [← s.map_instruction, List.filter_map, List.length_append, List.length_map, List.length_map]
  rfl

/-- The code has no more instructions than bytes. -/
theorem Passes.length_real_le {member : Member} (s : Passes b member p) :
    b.real.length ≤ s.length := by
  have hlt := List.pairwise_append.1 s.spaced.offsets_lt.1
  have hnodup : ((s.placed.filter Placed.isReal).map Placed.pc).Nodup :=
    hlt.1.imp fun h => Nat.ne_of_lt h
  have hle := (hnodup.subperm fun o ho => List.mem_range.2
    (hlt.2.2 o ho s.length (List.mem_singleton_self _))).length_le
  have hlength := s.length_offsets
  unfold offsets at hlength
  rw [List.length_append, List.length_singleton] at hlength
  rw [List.length_range] at hle
  omega

/-- All labels that the body refers to are placed. -/
def LabelsPlaced (b : Body) : Prop :=
  ∀ l ∈ b.labels, b.positionOf l ≤ b.real.length

/-- A body that was decoded and is encoded again is given back. All its labels are placed, or it
    could not be encoded. -/
theorem decode_reencoded (hdecode : decode data p method = .ok b)
    (hloads : ∀ i ∈ b.instructions, i.LoadsOneSlot p) (hfit : b.CountsFit) (hu : u.Consistent)
    (hpu : Pool.Grows p u) (hencode : encode b method.member u = .ok w v)
    (hw : w.length < 4294967296) (hvr : Pool.Grows v r) :
    ∃ b', decode w r method = .ok b' ∧ b'.view = b.view ∧ b.LabelsPlaced := by
  rcases exists_layout hdecode with ⟨t, tables, code, stop, hlayout⟩
  rcases encode_passes hencode with ⟨s, -, hle, -⟩
  have hregular : b.Regular u :=
    hlayout.regular hpu hloads hfit (s.length_real_le.trans hle)
  rcases readBody_yields hu hregular hlayout.initialLocals hencode hw with ⟨s', hread, hlabels⟩
  rcases s'.decode_eq hread with ⟨t', ht', hgiven, hnames⟩
  refine ⟨_, decode_of_grows hvr hgiven,
    s'.view_given (s'.canonical_renamed hregular ht' hnames hlabels) hregular, fun l hl => ?_⟩
  -- A label that is found has a mark, so its place is within the body.
  rw [hregular.positionOf s' (hlabels l hl)]
  rcases exists_of_resolve (hlabels l hl) with ⟨k, x, hx, -, hpc⟩
  have hmem : x.pc ∈ offsets s'.placed s'.length := s'.spaced.mem_offsets (List.mem_of_getElem? hx)
  have hlt := List.idxOf_lt_length_iff.2 hmem
  rw [s'.length_offsets, hpc] at hlt
  exact Nat.le_of_lt_succ hlt

end Reencoding

end Body

end JvmFold
