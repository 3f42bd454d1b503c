import JvmFold.Proofs.Body.Alignment
import JvmFold.Proofs.Body.Weaving

/-!
# Decoding What Was Encoded

A body that is encoded and decoded says what it said before. Its labels get
other names, and several labels of one position become one, so the two bodies
are compared by what they say with positions in place of labels.

The proof follows the bytes. Everything that was written is read back with the
offset of each label in place of the label, and offsets get new names while
they are read. An offset that came up has a name, and its mark is woven in at
that offset. So the old label and the new one are at the same position.

## Main definitions

* `Body.Regular`: What a body has to be like to be given back.

## Theorems

* `Body.readBody_yields`: What is read from the bytes of a body.
* `Body.decode_encode`: Decoding gives back what was encoded.
-/

namespace JvmFold

namespace Body

/-- A body whose instructions have operands of their own kind, whose marks are where they have an
    effect, and whose tables can be counted. -/
structure Regular (p : Pool) (b : Body) : Prop where
  /-- Every instruction has operands of its own kind. -/
  proper : ∀ i ∈ b.instructions, i.Proper p
  /-- No label is placed twice. -/
  placed_once : (b.instructions.filterMap Instruction.label?).Nodup
  /-- There is one frame at a position. -/
  framed_once : ((counted 0 b.instructions).filterMap fun x => x.2.frame?.map fun _ => x.1).Nodup
  /-- A line or frame has an instruction behind it. -/
  attached : ∀ x ∈ counted 0 b.instructions,
    x.2.line?.isSome ∨ x.2.frame?.isSome → x.1 < b.real.length
  /-- A local variable does not stop before it starts. -/
  ranges : ∀ v ∈ b.locals, b.positionOf v.start ≤ b.positionOf v.stop
  handlers_le : b.handlers.length ≤ 65535
  locals_le : b.locals.length ≤ 65535
  lines_le : (b.instructions.filterMap Instruction.line?).length ≤ 65535
  frames_le : (b.instructions.filterMap Instruction.frame?).length ≤ 65535

section Entries

variable {pc stop : Nat} {placed : List Placed}

/-- The line numbers are entries like the frames. -/
theorem lineEntries_eq (placed : List Placed) :
    lineEntries placed = entries Instruction.line? placed := by
  unfold lineEntries entries
  refine List.filterMap_congr fun x _ => ?_
  cases x.instruction <;> rfl

theorem frame?_eq_some {i : Instruction} {f : Frame} : i.frame? = some f ↔ i = .frame f := by
  cases i <;> simp [Instruction.frame?]

/-- A frame more, in front of those before it; it takes the place of one at its offset. -/
def addFrameEntry (acc : List (Nat × Frame)) (x : Placed) : List (Nat × Frame) :=
  match x.instruction, acc with
  | .frame f, (last, g) :: rest =>
    if last = x.pc then (x.pc, f) :: rest else (x.pc, f) :: (last, g) :: rest
  | .frame f, [] => [(x.pc, f)]
  | _, _ => acc

/-- Where no offset has two frames, each of them is kept. -/
theorem foldl_addFrameEntry (h : (entries Instruction.frame? placed).Pairwise fun x y => x.1 < y.1)
    (acc : List (Nat × Frame))
    (hacc : ∀ x ∈ acc.head?, ∀ y ∈ entries Instruction.frame? placed, x.1 < y.1) :
    placed.foldl addFrameEntry acc = (entries Instruction.frame? placed).reverse ++ acc := by
  induction placed generalizing acc with
  | nil => rfl
  | cons x placed ih =>
      rw [List.foldl_cons]
      cases hx : x.instruction.frame? with
      | none =>
          have hentries : entries Instruction.frame? (x :: placed)
              = entries Instruction.frame? placed :=
            List.filterMap_cons_none (by rw [hx]; rfl)
          have hstep : addFrameEntry acc x = acc := by
            unfold addFrameEntry
            split
            next hf =>
              rw [hf] at hx
              cases hx
            next hf =>
              rw [hf] at hx
              cases hx
            · rfl
          rw [hentries] at h hacc ⊢
          rw [hstep]
          exact ih h acc hacc
      | some f =>
          have hentries : entries Instruction.frame? (x :: placed)
              = (x.pc, f) :: entries Instruction.frame? placed :=
            List.filterMap_cons_some (by rw [hx]; rfl)
          have hstep : addFrameEntry acc x = (x.pc, f) :: acc := by
            unfold addFrameEntry
            rw [frame?_eq_some.mp hx]
            cases acc with
            | nil => rfl
            | cons y acc =>
                -- Frames are apart, so the last one is not replaced.
                have hlt : y.1 < x.pc := by
                  refine hacc y rfl (x.pc, f) ?_
                  rw [hentries]
                  exact List.mem_cons_self
                exact if_neg (Nat.ne_of_lt hlt)
          rw [hentries] at h hacc ⊢
          rw [List.pairwise_cons] at h
          rw [hstep, ih h.2]
          · simp
          · intro y hy
            cases hy
            exact h.1

/-- Frames at different offsets are all kept. -/
theorem frameEntries_eq (h : (entries Instruction.frame? placed).Pairwise fun x y => x.1 < y.1) :
    frameEntries placed = entries Instruction.frame? placed := by
  change (placed.foldl addFrameEntry []).reverse = _
  rw [foldl_addFrameEntry h [] nofun, List.append_nil, List.reverse_reverse]

end Entries

section ReadBody

open Decode

variable {b : Body} {p q : Pool} {method : MethodInfo} {w : Bytes}

namespace Passes

/-- The offsets of instructions, and the end of the code. -/
def Known (s : Passes b method.member p) (o : Nat) : Prop :=
  o ∈ offsets s.placed s.length

/-- The name that the label gets if offsets get the given names. -/
def renamed (s : Passes b method.member p) (name : Nat → Label) (l : Label) : Label :=
  name (offset s.offsetOf l)

/-- What is read from the bytes of a body, if offsets get the given names. -/
def contents (s : Passes b method.member p) (name : Nat → Label) :
    UInt16 × UInt16 × Nat × List (Nat × Instruction) × List Handler × Tables :=
  (b.maxStack, b.maxLocals, s.length,
    (reals s.placed).map fun x => (x.pc, x.instruction.relabel (s.renamed name)),
    b.handlers.map (Handler.relabel (s.renamed name)),
    tabulated s.offsetOf s.placed b.locals name {})

/-- Every label of the body is found at its offset. -/
theorem resolves (s : Passes b method.member p) (hle : s.length ≤ 65535) :
    Resolves s.Known s.offsetOf := by
  intro l o ho
  rcases exists_of_resolve ho with ⟨k, x, hx, _, rfl⟩
  have hmem : x ∈ s.placed := List.mem_of_getElem? hx
  exact ⟨s.spaced.mem_offsets hmem, Nat.le_trans (s.spaced.le.2 x hmem).2 hle⟩

theorem proper (s : Passes b method.member p) (h : ∀ i ∈ b.instructions, i.Proper p) :
    ∀ x ∈ s.placed, x.instruction.Proper p :=
  fun _ hx => h _ (s.mem_instructions hx)

end Passes

/-- There are as many entries as instructions that give one. -/
theorem length_entries {γ : Type} (k : Instruction → Option γ) (placed : List Placed) :
    (entries k placed).length = ((placed.map Placed.instruction).filterMap k).length := by
  unfold entries
  induction placed with
  | nil => rfl
  | cons x placed ih => cases hk : k x.instruction <;> simp [hk, ih]

/-- In ascending order, what comes first is less. -/
theorem le_of_idxOf_le {os : List Nat} (h : os.Pairwise (· < ·)) {o o' : Nat} (ho : o ∈ os)
    (ho' : o' ∈ os) (hle : os.idxOf o ≤ os.idxOf o') : o ≤ o' := by
  have hlt := List.idxOf_lt_length_iff.mpr ho
  have hlt' := List.idxOf_lt_length_iff.mpr ho'
  rcases Nat.lt_or_eq_of_le hle with hidx | hidx
  · have hpair := List.pairwise_iff_getElem.mp h _ _ hlt hlt' hidx
    rw [List.getElem_idxOf hlt, List.getElem_idxOf hlt'] at hpair
    exact Nat.le_of_lt hpair
  · exact Nat.le_of_eq (List.idxOf_inj ho |>.mp hidx)

namespace Regular

/-- The position of a label by its offset. -/
theorem positionOf (hb : b.Regular p) (s : Passes b method.member p) {l : Label} {o : Nat}
    (h : s.offsetOf l = .ok o) : b.positionOf l = (offsets s.placed s.length).idxOf o := by
  rcases exists_of_resolve h with ⟨k, x, hx, hlabel, rfl⟩
  have hmem : x ∈ s.placed := List.mem_of_getElem? hx
  refine s.spaced.positionOf s.map_instruction.symm hmem hlabel fun y hy hlabel' => ?_
  have honce := hb.placed_once
  rw [← s.map_instruction, List.filterMap_map, List.Nodup, List.pairwise_filterMap] at honce
  -- Two marks of one label would be two instructions, and the body has it once.
  by_contra hne
  have hxy : y ≠ x := fun heq => hne (congrArg Placed.pc heq)
  have : Std.Symm fun y z : Placed => ∀ a, (Instruction.label? ∘ Placed.instruction) y = some a →
      ∀ c, (Instruction.label? ∘ Placed.instruction) z = some c → a ≠ c :=
    ⟨fun _ _ hyz a ha c hc hac => hyz c hc a ha hac.symm⟩
  refine honce.forall hy hmem hxy l ?_ l ?_ rfl
  · rw [Function.comp_apply, hlabel']
    rfl
  · rw [Function.comp_apply, hlabel]
    rfl

/-- Frames are at different offsets. -/
theorem frames_lt (hb : b.Regular p) (s : Passes b method.member p) :
    (entries Instruction.frame? s.placed).Pairwise fun x y => x.1 < y.1 := by
  have honce : ((entries Instruction.frame? s.placed).map fun y =>
      (offsets s.placed s.length).idxOf y.1).Nodup := by
    have hmap := congrArg (List.map Prod.fst)
      (s.spaced.filterMap_counted (Instruction.frame?))
    rw [s.map_instruction, List.map_filterMap, List.map_map] at hmap
    have hb' := hb.framed_once
    simp only [Option.map_map, Function.comp_def] at hmap hb'
    rw [hmap] at hb'
    exact hb'
  rw [List.Nodup, List.pairwise_map] at honce
  refine (honce.and (s.spaced.entries_pairwise _)).imp fun {x y} ⟨hne, hle⟩ => ?_
  exact Nat.lt_of_le_of_ne hle fun heq => hne (by rw [heq])

/-- A line or frame is at the offset of an instruction. -/
theorem mem_reals (hb : b.Regular p) (s : Passes b method.member p) {γ : Type}
    {k : Instruction → Option γ}
    (hk : ∀ i, (k i).isSome → i.line?.isSome ∨ i.frame?.isSome) :
    ∀ y ∈ entries k s.placed, y.1 ∈ (reals s.placed).map Placed.pc := by
  intro y hy
  rcases mem_entries.mp hy with ⟨x, hx, hkx, hpc⟩
  have hcounted : ((offsets s.placed s.length).idxOf x.pc, x.instruction)
      ∈ counted 0 b.instructions := by
    rw [← s.map_instruction, s.spaced.counted]
    exact List.mem_map_of_mem hx
  have hlt := hb.attached _ hcounted (hk _ (by rw [hkx]; rfl))
  have hreal : b.real.length = ((reals s.placed).map Placed.pc).length := by
    unfold Body.real
    rw [← s.map_instruction, List.filter_map, List.length_map, List.length_map]
    rfl
  rw [hpc, hreal] at hlt
  -- An entry at none of the instructions would be at the end, which no mark refers to.
  by_contra hnot
  have hge : ((reals s.placed).map Placed.pc).length ≤ (offsets s.placed s.length).idxOf y.1 := by
    change _ ≤ ((reals s.placed).map Placed.pc ++ [s.length]).idxOf y.1
    rw [List.idxOf_append_of_notMem hnot]
    exact Nat.le_add_right _ _
  exact Nat.not_lt.mpr hge hlt

end Regular

/-- The pool that the instructions leave has their operands, if each of them gets its own. -/
theorem Passes.denotes_of (s : Passes b method.member p) (hp : p.Consistent)
    (hgives : ∀ i ∈ b.instructions,
      Pool.Edit.Gives (poolIndex i) fun index r => Pool.Grows p r → Denotes r index i) :
    s.pool.Consistent ∧ Pool.Grows p s.pool ∧ ∀ r : Pool, r.Consistent → Pool.Grows s.pool r →
      ∀ x ∈ s.placed, Denotes r x.index x.instruction := by
  have hindexed : Pool.Edit.Gives (indexed b.instructions) fun found r =>
      List.Forall₂ (fun i y => Pool.Grows p r → y.1 = i ∧ Denotes r y.2 i)
        b.instructions found := by
    refine Pool.gives_mapM fun i hi => (hgives i hi).bind fun index => ?_
    exact Pool.gives_pure fun r hindex hgrows => ⟨rfl, hindex hgrows⟩
  rcases hindexed p hp _ _ s.indexed_eq with ⟨hconsistent, hgrows, hfound⟩
  refine ⟨hconsistent, hgrows, fun r hr hgrown x hx => ?_⟩
  have hmem : (x.instruction, x.index) ∈ s.indices := by
    rw [← s.map_placed]
    exact List.mem_map_of_mem (f := fun x : Placed => (x.instruction, x.index)) hx
  -- What an index denoted when it was given it denotes in every pool that has grown since.
  have hall : ∀ y ∈ s.indices, Denotes r y.2 y.1 := by
    have hpairs := hfound r hr hgrown
    have hgrown' := hgrows.trans hgrown
    clear hfound hmem
    generalize b.instructions = l, s.indices = found at hpairs
    induction hpairs with
    | nil =>
        intro y hy
        cases hy
    | cons hy _ ih =>
        rw [List.forall_mem_cons]
        refine ⟨?_, ih⟩
        rw [(hy hgrown').1]
        exact (hy hgrown').2
  exact hall _ hmem

/-- In every later pool, each index denotes what its instruction loads or names. -/
theorem Passes.denotes (s : Passes b method.member p) (hp : p.Consistent)
    (hproper : ∀ i ∈ b.instructions, i.Proper p) :
    s.pool.Consistent ∧ Pool.Grows p s.pool ∧ ∀ r : Pool, r.Consistent → Pool.Grows s.pool r →
      ∀ x ∈ s.placed, Denotes r x.index x.instruction :=
  s.denotes_of hp fun i hi => poolIndex_gives (hproper i hi)

/-- What is at an offset is known there, and offsets are small. -/
theorem Passes.known_of_mem_entries (s : Passes b method.member p) (hle : s.length ≤ 65535)
    {γ : Type} {k : Instruction → Option γ} {y : Nat × γ} (hy : y ∈ entries k s.placed) :
    s.Known y.1 ∧ y.1 ≤ 65535 := by
  rcases mem_entries.mp hy with ⟨x, hx, _, hpc⟩
  rw [← hpc]
  exact ⟨s.spaced.mem_offsets hx, Nat.le_trans (s.spaced.le.2 x hx).2 hle⟩

/-- The attributes of a regular body are read back. -/
theorem Regular.attributes_gives (hb : b.Regular p) (s : Passes b method.member p)
    (hle : s.length ≤ 65535)
    (hentry : (∃ f, .frame f ∈ b.instructions) → ∃ entry, method.initialLocals = .ok entry) :
    Pool.Edit.Gives (attributes s.offsetOf s.placed b.locals) fun ws r =>
      ws.length ≤ 3 ∧
      (∀ v ∈ b.locals, ∀ l ∈ v.labels, s.offsetOf l = .ok (offset s.offsetOf l)) ∧
      (∀ x ∈ frameEntries s.placed, ∀ l ∈ frameLabels x.2,
        s.offsetOf l = .ok (offset s.offsetOf l)) ∧
      AttributesRead s.Known method ws r (tabulated s.offsetOf s.placed b.locals) := by
  have hoff := s.resolves hle
  have hframes := frameEntries_eq (hb.frames_lt s)
  refine Body.attributes_gives hoff ?_ ?_ hb.locals_le ?_ ?_ ?_ ?_ ?_
  · rw [lineEntries_eq, length_entries, s.map_instruction]
    exact hb.lines_le
  · intro x hx
    rw [lineEntries_eq] at hx
    exact s.known_of_mem_entries hle hx
  · intro v hv start stop hstart hstop
    have hrange := hb.ranges v hv
    rw [hb.positionOf s hstart, hb.positionOf s hstop] at hrange
    exact le_of_idxOf_le s.spaced.offsets_lt.1 (hoff _ _ hstart).1 (hoff _ _ hstop).1 hrange
  · intro hne
    rw [hframes] at hne
    -- A frame entry comes of a frame in the body.
    rcases List.exists_mem_of_ne_nil _ hne with ⟨y, hy⟩
    rcases mem_entries.mp hy with ⟨x, hx, hframe, _⟩
    exact hentry ⟨y.2, frame?_eq_some.mp hframe ▸ s.mem_instructions hx⟩
  · rw [hframes, length_entries, s.map_instruction]
    exact hb.frames_le
  · rw [hframes]
    exact hb.frames_lt s
  · intro y hy
    rw [hframes] at hy
    refine ⟨s.known_of_mem_entries hle hy, ?_⟩
    rcases mem_entries.mp hy with ⟨x, hx, hframe, _⟩
    have hproper := s.proper hb.proper x hx
    rw [frame?_eq_some.mp hframe] at hproper
    exact hproper

/-- All labels of a body have offsets once those of its tables do: the instructions were written. -/
theorem Passes.offset_of_labels (s : Passes b method.member p) (hb : b.Regular p)
    (hhandlers : ∀ v ∈ b.handlers, ∀ l ∈ v.labels, s.offsetOf l = .ok (offset s.offsetOf l))
    (hlocals : ∀ v ∈ b.locals, ∀ l ∈ v.labels, s.offsetOf l = .ok (offset s.offsetOf l))
    (hframes : ∀ x ∈ frameEntries s.placed, ∀ l ∈ frameLabels x.2,
      s.offsetOf l = .ok (offset s.offsetOf l)) :
    ∀ l ∈ b.labels, s.offsetOf l = .ok (offset s.offsetOf l) := by
  intro l hl
  rcases mem_labels.mp hl with ⟨i, hi, hl⟩ | ⟨v, hv, hl⟩ | ⟨v, hv, hl⟩
  · rw [← s.map_instruction] at hi
    rcases List.mem_map.mp hi with ⟨x, hx, rfl⟩
    unfold instructionLabels at hl
    split at hl
    next f hf =>
      refine hframes (x.pc, f) ?_ l hl
      rw [frameEntries_eq (hb.frames_lt s)]
      exact mem_entries.mpr ⟨x, hx, frame?_eq_some.mpr hf, rfl⟩
    · -- Any other label is the target of an instruction, whose displacement was computed.
      rcases exists_of_mapM s.codes_eq hx with ⟨code, hemit⟩
      exact emit_resolved hemit l hl
  · exact hhandlers v hv l hl
  · exact hlocals v hv l hl

/-- Each table is a part of the bytes of all. -/
theorem length_le_tableBytes {tables : List Bytes} {v : Bytes} (hv : v ∈ tables) :
    v.length ≤ (tableBytes tables).length := by
  unfold tableBytes
  rw [List.length_append]
  exact (List.sublist_flatten_of_mem hv).length_le.trans (Nat.le_add_left _ _)

/-- The bytes of a body are read as what it says, with new names for labels. -/
theorem readBody_yields (hp : p.Consistent) (hb : b.Regular p)
    (hentry : (∃ f, .frame f ∈ b.instructions) → ∃ entry, method.initialLocals = .ok entry)
    (h : encode b method.member p = .ok w q) (hw : w.length < 4294967296) :
    ∃ s : Passes b method.member p,
      Yields s.Known 0 (readBody q method) w s.contents ∧
      ∀ l ∈ b.labels, s.offsetOf l = .ok (offset s.offsetOf l) := by
  rcases encode_passes h with ⟨s, _, hle, handlers, r, tables, hhandlers, htables, rfl⟩
  have hoff := s.resolves hle
  rcases s.denotes hp hb.proper with ⟨hpool, hgrows, hdenotes⟩
  rcases Pool.gives_mapM (fun v _ => handlerBytes_gives hoff v) _ hpool _ _ hhandlers with
    ⟨hr, hgrows', hreadHandlers⟩
  rcases hb.attributes_gives s hle hentry _ hr _ _ htables with ⟨hq, hgrows'', hreadTables⟩
  rcases hreadTables q hq (Pool.grows_refl q) with ⟨hcount, hlocals, hframes, hread⟩
  rcases (List.forall₂_and_left _ _).mp (hreadHandlers q hq hgrows'') with ⟨hlabels, hreadHandlers⟩
  refine ⟨s, ?_, s.offset_of_labels hb hlabels hlocals hframes⟩
  have hcode := s.laid.length_flatten hgrows (s.proper hb.proper) s.emitted
  -- What is written is as long as the layout said, so the reader stops where the code does.
  have hlength : s.codes.flatten.length = s.length := by omega
  have hfits : s.length < 4294967296 := by omega
  have hword : s.codes.flatten.length.toUInt32.toNat = s.length := by
    rw [hlength]
    exact Nat.mod_eq_of_lt hfits
  have hinstructions := code_yields s.laid hgrows (s.proper hb.proper)
    (hdenotes q hq (hgrows'.trans hgrows'')) hoff s.emitted (Nat.le_refl _) hle s.length
    (by omega) []
  have hsmall : ∀ v ∈ tables, v.length < 4294967296 := by
    intro v hv
    have hle := length_le_tableBytes hv
    rw [List.length_append] at hw
    omega
  unfold readBody tableBytes Bytes.lengthPrefixed
  simp only [List.append_assoc]
  refine (yields_read (Read.takes_u16 b.maxStack)).andThen ?_
  refine (yields_read (Read.takes_u16 b.maxLocals)).andThen ?_
  refine (yields_read (Read.takes_u32 _)).andThen ?_
  rw [hword, ← hlength]
  refine (yields_read (Read.takes_bytes _)).andThen ?_
  rw [hlength]
  refine (yields_within hinstructions).bind (k := fun code name => (b.maxStack, b.maxLocals,
    s.length, code, b.handlers.map (Handler.relabel (s.renamed name)),
    tabulated s.offsetOf s.placed b.locals name {})) fun code _ => ?_
  refine (yields_read (Read.takes_u16 _)).andThen ?_
  rw [toUInt16_toNat (by rw [← hreadHandlers.length_eq]; exact hb.handlers_le),
    ← hreadHandlers.length_eq]
  refine (yields_repeated hreadHandlers).bind (k := fun found name =>
    (b.maxStack, b.maxLocals, s.length, code, found,
      tabulated s.offsetOf s.placed b.locals name {})) fun found _ => ?_
  refine (yields_read (Read.takes_u16 _)).andThen ?_
  rw [toUInt16_toNat (by omega)]
  exact (hread hsmall _ {}).map

end ReadBody

section Given

open LabelTable

variable {b : Body} {p q : Pool} {method : MethodInfo} {w : Bytes} {t : LabelTable}

/-- The tables that are read, with the names of a table of labels. -/
def Passes.tables (s : Passes b method.member p) (t : LabelTable) : Tables :=
  tabulated s.offsetOf s.placed b.locals t.name {}

/-- The instructions with the marks of a table of labels. -/
def Passes.rewoven (s : Passes b method.member p) (t : LabelTable) : List Placed :=
  woven t.toList (s.tables t) (s.renamed t.name) (reals s.placed) s.length

/-- The body that is decoded if the offsets get the names of a table. -/
def Passes.given (s : Passes b method.member p) (t : LabelTable) : Body where
  maxStack := b.maxStack
  maxLocals := b.maxLocals
  instructions := (s.rewoven t).map Placed.instruction
  handlers := b.handlers.map (Handler.relabel (s.renamed t.name))
  locals := b.locals.map (LocalVariable.relabel (s.renamed t.name))
  modified := false
  nextLabel := t.size

namespace Passes

theorem tables_locals (s : Passes b method.member p) :
    (s.tables t).locals = b.locals.map (LocalVariable.relabel (s.renamed t.name)) := by
  change ((lineEntries s.placed).foldl Tables.addLine {}).locals ++ _ = _
  rw [(foldl_addLine_frames _ _).2]
  rfl

/-- The frames that are read are those written, by offset. -/
theorem tables_frames (s : Passes b method.member p) :
    (s.tables t).frames = ((frameEntries s.placed).map fun x =>
      (x.1, x.2.relabel (s.renamed t.name))).foldl (fun m x => m.insert x.1 x.2) ∅ := by
  change List.foldl _ ((lineEntries s.placed).foldl Tables.addLine {}).frames _ = _
  rw [(foldl_addLine_frames _ _).1]
  rfl

/-- At each offset the lines are found in the order in which they were written. -/
theorem tables_lines (s : Passes b method.member p) (o : Nat) :
    ((s.tables t).lines[o]?).getD []
      = (((lineEntries s.placed).filter fun x => x.1 = o).map Prod.snd).reverse := by
  change (((lineEntries s.placed).foldl Tables.addLine {}).lines[o]?).getD [] = _
  rw [foldl_addLine_lines]
  simp

/-- Leaving out the marks changes no offset. -/
theorem offsets_reals (placed : List Placed) (stop : Nat) :
    offsets (reals placed) stop = offsets placed stop := by
  unfold offsets reals
  rw [List.filter_filter]
  simp

/-- Decoding gives the body that belongs to the names of the offsets. -/
theorem decode_eq (s : Passes b method.member p)
    (h : Decode.Yields s.Known 0 (readBody q method) w s.contents) :
    ∃ t, Valid s.Known t ∧ decode w q method = .ok (s.given t) ∧
      ∀ t', Extends t t' → s.contents t'.name = s.contents t.name := by
  rcases (h []).parse valid_empty with ⟨v, t, hparse, hvalid, _, hv⟩
  have hname : v = s.contents t.name := hv t (extends_refl t)
  refine ⟨t, hvalid, ?_, fun t' hext => by rw [← hv t' hext, hname]⟩
  rw [hname] at hparse
  -- Every offset that got a name is one of an instruction, or the end.
  have hknown : ∀ x ∈ t.toList, x.1 ∈ (reals s.placed).map Placed.pc ++ [s.length] := by
    intro x hx
    exact hvalid.known x.1 x.2 (Std.TreeMap.mem_toList_iff_getElem?_eq_some.mp hx)
  have hpcs : ((reals s.placed).map fun x =>
      (x.pc, x.instruction.relabel (s.renamed t.name))).map Prod.fst
        = (reals s.placed).map Placed.pc := by
    rw [List.map_map]
    rfl
  set kept := (reals s.placed).map fun x => (x.pc, x.instruction.relabel (s.renamed t.name))
    with hkept
  have hweave : weave method.member s.length (s.tables t) t.toList kept [] = _ :=
    weave_eq (toList_lt t) (by rw [hpcs]; exact s.spaced.offsets_lt.1)
      (by rw [hpcs]; exact hknown) []
  rw [List.reverse_nil, List.nil_append, ← map_woven] at hweave
  have hgiven : (s.given t) = { s.given t with locals := (s.tables t).locals } := by
    rw [s.tables_locals]
    rfl
  unfold decode
  rw [hparse, hgiven]
  change (weave method.member s.length (s.tables t) t.toList _ [] >>= fun _ => _) = _
  rw [hweave]
  rfl

/-- What is read tells the names of all labels apart. -/
theorem renamed_eq (s : Passes b method.member p) (hb : b.Regular p) {t t' : LabelTable}
    (h : s.contents t'.name = s.contents t.name) :
    ∀ l ∈ b.labels, s.renamed t'.name l = s.renamed t.name l := by
  have hcode := congrArg (fun c => c.2.2.2.1) h
  have hhandlers := congrArg (fun c => c.2.2.2.2.1) h
  have htables : s.tables t' = s.tables t := congrArg (fun c => c.2.2.2.2.2) h
  intro l hl
  rcases mem_labels.mp hl with ⟨i, hi, hl⟩ | ⟨v, hv, hl⟩ | ⟨v, hv, hl⟩
  · rw [← s.map_instruction] at hi
    rcases List.mem_map.mp hi with ⟨x, hx, rfl⟩
    cases hi : x.instruction with
    | label l' | line n =>
        rw [hi] at hl
        cases hl
    | frame f =>
        rw [hi] at hl
        have hframes := hb.frames_lt s
        -- A frame is found in the table by its offset, since there is one at most.
        have hlookup := congrArg (fun tables => (tables.frames[x.pc]?).toList) htables
        simp only [tables_frames, frameEntries_eq hframes] at hlookup
        rw [foldl_insert_toList hframes, foldl_insert_toList hframes] at hlookup
        have hmem :
            (x.pc, f) ∈ (entries Instruction.frame? s.placed).filter fun y => y.1 = x.pc := by
          refine List.mem_filter.mpr ⟨mem_entries.mpr ⟨x, hx, frame?_eq_some.mpr hi, rfl⟩, ?_⟩
          exact decide_eq_true rfl
        exact Frame.relabel_inj.mp (List.map_inj_left.mp hlookup _ hmem) l hl
    | _ =>
        have hreal : x.instruction.isPseudo = false := by
          rw [hi]
          rfl
        have hmem : x ∈ reals s.placed :=
          List.mem_filter.mpr ⟨hx, by rw [Placed.isReal, hreal]; rfl⟩
        have hsame := (Prod.mk.inj (List.map_inj_left.mp hcode x hmem)).2
        refine (Instruction.relabel_inj hreal).mp hsame l ?_
        rw [hi] at hl ⊢
        exact hl
  · exact Handler.relabel_inj.mp (List.map_inj_left.mp hhandlers v hv) l hl
  · have hlocals := congrArg Tables.locals htables
    rw [s.tables_locals, s.tables_locals] at hlocals
    exact LocalVariable.relabel_inj.mp (List.map_inj_left.mp hlocals v hv) l hl

/-- The instructions with the marks that are read lie in order again. -/
theorem spaced_rewoven (s : Passes b method.member p) : Spaced 0 (s.rewoven t) s.length :=
  s.spaced.reals.woven isPseudo_of_mem_reals

/-- At the offsets of those that were written. -/
theorem offsets_rewoven (s : Passes b method.member p) :
    offsets (s.rewoven t) s.length = offsets s.placed s.length := by
  unfold rewoven
  rw [offsets_woven isPseudo_of_mem_reals, offsets_reals]

/-- An offset with a name is at the position of its instruction. -/
theorem positionOf_given (s : Passes b method.member p) (ht : Valid s.Known t) {o : Nat}
    {l : Label} (h : t[o]? = some l) :
    (s.given t).positionOf l = (offsets s.placed s.length).idxOf o := by
  have hmem : (⟨.label l, 0, o⟩ : Placed) ∈ s.rewoven t :=
    mem_woven_of_mem_labels (Std.TreeMap.mem_toList_iff_getElem?_eq_some.mpr h) (ht.known o l h)
  rw [s.spaced_rewoven.positionOf rfl hmem rfl fun y hy hlabel => ?_, s.offsets_rewoven]
  have hy' := mem_labels_of_mem_woven isPseudo_of_mem_reals hy hlabel
  exact ht.inj _ _ l (Std.TreeMap.mem_toList_iff_getElem?_eq_some.mp hy') h

/-- The lines are where they were. -/
theorem lines_rewoven (s : Passes b method.member p) (hb : b.Regular p) :
    entries Instruction.line? (s.rewoven t) = entries Instruction.line? s.placed := by
  unfold rewoven
  rw [entries_woven isPseudo_of_mem_reals (fun _ => rfl)
    (fun i hi => by cases i <;> first | rfl | cases hi)]
  -- At each offset the lines are put back in the order in which they were written.
  have hlines : ∀ o, (((s.tables t).marksAt o).reverse.filterMap Instruction.line?).map (o, ·)
      = (entries Instruction.line? s.placed).filter fun x => x.1 = o := by
    intro o
    rw [filterMap_line_marksAt, s.tables_lines, List.reverse_reverse, lineEntries_eq, List.map_map]
    refine (List.map_congr_left fun x hx => ?_).trans (List.map_id _)
    have hx' : x.1 = o := of_decide_eq_true (List.mem_filter.mp hx).2
    rw [← hx']
    rfl
  rw [List.flatMap_congr fun o _ => hlines o]
  exact flatMap_filter (List.pairwise_append.mp s.spaced.offsets_lt.1).1
    (s.spaced.entries_pairwise _) (hb.mem_reals s fun i hi => Or.inl hi)

/-- The frames are where they were, with new names in them. -/
theorem frames_rewoven (s : Passes b method.member p) (hb : b.Regular p) :
    entries Instruction.frame? (s.rewoven t) = (entries Instruction.frame? s.placed).map fun x =>
      (x.1, x.2.relabel (s.renamed t.name)) := by
  unfold rewoven
  rw [entries_woven isPseudo_of_mem_reals (fun _ => rfl)
    (fun i hi => by cases i <;> first | rfl | cases hi)]
  have hsorted := hb.frames_lt s
  -- No offset has two frames, so what was inserted there is what is put back.
  have hframes : ∀ o, (((s.tables t).marksAt o).reverse.filterMap Instruction.frame?).map (o, ·)
      = ((entries Instruction.frame? s.placed).filter fun x => x.1 = o).map fun x =>
        (x.1, x.2.relabel (s.renamed t.name)) := by
    intro o
    rw [filterMap_frame_marksAt, s.tables_frames, frameEntries_eq hsorted,
      foldl_insert_toList hsorted, List.map_map]
    refine List.map_congr_left fun x hx => ?_
    have hx' : x.1 = o := of_decide_eq_true (List.mem_filter.mp hx).2
    rw [← hx']
    rfl
  rw [List.flatMap_congr fun o _ => hframes o, ← List.map_flatMap]
  congr 1
  exact flatMap_filter (List.pairwise_append.mp s.spaced.offsets_lt.1).1
    (s.spaced.entries_pairwise _) (hb.mem_reals s fun i hi => Or.inr hi)

/-- Labels are at the same position under their new names. -/
theorem canonical_renamed (s : Passes b method.member p) (hb : b.Regular p)
    (ht : Valid s.Known t) (hnames : ∀ t', Extends t t' → s.contents t'.name = s.contents t.name)
    (hlabels : ∀ l ∈ b.labels, s.offsetOf l = .ok (offset s.offsetOf l)) :
    ∀ l ∈ b.labels, (s.given t).canonical (s.renamed t.name l) = b.canonical l := by
  intro l hl
  rcases exists_of_stable fun t' hext => s.renamed_eq hb (hnames t' hext) l hl with ⟨l', hl'⟩
  have hname : s.renamed t.name l = l' := name_eq hl'
  unfold canonical
  rw [hname, s.positionOf_given ht hl', hb.positionOf s (hlabels l hl)]

end Passes

/-- The frames of a body by position, with positions for labels. -/
theorem view_frames (b : Body) :
    b.view.frames = ((counted 0 b.instructions).filterMap fun x => x.2.frame?.map (x.1, ·)).map
      fun y => (y.1, y.2.relabel b.canonical) := by
  rw [List.map_filterMap]
  refine List.filterMap_congr fun x _ => ?_
  cases x.2.frame? <;> rfl

section Given

variable (s : Passes b method.member p)
variable (hcanonical : ∀ l ∈ b.labels, (s.given t).canonical (s.renamed t.name l) = b.canonical l)

include hcanonical

theorem Passes.view_code_given : (s.given t).view.code = b.view.code := by
  change ((s.given t).instructions.filter _).map _ = (b.instructions.filter _).map _
  rw [← s.map_instruction, List.filter_map, List.map_map]
  change (((s.rewoven t).map Placed.instruction).filter _).map _ = _
  unfold rewoven
  rw [filter_woven isPseudo_of_mem_reals, List.map_map]
  refine List.map_congr_left fun x hx => ?_
  rw [Function.comp_apply, Function.comp_apply, Instruction.relabel_relabel]
  -- Labels are compared by the places that they stand for.
  refine (Instruction.relabel_inj (isPseudo_of_mem_reals x hx)).mpr fun l hl => ?_
  refine hcanonical l (mem_labels.mpr (Or.inl ⟨x.instruction, s.mem_instructions ?_, ?_⟩))
  · exact List.mem_of_mem_filter hx
  · unfold instructionLabels
    split
    next f hf =>
      rw [hf] at hl
      cases hl
    · exact hl

/-- The frames seen in the result are the ones of the body. -/
theorem Passes.view_frames_given (hb : b.Regular p) :
    (s.given t).view.frames = b.view.frames := by
  have hgiven := (s.spaced_rewoven (t := t)).filterMap_counted Instruction.frame?
  have hbody := s.spaced.filterMap_counted Instruction.frame?
  rw [s.frames_rewoven hb, s.offsets_rewoven, List.map_map] at hgiven
  rw [s.map_instruction] at hbody
  rw [view_frames, view_frames, hbody, List.map_map]
  refine (congrArg (List.map _) hgiven).trans ?_
  rw [List.map_map]
  refine List.map_congr_left fun y hy => ?_
  -- Each frame comes from an instruction of the body, whose labels are those of the body.
  rcases mem_entries.mp hy with ⟨x, hx, hframe, _⟩
  refine Prod.ext rfl ?_
  change (y.2.relabel (s.renamed t.name)).relabel (s.given t).canonical = y.2.relabel b.canonical
  rw [Frame.relabel_relabel]
  refine Frame.relabel_inj.mpr fun l hl => ?_
  refine hcanonical l (mem_labels.mpr (Or.inl ⟨x.instruction, s.mem_instructions hx, ?_⟩))
  rw [frame?_eq_some.mp hframe]
  exact hl

/-- The body that is given back says the same. -/
theorem Passes.view_given (hb : b.Regular p) : (s.given t).view = b.view := by
  have hcode := s.view_code_given hcanonical
  -- Labels of the handlers and variables are compared by their places, not by their numbers.
  have hhandlers : (s.given t).view.handlers = b.view.handlers := by
    change (b.handlers.map _).map _ = _
    rw [List.map_map]
    refine List.map_congr_left fun v hv => ?_
    change v.relabel (fun l => (s.given t).canonical (s.renamed t.name l)) = v.relabel b.canonical
    refine Handler.relabel_inj.mpr fun l hl => ?_
    exact hcanonical l (mem_labels.mpr (Or.inr (Or.inl ⟨v, hv, hl⟩)))
  have hlocals : (s.given t).view.locals = b.view.locals := by
    change (b.locals.map _).map _ = _
    rw [List.map_map]
    refine List.map_congr_left fun v hv => ?_
    change v.relabel (fun l => (s.given t).canonical (s.renamed t.name l)) = v.relabel b.canonical
    refine LocalVariable.relabel_inj.mpr fun l hl => ?_
    exact hcanonical l (mem_labels.mpr (Or.inr (Or.inr ⟨v, hv, hl⟩)))
  -- Line numbers and frames are found by the count of instructions in front of them.
  have hlines : (s.given t).view.lines = b.view.lines := by
    refine (s.spaced_rewoven.filterMap_counted _).trans ?_
    rw [s.lines_rewoven hb, s.offsets_rewoven, ← s.spaced.filterMap_counted, s.map_instruction]
    rfl
  have hframes := s.view_frames_given hcanonical hb
  unfold view at hcode hhandlers hlocals hlines hframes ⊢
  simp only at hcode hhandlers hlocals hlines hframes
  rw [hcode, hhandlers, hlocals, hlines, hframes]
  rfl

end Given

/-- Decoding what was encoded gives a body that says the same as the one before. -/
theorem decode_encode (hp : p.Reachable) (hb : b.Regular p)
    (hentry : (∃ f, .frame f ∈ b.instructions) → ∃ entry, method.initialLocals = .ok entry)
    (h : encode b method.member p = .ok w q) (hw : w.length < 4294967296) :
    ∃ b', decode w q method = .ok b' ∧ b'.view = b.view := by
  rcases readBody_yields hp.consistent hb hentry h hw with ⟨s, hread, hlabels⟩
  rcases s.decode_eq hread with ⟨t, ht, hdecode, hnames⟩
  exact ⟨s.given t, hdecode, s.view_given (s.canonical_renamed hb ht hnames hlabels) hb⟩

end Given

section Loop

/-- An attribute whose name is not in the pool yet adds it as the last entry. -/
theorem attributeBytes_of_new {p : Pool} {name : String} (contents : Bytes)
    (h : p.lookup[PoolKey.utf8 name]? = none)
    (hlength : (ModifiedUtf8.encode name).length ≤ ModifiedUtf8.maxLength)
    (hsize : p.size < 65535) :
    attributeBytes name contents p
      = .ok (Bytes.ofU16 p.size.toUInt16 ++ Bytes.lengthPrefixed contents)
          (p.append (.utf8 name (ModifiedUtf8.encode name))) :=
  bind_of_ok (Pool.addUtf8_of_new h hlength hsize)

/-- A static method without parameters. -/
def plainMethod : MethodInfo :=
  ⟨⟨"demo/A", "m", "()V"⟩, true⟩

/-- An endless loop that makes objects, with a line number and a handler over all of it. -/
def guardedLoop : Body where
  maxStack := 1
  maxLocals := 0
  instructions := [.label ⟨0⟩, .line 5, .typed .new "demo/A", .simple .pop, .jump .goto ⟨0⟩,
    .label ⟨1⟩]
  handlers := [⟨⟨0⟩, ⟨1⟩, ⟨0⟩, none⟩]

/-- The body of the example keeps every rule of a body. -/
theorem guardedLoop_regular : guardedLoop.Regular Pool.empty where
  proper := by
    have hpop : Opcode.pop.isBare = true := rfl
    have hgoto : Opcode.goto.takesShortBranch = true := rfl
    simp [guardedLoop, Instruction.Proper, hpop, hgoto]
  placed_once := by decide
  framed_once := by decide
  attached := by decide
  ranges := by decide
  handlers_le := by decide
  locals_le := by decide
  lines_le := by decide
  frames_le := by decide

/-- The pool with the class of the objects. -/
def guardedLoopPool : Pool :=
  (Pool.empty.append (.utf8 "demo/A" (ModifiedUtf8.encode "demo/A"))).append (.classRef 1)

theorem addClass_guardedLoop : Pool.addClass "demo/A" Pool.empty = .ok 2 guardedLoopPool := by
  have hnew : Pool.empty.lookup[PoolKey.utf8 "demo/A"]? = none := by simp [Pool.empty]
  have htext := Pool.addUtf8_of_new hnew (by cbv) (by decide)
  refine (bind_of_ok htext).trans (Pool.push_of_new ?_ (by decide))
  simp [Pool.find?, PoolEntry.key?, Pool.append, Pool.record, Pool.empty,
    Std.HashMap.getElem?_insertIfNew]

/-- The passes over the loop; the labels are at its start and behind it. -/
def guardedLoopPasses : Passes guardedLoop plainMethod.member Pool.empty where
  indices := [(.label ⟨0⟩, 0), (.line 5, 0), (.typed .new "demo/A", 2), (.simple .pop, 0),
    (.jump .goto ⟨0⟩, 0), (.label ⟨1⟩, 0)]
  pool := guardedLoopPool
  codes := [[], [], [0xBB, 0, 2], [0x57], [0xA7, 0xFF, 0xFC], []]
  indexed_eq := by
    refine mapM_cons_of_ok rfl (mapM_cons_of_ok rfl (mapM_cons_of_ok ?_ rfl))
    exact bind_of_ok addClass_guardedLoop
  codes_eq := by
    generalize hf : resolve _ (labelOffsets _) = offsetOf
    have hoff : offsetOf ⟨0⟩ = .ok 0 := by
      rw [← hf]
      simp [resolve, labelOffsets, place, placeFrom, sizeAt, Std.HashMap.getElem_insert]
    have hjump : emit guardedLoopPool plainMethod.member offsetOf ⟨.jump .goto ⟨0⟩, 0, 4⟩
        = .ok [0xA7, 0xFF, 0xFC] := by
      unfold emit
      simp only [hoff]
      rfl
    change List.mapM _ [(⟨.label ⟨0⟩, 0, 0⟩ : Placed), ⟨.line 5, 0, 0⟩,
      ⟨.typed .new "demo/A", 2, 0⟩, ⟨.simple .pop, 0, 3⟩, ⟨.jump .goto ⟨0⟩, 0, 4⟩,
      ⟨.label ⟨1⟩, 0, 7⟩] = _
    simp only [List.mapM_cons, hjump]
    rfl

/-- Where its two labels are. -/
theorem guardedLoop_offsets : guardedLoopPasses.offsetOf ⟨0⟩ = .ok 0 ∧
    guardedLoopPasses.offsetOf ⟨1⟩ = .ok 7 := by
  have hplaced : guardedLoopPasses.placed = [⟨.label ⟨0⟩, 0, 0⟩, ⟨.line 5, 0, 0⟩,
      ⟨.typed .new "demo/A", 2, 0⟩, ⟨.simple .pop, 0, 3⟩, ⟨.jump .goto ⟨0⟩, 0, 4⟩,
      ⟨.label ⟨1⟩, 0, 7⟩] := rfl
  unfold Passes.offsetOf
  rw [hplaced]
  constructor <;> simp [resolve, labelOffsets, Std.HashMap.getElem_insert]

/-- It has bytes. -/
theorem encode_guardedLoop : ∃ w q, encode guardedLoop plainMethod.member Pool.empty = .ok w q ∧
    w.length < 4294967296 := by
  -- The handler needs nothing from the pool, and the table only its name.
  have hhandlers : guardedLoop.handlers.mapM (handlerBytes guardedLoopPasses.offsetOf)
      guardedLoopPool = .ok [[0, 0, 0, 7, 0, 0, 0, 0]] guardedLoopPool := by
    have hone : handlerBytes guardedLoopPasses.offsetOf ⟨⟨0⟩, ⟨1⟩, ⟨0⟩, none⟩ guardedLoopPool
        = .ok [0, 0, 0, 7, 0, 0, 0, 0] guardedLoopPool := by
      unfold handlerBytes
      simp only [guardedLoop_offsets]
      rfl
    exact mapM_cons_of_ok hone rfl
  have htables : attributes guardedLoopPasses.offsetOf guardedLoopPasses.placed guardedLoop.locals
      guardedLoopPool = .ok [[0, 3, 0, 0, 0, 6, 0, 1, 0, 0, 0, 5]]
      (guardedLoopPool.append
        (.utf8 "LineNumberTable" (ModifiedUtf8.encode "LineNumberTable"))) := by
    change (attributeBytes "LineNumberTable" _ >>= fun x => _) guardedLoopPool = _
    refine bind_of_ok (attributeBytes_of_new [0, 1, 0, 0, 0, 5] ?_ ?_ ?_)
    · simp [guardedLoopPool, PoolEntry.key?, Pool.append, Pool.record, Pool.empty]
    · cbv
    · decide
  exact ⟨_, _, guardedLoopPasses.encode_eq (by decide) (by decide) hhandlers htables, by decide⟩

/-- The loop comes back, with its handler, its line and its class. -/
theorem decode_encode_guardedLoop :
    ∃ w q b, encode guardedLoop plainMethod.member Pool.empty = .ok w q ∧
      decode w q plainMethod = .ok b ∧ b.view = guardedLoop.view := by
  rcases encode_guardedLoop with ⟨w, q, h, hw⟩
  have hframes : (∃ f, .frame f ∈ guardedLoop.instructions) →
      ∃ entry, plainMethod.initialLocals = .ok entry := by
    rintro ⟨f, hf⟩
    simp [guardedLoop] at hf
  rcases decode_encode Pool.Reachable.empty guardedLoop_regular hframes h hw with
    ⟨b, hdecode, hview⟩
  exact ⟨w, q, b, h, hdecode, hview⟩

end Loop

section Irregular

/-- A static method whose descriptor does not end. -/
def endlessMethod : MethodInfo :=
  ⟨⟨"demo/A", "m", "("⟩, true⟩

/-- A frame with one local variable, in front of a `return`. -/
def framedReturn : Body where
  maxStack := 0
  maxLocals := 1
  instructions := [.frame ⟨[.int], []⟩, .simple .voidReturn]

/-- A switch without targets whose range is empty. -/
def emptySwitch : Body where
  maxStack := 1
  maxLocals := 0
  instructions := [.label ⟨0⟩, .tableSwitch ⟨0⟩ 1 0 [], .simple .voidReturn]

/-- A load of a local variable that has its index in the opcode. -/
def shortLoad : Body where
  maxStack := 1
  maxLocals := 1
  instructions := [.simple .iload0, .simple .ireturn]

/-- The passes over the switch; its label is at its own offset. -/
def emptySwitchPasses : Passes emptySwitch endlessMethod.member Pool.empty where
  indices := [(.label ⟨0⟩, 0), (.tableSwitch ⟨0⟩ 1 0 [], 0), (.simple .voidReturn, 0)]
  pool := Pool.empty
  codes := [[], [0xAA, 0, 0, 0, 0, 0, 0, 0, 0, 0, 0, 1, 0, 0, 0, 0], [0xB1]]
  indexed_eq := rfl
  codes_eq := by
    generalize hf : resolve _ (labelOffsets _) = offsetOf
    have hoff : offsetOf ⟨0⟩ = .ok 0 := by
      rw [← hf]
      simp [resolve, labelOffsets, place, placeFrom]
    have hswitch : emit Pool.empty endlessMethod.member offsetOf
        ⟨.tableSwitch ⟨0⟩ 1 0 [], 0, 0⟩
        = .ok [0xAA, 0, 0, 0, 0, 0, 0, 0, 0, 0, 0, 1, 0, 0, 0, 0] := by
      unfold emit
      simp only [hoff]
      rfl
    change List.mapM _ ((⟨.label ⟨0⟩, 0, 0⟩ : Placed) :: (⟨.tableSwitch ⟨0⟩ 1 0 [], 0, 0⟩ : Placed)
      :: _) = _
    rw [List.mapM_cons, List.mapM_cons, hswitch]
    rfl

/-- The passes over the frame. -/
def framedReturnPasses : Passes framedReturn endlessMethod.member Pool.empty where
  indices := [(.frame ⟨[.int], []⟩, 0), (.simple .voidReturn, 0)]
  pool := Pool.empty
  codes := [[], [0xB1]]
  indexed_eq := rfl
  codes_eq := rfl

/-- The bytes of the frame in front of a `return`. -/
def framedReturnBytes : Bytes :=
  [0, 0, 0, 1, 0, 0, 0, 1, 0xB1, 0, 0, 0, 1, 0, 1, 0, 0, 0, 10, 0, 1, 255, 0, 0, 0, 1, 1, 0, 0]

/-- The bytes of a body with one frame. -/
theorem encode_framedReturn :
    encode framedReturn endlessMethod.member Pool.empty = .ok framedReturnBytes
      (Pool.empty.append (.utf8 "StackMapTable" (ModifiedUtf8.encode "StackMapTable"))) := by
  have htables : attributes framedReturnPasses.offsetOf framedReturnPasses.placed
      framedReturn.locals Pool.empty = .ok [[0, 1, 0, 0, 0, 10, 0, 1, 255, 0, 0, 0, 1, 1, 0, 0]]
        (Pool.empty.append (.utf8 "StackMapTable" (ModifiedUtf8.encode "StackMapTable"))) := by
    change (attributeBytes "StackMapTable" _ >>= fun x => _) Pool.empty = _
    refine bind_of_ok (attributeBytes_of_new [0, 1, 255, 0, 0, 0, 1, 1, 0, 0] ?_ ?_ ?_)
    · simp [Pool.empty]
    · cbv
    · decide
  exact framedReturnPasses.encode_eq (by decide) (by decide) rfl htables

/-- They are not read back in a method whose descriptor does not end. -/
theorem decode_framedReturn (raw : Bytes) (lookup : Std.HashMap PoolKey UInt16) :
    decode framedReturnBytes ⟨#[.unusable, .utf8 "StackMapTable" raw], lookup⟩ endlessMethod
      = .error (.malformed (.unterminatedMethod "(")) := by
  cbv

/-- Bodies are not given back if they have a switch with an empty range, or a frame in a method
    whose descriptor cannot be read; and a one-byte access to a local variable comes back with its
    index apart. -/
theorem irregular_not_given_back :
    (∃ w q, encode emptySwitch endlessMethod.member Pool.empty = .ok w q ∧
      decode w q endlessMethod = .error (.malformed (.switchRange 0))) ∧
    (∃ w q, encode framedReturn endlessMethod.member Pool.empty = .ok w q ∧
      decode w q endlessMethod = .error (.malformed (.unterminatedMethod "("))) ∧
    ∃ w q b, encode shortLoad endlessMethod.member Pool.empty = .ok w q ∧
      decode w q endlessMethod = .ok b ∧ b.view ≠ shortLoad.view := by
  refine ⟨⟨_, _, emptySwitchPasses.encode_eq (by decide) (by decide) rfl rfl, by cbv⟩,
    ⟨_, _, encode_framedReturn, decode_framedReturn _ _⟩,
    ⟨[0, 1, 0, 1, 0, 0, 0, 2, 0x1A, 0xAC, 0, 0, 0, 0], Pool.empty,
      ⟨1, 1, [.var .iload 0, .simple .ireturn], [], [], false, 0⟩, rfl, by cbv, by decide⟩⟩

end Irregular

end Body

end JvmFold
