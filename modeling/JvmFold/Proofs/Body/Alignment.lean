import JvmFold.Proofs.Body.Placement

/-!
# Sizes Against Bytes

Encoding goes over a body twice: first it places every instruction by its size,
then it writes the bytes. Nothing compares the two. The offsets of the first
pass are what branches, handlers, lines, frames and ranges are written with, so
they are right only if every instruction takes as many bytes as it had room.

They do not always agree. A constant that is computed on first use and takes
two slots is loaded by an instruction of three bytes, whatever its index, and
the first pass counts two if the index is small. From there on all bytes stand
behind their offsets, by one for every such constant in front, and this is the
only way in which the passes can come apart.

## Main definitions

* `Body.Passes`: The two passes of an encoding.
* `Body.drift`: How far bytes fall behind the sizes.
* `Body.Passes.Aligned`: The bytes stand where they were placed.

## Theorems

* `Body.encode_passes`: What an encoding consists of.
* `Body.Laid.length_take`: Where the bytes of an instruction start.
* `Body.encode_aligned_iff`: The passes agree unless a two-slot constant has a small index.
-/

namespace JvmFold

namespace Body

/-- The bytes that instructions take beyond their room. -/
def drift (pool : Pool) : List Placed → Nat
  | [] => 0
  | x :: rest => overrun pool x.index x.instruction + drift pool rest

/-- The passes over the instructions of a body: the indices of their operands, and their bytes. -/
structure Passes (b : Body) (method : Member) (p : Pool) where
  /-- The instructions with the indices of their operands. -/
  indices : List (Instruction × UInt16)
  /-- The pool with the operands. -/
  pool : Pool
  /-- The bytes of each instruction. -/
  codes : List Bytes
  indexed_eq : indexed b.instructions p = .ok indices pool
  codes_eq : (place indices).1.mapM
    (emit pool method (resolve method (labelOffsets (place indices).1))) = .ok codes

namespace Passes

variable {b : Body} {method : Member} {p : Pool}

/-- The instructions with their offsets. -/
def placed (s : Passes b method p) : List Placed :=
  (place s.indices).1

/-- The length of the code by the sizes of its instructions. -/
def length (s : Passes b method p) : Nat :=
  (place s.indices).2

/-- The offset of a label. -/
def offsetOf (s : Passes b method p) : Label → Except Error Nat :=
  resolve method (labelOffsets s.placed)

/-- The bytes of every instruction and of all of them together are as the sizes say, and a label
    has the offset at which the bytes behind its mark start. -/
structure Aligned (s : Passes b method p) : Prop where
  length_eq : s.codes.flatten.length = s.length
  start_eq : ∀ k x, s.placed[k]? = some x → (s.codes.take k).flatten.length = x.pc
  label_eq : ∀ l o, s.offsetOf l = .ok o →
    ∃ k, b.instructions[k]? = some (.label l) ∧ (s.codes.take k).flatten.length = o

end Passes

section Encode

variable {b : Body} {method : Member} {p q : Pool} {w : Bytes}

/-- An encoding consists of the passes over the instructions, the handlers and the attributes. -/
theorem encode_passes (h : encode b method p = .ok w q) :
    ∃ s : Passes b method p, 0 < s.length ∧ s.length ≤ 65535 ∧
      ∃ handlers r tables, b.handlers.mapM (handlerBytes s.offsetOf) s.pool = .ok handlers r ∧
        attributes s.offsetOf s.placed b.locals r = .ok tables q ∧
        w = Bytes.ofU16 b.maxStack ++ Bytes.ofU16 b.maxLocals
          ++ Bytes.lengthPrefixed s.codes.flatten ++ tableBytes handlers ++ tableBytes tables := by
  unfold encode at h
  rcases bind_eq_ok h with ⟨indices, pool, hindices, h⟩
  simp only at h
  -- Code of no bytes, or of too many, is not written.
  by_cases hlength : (place indices).2 = 0 ∨ 65535 < (place indices).2
  · rw [if_pos hlength] at h
    cases h
  rw [if_neg hlength] at h
  rcases bind_eq_ok h with ⟨_, _, hget, h⟩
  cases hget
  rcases bind_eq_ok h with ⟨codes, pool', hcodes, h⟩
  cases hmap : (place indices).1.mapM
      (emit pool method (resolve method (labelOffsets (place indices).1))) with
  | error e =>
      rw [hmap] at hcodes
      cases hcodes
  | ok found =>
      rw [hmap] at hcodes
      cases hcodes
      rcases bind_eq_ok h with ⟨handlers, r, hhandlers, h⟩
      rcases bind_eq_ok h with ⟨tables, r', htables, h⟩
      cases h
      exact ⟨⟨indices, pool, codes, hindices, hmap⟩, by change 0 < (place indices).2; omega,
        by change (place indices).2 ≤ 65535; omega, handlers, r, tables, hhandlers, htables, rfl⟩

/-- What the passes, the handlers and the attributes amount to is the encoding. -/
theorem Passes.encode_eq (s : Passes b method p) (hpos : 0 < s.length) (hle : s.length ≤ 65535)
    {r : Pool} {handlers tables : List Bytes}
    (hhandlers : b.handlers.mapM (handlerBytes s.offsetOf) s.pool = .ok handlers r)
    (htables : attributes s.offsetOf s.placed b.locals r = .ok tables q) :
    encode b method p = .ok (Bytes.ofU16 b.maxStack ++ Bytes.ofU16 b.maxLocals
      ++ Bytes.lengthPrefixed s.codes.flatten ++ tableBytes handlers ++ tableBytes tables) q := by
  have hlength : ¬((place s.indices).2 = 0 ∨ 65535 < (place s.indices).2) := by
    change ¬(s.length = 0 ∨ 65535 < s.length)
    omega
  have hget : (get : Pool.Edit Pool) s.pool = .ok s.pool s.pool := rfl
  have hcodes : liftEdit (s.placed.mapM (emit s.pool method s.offsetOf)) s.pool
      = .ok s.codes s.pool := by
    have hmap : s.placed.mapM (emit s.pool method s.offsetOf) = .ok s.codes := s.codes_eq
    rw [hmap]
    rfl
  unfold encode
  -- The passes of `encode` one after the other, each with what is known of it.
  refine (bind_of_ok s.indexed_eq).trans ?_
  simp only
  rw [if_neg hlength]
  refine (bind_of_ok hget).trans ?_
  refine (bind_of_ok hcodes).trans ?_
  exact (bind_of_ok hhandlers).trans (bind_of_ok htables)

end Encode

section Drift

variable {pc stop : Nat} {placed : List Placed} {pool : Pool} {method : Member}
variable {offsetOf : Label → Except Error Nat} {codes : List Bytes}

/-- The bytes in front of an instruction reach its offset, and beyond it by the drift. -/
theorem Laid.length_take (h : Laid pc placed stop)
    (howns : ∀ x ∈ placed, x.instruction.HasOwnOpcode)
    (hcodes : List.Forall₂ (fun x w => emit pool method offsetOf x = .ok w) placed codes)
    {k : Nat} {x : Placed} (hx : placed[k]? = some x) :
    pc + (codes.take k).flatten.length = x.pc + drift pool (placed.take k) := by
  induction h generalizing codes k with
  | nil => simp at hx
  | @cons y rest stop hlaid ih =>
      rcases hcodes with _ | @⟨_, w, _, codes, hemit, hcodes⟩
      rw [List.forall_mem_cons] at howns
      -- An instruction takes its room and what it runs over by.
      have hsize := emit_length_overrun howns.1 hemit
      cases k with
      | zero =>
          cases hx
          rfl
      | succ k =>
          have hrest := ih howns.2 hcodes hx
          simp only [List.take_succ_cons, List.flatten_cons, List.length_append, drift]
          omega

/-- All bytes together reach the end of the code, and beyond it by the drift. -/
theorem Laid.length_codes (h : Laid pc placed stop)
    (howns : ∀ x ∈ placed, x.instruction.HasOwnOpcode)
    (hcodes : List.Forall₂ (fun x w => emit pool method offsetOf x = .ok w) placed codes) :
    pc + codes.flatten.length = stop + drift pool placed := by
  induction h generalizing codes with
  | nil =>
      cases hcodes
      rfl
  | cons hlaid ih =>
      rcases hcodes with _ | ⟨hemit, hcodes⟩
      rw [List.forall_mem_cons] at howns
      have hsize := emit_length_overrun howns.1 hemit
      have hrest := ih howns.2 hcodes
      simp only [List.flatten_cons, List.length_append, drift]
      omega

/-- Nothing has drifted exactly if no instruction runs over. -/
theorem drift_eq_zero_iff :
    drift pool placed = 0 ↔ ∀ x ∈ placed, overrun pool x.index x.instruction = 0 := by
  induction placed with
  | nil => simp [drift]
  | cons x rest ih => simp [drift, ih]

/-- What drifts in front of an instruction is part of what drifts in all. -/
theorem drift_take_le (k : Nat) : drift pool (placed.take k) ≤ drift pool placed := by
  induction placed generalizing k with
  | nil => simp
  | cons x rest ih =>
      cases k with
      | zero => exact Nat.zero_le _
      | succ k =>
          have hrest := ih k
          simp only [List.take_succ_cons, drift]
          omega

/-- The only instruction that runs over loads a wide constant by an index that is given and short.
    -/
theorem overrun_eq_zero_iff {index : UInt16} {i : Instruction} :
    overrun pool index i = 0 ↔
      ∀ n, i = .ldc (.pool n) → isWideConstant pool (.pool n) = true → 255 < index := by
  unfold overrun
  split
  next n =>
    have hlarge : ¬index ≤ 255 ↔ 255 < index := UInt16.not_le
    by_cases hwide : isWideConstant pool (.pool n) = true
    · simp [hwide, hlarge]
    · simp [hwide]
  next hother =>
    simp only [true_iff]
    intro n hn
    exact absurd hn (hother n)

end Drift

section Labels

variable {placed : List Placed} {method : Member}

/-- The table is filled from the front, so an entry comes from a mark or was there before. -/
theorem exists_of_labelOffsets {l : Label} {o : Nat} (m : Std.HashMap Label Nat)
    (ho : (placed.foldl (fun m p =>
        match p.instruction with
        | .label label => m.insert label p.pc
        | _ => m) m)[l]? = some o) :
    (∃ (k : Nat) (x : Placed), placed[k]? = some x ∧ x.instruction = .label l ∧ x.pc = o) ∨
      m[l]? = some o := by
  induction placed generalizing m with
  | nil => exact Or.inr ho
  | cons x rest ih =>
      -- The last mark of a label counts, so one further on comes first.
      rcases ih _ ho with ⟨k, y, hy, hlabel, hpc⟩ | hm
      · exact Or.inl ⟨k + 1, y, hy, hlabel, hpc⟩
      · simp only at hm
        split at hm
        next label hx =>
          rw [Std.HashMap.getElem?_insert] at hm
          split at hm
          next heq =>
            cases hm
            rw [eq_of_beq heq] at hx
            exact Or.inl ⟨0, x, rfl, hx, rfl⟩
          · exact Or.inr hm
        · exact Or.inr hm

/-- The offset of a label is that of a mark of it. -/
theorem exists_of_resolve {l : Label} {o : Nat}
    (h : resolve method (labelOffsets placed) l = .ok o) :
    ∃ (k : Nat) (x : Placed), placed[k]? = some x ∧ x.instruction = .label l ∧ x.pc = o := by
  unfold resolve at h
  split at h
  next offset hget =>
    cases h
    rcases exists_of_labelOffsets ∅ hget with hmark | hempty
    · exact hmark
    · simp at hempty
  · cases h

/-- The indices of the instructions are found one after the other. -/
theorem indexed_cons {i : Instruction} {l : List Instruction} {p q : Pool}
    {found : List (Instruction × UInt16)} (h : indexed (i :: l) p = .ok found q) :
    ∃ index rest r, poolIndex i p = .ok index r ∧ indexed l r = .ok rest q ∧
      found = (i, index) :: rest := by
  unfold indexed at h
  rw [List.mapM_cons] at h
  rcases bind_eq_ok h with ⟨x, r, hx, h⟩
  rcases bind_eq_ok h with ⟨rest, r', hrest, h⟩
  cases h
  rcases bind_eq_ok hx with ⟨index, _, hindex, hx⟩
  cases hx
  exact ⟨index, rest, r, hindex, hrest, rfl⟩

/-- A constant that is named by its index has that index. -/
theorem index_of_indexed {l : List Instruction} {p q : Pool} {found : List (Instruction × UInt16)}
    (h : indexed l p = .ok found q) {n index : UInt16}
    (hmem : (Instruction.ldc (.pool n), index) ∈ found) : index = n := by
  induction l generalizing p found with
  | nil =>
      cases h
      cases hmem
  | cons i l ih =>
      rcases indexed_cons h with ⟨j, rest, r, hj, hrest, rfl⟩
      rcases List.mem_cons.mp hmem with heq | hmem
      · cases heq
        cases hj
        rfl
      · exact ih hrest hmem

/-- The instructions themselves stay what they are. -/
theorem map_fst_of_indexed {l : List Instruction} {p q : Pool}
    {found : List (Instruction × UInt16)} (h : indexed l p = .ok found q) :
    found.map Prod.fst = l := by
  induction l generalizing p found with
  | nil =>
      cases h
      rfl
  | cons i l ih =>
      rcases indexed_cons h with ⟨j, rest, r, -, hrest, rfl⟩
      rw [List.map_cons, ih hrest]

end Labels

namespace Passes

variable {b : Body} {method : Member} {p : Pool}

/-- The instructions lie one behind the other. -/
theorem laid (s : Passes b method p) : Laid 0 s.placed s.length :=
  (place_laid s.indices).1

theorem spaced (s : Passes b method p) : Spaced 0 s.placed s.length :=
  s.laid.spaced

/-- What is placed are the instructions with their indices. -/
theorem map_placed (s : Passes b method p) :
    s.placed.map (fun x => (x.instruction, x.index)) = s.indices :=
  (place_laid s.indices).2

theorem map_instruction (s : Passes b method p) :
    s.placed.map Placed.instruction = b.instructions := by
  rw [← map_fst_of_indexed s.indexed_eq, ← s.map_placed, List.map_map]
  rfl

theorem mem_instructions (s : Passes b method p) {x : Placed} (hx : x ∈ s.placed) :
    x.instruction ∈ b.instructions := by
  rw [← s.map_instruction]
  exact List.mem_map_of_mem hx

/-- Every instruction has its bytes. -/
theorem emitted (s : Passes b method p) : List.Forall₂
    (fun x w => emit s.pool method s.offsetOf x = .ok w) s.placed s.codes :=
  forall₂_of_mapM s.codes_eq

/-- The passes agree exactly if every two-slot constant that is named by its index has a large
    one. -/
theorem aligned_iff (s : Passes b method p) (howns : ∀ i ∈ b.instructions, i.HasOwnOpcode) :
    s.Aligned ↔ ∀ n, .ldc (.pool n) ∈ b.instructions →
      isWideConstant s.pool (.pool n) = true → 255 < n := by
  have hown : ∀ x ∈ s.placed, x.instruction.HasOwnOpcode :=
    fun x hx => howns _ (s.mem_instructions hx)
  have hall := s.laid.length_codes hown s.emitted
  -- Overruns only add up, so they cancel only where there are none.
  have hdrift : drift s.pool s.placed = 0 ↔ ∀ n, .ldc (.pool n) ∈ b.instructions →
      isWideConstant s.pool (.pool n) = true → 255 < n := by
    rw [drift_eq_zero_iff, ← s.map_instruction]
    have hindex : ∀ x ∈ s.placed, ∀ n, x.instruction = .ldc (.pool n) → x.index = n := by
      intro x hx n hn
      refine index_of_indexed s.indexed_eq ?_
      rw [← hn, ← s.map_placed]
      exact List.mem_map_of_mem (f := fun x : Placed => (x.instruction, x.index)) hx
    constructor
    · intro h n hn hwide
      rcases List.mem_map.mp hn with ⟨x, hx, hload⟩
      rw [← hindex x hx n hload]
      exact overrun_eq_zero_iff.mp (h x hx) n hload hwide
    · intro h x hx
      refine overrun_eq_zero_iff.mpr fun n hload hwide => ?_
      rw [hindex x hx n hload]
      refine h n ?_ hwide
      rw [← hload]
      exact List.mem_map_of_mem hx
  rw [← hdrift]
  constructor
  · intro h
    have hlength := h.length_eq
    omega
  · intro hzero
    have hstart : ∀ k x, s.placed[k]? = some x → (s.codes.take k).flatten.length = x.pc := by
      intro k x hx
      have htake := s.laid.length_take hown s.emitted hx
      -- In front of an instruction there is no more overrun than in the whole code.
      have hle : drift s.pool (s.placed.take k) ≤ drift s.pool s.placed := drift_take_le k
      omega
    refine ⟨by omega, hstart, fun l o ho => ?_⟩
    rcases exists_of_resolve ho with ⟨k, x, hx, hlabel, rfl⟩
    refine ⟨k, ?_, hstart k x hx⟩
    rw [← s.map_instruction, List.getElem?_map, hx, Option.map_some, hlabel]

end Passes

/-- The sizes that instructions are placed by agree with their bytes exactly if every two-slot
    constant that is named by its index has an index above 255. The bytes stand in the encoding
    behind the limits and the length, and its tables are written with the offsets by size. -/
theorem encode_aligned_iff {b : Body} {method : Member} {p q : Pool} {w : Bytes}
    (howns : ∀ i ∈ b.instructions, i.HasOwnOpcode) (h : encode b method p = .ok w q) :
    ∃ s : Passes b method p,
      (∃ handlers r tables, b.handlers.mapM (handlerBytes s.offsetOf) s.pool = .ok handlers r ∧
        attributes s.offsetOf s.placed b.locals r = .ok tables q ∧
        w = Bytes.ofU16 b.maxStack ++ Bytes.ofU16 b.maxLocals
          ++ Bytes.lengthPrefixed s.codes.flatten ++ tableBytes handlers ++ tableBytes tables) ∧
      (s.Aligned ↔ ∀ n, .ldc (.pool n) ∈ b.instructions →
        isWideConstant s.pool (.pool n) = true → 255 < n) := by
  rcases encode_passes h with ⟨s, _, _, hwritten⟩
  exact ⟨s, hwritten, s.aligned_iff howns⟩

section ComputedLong

/-- A pool whose last entry, at index 4, is a `long` that is computed on first use. -/
def computedLongPool : Pool :=
  [PoolEntry.utf8 "x" [0x78], .utf8 "J" [0x4A], .nameAndType 1 2, .dynamic 0 3].foldl
    Pool.append Pool.empty

/-- Jumps over a load of this constant. -/
def computedLongLoad : Body where
  maxStack := 2
  maxLocals := 0
  instructions := [.jump .goto ⟨0⟩, .ldc (.pool 4), .simple .pop2, .label ⟨0⟩, .simple .voidReturn]
  handlers := []
  locals := []

/-- The passes over this body. The label is placed at 6, and its bytes start at 7. -/
def computedLongPasses : Passes computedLongLoad ⟨"demo/A", "m", "()V"⟩ computedLongPool where
  indices := [(.jump .goto ⟨0⟩, 0), (.ldc (.pool 4), 4), (.simple .pop2, 0), (.label ⟨0⟩, 0),
    (.simple .voidReturn, 0)]
  pool := computedLongPool
  codes := [[0xA7, 0, 6], [0x14, 0, 4], [0x58], [], [0xB1]]
  indexed_eq := rfl
  codes_eq := by
    generalize hf : resolve _ (labelOffsets _) = offsetOf
    have hoff : offsetOf ⟨0⟩ = .ok 6 := by
      rw [← hf]
      simp [resolve, labelOffsets, place, placeFrom, sizeAt, Opcode.takesLongBranch]
    have hjump : emit computedLongPool ⟨"demo/A", "m", "()V"⟩ offsetOf ⟨.jump .goto ⟨0⟩, 0, 0⟩
        = .ok [0xA7, 0, 6] := by
      unfold emit
      simp only [hoff]
      rfl
    change List.mapM _ ((⟨.jump .goto ⟨0⟩, 0, 0⟩ : Placed) :: _) = _
    rw [List.mapM_cons, hjump]
    rfl

/-- The bytes of the body, in which the load takes one more than was counted. -/
theorem encode_computedLongLoad :
    encode computedLongLoad ⟨"demo/A", "m", "()V"⟩ computedLongPool
      = .ok [0, 2, 0, 0, 0, 0, 0, 8, 0xA7, 0, 6, 0x14, 0, 4, 0x58, 0xB1, 0, 0, 0, 0]
          computedLongPool :=
  computedLongPasses.encode_eq (by decide) (by decide) rfl rfl

theorem hasOwnOpcode_of_mem_computedLongLoad :
    ∀ i ∈ computedLongLoad.instructions, i.HasOwnOpcode := by
  have hjump : Opcode.goto.takesShortBranch = true := rfl
  have hpop : Opcode.pop2.isBare = true := rfl
  have hreturn : Opcode.voidReturn.isBare = true := rfl
  simp [computedLongLoad, Instruction.HasOwnOpcode, hjump, hpop, hreturn]

/-- The passes over the load of a small index come apart, though its opcodes are its own and it is
    encoded: the jump goes to 6, in front of the `pop2` and not of the `return`. -/
theorem computedLongLoad_not_aligned :
    (∀ i ∈ computedLongLoad.instructions, i.HasOwnOpcode) ∧
      encode computedLongLoad ⟨"demo/A", "m", "()V"⟩ computedLongPool
        = .ok [0, 2, 0, 0, 0, 0, 0, 8, 0xA7, 0, 6, 0x14, 0, 4, 0x58, 0xB1, 0, 0, 0, 0]
            computedLongPool ∧
      ∀ s : Passes computedLongLoad ⟨"demo/A", "m", "()V"⟩ computedLongPool, ¬s.Aligned := by
  refine ⟨hasOwnOpcode_of_mem_computedLongLoad, encode_computedLongLoad, fun s haligned => ?_⟩
  have hpool : s.pool = computedLongPool := by
    have hindexed := s.indexed_eq.symm.trans computedLongPasses.indexed_eq
    exact (EStateM.Result.ok.inj hindexed).2
  have hlarge := (s.aligned_iff hasOwnOpcode_of_mem_computedLongLoad).mp haligned 4 (by decide)
  rw [hpool] at hlarge
  exact absurd (hlarge rfl) (by decide)

/-- A body with a jump over such a load, for which the passes agree just if the index is large. -/
theorem encode_aligned_iff_computedLongLoad :
    (∀ i ∈ computedLongLoad.instructions, i.HasOwnOpcode) ∧
      (∃ w q, encode computedLongLoad ⟨"demo/A", "m", "()V"⟩ computedLongPool = .ok w q) ∧
      ∃ s : Passes computedLongLoad ⟨"demo/A", "m", "()V"⟩ computedLongPool,
        s.Aligned ↔ ∀ n, .ldc (.pool n) ∈ computedLongLoad.instructions →
          isWideConstant s.pool (.pool n) = true → 255 < n := by
  refine ⟨hasOwnOpcode_of_mem_computedLongLoad, ⟨_, _, encode_computedLongLoad⟩, ?_⟩
  rcases encode_aligned_iff hasOwnOpcode_of_mem_computedLongLoad encode_computedLongLoad
    with ⟨s, _, haligned⟩
  exact ⟨s, haligned⟩

end ComputedLong

end Body

end JvmFold
