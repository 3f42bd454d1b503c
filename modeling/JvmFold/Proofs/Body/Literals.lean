import JvmFold.Proofs.Body.Reencoding
import JvmFold.Proofs.ClassFile.Emission
import JvmFold.Proofs.Rebuild.Plan

/-!
# Literals

A constant is loaded by the shortest instruction there is for it: a small
number by an opcode of its own, a number of 16 bits by its bytes, and every
other constant by its index in the pool. So a constant is meant in three
places, and they have to agree. The instruction tells which constant it loads,
the machine pushes a value for the instruction, and the bytes of the
instruction are read back as an instruction.

For the first two it is enough to look at the instruction. Numbers are compared
bit by bit, so that no zero with a sign and no bits of what is not a number are
lost on an opcode for another number.

The third depends on the body around it. There is one kind of instruction that
is not read back as it was written, a dynamic constant of two slots that is
loaded by its index. With an index above 255 it is another instruction of the
same size, and nothing is shifted. With a smaller index it is written with one
byte more than was counted, and what stands behind it is shifted. A switch
there has its offsets where they are not looked for.

## Main definitions

* `Instruction.Fits`: An instruction whose bytes are as many as are counted.

## Theorems

* `Instruction.literal?_literal`: An instruction for a constant tells the constant.
* `Body.decode_real`: A body that was encoded and decoded has its instructions.
* `Instruction.literal_means_constant`: A constant is the same in the three places.
* `Body.shiftedLoad_not_decoded`: A number behind a constant of two slots is lost.
-/

namespace JvmFold

namespace Instruction

/-- An instruction that pushes an `int` is a literal in each of its forms. -/
theorem literal?_int (v : Int32) : (int v).literal? = some (.int v) := by
  unfold int
  repeat' split
  iterate 7
    next h =>
      subst h
      rfl
  iterate 3 rfl

/-- The instruction for a constant tells the constant, bit by bit. -/
theorem literal?_literal {c : Constant} (hc : ∀ index, c ≠ .pool index) :
    (literal c).literal? = some c := by
  cases c with
  | int v => exact literal?_int v
  | long v =>
      change (if v = 0 then _ else if v = 1 then _ else _ : Instruction).literal? = _
      repeat' split
      iterate 2
        next h =>
          subst h
          rfl
      · rfl
  | float b =>
      change (if b = 0 then _ else if b = _ then _ else if b = _ then _ else _ :
        Instruction).literal? = _
      repeat' split
      -- Each of these has an instruction of its own, which tells it.
      iterate 3
        next h =>
          subst h
          rfl
      · rfl
  | double b =>
      change (if b = 0 then _ else if b = _ then _ else _ : Instruction).literal? = _
      repeat' split
      iterate 2
        next h =>
          subst h
          rfl
      · rfl
  | string text | classRef name => rfl
  | pool index => exact absurd rfl (hc index)

/-- There are no labels in an instruction that tells a constant. -/
theorem relabel_of_literal? {i : Instruction} {c : Constant} (h : i.literal? = some c)
    (f : Label → Label) : i.relabel f = i := by
  cases i <;> first
    | rfl
    | cases h

/-- The operands are those of the opcode, and a constant of two slots that is named by its index has
    one above 255. -/
def Fits (p : Pool) (i : Instruction) : Prop :=
  i.Proper p ∨ ∃ n bootstrap nat,
    i = .ldc (.pool n) ∧ p.entry n = .ok (.dynamic bootstrap nat) ∧ 255 < n

variable {p q : Pool} {i : Instruction}

/-- An instruction that fits is written under the opcode that it has. -/
theorem Fits.hasOwnOpcode (h : i.Fits p) : i.HasOwnOpcode := by
  rcases h with h | ⟨n, bootstrap, nat, rfl, -, -⟩
  · exact h.hasOwnOpcode
  · trivial

/-- A constant of two slots has a large index. -/
theorem Fits.large {n : UInt16} (h : (ldc (.pool n)).Fits p) (hq : Pool.Grows p q)
    (hwide : Body.isWideConstant q (.pool n) = true) : 255 < n := by
  rcases h with h | ⟨m, bootstrap, nat, heq, -, hlarge⟩
  · rw [Body.isWideConstant_eq h hq] at hwide
    cases hwide
  · cases heq
    exact hlarge

/-- The operand gets an index. -/
theorem Fits.gives (h : i.Fits p) :
    Pool.Edit.Gives (Body.poolIndex i) fun index r =>
      Pool.Grows p r → Body.Denotes r index i := by
  rcases h with h | ⟨n, bootstrap, nat, rfl, hentry, -⟩
  · exact Body.poolIndex_gives h
  · refine Pool.gives_pure fun r hr => ?_
    change r.loadable n = _
    unfold Pool.loadable
    rw [hr.entry hentry]
    rfl

end Instruction

namespace Body

open Decode LabelTable

variable {b b' : Body} {p q : Pool} {method : MethodInfo} {w : Bytes}

/-- Every instruction that fits is read back from its bytes. -/
theorem Passes.readsBack (s : Passes b method.member p) (hp : p.Consistent)
    (hfits : ∀ i ∈ b.instructions, i.Fits p) (hle : s.length ≤ 65535) (hq : q.Consistent)
    (hgrows : Pool.Grows s.pool q) :
    List.Forall₂ (Placed.ReadsBack s.Known s.length q s.offsetOf) s.placed s.codes := by
  rcases s.denotes_of hp fun i hi => (hfits i hi).gives with ⟨-, hps, hdenotes⟩
  refine ((List.forall₂_and_left _ _).2 ⟨fun x hx => hx, s.emitted⟩).imp ?_
  rintro ⟨i, index, pc⟩ w ⟨hx, hemit⟩
  have hindex := hdenotes q hq hgrows _ hx
  -- A constant of two slots behind a given index: nothing is run over, since the index is large.
  rcases hfits i (s.mem_instructions hx) with hproper | ⟨n, bootstrap, nat, rfl, -, hlarge⟩
  · exact ⟨emit_length hps hproper hemit, fun hreal hstop =>
      emit_yields hps hproper hreal hindex (s.resolves hle) hemit hstop hle⟩
  · have hnamed : index = n := by
      refine index_of_indexed s.indexed_eq ?_
      rw [← s.map_placed]
      exact List.mem_map_of_mem (f := fun x : Placed => (x.instruction, x.index)) hx
    have hroom := emit_length_overrun (hfits _ (s.mem_instructions hx)).hasOwnOpcode hemit
    rw [overrun_eq_zero_iff.2 fun m hm _ => ?_, Nat.add_zero] at hroom
    · refine ⟨hroom, fun _ _ => ?_⟩
      cases hemit
      exact ldc_yields hindex
    · cases hm
      exact hnamed ▸ hlarge

/-- Two steps that come to an end have gone on from what the first one yields. -/
theorem exists_run {α β : Type} {B : Nat → Prop} {pos : Nat} {d : Decode α} {f : α → Decode β}
    {rest z : Bytes} {g : (Nat → Label) → α} {t t' : LabelTable} {data : Bytes} {c : Cursor} {v : β}
    (h : YieldsBefore rest B pos d z g) (ht : Valid B t)
    (hrun : (d >>= f) t ⟨data, pos, z ++ rest⟩ = .ok (v, t') c) :
    ∃ a u, a = g u.name ∧ Valid B u ∧ f a u ⟨data, pos + z.length, rest⟩ = .ok (v, t') c := by
  rcases h data t ht with ⟨a, u, hd, hu, -, ha⟩
  refine ⟨a, u, ha u (extends_refl u), hu, ?_⟩
  rw [← hrun]
  exact (bind_of_ok (m := d t) (f := fun x => f x.1 x.2) hd).symm

/-- What is read of the code is what the code yields. -/
theorem exists_code_of_run {B : Nat → Prop} {code rest data : Bytes} {maxStack maxLocals : UInt16}
    {g : (Nat → Label) → List (Nat × Instruction)} {t : LabelTable} {c : Cursor}
    {r : UInt16 × UInt16 × Nat × List (Nat × Instruction) × List Handler × Tables}
    (hsmall : code.length < 4294967296)
    (hcode : YieldsBefore [] B 0 (readInstructions q code.length code.length []) code g)
    (hrun : readBody q method ∅ ⟨data, 0, Bytes.ofU16 maxStack ++ (Bytes.ofU16 maxLocals ++
      (Bytes.ofU32 code.length.toUInt32 ++ (code ++ rest)))⟩ = .ok (r, t) c) :
    ∃ u : LabelTable, r.2.2.2.1 = g u.name := by
  have hlength : code.length.toUInt32.toNat = code.length := Nat.mod_eq_of_lt hsmall
  unfold readBody at hrun
  rcases exists_run (yields_read (Read.takes_u16 maxStack) _) valid_empty hrun with
    ⟨_, _, rfl, ht, hrun⟩
  rcases exists_run (yields_read (Read.takes_u16 maxLocals) _) ht hrun with ⟨_, _, rfl, ht, hrun⟩
  rcases exists_run (yields_read (Read.takes_u32 _) _) ht hrun with ⟨_, _, rfl, ht, hrun⟩
  rw [hlength] at hrun
  rcases exists_run (yields_read (Read.takes_bytes code) _) ht hrun with ⟨_, _, rfl, ht, hrun⟩
  rcases exists_run (z := []) (yields_within hcode _) ht hrun with ⟨found, u, hfound, -, hrun⟩
  refine ⟨u, hfound ▸ ?_⟩
  -- What is read behind the code adds labels but changes no instruction.
  rcases bind_cases hrun with ⟨count, _, _, -, hrun⟩
  rcases bind_cases hrun with ⟨handlers, _, _, -, hrun⟩
  rcases bind_cases hrun with ⟨attributes, _, _, -, hrun⟩
  rcases bind_cases hrun with ⟨tables, _, _, -, hrun⟩
  cases hrun
  rfl

/-- Decoding what was encoded gives back the instructions, with other labels. -/
theorem decode_real (hp : p.Consistent) (hfits : ∀ i ∈ b.instructions, i.Fits p)
    (h : encode b method.member p = .ok w q) (hdecode : decode w q method = .ok b') :
    ∃ f : Label → Label, b'.real = b.real.map fun i => i.relabel f := by
  rcases encode_passes h with ⟨s, -, hle, handlers, r, tables, hhandlers, htables, rfl⟩
  rcases s.denotes_of hp fun i hi => (hfits i hi).gives with ⟨hpool, hgrows, -⟩
  have hadds : Pool.Adds s.pool q :=
    (Pool.Edit.Adding.adds hhandlers).trans (Pool.Edit.Adding.adds htables)
  -- The code is read back from the pool as the tables have left it.
  have hcodes := s.readsBack hp hfits hle (hadds.consistent hpool) hadds.grows
  have haligned : s.Aligned := (s.aligned_iff fun i hi => (hfits i hi).hasOwnOpcode).2
    fun n hn hwide => (hfits _ hn).large hgrows hwide
  have hlength := haligned.length_eq
  have hyields := s.laid.yields hcodes (Nat.le_refl _) s.length (Nat.le_of_eq hlength) []
  rcases exists_readAs hdecode with ⟨t, r, hread⟩
  rcases hread.run with ⟨c, hrun⟩
  simp only [Bytes.lengthPrefixed, List.append_assoc] at hrun
  rw [← hlength] at hyields hle
  rcases exists_code_of_run (by omega) hyields hrun with ⟨u, hcode⟩
  -- Each label becomes the name of the offset that it was written as.
  refine ⟨fun l => u.name (offset s.offsetOf l), ?_⟩
  rw [hread.layout.real_eq, hcode]
  unfold Body.real
  rw [← s.map_instruction, List.filter_map, List.map_map, List.map_map]
  exact List.map_map

end Body

/-- An instruction for a constant tells the constant, and the machine pushes what the constant
    stands for. Where a body that has the instruction was encoded, the instruction is there when it
    is decoded; and it is decoded if it is regular. -/
theorem Instruction.literal_means_constant (c : Constant) (hc : ∀ index, c ≠ .pool index) :
    (literal c).literal? = some c ∧
    (∀ k a, Emu.step k (literal c) a = Emu.constant c >>= fun v => pure (.next (v :: a.stack))) ∧
    ∀ (b : Body) (p q : Pool) (method : MethodInfo) (w : Bytes), p.Consistent →
      (∀ i ∈ b.instructions, i.Fits p) → b.encode method.member p = .ok w q →
      (∀ (n : Nat) b', b.real[n]? = some (literal c) → Body.decode w q method = .ok b' →
        b'.real[n]? = some (literal c)) ∧
      (b.Regular p →
        ((∃ f, .frame f ∈ b.instructions) → ∃ entry, method.initialLocals = .ok entry) →
        w.length < 4294967296 → ∃ b', Body.decode w q method = .ok b') := by
  refine ⟨literal?_literal hc, fun k a => Emu.step_literal c, ?_⟩
  intro b p q method w hp hfits hencode
  refine ⟨fun n b' hn hdecode => ?_, fun hregular hentry hw => ?_⟩
  · rcases Body.decode_real hp hfits hencode hdecode with ⟨f, hreal⟩
    rw [hreal, List.getElem?_map, hn, Option.map_some, relabel_of_literal? (literal?_literal hc)]
  · rcases Body.readBody_yields hp hregular hentry hencode hw with ⟨s, hread, -⟩
    rcases s.decode_eq hread with ⟨t, -, hdecode, -⟩
    exact ⟨_, hdecode⟩

namespace Body

/-- A static method that returns a number. -/
def numberMethod : MethodInfo :=
  ⟨⟨"demo/A", "m", "()I"⟩, true⟩

/-- Loads a number that is too large for an instruction of its own, and returns it. -/
def numberLoad : Body where
  maxStack := 1
  maxLocals := 0
  instructions := [.literal (.int 100000), .simple .ireturn]

/-- The bytes of the body if the number has index 1. -/
def numberBytes : Bytes :=
  [0, 1, 0, 0, 0, 0, 0, 3, 0x12, 1, 0xAC, 0, 0, 0, 0]

/-- The body of the example keeps every rule of a body. -/
theorem numberLoad_regular (p : Pool) : numberLoad.Regular p where
  proper := by
    have hload : Instruction.literal (.int 100000) = .ldc (.int 100000) := rfl
    have hreturn : Opcode.ireturn.isBare = true := rfl
    simp [numberLoad, Instruction.Proper, hload, hreturn]
  placed_once := by decide
  framed_once := by decide
  attached := by decide
  ranges := by decide
  handlers_le := by decide
  locals_le := by decide
  lines_le := by decide
  frames_le := by decide

/-- The passes over the body, if the number gets index 1. -/
def numberPasses {p q : Pool} (h : Pool.push (.integer 100000) p = .ok 1 q) :
    Passes numberLoad numberMethod.member p where
  indices := [(.ldc (.int 100000), 1), (.simple .ireturn, 0)]
  pool := q
  codes := [[0x12, 1], [0xAC]]
  indexed_eq := mapM_cons_of_ok (bind_of_ok h) rfl
  codes_eq := rfl

/-- Its bytes, where the constant gets the first index of the pool. -/
theorem encode_numberLoad {p q : Pool} (h : Pool.push (.integer 100000) p = .ok 1 q) :
    encode numberLoad numberMethod.member p = .ok numberBytes q := by
  have hlength : (numberPasses h).length = 3 := rfl
  have hcode : (numberPasses h).codes.flatten = [0x12, 1, 0xAC] := rfl
  have hencode := (numberPasses h).encode_eq (by rw [hlength]; decide) (by rw [hlength]; decide)
    rfl rfl
  rw [hcode] at hencode
  exact hencode

end Body

/-- The number is loaded by its index, and is there when the body is decoded. -/
theorem Instruction.literal_means_number :
    (∀ index, Constant.int 100000 ≠ .pool index) ∧
    (literal (.int 100000)).literal? = some (.int 100000) ∧
    (∀ k a, Emu.step k (literal (.int 100000)) a
      = Emu.constant (.int 100000) >>= fun v => pure (.next (v :: a.stack))) ∧
    ∃ q b', Body.numberLoad.encode Body.numberMethod.member .empty = .ok Body.numberBytes q ∧
      Body.decode Body.numberBytes q Body.numberMethod = .ok b' ∧
      b'.real[0]? = some (literal (.int 100000)) := by
  have hc : ∀ index, Constant.int 100000 ≠ .pool index := nofun
  have hencode : Body.numberLoad.encode Body.numberMethod.member .empty = .ok Body.numberBytes _ :=
    Body.encode_numberLoad (Pool.push_of_new (by simp [Pool.find?, PoolEntry.key?, Pool.empty])
      (by decide))
  -- The body is read back, and the constant stands at the index that the bytes name.
  have hregular := Body.numberLoad_regular .empty
  have hframes : (∃ f, .frame f ∈ Body.numberLoad.instructions) →
      ∃ entry, Body.numberMethod.initialLocals = .ok entry := by
    rintro ⟨f, hf⟩
    simp [Body.numberLoad, literal, int] at hf
  rcases literal_means_constant (.int 100000) hc with ⟨hliteral, hstep, hbodies⟩
  rcases hbodies _ _ _ _ _ Pool.consistent_empty (fun i hi => .inl (hregular.proper i hi)) hencode
    with ⟨hkept, hdecodes⟩
  rcases hdecodes hregular hframes (by decide) with ⟨b', hdecode⟩
  exact ⟨hc, hliteral, hstep, _, b', hencode, hdecode, hkept 0 b' rfl hdecode⟩

namespace Body

/-- Loads a `long` that is computed on first use, and behind a switch a number. -/
def shiftedLoad : Body where
  maxStack := 2
  maxLocals := 0
  instructions := [.ldc (.pool 4), .simple .pop2, .simple .iconst0, .lookupSwitch ⟨0⟩ [],
    .label ⟨0⟩, .literal (.int 100000), .simple .ireturn]

/-- The pool with the number as well. -/
def shiftedPool : Pool :=
  computedLongPool.append (.integer 100000)

/-- The passes over this body. The `long` is loaded by three bytes and not by two, so the switch
    stands at 5 and is filled up for 4. -/
def shiftedPasses : Passes shiftedLoad numberMethod.member computedLongPool where
  indices := [(.ldc (.pool 4), 4), (.simple .pop2, 0), (.simple .iconst0, 0),
    (.lookupSwitch ⟨0⟩ [], 0), (.label ⟨0⟩, 0), (.ldc (.int 100000), 5), (.simple .ireturn, 0)]
  pool := shiftedPool
  codes := [[0x14, 0, 4], [0x58], [3], [0xAB, 0, 0, 0, 0, 0, 0, 12, 0, 0, 0, 0], [], [0x12, 5],
    [0xAC]]
  indexed_eq := by
    have hnew : computedLongPool.find? (.integer 100000) = none := by
      refine (Pool.lookup_appendAll_of_ne (p := .empty) ?_).trans Std.HashMap.getElem?_empty
      decide
    have hnumber : Pool.push (.integer 100000) computedLongPool = .ok 5 shiftedPool :=
      Pool.push_of_new hnew (by decide)
    refine mapM_cons_of_ok rfl (mapM_cons_of_ok rfl (mapM_cons_of_ok rfl (mapM_cons_of_ok rfl
      (mapM_cons_of_ok rfl (mapM_cons_of_ok ?_ rfl)))))
    exact bind_of_ok hnumber
  codes_eq := by
    generalize hf : resolve _ (labelOffsets _) = offsetOf
    have hoff : offsetOf ⟨0⟩ = .ok 16 := by
      rw [← hf]
      simp [resolve, labelOffsets, place, placeFrom, sizeAt, switchPadding]
    have hswitch : emit shiftedPool numberMethod.member offsetOf ⟨.lookupSwitch ⟨0⟩ [], 0, 4⟩
        = .ok [0xAB, 0, 0, 0, 0, 0, 0, 12, 0, 0, 0, 0] := by
      unfold emit
      simp only [hoff]
      rfl
    change List.mapM _ [(⟨.ldc (.pool 4), 4, 0⟩ : Placed), ⟨.simple .pop2, 0, 2⟩,
      ⟨.simple .iconst0, 0, 3⟩, ⟨.lookupSwitch ⟨0⟩ [], 0, 4⟩, ⟨.label ⟨0⟩, 0, 16⟩,
      ⟨.ldc (.int 100000), 5, 16⟩, ⟨.simple .ireturn, 0, 18⟩] = _
    simp only [List.mapM_cons, hswitch]
    rfl

/-- The bytes of this body. -/
def shiftedBytes : Bytes :=
  [0, 2, 0, 0, 0, 0, 0, 20, 0x14, 0, 4, 0x58, 3, 0xAB, 0, 0, 0, 0, 0, 0, 12, 0, 0, 0, 0, 0x12, 5,
    0xAC, 0, 0, 0, 0]

/-- The body loads the number and is encoded, but its bytes are not read back: the offsets of the
    switch are looked for one byte in front of where they are. -/
theorem shiftedLoad_not_decoded :
    shiftedLoad.real[4]? = some (.literal (.int 100000)) ∧
      encode shiftedLoad numberMethod.member computedLongPool = .ok shiftedBytes shiftedPool ∧
      ∃ e, decode shiftedBytes shiftedPool numberMethod = .error e := by
  have hencode := shiftedPasses.encode_eq (by decide) (by decide) rfl rfl
  have hdecode (lookup : Std.HashMap PoolKey UInt16) : ∃ e, decode shiftedBytes
      ⟨#[.unusable, .utf8 "x" [0x78], .utf8 "J" [0x4A], .nameAndType 1 2, .dynamic 0 3,
        .integer 100000], lookup⟩ numberMethod = .error e := by
    refine ⟨.malformed (.switchPairs 5 201326592), ?_⟩
    cbv
  exact ⟨rfl, hencode, hdecode _⟩

end Body

end JvmFold
