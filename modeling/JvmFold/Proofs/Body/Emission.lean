import JvmFold.Body.Encode
import JvmFold.Proofs.Body.Labels
import JvmFold.Proofs.Body.View
import JvmFold.Proofs.Pool.Growth

/-!
# Instructions and Their Bytes

Every instruction is read back from the bytes it is written to: with the same
operands, whichever of the short and wide forms they take, and with the labels
of its targets replaced by the names of their offsets. An instruction must be
proper for that, that is, have an opcode and operands of its own kind; the
bytes do not tell an opcode that stands with the operands of another.

## Main definitions

* `Instruction.HasOwnOpcode`: An instruction with an opcode of its own kind.
* `Instruction.Proper`: An instruction with an opcode and operands of its own kind.
* `Body.Denotes`: The pool has the operand of an instruction at an index.
* `Body.overrun`: The bytes that an instruction takes beyond its room.

## Theorems

* `Body.poolIndex_gives`: The operand of an instruction gets an index.
* `Body.emit_length_overrun`: The bytes of an instruction against its room.
* `Body.emit_yields`: An instruction is read back.
-/

namespace JvmFold

namespace Opcode

/-- The opcodes by number. -/
theorem all_toList : all.toList = (List.range 202).map ofNat := by
  decide +kernel

theorem ctorIdx_lt (op : Opcode) : op.ctorIdx < 202 := by
  cases op <;> decide

/-- The byte of an opcode is read as the opcode. -/
theorem ofByte?_byte (op : Opcode) : ofByte? op.byte = some op := by
  have hlt := ctorIdx_lt op
  have hbyte : op.byte.toNat = op.ctorIdx := by
    change op.ctorIdx % 256 = op.ctorIdx
    omega
  unfold ofByte?
  rw [hbyte, ← Array.getElem?_toList, all_toList, List.getElem?_map, List.getElem?_range hlt]
  exact congrArg some (ofNat_ctorIdx op)

/-- Whether the reader has a case of its own for the operands of the opcode. -/
def isSpecial : Opcode → Bool
  | .bipush | .sipush | .ldc | .ldcW | .ldc2W | .iinc | .tableswitch | .lookupswitch | .getstatic
  | .putstatic | .getfield | .putfield | .invokevirtual | .invokespecial | .invokestatic
  | .invokeinterface | .invokedynamic | .new | .anewarray | .checkcast | .instanceof | .newarray
  | .multianewarray | .wide => true
  | _ => false

/-- Whether the opcode is an instruction by itself; the one-byte accesses to local variables are
    not, since they have their index in the opcode. -/
def isBare (op : Opcode) : Bool :=
  !op.isSpecial && !op.takesLocal && !op.takesShortBranch && !op.takesLongBranch
    && op.shortLocal?.isNone

/-- An opcode with a local variable is read without a case of its own. -/
theorem takesLocal_not_special {op : Opcode} (h : op.takesLocal = true) : op.isSpecial = false := by
  cases op <;> first | rfl | cases h

theorem takesShortBranch_not_special {op : Opcode} (h : op.takesShortBranch = true) :
    op.isSpecial = false ∧ op.takesLocal = false := by
  cases op <;> first | exact ⟨rfl, rfl⟩ | cases h

theorem takesLongBranch_not_special {op : Opcode} (h : op.takesLongBranch = true) :
    op.isSpecial = false ∧ op.takesLocal = false ∧ op.takesShortBranch = false := by
  cases op <;> first | exact ⟨rfl, rfl, rfl⟩ | cases h

end Opcode

/-- The opcode is one of the kind that the operands are for. -/
def Instruction.HasOwnOpcode : Instruction → Prop
  | .simple op => op.isBare = true ∨ op.shortLocal?.isSome = true
  | .push op _ => op = .bipush ∨ op = .sipush
  | .var op _ => op.takesLocal = true
  | .typed op _ => op = .new ∨ op = .anewarray ∨ op = .checkcast ∨ op = .instanceof
  | .field op _ => op = .getstatic ∨ op = .putstatic ∨ op = .getfield ∨ op = .putfield
  | .invoke op _ _ =>
      op = .invokevirtual ∨ op = .invokespecial ∨ op = .invokestatic ∨ op = .invokeinterface
  | .jump op _ => op.takesShortBranch = true ∨ op.takesLongBranch = true
  | _ => True

/-- The operands are those of the opcode, and a constant that is named by its index in the pool is
    one that has no other name and takes one slot. -/
def Instruction.Proper (p : Pool) : Instruction → Prop
  | .label _ | .line _ | .newArray _ | .iinc _ _ | .invokeDynamic _ _ _ | .lookupSwitch _ _
  | .multiNewArray _ _ => True
  | .frame f => f.locals.length ≤ 65535 ∧ f.stack.length ≤ 65535
  | .simple op => op.isBare = true
  | .push op v =>
      op = .bipush ∧ -128 ≤ v.toInt ∧ v.toInt ≤ 127 ∨
      op = .sipush ∧ -32768 ≤ v.toInt ∧ v.toInt ≤ 32767
  | .var op _ => op.takesLocal = true
  | .typed op _ => op = .new ∨ op = .anewarray ∨ op = .checkcast ∨ op = .instanceof
  | .field op _ => op = .getstatic ∨ op = .putstatic ∨ op = .getfield ∨ op = .putfield
  | .invoke op _ isInterface =>
      op = .invokevirtual ∨ op = .invokespecial ∨ op = .invokestatic ∨
      op = .invokeinterface ∧ isInterface = true
  | .jump op _ => op.takesShortBranch = true ∨ op.takesLongBranch = true
  | .tableSwitch _ low high targets =>
      low.toInt ≤ high.toInt ∧ (targets.length : Int) = high.toInt - low.toInt + 1
  | .ldc (.pool index) =>
      (∃ kind reference, p.entry index = .ok (.methodHandle kind reference)) ∨
      (∃ descriptor, p.entry index = .ok (.methodType descriptor)) ∨
      ∃ bootstrap nat s, p.entry index = .ok (.dynamic bootstrap nat) ∧
        p.nameAndType nat = .ok s ∧ s.descriptor ≠ "J" ∧ s.descriptor ≠ "D"
  | .ldc _ => True

/-- What decoding can give is written under the opcode that it has. -/
theorem Instruction.Proper.hasOwnOpcode {p : Pool} {i : Instruction}
    (h : i.Proper p) : i.HasOwnOpcode := by
  cases i with
  | push op v => exact h.imp And.left And.left
  | invoke op m isInterface => exact h.imp_right (Or.imp_right (Or.imp_right And.left))
  | simple op => exact Or.inl h
  | var op index | typed op name | field op m | jump op l => exact h
  | _ => trivial

namespace Body

/-- The pool has the operand of the instruction at the index. -/
def Denotes (r : Pool) (index : UInt16) : Instruction → Prop
  | .typed _ name | .multiNewArray name _ => r.className index = .ok name
  | .field _ m => r.member index = .ok (m, false)
  | .invoke _ m isInterface => r.member index = .ok (m, isInterface)
  | .invokeDynamic bootstrap name descriptor =>
      ∃ nat, r.entry index = .ok (.invokeDynamic bootstrap nat) ∧
        r.nameAndType nat = .ok ⟨name, descriptor⟩
  | .ldc c => r.loadable index = .ok c
  | _ => True

/-- The bytes that an instruction takes beyond its room: a constant of two slots that is named by a
    small index has the room of one that takes a single slot. -/
def overrun (pool : Pool) (index : UInt16) : Instruction → Nat
  | .ldc (.pool i) => if isWideConstant pool (.pool i) = true ∧ index ≤ 255 then 1 else 0
  | _ => 0

section Pool

variable {p q r : Pool}

/-- A constant that is added can be loaded by the index that it gets. -/
theorem addConstant_gives {c : Constant} (hc : (Instruction.ldc c).Proper p) :
    Pool.Edit.Gives (Pool.addConstant c) fun i r => Pool.Grows p r → r.loadable i = .ok c := by
  cases c with
  | int v | float b | long v | double b =>
      refine (Pool.push_gives_entry rfl rfl).imp fun i r hentry _ => ?_
      unfold Pool.loadable
      rw [hentry]
      rfl
  | string t =>
      refine (Pool.addString_gives t).imp fun i r ⟨n, hentry, htext⟩ _ => ?_
      unfold Pool.loadable
      rw [hentry]
      change (r.text n >>= fun t => _) = _
      rw [htext]
      rfl
  | classRef name =>
      refine (Pool.addClass_gives_entry name).imp fun i r ⟨n, hentry, htext⟩ _ => ?_
      unfold Pool.loadable
      rw [hentry]
      change (r.text n >>= fun t => _) = _
      rw [htext]
      rfl
  -- The entry was there before, and the pool only grew.
  | pool index =>
      refine Pool.gives_pure fun r hr => ?_
      unfold Pool.loadable
      rcases hc with ⟨_, _, hentry⟩ | ⟨_, hentry⟩ | ⟨_, _, _, hentry, _⟩
      · rw [hr.entry hentry]
        rfl
      · rw [hr.entry hentry]
        rfl
      · rw [hr.entry hentry]
        rfl

/-- The operand of a proper instruction gets an index. -/
theorem poolIndex_gives {i : Instruction} (hi : i.Proper p) :
    Pool.Edit.Gives (poolIndex i) fun index r => Pool.Grows p r → Denotes r index i := by
  cases i with
  | typed op name => exact (Pool.addClass_gives name).imp fun _ _ h _ => h
  | multiNewArray name dimensions => exact (Pool.addClass_gives name).imp fun _ _ h _ => h
  | field op m => exact (Pool.addField_gives m).imp fun _ _ h _ => h
  | invoke op m isInterface => exact (Pool.addMethod_gives m isInterface).imp fun _ _ h _ => h
  | invokeDynamic bootstrap name descriptor =>
      exact (Pool.addInvokeDynamic_gives bootstrap name descriptor).imp fun _ _ h _ => h
  | ldc c => exact addConstant_gives hi
  | _ => exact Pool.gives_pure fun _ _ => trivial

/-- A constant takes two slots if it is one of the two kinds that do; one that is named by its index
    does not. -/
theorem isWideConstant_eq {c : Constant} (hc : (Instruction.ldc c).Proper p)
    (hq : Pool.Grows p q) : isWideConstant q c = (c.slots == 2) := by
  cases c with
  | pool index =>
      unfold isWideConstant
      rcases hc with ⟨_, _, hentry⟩ | ⟨_, hentry⟩ | ⟨_, nat, s, hentry, hnat, hlong, hdouble⟩
      · simp only [hq.entry hentry]
        rfl
      · simp only [hq.entry hentry]
        rfl
      · simp only [hq.entry hentry, hq.nameAndType hnat]
        rw [beq_false_of_ne hlong, beq_false_of_ne hdouble]
        rfl
  | _ => rfl

/-- A proper instruction stays in its room. -/
theorem overrun_eq_zero {i : Instruction} {index : UInt16} (hq : Pool.Grows p q)
    (hi : i.Proper p) : overrun q index i = 0 := by
  unfold overrun
  split
  · rw [isWideConstant_eq hi hq]
    exact if_neg fun h => absurd h.1 (by simp [Constant.slots])
  · rfl

end Pool

section Read

open Decode

variable {B : Nat → Prop} {pos pc length : Nat} {pool : Pool} {op : Opcode} {w : Bytes}
variable {g : (Nat → Label) → Instruction}

/-- The byte of an opcode is taken as a whole. -/
theorem takes_readOpcode {b : UInt8} (hb : Opcode.ofByte? b = some op) :
    Read.Takes readOpcode [b] op := by
  refine (Read.takes_u8 b).bind (z := []) ?_
  simp only [hb]
  exact Read.takes_pure op

/-- An instruction is read by its opcode and then its operands. -/
theorem readInstruction_yields {b : UInt8} (hb : Opcode.ofByte? b = some op)
    (h : Yields B (pc + 1) (readOperands pool length pc op) w g) :
    Yields B pc (readInstruction pool length) (b :: w) fun name => (pc, g name) := by
  refine yields_position.andThen (z := b :: w) ?_
  refine (yields_read (takes_readOpcode hb)).andThen (z := w) ?_
  exact h.map

/-- The operands of an opcode without a case of its own. -/
theorem readOperands_other (h : op.isSpecial = false) :
    readOperands pool length pc op =
      if op.takesLocal then do return .var op (← Read.u8).toUInt16
      else if op.takesShortBranch then do
        return .jump op (← Decode.labelFrom pc (← Read.i16).toInt)
      else if op.takesLongBranch then do
        return .jump op (← Decode.labelFrom pc (← Read.i32).toInt)
      else
        match op.shortLocal? with
        | some (op, index) => return .var op index
        | none => return .simple op := by
  unfold readOperands
  split
  all_goals first | rfl | cases h

/-- An opcode without operands. -/
theorem bare_yields (h : op.isBare = true) :
    Yields B pos (readOperands pool length pc op) [] fun _ => .simple op := by
  unfold Opcode.isBare at h
  simp only [Bool.and_eq_true, Bool.not_eq_true', Option.isNone_iff_eq_none] at h
  rcases h with ⟨⟨⟨⟨hspecial, hlocal⟩, hshort⟩, hlong⟩, hnone⟩
  rw [readOperands_other hspecial]
  simp only [hlocal, hshort, hlong, hnone, Bool.false_eq_true, if_false]
  exact yields_pure _

/-- An opcode with a local variable. -/
theorem local_yields (h : op.takesLocal = true) (n : UInt8) :
    Yields B pos (readOperands pool length pc op) [n] fun _ => .var op n.toUInt16 := by
  rw [readOperands_other (Opcode.takesLocal_not_special h), if_pos h]
  exact (yields_read (Read.takes_u8 n)).map

/-- A branch of two bytes leads where it led. -/
theorem shortBranch_yields (h : op.takesShortBranch = true) {d : Int16} {o : Nat}
    (ho : (pc : Int) + d.toInt = o) (hB : B o) :
    Yields B pos (readOperands pool length pc op) (Bytes.ofU16 d.toUInt16)
      fun name => .jump op (name o) := by
  rcases Opcode.takesShortBranch_not_special h with ⟨hspecial, hlocal⟩
  rw [readOperands_other hspecial]
  simp only [hlocal, h, Bool.false_eq_true, if_false, if_true]
  exact (yields_read (Read.takes_i16 d)).finish (yields_labelFrom ho hB).map

-- So does one of four bytes.
theorem longBranch_yields (h : op.takesLongBranch = true) {d : Int32} {o : Nat}
    (ho : (pc : Int) + d.toInt = o) (hB : B o) :
    Yields B pos (readOperands pool length pc op) (Bytes.ofU32 d.toUInt32)
      fun name => .jump op (name o) := by
  rcases Opcode.takesLongBranch_not_special h with ⟨hspecial, hlocal, hshort⟩
  rw [readOperands_other hspecial]
  simp only [hlocal, hshort, h, Bool.false_eq_true, if_false, if_true]
  exact (yields_read (Read.takes_i32 d)).finish (yields_labelFrom ho hB).map

/-- The one-byte accesses to local variables, by opcode and index. -/
theorem shortByte_reads : [Opcode.iload, .lload, .fload, .dload, .aload, .istore, .lstore, .fstore,
    .dstore, .astore].all fun op => [(0 : UInt16), 1, 2, 3].all fun n =>
      ((op.shortByte? n).bind Opcode.ofByte?).any fun short => short.shortLocal? = some (op, n)
        ∧ short.isSpecial = false ∧ short.takesLocal = false ∧ short.takesShortBranch = false
        ∧ short.takesLongBranch = false := by
  decide +kernel

/-- The one-byte forms stand for an access to a local variable. -/
theorem shortLocal_yields {n : UInt16} {b : UInt8} (hb : op.shortByte? n = some b) :
    Yields B pc (readInstruction pool length) [b] fun _ => (pc, .var op n) := by
  have hn : n ∈ [(0 : UInt16), 1, 2, 3] := by
    unfold Opcode.shortByte? at hb
    split at hb
    · cases hb
    next hlt =>
      have hsmall : n.toNat < 4 := by
        rw [UInt16.le_iff_toNat_le] at hlt
        exact Nat.lt_of_not_le hlt
      have hcases : n = 0 ∨ n = 1 ∨ n = 2 ∨ n = 3 := by
        simp only [← UInt16.toNat_inj]
        change n.toNat = 0 ∨ n.toNat = 1 ∨ n.toNat = 2 ∨ n.toNat = 3
        omega
      rcases hcases with rfl | rfl | rfl | rfl <;> decide
  have hop : op ∈ [Opcode.iload, .lload, .fload, .dload, .aload, .istore, .lstore, .fstore, .dstore,
      .astore] := by
    unfold Opcode.shortByte? at hb
    split at hb
    · cases hb
    · cases op <;> first | decide | cases hb
  -- The short forms are finitely many, and all of them were computed.
  have hreads := List.all_eq_true.1 (List.all_eq_true.1 shortByte_reads op hop) n hn
  rw [hb, Option.bind_some] at hreads
  cases hof : Opcode.ofByte? b with
  | none =>
      rw [hof] at hreads
      cases hreads
  | some short =>
      rw [hof] at hreads
      simp only [Option.any_some, decide_eq_true_eq] at hreads
      rcases hreads with ⟨hshort, hspecial, hlocal, hbranch, hlong⟩
      refine readInstruction_yields hof ?_
      rw [readOperands_other hspecial]
      simp only [hlocal, hbranch, hlong, hshort, Bool.false_eq_true, if_false]
      exact yields_pure _

end Read

section Numbers

theorem toUInt8_toUInt16 {n : UInt16} (hn : n ≤ 255) : n.toUInt8.toUInt16 = n := by
  apply UInt16.toNat.inj
  rw [UInt16.le_iff_toNat_le] at hn
  change n.toNat ≤ 255 at hn
  change n.toNat % 256 = n.toNat
  omega

theorem toInt8_toInt32 {v : Int32} (h : -128 ≤ v.toInt) (h' : v.toInt ≤ 127) :
    v.toInt8.toInt32 = v := by
  apply Int32.toInt.inj
  rw [Int8.toInt_toInt32, Int32.toInt_toInt8]
  exact Int.bmod_eq_of_le (by omega) (by omega)

theorem toInt16_toInt32 {v : Int32} (h : -32768 ≤ v.toInt) (h' : v.toInt ≤ 32767) :
    v.toInt16.toInt32 = v := by
  apply Int32.toInt.inj
  rw [Int16.toInt_toInt32, Int32.toInt_toInt16]
  exact Int.bmod_eq_of_le (by omega) (by omega)

theorem toInt8_toInt16 {v : Int16} (h : -128 ≤ v) (h' : v ≤ 127) : v.toInt8.toInt16 = v := by
  rw [Int16.le_iff_toInt_le] at h h'
  apply Int16.toInt.inj
  rw [Int8.toInt_toInt16, Int16.toInt_toInt8]
  exact Int.bmod_eq_of_le h (by exact Int.lt_add_one_of_le h')

theorem toInt_ofInt16 {d : Int} (h : -32768 ≤ d) (h' : d ≤ 32767) : (Int16.ofInt d).toInt = d :=
  Int16.toInt_ofInt_of_le h (by omega)

theorem toInt_ofInt32 {d : Int} (h : -65535 ≤ d) (h' : d ≤ 65535) : (Int32.ofInt d).toInt = d :=
  Int32.toInt_ofInt_of_le (by omega) (by omega)

end Numbers

/-- The offset of a label that has one. -/
def offset (offsetOf : Label → Except Error Nat) (l : Label) : Nat :=
  match offsetOf l with
  | .ok o => o
  | .error _ => 0

section Emit

open Decode

variable {B : Nat → Prop} {pos pc length : Nat} {p q pool : Pool} {w : Bytes} {method : Member}
variable {offsetOf : Label → Except Error Nat}

/-- The displacement of a label from the instruction that is emitted. -/
def displacement (offsetOf : Label → Except Error Nat) (pc : Nat) (l : Label) :
    Except Error Int := do
  return ((← offsetOf l : Nat) : Int) - pc

/-- A displacement leads to the offset of its label. -/
theorem displacement_eq {l : Label} {d : Int} (h : displacement offsetOf pc l = .ok d) :
    offsetOf l = .ok (offset offsetOf l) ∧ (pc : Int) + d = offset offsetOf l := by
  rcases except_bind_ok h with ⟨o, hl, h⟩
  cases h
  unfold offset
  rw [hl]
  refine ⟨rfl, ?_⟩
  change (pc : Int) + ((o : Int) - pc) = o
  omega

/-- A key is written with the displacement of its target. -/
theorem displacement_of_pair {pair : Int32 × Label} {d : Int32 × Int}
    (h : (do return (pair.1, ← displacement offsetOf pc pair.2)) = .ok d) :
    d.1 = pair.1 ∧ displacement offsetOf pc pair.2 = .ok d.2 := by
  rcases except_bind_ok h with ⟨e, he, h⟩
  cases h
  exact ⟨rfl, he⟩

/-- Offsets that labels are resolved to: they are known, and small. -/
def Resolves (B : Nat → Prop) (offsetOf : Label → Except Error Nat) : Prop :=
  ∀ l o, offsetOf l = .ok o → B o ∧ o ≤ 65535

/-- A displacement between such offsets fits in four bytes and leads to the offset of its label. -/
theorem Resolves.leads (hoff : Resolves B offsetOf) (hpc : pc ≤ 65535) {l : Label} {d : Int}
    (h : displacement offsetOf pc l = .ok d) :
    B (offset offsetOf l) ∧ (pc : Int) + (Int32.ofInt d).toInt = offset offsetOf l := by
  rcases displacement_eq h with ⟨hl, hd⟩
  rcases hoff l _ hl with ⟨hB, hsmall⟩
  rw [toInt_ofInt32 (by omega) (by omega)]
  exact ⟨hB, hd⟩

/-- A long branch is read back. -/
theorem longTarget_yields (hoff : Resolves B offsetOf) (hpc : pc ≤ 65535) {l : Label} {d : Int}
    (h : displacement offsetOf pc l = .ok d) :
    Yields B pos (do labelFrom pc (← liftM Read.i32).toInt) (longBranch d)
      fun name => name (offset offsetOf l) := by
  rcases hoff.leads hpc h with ⟨hB, hleads⟩
  exact (yields_read (Read.takes_i32 (Int32.ofInt d))).finish (yields_labelFrom hleads hB)

/-- A pushed number is read back. -/
theorem push_yields {op : Opcode} {v : Int32} (h : (Instruction.push op v).Proper p) :
    Yields B pc (readInstruction pool length)
      (if op = .bipush then [op.byte, v.toInt8.toUInt8]
        else op.byte :: Bytes.ofU16 v.toInt16.toUInt16)
      fun _ => (pc, .push op v) := by
  rcases h with ⟨rfl, hlow, hhigh⟩ | ⟨rfl, hlow, hhigh⟩
  · rw [if_pos rfl]
    refine readInstruction_yields (Opcode.ofByte?_byte .bipush) ?_
    refine (yields_read (Read.takes_i8 v.toInt8)).map.congr fun _ => ?_
    rw [toInt8_toInt32 hlow hhigh]
  · rw [if_neg (by decide)]
    refine readInstruction_yields (Opcode.ofByte?_byte .sipush) ?_
    refine (yields_read (Read.takes_i16 v.toInt16)).map.congr fun _ => ?_
    rw [toInt16_toInt32 hlow hhigh]

/-- An access to a local variable is read back from any of its forms. -/
theorem var_yields {op : Opcode} {index : UInt16} (h : op.takesLocal = true) :
    Yields B pc (readInstruction pool length) (emitVar op index) fun _ => (pc, .var op index) := by
  unfold emitVar
  cases hshort : op.shortByte? index with
  | some b => exact shortLocal_yields hshort
  | none =>
      simp only
      split
      -- An index of one byte, or behind a `wide` one of two.
      next hsmall =>
        refine readInstruction_yields (Opcode.ofByte?_byte op) ?_
        refine (local_yields h index.toUInt8).congr fun _ => ?_
        rw [toUInt8_toUInt16 hsmall]
      · refine readInstruction_yields (Opcode.ofByte?_byte .wide) ?_
        refine (yields_read (takes_readOpcode (Opcode.ofByte?_byte op))).andThen
          (z := Bytes.ofU16 index) ?_
        have hiinc : op ≠ .iinc := by
          intro heq
          rw [heq] at h
          cases h
        rw [if_neg hiinc, if_pos h]
        exact (yields_read (Read.takes_u16 index)).map

-- So is an increment.
theorem iinc_yields {index : UInt16} {delta : Int16} :
    Yields B pc (readInstruction pool length)
      (if iincIsShort index delta then [Opcode.iinc.byte, index.toUInt8, delta.toInt8.toUInt8]
        else Opcode.wide.byte :: Opcode.iinc.byte ::
          (Bytes.ofU16 index ++ Bytes.ofU16 delta.toUInt16))
      fun _ => (pc, .iinc index delta) := by
  split
  -- Both numbers fit in a byte, or both take two.
  next hshort =>
    unfold iincIsShort at hshort
    simp only [Bool.and_eq_true, decide_eq_true_eq] at hshort
    refine readInstruction_yields (Opcode.ofByte?_byte .iinc) ?_
    refine (yields_read (Read.takes_u8 index.toUInt8)).andThen (z := [delta.toInt8.toUInt8]) ?_
    refine (yields_read (Read.takes_i8 delta.toInt8)).map.congr fun _ => ?_
    rw [toUInt8_toUInt16 hshort.1.1, toInt8_toInt16 hshort.1.2 hshort.2]
  · refine readInstruction_yields (Opcode.ofByte?_byte .wide) ?_
    refine (yields_read (takes_readOpcode (Opcode.ofByte?_byte .iinc))).andThen
      (z := Bytes.ofU16 index ++ Bytes.ofU16 delta.toUInt16) ?_
    rw [if_pos rfl]
    refine (yields_read (Read.takes_u16 index)).andThen ?_
    exact (yields_read (Read.takes_i16 delta)).map

/-- An instruction with a class is read back if the index denotes the class. -/
theorem typed_yields {op : Opcode} {name : String} {index : UInt16}
    (h : (Instruction.typed op name).Proper p) (hindex : pool.className index = .ok name) :
    Yields B pc (readInstruction pool length) (op.byte :: Bytes.ofU16 index)
      fun _ => (pc, .typed op name) := by
  refine readInstruction_yields (Opcode.ofByte?_byte op) ?_
  rcases h with rfl | rfl | rfl | rfl <;>
    exact (yields_read (Read.takes_u16 index)).finish (yields_ofExcept hindex).map

/-- An access to a field is read back if the index denotes the field. -/
theorem field_yields {op : Opcode} {m : Member} {index : UInt16}
    (h : (Instruction.field op m).Proper p) (hindex : pool.member index = .ok (m, false)) :
    Yields B pc (readInstruction pool length) (op.byte :: Bytes.ofU16 index)
      fun _ => (pc, .field op m) := by
  refine readInstruction_yields (Opcode.ofByte?_byte op) ?_
  rcases h with rfl | rfl | rfl | rfl <;>
    exact (yields_read (Read.takes_u16 index)).finish (yields_ofExcept hindex).map

-- So is a method call.
theorem invoke_yields {op : Opcode} {m : Member} {isInterface : Bool} {index : UInt16} {n : UInt8}
    (h : (Instruction.invoke op m isInterface).Proper p)
    (hindex : pool.member index = .ok (m, isInterface)) :
    Yields B pc (readInstruction pool length)
      (op.byte :: (Bytes.ofU16 index ++ if op = .invokeinterface then [n, 0] else []))
      fun _ => (pc, .invoke op m isInterface) := by
  refine readInstruction_yields (Opcode.ofByte?_byte op) ?_
  rcases h with rfl | rfl | rfl | ⟨rfl, rfl⟩
  iterate 3
    refine (yields_read (Read.takes_u16 index)).andThen ?_
    exact (yields_ofExcept hindex).map
  · refine (yields_read (Read.takes_u16 index)).andThen ?_
    refine (yields_ofExcept hindex).andThen ?_
    exact (yields_read (Read.takes_skip (w := [n, 0]) rfl)).map

-- And a call site.
theorem invokeDynamic_yields {bootstrap : UInt16} {name descriptor : String} {index : UInt16}
    (hindex : Denotes pool index (.invokeDynamic bootstrap name descriptor)) :
    Yields B pc (readInstruction pool length)
      (Opcode.invokedynamic.byte :: (Bytes.ofU16 index ++ [0, 0]))
      fun _ => (pc, .invokeDynamic bootstrap name descriptor) := by
  rcases hindex with ⟨nat, hentry, hnat⟩
  refine readInstruction_yields (Opcode.ofByte?_byte .invokedynamic) ?_
  refine (yields_read (Read.takes_u16 index)).andThen ?_
  refine (yields_read (Read.takes_skip (w := [0, 0]) rfl)).finish ?_
  refine (yields_ofExcept hentry).finish ?_
  exact (yields_ofExcept hnat).map

-- And a load of a constant.
theorem ldc_yields {c : Constant} {index : UInt16} (hindex : pool.loadable index = .ok c) :
    Yields B pc (readInstruction pool length) (emitLdc q c index) fun _ => (pc, .ldc c) := by
  unfold emitLdc
  split
  · refine readInstruction_yields (Opcode.ofByte?_byte .ldc2W) ?_
    exact (yields_read (Read.takes_u16 index)).finish (yields_ofExcept hindex).map
  · split
    next hsmall =>
      refine readInstruction_yields (Opcode.ofByte?_byte .ldc) ?_
      refine (yields_read (Read.takes_u8 index.toUInt8)).finish ?_
      rw [toUInt8_toUInt16 hsmall]
      exact (yields_ofExcept hindex).map
    · refine readInstruction_yields (Opcode.ofByte?_byte .ldcW) ?_
      exact (yields_read (Read.takes_u16 index)).finish (yields_ofExcept hindex).map

-- And the creation of an array of arrays.
theorem multiNewArray_yields {name : String} {dimensions : UInt8} {index : UInt16}
    (hindex : pool.className index = .ok name) :
    Yields B pc (readInstruction pool length)
      (Opcode.multianewarray.byte :: (Bytes.ofU16 index ++ [dimensions]))
      fun _ => (pc, .multiNewArray name dimensions) := by
  refine readInstruction_yields (Opcode.ofByte?_byte .multianewarray) ?_
  refine (yields_read (Read.takes_u16 index)).andThen ?_
  refine (yields_ofExcept hindex).andThen ?_
  exact (yields_read (Read.takes_u8 dimensions)).map

/-- A branch is read back if it reaches its target. -/
theorem jump_yields {op : Opcode} {l : Label} {d : Int} (hoff : Resolves B offsetOf)
    (hpc : pc ≤ 65535) (hop : (Instruction.jump op l).Proper p)
    (hd : displacement offsetOf pc l = .ok d)
    (hshort : op.takesLongBranch = false → -32768 ≤ d ∧ d ≤ 32767) :
    Yields B pc (readInstruction pool length)
      (op.byte :: if op.takesLongBranch then longBranch d
        else Bytes.ofU16 (Int16.ofInt d).toUInt16)
      fun name => (pc, .jump op (name (offset offsetOf l))) := by
  rcases hoff.leads hpc hd with ⟨hB, hleads⟩
  refine readInstruction_yields (Opcode.ofByte?_byte op) ?_
  cases hlong : op.takesLongBranch with
  | true =>
      rw [if_pos rfl]
      exact longBranch_yields hlong hleads hB
  | false =>
      rw [if_neg (by decide)]
      -- hop | A branch of two bytes must not lead further than these say.
      rcases hop with hop | hop
      · refine shortBranch_yields hop ?_ hB
        rw [toInt_ofInt16 (hshort hlong).1 (hshort hlong).2]
        exact (displacement_eq hd).2
      · rw [hlong] at hop
        cases hop

/-- A switch over a range of keys is read back: the count of its targets is that of its keys, and
    the code is long enough for them. -/
theorem tableSwitch_yields {default : Label} {low high : Int32} {targets : List Label}
    {d : Int} {ds : List Int} (hoff : Resolves B offsetOf) (hpc : pc ≤ 65535)
    (hproper : (Instruction.tableSwitch default low high targets).Proper p)
    (hd : displacement offsetOf pc default = .ok d)
    (hds : targets.mapM (displacement offsetOf pc) = .ok ds)
    (hlength : 4 * targets.length ≤ length) :
    Yields B pc (readInstruction pool length)
      (Opcode.tableswitch.byte :: (List.replicate (switchPadding pc) 0 ++ longBranch d
        ++ Bytes.ofU32 low.toUInt32 ++ Bytes.ofU32 high.toUInt32 ++ ds.flatMap longBranch))
      fun name => (pc, (Instruction.tableSwitch default low high targets).relabel
        fun l => name (offset offsetOf l)) := by
  rcases hproper with ⟨hle, hcount⟩
  have hcount' : (high.toInt - low.toInt + 1).toNat = targets.length := by omega
  have htargets : List.Forall₂ (fun l w => ∀ pos, Yields B pos
      (do labelFrom pc (← liftM Read.i32).toInt) w fun name => name (offset offsetOf l))
      targets (ds.map longBranch) := by
    rw [List.forall₂_map_right_iff]
    exact (forall₂_of_mapM hds).imp fun l d' h pos => longTarget_yields hoff hpc h
  refine readInstruction_yields (Opcode.ofByte?_byte .tableswitch) ?_
  simp only [List.append_assoc]
  refine (yields_read (Read.takes_skip (List.length_replicate ..))).andThen ?_
  rcases hoff.leads hpc hd with ⟨hB, htarget⟩
  refine (yields_read (Read.takes_i32 (Int32.ofInt d))).andThen ?_
  refine (yields_labelFrom htarget hB).bind (k := fun v name =>
    Instruction.tableSwitch v low high (targets.map fun l => name (offset offsetOf l)))
    fun v _ => ?_
  refine (yields_read (Read.takes_i32 low)).andThen ?_
  refine (yields_read (Read.takes_i32 high)).andThen ?_
  -- Neither of the two reasons to reject the switch applies: the keys are in order, and the targets
  -- fit in the code.
  rw [if_neg (by rw [Int32.lt_iff_toInt_lt]; omega), hcount', if_neg (by omega)]
  rw [List.flatMap_def]
  exact (yields_repeated htargets).map

/-- A switch over a list of keys is read back if the code is long enough for them. -/
theorem lookupSwitch_yields {default : Label} {pairs : List (Int32 × Label)} {d : Int}
    {ds : List (Int32 × Int)} (hoff : Resolves B offsetOf) (hpc : pc ≤ 65535)
    (hd : displacement offsetOf pc default = .ok d)
    (hds : (pairs.mapM fun pair => return (pair.1, ← displacement offsetOf pc pair.2)) = .ok ds)
    (hlength : 8 * pairs.length ≤ length) (hsmall : length ≤ 65535) :
    Yields B pc (readInstruction pool length)
      (Opcode.lookupswitch.byte :: (List.replicate (switchPadding pc) 0 ++ longBranch d
        ++ Bytes.ofU32 ds.length.toUInt32
        ++ ds.flatMap fun pair => Bytes.ofU32 pair.1.toUInt32 ++ longBranch pair.2))
      fun name => (pc, (Instruction.lookupSwitch default pairs).relabel
        fun l => name (offset offsetOf l)) := by
  have hpairs : List.Forall₂ (fun pair w => ∀ pos, Yields B pos
      (do
        let key ← liftM Read.i32
        return (key, ← labelFrom pc (← liftM Read.i32).toInt))
      w fun name => (pair.1, name (offset offsetOf pair.2)))
      pairs (ds.map fun pair => Bytes.ofU32 pair.1.toUInt32 ++ longBranch pair.2) := by
    rw [List.forall₂_map_right_iff]
    refine (forall₂_of_mapM hds).imp fun pair d' h pos => ?_
    rcases displacement_of_pair h with ⟨hkey, hd'⟩
    rw [hkey]
    exact (yields_read (Read.takes_i32 pair.1)).andThen ((longTarget_yields hoff hpc hd').map)
  refine readInstruction_yields (Opcode.ofByte?_byte .lookupswitch) ?_
  simp only [List.append_assoc]
  refine (yields_read (Read.takes_skip (List.length_replicate ..))).andThen ?_
  rcases hoff.leads hpc hd with ⟨hB, htarget⟩
  refine (yields_read (Read.takes_i32 (Int32.ofInt d))).andThen ?_
  refine (yields_labelFrom htarget hB).bind (k := fun v name =>
    Instruction.lookupSwitch v (pairs.map fun pair => (pair.1, name (offset offsetOf pair.2))))
    fun v _ => ?_
  have hds' : ds.length = pairs.length := (forall₂_of_mapM hds).length_eq.symm
  -- The count is written as a signed word, and it is small enough to be read as itself.
  have hcount : (Int32.ofNat ds.length).toInt = pairs.length := by
    rw [hds']
    exact Int32.toInt_ofNat_of_lt (by omega)
  have hcount' : (Int32.ofNat ds.length).toInt.toNat = pairs.length := by omega
  refine (yields_read (Read.takes_i32 (Int32.ofNat ds.length))).andThen ?_
  have hfits : ¬(Int32.ofNat ds.length < 0 ∨
      length / 8 < (Int32.ofNat ds.length).toInt.toNat) := by
    rw [Int32.lt_iff_toInt_lt, hcount']
    change ¬((Int32.ofNat ds.length).toInt < 0 ∨ _)
    omega
  rw [if_neg hfits, hcount', List.flatMap_def]
  exact (yields_repeated hpairs).map

theorem length_flatMap {α : Type} {f : α → Bytes} {n : Nat} (hf : ∀ a, (f a).length = n)
    (l : List α) : (l.flatMap f).length = n * l.length := by
  induction l with
  | nil => rfl
  | cons a l ih =>
      rw [List.flatMap_cons, List.length_append, hf, ih, List.length_cons, Nat.mul_succ]
      omega

theorem length_longBranch (d : Int) : (longBranch d).length = 4 := rfl

theorem length_ofU32 (n : UInt32) : (Bytes.ofU32 n).length = 4 := rfl

/-- Accesses to local variables are loads and stores, but for `ret`. -/
theorem isLoad_or_isStore {op : Opcode} (h : op.takesLocal = true) :
    (op.isLoad || op.isStore) = decide (op ≠ .ret) := by
  revert h
  cases op <;> decide

/-- The first four local variables have one-byte forms. -/
theorem shortByte?_isSome {op : Opcode} {i : UInt16} (h : op.takesLocal = true) :
    (op.shortByte? i).isSome = decide (i ≤ 3 ∧ op ≠ .ret) := by
  have hindex : 4 ≤ i ↔ ¬i ≤ 3 := by
    rw [UInt16.le_iff_toNat_le, UInt16.le_iff_toNat_le]
    change 4 ≤ i.toNat ↔ ¬i.toNat ≤ 3
    omega
  rw [Bool.decide_and, ← isLoad_or_isStore h]
  unfold Opcode.shortByte?
  by_cases hsmall : i ≤ 3
  · rw [if_neg (by rw [hindex]; exact not_not_intro hsmall), decide_eq_true hsmall, Bool.true_and]
    cases op.isLoad <;> cases op.isStore <;> rfl
  · rw [if_pos (hindex.mpr hsmall), decide_eq_false hsmall]
    rfl

/-- The room that an access to a local variable takes. -/
theorem emitVar_length {op : Opcode} {i : UInt16} (h : op.takesLocal = true) :
    (emitVar op i).length = if i ≤ 3 ∧ op ≠ .ret then 1 else if i ≤ 255 then 2 else 4 := by
  have hshort := shortByte?_isSome (i := i) h
  unfold emitVar
  cases hbyte : op.shortByte? i with
  | some b =>
      rw [hbyte, Option.isSome_some] at hshort
      rw [if_pos (of_decide_eq_true hshort.symm)]
      rfl
  | none =>
      rw [hbyte, Option.isSome_none] at hshort
      rw [if_neg (of_decide_eq_false hshort.symm)]
      simp only
      split <;> rfl

/-- A constant load takes the room it has, or one byte more if it is a two-slot constant with a
    small index that the room was not counted for. -/
theorem emitLdc_length (pool : Pool) (c : Constant) (index : UInt16) :
    (emitLdc pool c index).length = sizeAt pc index (.ldc c) + overrun pool index (.ldc c) := by
  cases c with
  | long v | double b => rfl
  | pool i =>
      unfold emitLdc overrun
      -- Where the constant is wide and its index small, `ldc2_w` stands in the room of an `ldc`.
      by_cases hwide : isWideConstant pool (.pool i) = true
      · by_cases hsmall : index ≤ 255
        · simp [hwide, hsmall, sizeAt, Bytes.ofU16]
        · simp [hwide, hsmall, sizeAt, Bytes.ofU16]
      · by_cases hsmall : index ≤ 255
        · simp [hwide, hsmall, sizeAt]
        · simp [hwide, hsmall, sizeAt, Bytes.ofU16]
  | int v | float b | string t | classRef n =>
      unfold emitLdc overrun
      by_cases hsmall : index ≤ 255
      · simp [isWideConstant, hsmall, sizeAt]
      · simp [isWideConstant, hsmall, sizeAt, Bytes.ofU16]

/-- The bytes of a method call. -/
theorem emit_invoke {op : Opcode} {m : Member} {isInterface : Bool} {index : UInt16}
    (h : emit q method offsetOf ⟨.invoke op m isInterface, index, pc⟩ = .ok w) :
    ∃ n, w = op.byte :: (Bytes.ofU16 index ++ if op = .invokeinterface then [n, 0] else []) := by
  unfold emit at h
  simp only at h
  split at h
  · rcases except_bind_ok h with ⟨type, _, h⟩
    cases h
    exact ⟨_, by rw [if_pos ‹_›]⟩
  · cases h
    exact ⟨0, by rw [if_neg ‹_›, List.append_nil]⟩

/-- The bytes of a branch, and how far it may lead. -/
theorem emit_jump {op : Opcode} {l : Label} {index : UInt16}
    (h : emit q method offsetOf ⟨.jump op l, index, pc⟩ = .ok w) :
    ∃ d, displacement offsetOf pc l = .ok d ∧
      (op.takesLongBranch = false → -32768 ≤ d ∧ d ≤ 32767) ∧
      w = op.byte :: if op.takesLongBranch then longBranch d
        else Bytes.ofU16 (Int16.ofInt d).toUInt16 := by
  rcases except_bind_ok (x := displacement offsetOf pc l) h with ⟨d, hd, h⟩
  change (if op.takesLongBranch then _ else _) = _ at h
  -- A branch of two bytes is checked against its range, and one of four is not.
  cases hlong : op.takesLongBranch with
  | true =>
      rw [hlong, if_pos rfl] at h
      cases h
      exact ⟨d, hd, by simp, rfl⟩
  | false =>
      rw [hlong, if_neg (by decide)] at h
      split at h
      · cases h
        exact ⟨d, hd, fun _ => ‹_›, rfl⟩
      · cases h

/-- The bytes of a table switch. -/
theorem emit_tableSwitch {default : Label} {low high : Int32} {targets : List Label}
    {index : UInt16}
    (h : emit q method offsetOf ⟨.tableSwitch default low high targets, index, pc⟩ = .ok w) :
    ∃ d ds, displacement offsetOf pc default = .ok d ∧
      targets.mapM (displacement offsetOf pc) = .ok ds ∧
      w = Opcode.tableswitch.byte :: (List.replicate (switchPadding pc) 0 ++ longBranch d
        ++ Bytes.ofU32 low.toUInt32 ++ Bytes.ofU32 high.toUInt32 ++ ds.flatMap longBranch) := by
  rcases except_bind_ok (x := displacement offsetOf pc default) h with ⟨d, hd, h⟩
  rcases except_bind_ok (x := targets.mapM (displacement offsetOf pc)) h with ⟨ds, hds, h⟩
  cases h
  exact ⟨d, ds, hd, hds, rfl⟩

/-- The bytes of a lookup switch. -/
theorem emit_lookupSwitch {default : Label} {pairs : List (Int32 × Label)} {index : UInt16}
    (h : emit q method offsetOf ⟨.lookupSwitch default pairs, index, pc⟩ = .ok w) :
    ∃ d ds, displacement offsetOf pc default = .ok d ∧
      (pairs.mapM fun pair => return (pair.1, ← displacement offsetOf pc pair.2)) = .ok ds ∧
      w = Opcode.lookupswitch.byte :: (List.replicate (switchPadding pc) 0 ++ longBranch d
        ++ Bytes.ofU32 ds.length.toUInt32
        ++ ds.flatMap fun pair => Bytes.ofU32 pair.1.toUInt32 ++ longBranch pair.2) := by
  rcases except_bind_ok (x := displacement offsetOf pc default) h with ⟨d, hd, h⟩
  rcases except_bind_ok (x := pairs.mapM fun pair => do
    return (pair.1, ← displacement offsetOf pc pair.2)) h with ⟨ds, hds, h⟩
  cases h
  exact ⟨d, ds, hd, hds, rfl⟩

theorem emit_push (op : Opcode) (v : Int32) (index : UInt16) :
    emit q method offsetOf ⟨.push op v, index, pc⟩ = .ok (if op = .bipush then
      [op.byte, v.toInt8.toUInt8] else op.byte :: Bytes.ofU16 v.toInt16.toUInt16) := by
  change (if op = .bipush then _ else _) = _
  split <;> rfl

theorem emit_iinc (i : UInt16) (delta : Int16) (index : UInt16) :
    emit q method offsetOf ⟨.iinc i delta, index, pc⟩ =
      .ok (if iincIsShort i delta then [Opcode.iinc.byte, i.toUInt8, delta.toInt8.toUInt8]
        else Opcode.wide.byte :: Opcode.iinc.byte ::
          (Bytes.ofU16 i ++ Bytes.ofU16 delta.toUInt16)) := by
  change (if iincIsShort i delta then _ else _) = _
  split <;> rfl

/-- The targets of an instruction that was written have offsets. -/
theorem emit_resolved {i : Instruction} {index : UInt16}
    (h : emit q method offsetOf ⟨i, index, pc⟩ = .ok w) :
    ∀ l ∈ i.targets, offsetOf l = .ok (offset offsetOf l) := by
  intro l hl
  cases i with
  | jump op target =>
      rcases emit_jump h with ⟨d, hd, _⟩
      rw [List.mem_singleton.mp hl]
      exact (displacement_eq hd).1
  | tableSwitch default low high targets =>
      rcases emit_tableSwitch h with ⟨d, ds, hd, hds, _⟩
      -- hl | The default comes first, and then the other targets.
      rcases List.mem_cons.mp hl with rfl | hl
      · exact (displacement_eq hd).1
      · rcases exists_of_mapM hds hl with ⟨d', hd'⟩
        exact (displacement_eq hd').1
  | lookupSwitch default pairs =>
      rcases emit_lookupSwitch h with ⟨d, ds, hd, hds, _⟩
      rcases List.mem_cons.mp hl with rfl | hl
      · exact (displacement_eq hd).1
      · rcases List.mem_map.mp hl with ⟨pair, hpair, rfl⟩
        rcases exists_of_mapM hds hpair with ⟨d', hd'⟩
        exact (displacement_eq (displacement_of_pair hd').2).1
  | _ => cases hl

/-- An instruction with an opcode of its own kind takes as many bytes as it has room, but for the
    constant loads that overrun it. -/
theorem emit_length_overrun {i : Instruction} {index : UInt16} (hi : i.HasOwnOpcode)
    (hemit : emit q method offsetOf ⟨i, index, pc⟩ = .ok w) :
    w.length = sizeAt pc index i + overrun q index i := by
  cases i with
  | label l | line n | frame f | simple op | newArray kind | typed op name | field op m
  | invokeDynamic b n d | multiNewArray n d =>
      cases hemit
      rfl
  | push op v =>
      rw [emit_push] at hemit
      cases hemit
      change _ = if op = .bipush then 2 else 3
      split <;> rfl
  | var op i =>
      cases hemit
      exact emitVar_length hi
  | iinc i delta =>
      rw [emit_iinc] at hemit
      cases hemit
      change _ = if iincIsShort i delta then 3 else 6
      split <;> rfl
  | invoke op m isInterface =>
      rcases emit_invoke hemit with ⟨n, rfl⟩
      change _ = if op = .invokeinterface then 5 else 3
      split <;> rfl
  | ldc c =>
      cases hemit
      exact emitLdc_length q c index
  | jump op l =>
      rcases emit_jump hemit with ⟨d, _, _, rfl⟩
      change _ = if op.takesLongBranch then 5 else 3
      split <;> rfl
  | tableSwitch default low high targets =>
      rcases emit_tableSwitch hemit with ⟨d, ds, _, hds, rfl⟩
      -- Four bytes for each target, and the padding in front.
      have hlength : ds.length = targets.length := (forall₂_of_mapM hds).length_eq.symm
      simp only [List.length_cons, List.length_append, List.length_replicate, length_longBranch,
        length_ofU32, length_flatMap length_longBranch ds]
      change _ = 1 + switchPadding pc + 12 + 4 * targets.length
      omega
  | lookupSwitch default pairs =>
      rcases emit_lookupSwitch hemit with ⟨d, ds, _, hds, rfl⟩
      have hlength : ds.length = pairs.length := (forall₂_of_mapM hds).length_eq.symm
      have hpair (pair : Int32 × Int) :
          (Bytes.ofU32 pair.1.toUInt32 ++ longBranch pair.2).length = 8 := rfl
      simp only [List.length_cons, List.length_append, List.length_replicate, length_longBranch,
        length_ofU32, length_flatMap hpair ds]
      change _ = 1 + switchPadding pc + 8 + 8 * pairs.length
      omega

/-- A proper instruction takes as many bytes as it has room. -/
theorem emit_length {i : Instruction} {index : UInt16} (hp : Pool.Grows p q) (hi : i.Proper p)
    (hemit : emit q method offsetOf ⟨i, index, pc⟩ = .ok w) : w.length = sizeAt pc index i := by
  have hlength := emit_length_overrun hi.hasOwnOpcode hemit
  rw [overrun_eq_zero hp hi, Nat.add_zero] at hlength
  exact hlength

/-- A proper instruction is read back from its bytes. -/
theorem emit_yields {i : Instruction} {index : UInt16} (hp : Pool.Grows p q) (hi : i.Proper p)
    (hreal : i.isPseudo = false) (hindex : Denotes pool index i) (hoff : Resolves B offsetOf)
    (hemit : emit q method offsetOf ⟨i, index, pc⟩ = .ok w) (hlength : pc + w.length ≤ length)
    (hsmall : length ≤ 65535) :
    Yields B pc (readInstruction pool length) w
      fun name => (pc, i.relabel fun l => name (offset offsetOf l)) := by
  have hpc : pc ≤ 65535 := by omega
  have hsize := emit_length hp hi hemit
  -- One case for each form, whose bytes are read by the decoder of its opcode.
  cases i with
  | label l | line n | frame f => cases hreal
  | simple op =>
      cases hemit
      exact readInstruction_yields (Opcode.ofByte?_byte op) (bare_yields hi)
  | push op v =>
      rw [emit_push] at hemit
      cases hemit
      exact push_yields hi
  | newArray kind =>
      cases hemit
      refine readInstruction_yields (Opcode.ofByte?_byte .newarray) ?_
      exact (yields_read (Read.takes_u8 kind)).map
  | var op i =>
      cases hemit
      exact var_yields hi
  | iinc i delta =>
      rw [emit_iinc] at hemit
      cases hemit
      exact iinc_yields
  | typed op name =>
      cases hemit
      exact typed_yields hi hindex
  | field op m =>
      cases hemit
      exact field_yields hi hindex
  | invoke op m isInterface =>
      rcases emit_invoke hemit with ⟨n, rfl⟩
      exact invoke_yields hi hindex
  | invokeDynamic bootstrap name descriptor =>
      cases hemit
      exact invokeDynamic_yields hindex
  | ldc c =>
      cases hemit
      exact ldc_yields hindex
  | multiNewArray name dimensions =>
      cases hemit
      exact multiNewArray_yields hindex
  | jump op l =>
      rcases emit_jump hemit with ⟨d, hd, hshort, rfl⟩
      exact jump_yields hoff hpc hi hd hshort
  | tableSwitch default low high targets =>
      rcases emit_tableSwitch hemit with ⟨d, ds, hd, hds, rfl⟩
      refine tableSwitch_yields hoff hpc hi hd hds ?_
      change _ = 1 + switchPadding pc + 12 + 4 * targets.length at hsize
      omega
  | lookupSwitch default pairs =>
      rcases emit_lookupSwitch hemit with ⟨d, ds, hd, hds, rfl⟩
      refine lookupSwitch_yields hoff hpc hd hds ?_ hsmall
      change _ = 1 + switchPadding pc + 8 + 8 * pairs.length at hsize
      omega

end Emit

end Body

end JvmFold
