import JvmFold.Proofs.Body.Decoded

/-!
# The Pieces of the Code

Each instruction of a body was read from a piece of the code, and the pieces
lie one behind the other from the start of the code to its end. What a piece is
read as does not depend on the rest of the code. It depends on the offset, which
says how a switch is padded and what its branches lead to, and on the names of
the offsets that it branches to. While a body is read these names are still
being handed out. A name is never taken back, so reading the piece again with
the names that the whole body has left gives the same instruction and needs no
name that is not there.

## Main definitions

* `Decode.Replays`: Reading that is the same again with the names it has left.
* `Body.codeOf`: The code in the bytes of a body.
* `Body.Cut`: Code in pieces with an instruction for each.

## Theorems

* `Body.exists_cut`: Instructions that are read to the end of the code cut it into pieces.
* `Body.ReadAs.cut`: The code of a body that was decoded, in pieces.
-/

namespace JvmFold

namespace Decode

open LabelTable

/-- What a computation takes and answers at a position, with names that are all there. -/
def TakesAt {α : Type} (d : Decode α) (t : LabelTable) (pos : Nat) (w : Bytes) (a : α) : Prop :=
  ∀ data rest, d t ⟨data, pos, w ++ rest⟩ = .ok (a, t) ⟨data, pos + w.length, rest⟩

/-- A computation answers the same again on the bytes that it has taken, if it finds the names that
    it has left. -/
class Replays {α : Type} (d : Decode α) : Prop extends Steady d where
  again : ∀ {t c a t' c'}, Sound t → d t c = .ok (a, t') c' →
    ∃ w, c.rest = w ++ c'.rest ∧ c'.pos = c.pos + w.length ∧
      ∀ t'', Extends t' t'' → TakesAt d t'' c.pos w a

section Replays

variable {α β : Type} {d : Decode α}

instance (a : α) : Replays (pure a : Decode α) where
  toSteady := inferInstance
  again _ h := by
    cases h
    exact ⟨[], rfl, rfl, fun _ _ _ _ => rfl⟩

instance (e : Error) : Replays (throw e : Decode α) where
  toSteady := inferInstance
  again _ h := by cases h

/-- Two parts that read the same again do so one after the other. -/
theorem Replays.bind {f : α → Decode β} (h : Replays d) (h' : ∀ a, Replays (f a)) :
    Replays (d >>= f) where
  toSteady := Steady.bind h.toSteady fun a => (h' a).toSteady
  again ht hrun := by
    rcases bind_cases hrun with ⟨a, u, c, ha, hb⟩
    rcases h.keeps ht ha with ⟨hu, -, -⟩
    rcases (h' a).keeps hu hb with ⟨-, hext, -⟩
    -- Each part reads its own piece again, with the labels that the other one has added.
    rcases h.again ht ha with ⟨w, hrest, hpos, hw⟩
    rcases (h' a).again hu hb with ⟨z, hrest', hpos', hz⟩
    refine ⟨w ++ z, ?_, ?_, fun t'' hext' data rest => ?_⟩
    · rw [hrest, hrest', List.append_assoc]
    · rw [hpos', hpos, List.length_append, Nat.add_assoc]
    · have hnext := hz t'' hext' data rest
      rw [hpos] at hnext
      rw [List.append_assoc, List.length_append, ← Nat.add_assoc, ← hnext]
      change EStateM.bind (d t'') (fun x => f x.1 x.2) _ = _
      unfold EStateM.bind
      rw [hw t'' (hext.trans hext') data (z ++ rest)]

instance {f : α → Decode β} [Replays d] [∀ a, Replays (f a)] : Replays (d >>= f) :=
  Replays.bind inferInstance inferInstance

instance (f : α → β) [Replays d] : Replays (f <$> d) := by
  rw [map_eq_pure_bind]
  infer_instance

instance (c : Prop) [Decidable c] {d' : Decode α} [Replays d] [Replays d'] :
    Replays (if c then d else d') := by
  split <;> infer_instance

instance (r : Read α) [hr : Read.Local r] : Replays (liftM r : Decode α) where
  toSteady := inferInstance
  again _ h := by
    rcases liftM_eq_ok h with ⟨hread, rfl⟩
    rcases hr.takes hread with ⟨w, hrest, hpos, hw⟩
    refine ⟨w, hrest, hpos, fun t'' _ data rest => ?_⟩
    change EStateM.bind r (fun x => pure (x, t'')) _ = _
    unfold EStateM.bind
    rw [hw]
    rfl

instance (r : Except Error α) : Replays (ofExcept r) :=
  inferInstanceAs (Replays (liftM (Read.lift r)))

instance : Replays (liftM Read.position) where
  toSteady := inferInstance
  again _ h := by
    cases h
    exact ⟨[], rfl, rfl, fun _ _ _ _ => rfl⟩

instance (o : Nat) : Replays (labelAt o) where
  toSteady := inferInstance
  again {t c l t' c'} ht h := by
    have hname := grants_labelAt o t c l t' c'
    have hc : c' = c := by
      rw [labelAt_apply] at h
      cases ho : t[o]? <;> (rw [ho] at h; cases h; rfl)
    subst hc
    refine ⟨[], rfl, rfl, fun t'' hext data rest => ?_⟩
    rw [labelAt_apply, hname t'' ht h hext]
    rfl

instance (pc : Nat) (displacement : Int) : Replays (labelFrom pc displacement) := by
  unfold labelFrom
  infer_instance

instance (n : Nat) [Replays d] : Replays (repeated n d) := by
  induction n with
  | zero => exact inferInstanceAs (Replays (pure []))
  | succ n ih =>
      rw [repeated_succ]
      infer_instance

end Replays

end Decode

namespace Body

open Decode LabelTable

variable (p : Pool)

instance (length pc : Nat) : Replays (readTableSwitch length pc) := by
  unfold readTableSwitch
  refine Replays.bind inferInstance fun _ => Replays.bind inferInstance fun default => ?_
  refine Replays.bind inferInstance fun _ => Replays.bind inferInstance fun low => ?_
  infer_instance

instance (length pc : Nat) : Replays (readLookupSwitch length pc) := by
  unfold readLookupSwitch
  refine Replays.bind inferInstance fun _ => Replays.bind inferInstance fun default => ?_
  refine Replays.bind inferInstance fun _ => Replays.bind inferInstance fun count => ?_
  infer_instance

instance (pc : Nat) : Replays (readInvokeDynamic p pc) := by
  unfold readInvokeDynamic
  refine Replays.bind inferInstance fun index => Replays.bind inferInstance fun _ => ?_
  refine Replays.bind inferInstance fun e => ?_
  cases e <;> infer_instance

instance (pc : Nat) : Replays (readWide pc) := by
  unfold readWide
  infer_instance

instance (length pc : Nat) (op : Opcode) : Replays (readOperands p length pc op) := by
  cases hop : op.isSpecial with
  | false =>
      rw [readOperands_other hop]
      cases op.shortLocal? <;> infer_instance
  | true =>
      cases op <;> first
        | exact absurd hop (by decide)
        | (unfold readOperands; infer_instance)

instance (length : Nat) : Replays (readInstruction p length) := by
  unfold readInstruction
  infer_instance

/-- Code in pieces from an offset on, one behind the other, and the instruction with its offset that
    is read from each of them. The names of the offsets are all there. -/
inductive Cut (p : Pool) (length : Nat) (t : LabelTable) :
    Nat → List Bytes → List (Nat × Instruction) → Prop where
  | nil {pc : Nat} : Cut p length t pc [] []
  | cons {pc : Nat} {piece : Bytes} {pieces : List Bytes} {i : Instruction}
      {code : List (Nat × Instruction)} (hpiece : piece ≠ [])
      (hread : TakesAt (readInstruction p length) t pc piece (pc, i))
      (h : Cut p length t (pc + piece.length) pieces code) :
      Cut p length t pc (piece :: pieces) ((pc, i) :: code)

/-- The code in the bytes of a body, behind the limits of its frame. -/
def codeOf (data : Bytes) : Except Error Bytes :=
  Read.parse (do
    let _ ← Read.u16
    let _ ← Read.u16
    Read.bytes (← Read.u32).toNat) data

section Cut

variable {p : Pool} {length : Nat} {t : LabelTable}

/-- Instructions that are read to the end of the code cut it into pieces. -/
theorem exists_cut {u t' : LabelTable} {c c' : Cursor} {code : List (Nat × Instruction)}
    (h : ReadsThrough p length t' c' u c code) (hu : Sound u) (hext : Extends t' t) :
    ∃ pieces, pieces.flatten = c.rest ∧ Cut p length t c.pos pieces code := by
  induction h with
  | done hempty => exact ⟨[], hempty.symm, .nil⟩
  | @more u u₁ c c₁ x code hx hrest ih =>
      rcases readInstruction_eq_ok hu hx with ⟨hpc, -, hu₁, -, hlt⟩
      -- The instruction was read from a piece, and it is read from it again with the final names.
      have hreplays : Replays (readInstruction p length) := inferInstance
      rcases hreplays.again hu hx with ⟨piece, hpiece, hpos, hread⟩
      have hnames := (hrest.extends hu₁).trans hext
      rcases ih hu₁ with ⟨pieces, hflatten, hcut⟩
      rcases x with ⟨pc, i⟩
      cases hpc
      refine ⟨piece :: pieces, ?_, .cons ?_ (hread t hnames) (hpos ▸ hcut)⟩
      · rw [List.flatten_cons, hflatten, hpiece]
      · -- A piece is not empty, since reading went on.
        rintro rfl
        rw [List.length_nil] at hpos
        omega

variable {data : Bytes} {method : MethodInfo} {b : Body}
variable {r : UInt16 × UInt16 × Nat × List (Nat × Instruction) × List Handler × Tables}

/-- The code of a body that was decoded is in pieces, which its instructions are read from. -/
theorem ReadAs.cut (h : ReadAs p method data b t r) :
    ∃ bytes pieces, codeOf data = .ok bytes ∧ bytes.length = r.2.2.1 ∧ pieces.flatten = bytes ∧
      Cut p bytes.length t 0 pieces r.2.2.2.1 := by
  rcases h.run with ⟨c, hrun⟩
  unfold readBody at hrun
  rcases bind_cases hrun with ⟨maxStack, u₁, c₁, hstack, hrun⟩
  rcases bind_cases hrun with ⟨maxLocals, u₂, c₂, hlocals, hrun⟩
  rcases bind_cases hrun with ⟨length, u₃, c₃, hlength, hrun⟩
  rcases bind_cases hrun with ⟨bytes, u₄, c₄, hbytes, hrun⟩
  rcases bind_cases hrun with ⟨code, u₅, c₅, hcode, hrun⟩
  rcases bind_cases hrun with ⟨count, u₆, c₆, hcount, hrun⟩
  rcases bind_cases hrun with ⟨handlers, u₇, c₇, hhandlers, hrun⟩
  rcases bind_cases hrun with ⟨attributes, u₈, c₈, hattributes, hrun⟩
  rcases bind_cases hrun with ⟨tables, u₉, c₉, htables, hrun⟩
  cases hrun
  rcases liftM_eq_ok hstack with ⟨hreadStack, rfl⟩
  rcases liftM_eq_ok hlocals with ⟨hreadLocals, rfl⟩
  rcases liftM_eq_ok hlength with ⟨hreadLength, rfl⟩
  rcases liftM_eq_ok hbytes with ⟨hreadBytes, rfl⟩
  rcases within_eq_ok hcode with ⟨-, stop, hinstructions⟩
  have hsize : bytes.length = length.toNat := Read.ensures_bytes _ _ _ _ hreadBytes
  have hcodeOf : codeOf data = .ok bytes := by
    unfold codeOf Read.parse EStateM.run
    rw [bind_of_ok hreadStack, bind_of_ok hreadLocals, bind_of_ok hreadLength, hreadBytes]
  -- What comes behind the code keeps the names that the code has left.
  have hkeeps : Sound u₅ ∧ Extends ∅ u₅ ∧ c₄.Before c₅ :=
    (inferInstance : Steady (within bytes _)).keeps valid_empty hcode
  rcases liftM_eq_ok hcount with ⟨-, rfl⟩
  have hkept := (inferInstance : Steady (repeated _ (readHandler p))).keeps hkeeps.1 hhandlers
  rcases liftM_eq_ok hattributes with ⟨-, rfl⟩
  have hend := (inferInstance : Steady (iterated (readAttribute p method) _ _)).keeps hkept.1
    htables
  rcases readsThrough_of_ok valid_empty (Nat.le_of_eq hsize) hinstructions with
    ⟨code', rfl, hreads⟩
  rcases exists_cut hreads valid_empty (hkept.2.1.trans hend.2.1) with ⟨pieces, hflatten, hcut⟩
  refine ⟨bytes, pieces, hcodeOf, hsize, hflatten, ?_⟩
  rw [hsize]
  exact hcut

end Cut

end Body

end JvmFold
