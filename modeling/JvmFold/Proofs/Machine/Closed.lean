import JvmFold.Proofs.Body.Missing
import JvmFold.Proofs.Body.Named
import JvmFold.Proofs.Body.Pieces
import JvmFold.Proofs.Machine.Calls
import JvmFold.Proofs.Machine.Replacing

/-!
# Decoded Bodies Are Closed

The code of a body that was decoded falls into pieces, one for every
instruction, and each label that anything in the body refers to has one mark,
which stands in front of a piece or behind the last one. An offset that is
inside an instruction or outside the code has no place to be woven in, and
decoding fails there.

So no label is left open: a method made ready has a position for each of them,
and encoding has an offset. A label that is made for the body later is none of
them.

## Main definitions

* `Universe.HasBody`: The body of a method in a universe.
* `Body.Anchored`: A label with one mark, at an offset that it is the name of.

## Theorems

* `Body.ReadAs.anchored`: A label of a body that was decoded has one mark.
* `Prepared.exists_target`: A method made ready has a position for each label.
* `Body.closed_of_decode`: A body that was decoded leaves no label open.
-/

namespace JvmFold

/-- The class of the method is there in full, and has the body for it. -/
structure Universe.HasBody (u : Universe) (c : ClassFile) (m : Member) (b : Body) : Prop where
  full : ∃ e, u.entry? m.owner = some e ∧ e.full = .ok c
  body : ∃ method, c.method? m.signature = some method ∧ method.body = some b

/-- The body that a universe has is the one that is run. -/
theorem Universe.HasBody.prepare_eq {u : Universe} {c : ClassFile} {m : Member} {b : Body}
    (h : u.HasBody c m b) : u.prepare m = Prepared.ofBody c m b := by
  rcases h.full with ⟨e, hentry, hfull⟩
  rcases h.body with ⟨method, hmethod, hbody⟩
  unfold Universe.prepare
  rw [hentry]
  dsimp only
  rw [hfull]
  dsimp only
  rw [hmethod]
  dsimp only
  rw [hbody]

namespace Body

/-- The label has one mark, and it is the name of the offset where the mark stands: one of those of
    the instructions, or where the code stops. -/
structure Anchored (b : Body) (t : LabelTable) (offsets : List Nat) (l : Label) : Prop where
  once : b.instructions.count (.label l) = 1
  offset : ∃ o : Nat, offsets[b.positionOf l]? = some o ∧ t[o]? = some l

/-- A label has as many marks as there are among the labels. -/
theorem count_label (l : Label) (code : List Instruction) :
    code.count (.label l) = (code.filterMap Instruction.label?).count l := by
  rw [List.count_filterMap, List.count]
  refine List.countP_congr fun i _ => ?_
  cases i with
  | label l' => simp [Instruction.label?]
  | _ => simp [Instruction.label?]

section Decoded

variable {p : Pool} {method : MethodInfo} {data : Bytes} {b : Body} {t : LabelTable}
variable {r : UInt16 × UInt16 × Nat × List (Nat × Instruction) × List Handler × Tables}

namespace ReadAs

/-- The offsets of a body that is read are those of its instructions, and the end. -/
theorem offsets_eq (h : ReadAs p method data b t r) :
    offsets (r.2.2.2.1.map placedAt) r.2.2.1 = r.2.2.2.1.map Prod.fst ++ [r.2.2.1] := by
  rw [h.layout.offsets_eq, List.map_map]
  rfl

/-- The instructions of the body are those that were read. -/
theorem real_eq (h : ReadAs p method data b t r) : b.real = r.2.2.2.1.map Prod.snd := by
  rw [h.layout.real_eq, List.map_map]
  rfl

/-- A label of a body that was decoded has one mark. -/
theorem anchored (h : ReadAs p method data b t r) {l : Label} (hl : l ∈ b.labels) :
    b.Anchored t (r.2.2.2.1.map Prod.fst ++ [r.2.2.1]) l := by
  rcases h.named l hl with ⟨o, ho⟩
  have hknown := h.layout.known o l ho
  constructor
  · have hmark : .label l ∈ b.instructions := by
      rw [h.layout.instructions]
      exact List.mem_map_of_mem (h.layout.mark_mem ho)
    rw [count_label]
    exact List.count_eq_one_of_mem h.layout.placed_once (List.mem_filterMap.2 ⟨_, hmark, rfl⟩)
  · refine ⟨o, ?_, ho⟩
    rw [h.layout.positionOf ho, ← h.offsets_eq]
    exact List.getElem?_idxOf hknown

/-- The labels that a mark or anything else has are less than the next one. -/
theorem id_lt (h : ReadAs p method data b t r) {l : Label}
    (hl : l ∈ b.labels ∨ .label l ∈ b.instructions) : l.id < b.nextLabel := by
  have hnamed : t.Names l := by
    rcases hl with hl | hl
    · exact h.named l hl
    · rw [h.layout.instructions] at hl
      rcases List.mem_map.1 hl with ⟨x, hx, hlabel⟩
      have hmem := mem_labels_of_mem_woven h.layout.real_code hx hlabel
      exact ⟨x.pc, Std.TreeMap.mem_toList_iff_getElem?_eq_some.1 hmem⟩
  rcases hnamed with ⟨o, ho⟩
  rw [h.nextLabel]
  exact h.layout.sound.lt o l ho

/-- The labels of a body that was decoded are placed. -/
theorem labelsPlaced (h : ReadAs p method data b t r) : b.LabelsPlaced := by
  intro l hl
  rcases (h.anchored hl).offset with ⟨o, ho, -⟩
  rw [h.real_eq]
  have hlt := (List.getElem?_eq_some_iff.1 ho).1
  rw [List.length_append, List.length_map, List.length_singleton] at hlt
  rw [List.length_map]
  exact Nat.le_of_lt_succ hlt

end ReadAs

end Decoded

end Body

namespace Prepared

variable {b : Body} {l : Label}

/-- A label is found where its mark is. -/
theorem of_labelPositions {code : List Instruction} {n j : Nat} {found : Std.HashMap Label Nat}
    (h : (labelPositions n found code)[l]? = some j) :
    (∃ k, j = n + k ∧ code[k]? = some (.label l)) ∨ found[l]? = some j := by
  have hlater {i : Instruction} {code : List Instruction} {n : Nat}
      (h : ∃ k, j = n + 1 + k ∧ code[k]? = some (.label l)) :
      ∃ k, j = n + k ∧ (i :: code)[k]? = some (.label l) := by
    rcases h with ⟨k, rfl, hk⟩
    exact ⟨k + 1, by omega, hk⟩
  -- The table is built from the front, and a later mark takes the place of an earlier one.
  induction code generalizing n found with
  | nil => exact .inr h
  | cons i code ih =>
      unfold labelPositions at h
      split at h
      · cases ‹_ :: _ = _›
      next l' rest heq =>
        cases heq
        rcases ih h with h | h
        · exact .inl (hlater h)
        · rw [Std.HashMap.getElem?_insert] at h
          split at h
          next hl =>
            cases h
            rw [eq_of_beq hl]
            exact .inl ⟨0, rfl, rfl⟩
          · exact .inr h
      next heq =>
        cases heq
        exact (ih h).imp_left hlater

/-- A method made ready has a position for each label that is placed, which is that of its mark. -/
theorem exists_target (honce : (b.instructions.filterMap Instruction.label?).Nodup)
    (h : b.LabelsPlaced) (c : ClassFile) (m : Member) :
    ∃ q, ofBody c m b = .ok q ∧ ∀ l ∈ b.labels, ∃ i, q.target l = .ok i ∧
      q.code[i]? = some (.label l) := by
  rcases exists_ofBody c m honce h.targets with ⟨q, hq, -⟩
  refine ⟨q, hq, fun l hl => ?_⟩
  rcases Body.exists_position honce (h l hl) with ⟨j, hj, -⟩
  rcases except_bind_ok hq with ⟨guards, -, hprepared⟩
  cases hprepared
  refine ⟨j, ?_, ?_⟩
  · unfold target position
    dsimp only
    rw [hj]
  · -- The table starts empty, so whatever is found has a mark in the code.
    rcases of_labelPositions hj with ⟨k, rfl, hk⟩ | hempty
    · rw [Nat.zero_add, List.getElem?_toArray]
      exact hk
    · rw [Std.HashMap.getElem?_empty] at hempty
      cases hempty

end Prepared

/-- A body that was decoded leaves no label open. Its code falls into pieces, from each of which one
    of its instructions is read, and every label that something refers to has one mark, in front of
    a piece or behind the last. The number of the next label is greater than those of all labels,
    the method is made ready wherever it has the body, with the position of each label, and encoding
    misses none of them. -/
theorem Body.closed_of_decode {data : Bytes} {p : Pool} {method : MethodInfo} {b : Body}
    (h : decode data p method = .ok b) :
    (∃ bytes pieces code t, codeOf data = .ok bytes ∧ pieces.flatten = bytes ∧
      Cut p bytes.length t 0 pieces code ∧ b.real = code.map Prod.snd ∧
      ∀ l ∈ b.labels, b.Anchored t (code.map Prod.fst ++ [bytes.length]) l) ∧
    (∀ l, l ∈ b.labels ∨ .label l ∈ b.instructions → l.id < b.nextLabel) ∧
    (∀ (u : Universe) (c : ClassFile) (m : Member), u.HasBody c m b →
      ∃ q, (Program.ofUniverse u).prepare m = .ok q ∧ ∀ l ∈ b.labels, ∃ i, q.target l = .ok i ∧
        q.code[i]? = some (.label l)) ∧
    ∀ (m : Member) (u v : Pool) (l : Nat) (m' : Member),
      encode b m u ≠ .error (.malformed (.labelNotPlaced l m')) v := by
  rcases exists_readAs h with ⟨t, r, hread⟩
  rcases hread.cut with ⟨bytes, pieces, hcode, hlength, hflatten, hcut⟩
  -- The cut, the next label, the run and the encoding, each from what was read.
  refine ⟨⟨bytes, pieces, _, t, hcode, hflatten, hcut, hread.real_eq, fun l hl => ?_⟩,
    fun l => hread.id_lt, fun u c m hu => ?_, fun m u v l m' herror => ?_⟩
  · rw [hlength]
    exact hread.anchored hl
  · rcases Prepared.exists_target hread.layout.placed_once hread.labelsPlaced c m with ⟨q, hq, hl⟩
    exact ⟨q, (Program.prepare_ofUniverse u m).trans (hu.prepare_eq.trans hq), hl⟩
  · have hunplaced := (unplaced_of_encode herror).2
    have honce := (hread.anchored hunplaced.referred).once
    rw [List.count_eq_zero_of_not_mem hunplaced.unmarked] at honce
    cases honce

namespace Anew

/-- The bytes of the body: a jump behind an object that is made, which its frame names by its
    instruction, and a handler and a local variable up to the end of the code. -/
def data : Bytes :=
  [0, 1, 0, 1, 0, 0, 0, 7, 0xBB, 0, 4, 0xA7, 0, 3, 0xB1, 0, 1, 0, 0, 0, 7, 0, 6, 0, 0,
    0, 2, 0, 1, 0, 0, 0, 12, 0, 1, 0, 0, 0, 7, 0, 5, 0, 6, 0, 0,
    0, 2, 0, 0, 0, 6, 0, 1, 70, 8, 0, 0]

/-- The names of the attributes of the example. -/
def pool : Pool :=
  ⟨#[.unusable, .utf8 "LocalVariableTable" (ModifiedUtf8.encode "LocalVariableTable"),
    .utf8 "StackMapTable" (ModifiedUtf8.encode "StackMapTable"),
    .utf8 "demo/Anew" (ModifiedUtf8.encode "demo/Anew"), .classRef 3,
    .utf8 "x" (ModifiedUtf8.encode "x"), .utf8 "I" (ModifiedUtf8.encode "I")], ∅⟩

def run : Member :=
  ⟨"demo/Anew", "run", "()V"⟩

def info : MethodInfo :=
  ⟨run, true⟩

/-- The body of the example, in which a frame refers to a label. -/
def body : Body where
  maxStack := 1
  maxLocals := 1
  instructions :=
    [.label ⟨1⟩, .typed .new "demo/Anew", .jump .goto ⟨0⟩, .label ⟨0⟩,
      .frame ⟨[], [.uninitialized ⟨1⟩]⟩, .simple .voidReturn, .label ⟨2⟩]
  handlers := [⟨⟨1⟩, ⟨2⟩, ⟨0⟩, none⟩]
  locals := [⟨"x", "I", ⟨1⟩, ⟨2⟩, 0⟩]
  modified := false
  nextLabel := 3

/-- It is what is read. -/
theorem decode_data : Body.decode data pool info = .ok body := by
  cbv

/-- A class with that method. -/
def classFile : ClassFile where
  name := "demo/Anew"
  methods := [{ access := ⟨9⟩, name := run.name, descriptor := run.descriptor, body := some body }]

/-- The class alone. -/
def classes : Universe :=
  .ofClasses [classFile]

theorem hasBody_run : classes.HasBody classFile run body where
  full := ⟨_, Std.TreeMap.getElem?_insert_self, rfl⟩
  body := ⟨_, rfl, rfl⟩

end Anew

open Anew in
/-- The labels of the frame, the jump and the ends of the ranges are anchored and have their
    positions. -/
theorem closed_anew :
    Body.decode data pool info = .ok body ∧ body.labels.dedup = [⟨0⟩, ⟨1⟩, ⟨2⟩] ∧
    (∃ bytes pieces code t, Body.codeOf data = .ok bytes ∧ pieces.flatten = bytes ∧
      Body.Cut pool bytes.length t 0 pieces code ∧ body.real = code.map Prod.snd ∧
      ∀ l ∈ body.labels, body.Anchored t (code.map Prod.fst ++ [bytes.length]) l) ∧
    (body.newLabel.1 ∉ body.labels) ∧
    (∃ q, (Program.ofUniverse classes).prepare run = .ok q ∧ ∀ l ∈ body.labels,
      ∃ i, q.target l = .ok i ∧ q.code[i]? = some (.label l)) ∧
    ∀ u v l m, Body.encode body run u ≠ .error (.malformed (.labelNotPlaced l m)) v := by
  rcases Body.closed_of_decode decode_data with ⟨hcode, hnext, hprepare, hencode⟩
  refine ⟨decode_data, by decide, hcode, fun h => ?_, hprepare _ _ _ hasBody_run,
    fun u v l m => hencode run u v l m⟩
  exact Nat.lt_irrefl _ (hnext _ (.inl h))

end JvmFold
