import JvmFold.Proofs.Body.Emission

/-!
# Where Instructions Are Placed

Instructions are placed one behind the other, and a mark takes no room, so it
has the offset of the instruction behind it. The offsets of the real
instructions, with the length of the code at the end, are in ascending order,
and a position is where an offset stands among them: so positions and offsets
tell the same about every instruction and mark.

## Main definitions

* `Body.Laid`: Instructions one behind the other.
* `Body.Spaced`: Instructions in ascending order, whatever room they take.
* `Body.offsets`: The offsets of the real instructions, and the length.
* `Body.Placed.ReadsBack`: What is read back from its bytes.

## Theorems

* `Body.place_laid`: Placing puts instructions one behind the other.
* `Body.Spaced.counted`: The positions of instructions by their offsets.
* `Body.Laid.yields`: What is read back one by one is read back from all the bytes.
* `Body.code_yields`: The instructions are read back from the code.
-/

namespace JvmFold

namespace Body

/-- Instructions and marks one behind the other, from an offset up to another. -/
inductive Laid : Nat → List Placed → Nat → Prop where
  | nil {pc : Nat} : Laid pc [] pc
  | cons {x : Placed} {rest : List Placed} {stop : Nat} :
      Laid (x.pc + sizeAt x.pc x.index x.instruction) rest stop → Laid x.pc (x :: rest) stop

/-- Instructions and marks in ascending order, from an offset up to another. A mark takes no room,
    and a real instruction takes some. -/
inductive Spaced : Nat → List Placed → Nat → Prop where
  | nil {pc : Nat} : Spaced pc [] pc
  | mark {x : Placed} {rest : List Placed} {stop : Nat} (hx : x.instruction.isPseudo = true)
      (h : Spaced x.pc rest stop) : Spaced x.pc (x :: rest) stop
  | real {x : Placed} {rest : List Placed} {next stop : Nat}
      (hx : x.instruction.isPseudo = false) (hlt : x.pc < next) (h : Spaced next rest stop) :
      Spaced x.pc (x :: rest) stop

/-- Whether what is placed is a real instruction. -/
def Placed.isReal (x : Placed) : Bool :=
  !x.instruction.isPseudo

/-- The offsets of the real instructions, and where the code stops. -/
def offsets (placed : List Placed) (stop : Nat) : List Nat :=
  (placed.filter Placed.isReal).map Placed.pc ++ [stop]

section Laid

variable {pc stop : Nat} {placed : List Placed}

/-- What is placed from an offset on lies one behind the other, in the order of the list. -/
theorem placeFrom_laid (l : List (Instruction × UInt16)) (acc : List Placed) (pc : Nat) :
    ∃ placed, (placeFrom acc pc l).1 = acc.reverse ++ placed ∧
      Laid pc placed (placeFrom acc pc l).2 ∧
      placed.map (fun x => (x.instruction, x.index)) = l := by
  induction l generalizing acc pc with
  | nil => exact ⟨[], (List.append_nil _).symm, Laid.nil, rfl⟩
  | cons x l ih =>
      rcases x with ⟨i, index⟩
      rcases ih (⟨i, index, pc⟩ :: acc) (pc + sizeAt pc index i) with
        ⟨placed, hplaced, hlaid, hmap⟩
      refine ⟨⟨i, index, pc⟩ :: placed, ?_, Laid.cons (x := ⟨i, index, pc⟩) hlaid, ?_⟩
      · rw [placeFrom, hplaced, List.reverse_cons, List.append_assoc]
        rfl
      · rw [List.map_cons, hmap]

/-- Placing puts instructions one behind the other. -/
theorem place_laid (l : List (Instruction × UInt16)) :
    Laid 0 (place l).1 (place l).2 ∧ (place l).1.map (fun x => (x.instruction, x.index)) = l := by
  rcases placeFrom_laid l [] 0 with ⟨placed, hplaced, hlaid, hmap⟩
  rw [List.reverse_nil, List.nil_append] at hplaced
  unfold place
  rw [hplaced]
  exact ⟨hlaid, hmap⟩

/-- A mark takes no bytes. -/
theorem sizeAt_mark {i : Instruction} {index : UInt16} (h : i.isPseudo = true) :
    sizeAt pc index i = 0 := by
  cases i <;> first | rfl | cases h

/-- Any other instruction takes some. -/
theorem sizeAt_pos {i : Instruction} {index : UInt16} (h : i.isPseudo = false) :
    0 < sizeAt pc index i := by
  cases i with
  | label l | line n | frame f => cases h
  | ldc c => cases c <;> simp only [sizeAt] <;> first | decide | (split <;> decide)
  | _ =>
      simp only [sizeAt]
      first | decide | (repeat' split) <;> omega

/-- A mark adds no offset. -/
theorem offsets_mark {x : Placed} (hx : x.instruction.isPseudo = true) :
    offsets (x :: placed) stop = offsets placed stop := by
  unfold offsets
  rw [List.filter_cons_of_neg (by rw [Placed.isReal, hx]; decide)]

/-- An instruction adds its own offset in front. -/
theorem offsets_real {x : Placed} (hx : x.instruction.isPseudo = false) :
    offsets (x :: placed) stop = x.pc :: offsets placed stop := by
  unfold offsets
  rw [List.filter_cons_of_pos (by rw [Placed.isReal, hx]; decide)]
  rfl

/-- What lies without gaps is in order. -/
theorem Laid.spaced (h : Laid pc placed stop) : Spaced pc placed stop := by
  induction h with
  | nil => exact .nil
  | @cons x rest stop _ ih =>
      cases hx : x.instruction.isPseudo with
      | true =>
          rw [sizeAt_mark hx] at ih
          exact .mark hx ih
      | false => exact .real hx (Nat.lt_add_of_pos_right (sizeAt_pos hx)) ih

/-- The offsets start where the instructions do. -/
theorem Spaced.head (h : Spaced pc placed stop) : ∃ rest, offsets placed stop = pc :: rest := by
  induction h with
  | nil => exact ⟨[], rfl⟩
  | mark hx _ ih =>
      rw [offsets_mark hx]
      exact ih
  | real hx _ _ _ =>
      rw [offsets_real hx]
      exact ⟨_, rfl⟩

/-- All offsets lie between the ends. -/
theorem Spaced.le (h : Spaced pc placed stop) :
    pc ≤ stop ∧ ∀ x ∈ placed, pc ≤ x.pc ∧ x.pc ≤ stop := by
  -- A mark stays where it is, and an instruction moves on by at least one.
  induction h with
  | nil => exact ⟨Nat.le_refl _, fun x hx => by cases hx⟩
  | mark _ _ ih =>
      refine ⟨ih.1, fun y hy => ?_⟩
      rcases List.mem_cons.mp hy with rfl | hy
      · exact ⟨Nat.le_refl _, ih.1⟩
      · exact ih.2 y hy
  | real _ hlt _ ih =>
      refine ⟨by omega, fun y hy => ?_⟩
      rcases List.mem_cons.mp hy with rfl | hy
      · omega
      · have hle := ih.2 y hy
        omega

/-- The offsets are in ascending order, and none is before the start. -/
theorem Spaced.offsets_lt (h : Spaced pc placed stop) :
    (offsets placed stop).Pairwise (· < ·) ∧ ∀ o ∈ offsets placed stop, pc ≤ o := by
  induction h with
  | nil =>
      refine ⟨List.pairwise_singleton _ _, fun o ho => ?_⟩
      exact Nat.le_of_eq (List.mem_singleton.mp ho).symm
  | mark hx _ ih =>
      rw [offsets_mark hx]
      exact ih
  | real hx hlt _ ih =>
      rw [offsets_real hx]
      refine ⟨List.pairwise_cons.mpr ⟨fun o ho => ?_, ih.1⟩, fun o ho => ?_⟩
      · have hle := ih.2 o ho
        omega
      · rcases List.mem_cons.mp ho with rfl | ho
        · exact Nat.le_refl _
        · have hle := ih.2 o ho
          omega

/-- The number of offsets in front of one is its position. -/
theorem idxOf_append {before after : List Nat} {o : Nat}
    (h : (before ++ o :: after).Pairwise (· < ·)) :
    (before ++ o :: after).idxOf o = before.length := by
  have hnot : o ∉ before := by
    intro hmem
    have hlt := (List.pairwise_append.mp h).2.2 o hmem o List.mem_cons_self
    exact Nat.lt_irrefl o hlt
  rw [List.idxOf_append_of_notMem hnot, List.idxOf_cons_self, Nat.add_zero]

/-- The count of instructions in front of a place is the rank of its offset. -/
theorem Spaced.counted_from (h : Spaced pc placed stop) (before : List Nat)
    (hsorted : (before ++ offsets placed stop).Pairwise (· < ·)) :
    counted before.length (placed.map Placed.instruction)
      = placed.map fun x => ((before ++ offsets placed stop).idxOf x.pc, x.instruction) := by
  -- The first one is at the first offset that is not in front of it.
  have hposition {x : Placed} {rest : List Placed} {stop : Nat} {before : List Nat}
      (h : Spaced x.pc (x :: rest) stop)
      (hsorted : (before ++ offsets (x :: rest) stop).Pairwise (· < ·)) :
      (before ++ offsets (x :: rest) stop).idxOf x.pc = before.length := by
    rcases h.head with ⟨after, hhead⟩
    rw [hhead] at hsorted ⊢
    exact idxOf_append hsorted
  induction h generalizing before with
  | nil => rfl
  | mark hx h ih =>
      rw [List.map_cons, List.map_cons, counted, hposition (.mark hx h) hsorted]
      rw [offsets_mark hx] at hsorted ⊢
      rw [if_pos hx, ih before hsorted]
  | @real x rest next stop hx hlt h ih =>
      rw [List.map_cons, List.map_cons, counted, hposition (.real hx hlt h) hsorted]
      rw [offsets_real hx] at hsorted ⊢
      have hbefore : before ++ x.pc :: offsets rest stop
          = (before ++ [x.pc]) ++ offsets rest stop := by
        rw [List.append_assoc]
        rfl
      rw [hbefore] at hsorted ⊢
      have hrest := ih (before ++ [x.pc]) hsorted
      rw [List.length_append] at hrest
      rw [if_neg (by rw [hx]; decide)]
      exact congrArg _ hrest

/-- The positions of instructions and marks by their offsets. -/
theorem Spaced.counted (h : Spaced pc placed stop) :
    counted 0 (placed.map Placed.instruction)
      = placed.map fun x => ((offsets placed stop).idxOf x.pc, x.instruction) :=
  h.counted_from [] h.offsets_lt.1

/-- What is placed is at the offset of a real instruction, or where the code stops. -/
theorem Spaced.mem_offsets (h : Spaced pc placed stop) {x : Placed} (hx : x ∈ placed) :
    x.pc ∈ offsets placed stop := by
  induction h with
  | nil => cases hx
  | mark hy h ih =>
      rcases List.mem_cons.mp hx with rfl | hx
      · -- A mark has the offset of what is behind it.
        rcases (Spaced.mark hy h).head with ⟨after, hhead⟩
        rw [hhead]
        exact List.mem_cons_self
      · rw [offsets_mark hy]
        exact ih hx
  | real hy _ _ ih =>
      rw [offsets_real hy]
      rcases List.mem_cons.mp hx with rfl | hx
      · exact List.mem_cons_self
      · exact List.mem_cons_of_mem _ (ih hx)

end Laid

section Code

open Decode

variable {B : Nat → Prop} {pc stop length : Nat} {p q pool : Pool} {placed : List Placed}
variable {method : Member} {offsetOf : Label → Except Error Nat} {codes : List Bytes}

theorem yieldsBefore_hasMore {rest : Bytes} {b : UInt8} :
    YieldsBefore (b :: rest) B pc (liftM Read.hasMore) [] fun _ => true := by
  intro data t ht
  exact ⟨true, t, rfl, ht, LabelTable.extends_refl t, fun _ _ => rfl⟩

theorem yieldsBefore_noMore : YieldsBefore [] B pc (liftM Read.hasMore) [] fun _ => false := by
  intro data t ht
  exact ⟨false, t, rfl, ht, LabelTable.extends_refl t, fun _ _ => rfl⟩

/-- At the end of the code the list that was gathered comes back in order. -/
theorem readInstructions_end (rounds : Nat) (acc : List (Nat × Instruction)) :
    YieldsBefore [] B pc (readInstructions pool length rounds acc) [] fun _ => acc.reverse := by
  cases rounds with
  | zero => exact yields_pure acc.reverse []
  | succ rounds =>
      rw [readInstructions]
      exact yieldsBefore_noMore.andThen (z := []) (yields_pure acc.reverse [])

/-- The code is as long as its instructions. -/
theorem Laid.length_flatten (h : Laid pc placed stop) (hp : Pool.Grows p q)
    (hproper : ∀ x ∈ placed, x.instruction.Proper p)
    (hcodes : List.Forall₂ (fun x w => emit q method offsetOf x = .ok w) placed codes) :
    pc + codes.flatten.length = stop := by
  induction h generalizing codes with
  | nil =>
      cases hcodes
      rfl
  | cons hlaid ih =>
      rcases hcodes with _ | ⟨hemit, hcodes⟩
      rw [List.forall_mem_cons] at hproper
      have hsize := emit_length hp hproper.1 hemit
      have hrest := ih hproper.2 hcodes
      rw [List.flatten_cons, List.length_append]
      omega

/-- The bytes are as many as there is room, and what is placed is read back from them, with the
    names of offsets for labels. -/
def Placed.ReadsBack (B : Nat → Prop) (length : Nat) (pool : Pool)
    (offsetOf : Label → Except Error Nat) (x : Placed) (w : Bytes) : Prop :=
  w.length = sizeAt x.pc x.index x.instruction ∧
  (x.instruction.isPseudo = false → x.pc + w.length ≤ length →
    Yields B x.pc (readInstruction pool length) w fun name =>
      (x.pc, x.instruction.relabel fun l => name (offset offsetOf l)))

/-- What is read back one by one is read back from all the bytes, each at its offset. -/
theorem Laid.yields (h : Laid pc placed stop)
    (hcodes : List.Forall₂ (Placed.ReadsBack B length pool offsetOf) placed codes)
    (hstop : stop ≤ length) (rounds : Nat) (hrounds : codes.flatten.length ≤ rounds)
    (acc : List (Nat × Instruction)) :
    YieldsBefore [] B pc (readInstructions pool length rounds acc) codes.flatten
      fun name => acc.reverse ++ (placed.filter Placed.isReal).map fun x =>
        (x.pc, x.instruction.relabel fun l => name (offset offsetOf l)) := by
  induction h generalizing codes rounds acc with
  | nil =>
      cases hcodes
      refine (readInstructions_end rounds acc).congr fun name => ?_
      exact (List.append_nil _).symm
  | @cons x placed stop hlaid ih =>
      rcases hcodes with _ | @⟨_, w, _, codes, ⟨hsize, hread⟩, hcodes⟩
      have hrest := ih hcodes hstop
      rw [List.flatten_cons] at hrounds ⊢
      rw [List.length_append] at hrounds
      cases hx : x.instruction.isPseudo with
      | true =>
          rw [sizeAt_mark hx] at hsize hrest
          -- A mark has no bytes and is not read.
          rw [List.eq_nil_of_length_eq_zero hsize,
            List.filter_cons_of_neg (by rw [Placed.isReal, hx]; decide)]
          exact hrest rounds (by omega) acc
      | false =>
          -- A real instruction has bytes, so there is a round for it.
          have hpos : 0 < sizeAt x.pc x.index x.instruction := sizeAt_pos hx
          rw [List.filter_cons_of_pos (by rw [Placed.isReal, hx]; decide)]
          cases rounds with
          | zero => omega
          | succ rounds =>
              have hx := hread hx (by have := hlaid.spaced.le; omega)
              rw [readInstructions]
              cases w with
              | nil =>
                  rw [List.length_nil] at hsize
                  omega
              | cons b w =>
                  have hmore : YieldsBefore (((b :: w) ++ codes.flatten) ++ []) B x.pc
                      (liftM Read.hasMore) [] fun _ => true := yieldsBefore_hasMore
                  refine hmore.andThen ?_
                  rw [if_pos rfl]
                  refine ((hx (codes.flatten ++ [])).bind
                    (f := fun i => readInstructions pool length rounds (i :: acc))
                    (k := fun i name =>
                      (i :: acc).reverse ++ (placed.filter Placed.isReal).map fun x =>
                        (x.pc, x.instruction.relabel fun l => name (offset offsetOf l)))
                    fun i _ => ?_).congr fun name => ?_
                  · rw [hsize]
                    exact hrest rounds (by omega) (i :: acc)
                  · rw [List.reverse_cons, List.append_assoc, List.map_cons]
                    rfl

/-- The instructions are read back from the code, each at its offset. -/
theorem code_yields (h : Laid pc placed stop) (hp : Pool.Grows p q)
    (hproper : ∀ x ∈ placed, x.instruction.Proper p)
    (hindex : ∀ x ∈ placed, Denotes pool x.index x.instruction) (hoff : Resolves B offsetOf)
    (hcodes : List.Forall₂ (fun x w => emit q method offsetOf x = .ok w) placed codes)
    (hstop : stop ≤ length) (hsmall : length ≤ 65535) (rounds : Nat)
    (hrounds : codes.flatten.length ≤ rounds) (acc : List (Nat × Instruction)) :
    YieldsBefore [] B pc (readInstructions pool length rounds acc) codes.flatten
      fun name => acc.reverse ++ (placed.filter Placed.isReal).map fun x =>
        (x.pc, x.instruction.relabel fun l => name (offset offsetOf l)) := by
  have hall : ∀ x ∈ placed, x.instruction.Proper p ∧ Denotes pool x.index x.instruction :=
    fun x hx => ⟨hproper x hx, hindex x hx⟩
  refine h.yields (((List.forall₂_and_left _ _).2 ⟨hall, hcodes⟩).imp ?_) hstop rounds hrounds acc
  rintro x w ⟨⟨hx, hindex⟩, hemit⟩
  exact ⟨emit_length hp hx hemit,
    fun hreal hle => emit_yields hp hx hreal hindex hoff hemit hle hsmall⟩

end Code

end Body

end JvmFold
