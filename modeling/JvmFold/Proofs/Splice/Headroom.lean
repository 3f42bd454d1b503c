import JvmFold.Fold.Splice
import JvmFold.Proofs.Analysis.Balance

/-!
# Room for New Code

The limit of a spliced body leaves room for the new code wherever it left room
for the value that the code puts there. New code starts at a depth where the
value would have fit, and goes beyond the value by no more than the limit is
raised for it. What the limit is raised for one span is on top of what it is
raised for the others, so no span takes room from another, and the order of the
spans does not matter.

All this is up to the greatest limit there is. A limit of 65535 is raised no
further, and says nothing about what is deeper.

## Main definitions

* `Replacement.growth`: What new code needs beyond its value.

## Theorems

* `toNat_foldl_raise`: The limit is raised by what all spans need.
* `depth_le_peakDepth`: The stack is nowhere deeper than the peak of the code.
* `Body.apply_headroom`: The spliced body has room for the new code.
-/

namespace JvmFold

/-- The slots that new code needs beyond those of the value that it leaves. -/
def Replacement.growth (r : Replacement) : Nat :=
  peakDepth r.code - r.slots

/-- A limit is raised by the growth, as far as 16 bits go. -/
theorem toNat_raise (limit : UInt16) (r : Replacement) :
    (r.raise limit).toNat = min (limit.toNat + r.growth) 65535 := by
  have hsmall : min (limit.toNat + r.growth) 65535 < 65536 := by omega
  exact Nat.mod_eq_of_lt hsmall

/-- The limit is raised by what all spans need together, as far as it goes. -/
theorem toNat_foldl_raise (limit : UInt16) (l : List Replacement) :
    (l.foldl Replacement.raise limit).toNat
      = min (limit.toNat + (l.map Replacement.growth).sum) 65535 := by
  induction l generalizing limit with
  | nil =>
      have hlimit := limit.toNat_lt
      rw [List.foldl_nil, List.map_nil, List.sum_nil]
      omega
  | cons r rest ih =>
      rw [List.foldl_cons, ih, toNat_raise, List.map_cons, List.sum_cons]
      omega

/-- So is the limit of a body. -/
theorem Body.toNat_apply_maxStack (b : Body) (l : List Replacement) :
    (b.apply l).1.maxStack.toNat
      = min (b.maxStack.toNat + (l.map Replacement.growth).sum) 65535 := by
  rw [← toNat_foldl_raise]
  cases l with
  | nil => rfl
  | cons r rest => rfl

section Peak

variable {depth peak : Int} {floor d e k : Nat} {code : List Instruction}

/-- A peak is no lower than what was reached before. -/
theorem le_peakFrom : peak ≤ peakFrom depth peak code := by
  induction code generalizing depth peak with
  | nil => exact Int.le_refl peak
  | cons i rest ih => exact Int.le_trans (Int.le_max_left _ _) ih

/-- The peak of code is at least the depth behind each of its instructions. The depth that the peak
    is counted by may differ from that of the stack, as it does if it starts from an empty one. -/
theorem le_peakFrom_of_depthAfter? (hle : depth ≤ peak)
    (h : depthAfter? floor d (code.take k) = some e) :
    (e : Int) - d + depth ≤ peakFrom depth peak code := by
  -- That the peak is no less than the depth holds again behind each instruction, as the peak takes
  -- the depth there in; it is what is left to say where the prefix ends.
  induction code generalizing d depth peak k with
  | nil =>
      rw [List.take_nil] at h
      cases h
      rw [peakFrom]
      omega
  | cons i rest ih =>
      cases k with
      | zero =>
          cases h
          have hpeak : peak ≤ peakFrom depth peak (i :: rest) := le_peakFrom
          omega
      | succ k =>
          rw [List.take_succ_cons, depthAfter?] at h
          split at h
          next popped pushed heffect =>
            split at h
            next hfloor =>
              have hnext := ih (Int.le_max_right peak (depth - popped + pushed)) h
              rw [peakFrom, heffect]
              change _ ≤ peakFrom (depth - popped + pushed)
                (max peak (depth - popped + pushed)) rest
              omega
            · cases h
          · cases h

/-- The stack is nowhere in code deeper than the peak of the code over where it starts, unless it is
    more than 65535 slots deeper. -/
theorem depth_le_peakDepth (h : depthAfter? floor d (code.take k) = some e) :
    min e (d + 65535) ≤ d + peakDepth code := by
  have hpeak := le_peakFrom_of_depthAfter? (Int.le_refl 0) h
  unfold peakDepth
  omega

end Peak

/-- The spliced body has room for each new code at every depth where the body had room for its
    value, up to the greatest limit that there is, and so for all depths behind instructions of the
    code. -/
theorem Body.apply_headroom (b : Body) (l : List Replacement) :
    b.maxStack ≤ (b.apply l).1.maxStack ∧
      ∀ r ∈ l, ∀ d, d + r.slots ≤ b.maxStack.toNat →
        (d + peakDepth r.code ≤ (b.apply l).1.maxStack.toNat
          ∨ (b.apply l).1.maxStack.toNat = 65535) ∧
        ∀ floor k e, depthAfter? floor d (r.code.take k) = some e →
          e ≤ (b.apply l).1.maxStack.toNat ∨ (b.apply l).1.maxStack.toNat = 65535 := by
  have hlimit := b.toNat_apply_maxStack l
  have hold := b.maxStack.toNat_lt
  constructor
  · rw [UInt16.le_iff_toNat_le]
    omega
  · intro r hr d hd
    -- The growth of one span is part of the sum, whatever the others are.
    have hgrowth : peakDepth r.code - r.slots ≤ (l.map Replacement.growth).sum :=
      List.single_le_sum (fun _ _ => Nat.zero_le _) r.growth (List.mem_map_of_mem hr)
    have hpeak : d + peakDepth r.code ≤ (b.apply l).1.maxStack.toNat
        ∨ (b.apply l).1.maxStack.toNat = 65535 := by
      omega
    refine ⟨hpeak, fun floor k e h => ?_⟩
    -- Deeper by more than 65535 is deeper than any limit, and then the limit is the greatest.
    have hdepth := depth_le_peakDepth h
    omega

/-- A body that parses a number, with room for the text or the number. -/
def parsing : Body where
  maxStack := 1
  maxLocals := 0
  instructions := [.ldc (.string "10"), .line 7,
    .invoke .invokestatic ⟨"java/lang/Integer", "parseInt", "(Ljava/lang/String;)I"⟩ false,
    .simple .ireturn]

/-- A box around the number in place of the call. -/
def boxedNumber : Replacement where
  start := 0
  stop := 2
  code := [.typed .new "demo/Box", .simple .dup, .push .bipush 10,
    .invoke .invokespecial ⟨"demo/Box", "<init>", "(I)V"⟩ false]
  slots := 1

/-- The box needs two slots more than the number, and the limit is raised by them. -/
theorem apply_headroom_boxedNumber :
    (parsing.apply [boxedNumber]).1.maxStack.toNat = 3 ∧ peakDepth boxedNumber.code = 3 ∧
      0 + peakDepth boxedNumber.code ≤ (parsing.apply [boxedNumber]).1.maxStack.toNat := by
  have hcall : (Instruction.invoke .invokespecial ⟨"demo/Box", "<init>", "(I)V"⟩ false).stackEffect?
      = some (2, 0) := by
    cbv
  -- The object and its copy with the number on top make three.
  have hpeak : peakDepth boxedNumber.code = 3 := by
    unfold peakDepth boxedNumber
    simp only [peakFrom, hcall]
    rfl
  have hlimit : (parsing.apply [boxedNumber]).1.maxStack.toNat = 3 := by
    rw [Body.toNat_apply_maxStack, List.map_singleton, List.sum_singleton, Replacement.growth,
      hpeak]
    rfl
  refine ⟨hlimit, hpeak, ?_⟩
  have hroom := ((parsing.apply_headroom [boxedNumber]).2 boxedNumber List.mem_cons_self 0
    (by decide)).1
  omega

end JvmFold
