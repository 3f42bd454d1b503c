import Mathlib
import JvmFold.Machine.Engine

/-!
# Division with the Quotient Rounded Down

The functions of arithmetic that divide get the quotient rounded down from the
one rounded to zero, with a correction where there is a remainder and the signs
differ. Words make this delicate in two places: signs are compared by the
exclusive disjunction of the words, and the least word divided by minus one is
beyond the greatest word.

The correction is the one of integers, so the remainder is that of the quotient
rounded down, and the quotient is, as a word. A quotient that fits a word is
then exact, and all of them do but that of the least word by minus one. There
the quotient is the least word again, and the remainder is zero. Only the
quotient of two values of type `int` is not there, since the remainder that it
looks at is a strict one. For `long` and for both remainders there is always an
answer.

## Main definitions

* `Word.FloorDivision`: What quotient and remainder of two words are.
* `WordType`: The two types of integers that are divided.

## Theorems

* `Word.toInt_floorMod`, `Word.toInt_floorDiv`: The functions on words are those on integers.
* `Word.floorDivision`: They give quotient and remainder.
* `WordType.floor_methods_divide`: The methods give quotient and remainder.
* `WordType.least_quotient_breaks_off`: The quotient that the machine does not come to.
-/

namespace JvmFold

namespace Word

/-- That `q` and `r` are the quotient rounded down of `x` by `y` and its remainder, for words of `w`
    bits. -/
structure FloorDivision (w : Nat) (x y q r : Int) : Prop where
  /-- Quotient and remainder make up the dividend as words. -/
  total : x ≡ q * y + r [ZMOD 2 ^ w]
  /-- The remainder is zero, or it has the sign of the divisor and is less than it. -/
  remainder : r = 0 ∨ r.sign = y.sign ∧ |r| < |y|
  /-- The quotient is exact unless it is beyond the greatest word. -/
  floor : ¬(x = -2 ^ (w - 1) ∧ y = -1) → q = ⌊(x : ℚ) / y⌋
  /-- The least word by minus one is the least word again. -/
  overflow : x = -2 ^ (w - 1) ∧ y = -1 → q = x ∧ r = 0

section Integers

variable {x y m : Int}

/-- A remainder that is not zero has the sign of the dividend. -/
theorem tmod_neg_iff (h : x.tmod y ≠ 0) : x.tmod y < 0 ↔ x < 0 := by
  constructor
  · intro hneg
    by_contra hx
    exact absurd (Int.tmod_nonneg y (not_lt.mp hx)) (not_le.mpr hneg)
  · intro hx
    have hflip := Int.tmod_nonneg y (a := -x) (by omega)
    rw [Int.neg_tmod] at hflip
    omega

/-- The quotient rounded down is the one rounded to zero, or one less. -/
theorem fdiv_eq_corrected (hy : y ≠ 0) :
    x.fdiv y = if x.tmod y ≠ 0 ∧ ¬(x < 0 ↔ y < 0) then x.tdiv y - 1 else x.tdiv y := by
  rw [Int.fdiv_eq_tdiv]
  simp only [Int.dvd_iff_tmod_eq_zero]
  rcases lt_or_gt_of_ne hy with hneg | hpos
  · rw [Int.sign_eq_neg_one_of_neg hneg]
    split_ifs <;> omega
  · rw [Int.sign_eq_one_of_pos hpos]
    split_ifs <;> omega

/-- The remainder is corrected where the quotient is. -/
theorem fmod_eq_corrected :
    x.fmod y = if x.tmod y ≠ 0 ∧ ¬(x < 0 ↔ y < 0) then x.tmod y + y else x.tmod y := by
  rw [Int.fmod_eq_tmod]
  simp only [Int.dvd_iff_tmod_eq_zero]
  split_ifs <;> omega

/-- A remainder has the sign of the divisor. -/
theorem fmod_of_neg (x : Int) (hy : y < 0) : y < x.fmod y ∧ x.fmod y ≤ 0 := by
  have hlow := Int.fmod_lt_of_pos (-x) (b := -y) (by omega)
  have hhigh := Int.fmod_nonneg_of_pos (-x) (b := -y) (by omega)
  rw [Int.neg_fmod_neg] at hlow hhigh
  omega

/-- The remainder of the quotient rounded down goes with the divisor. -/
theorem fmod_with_divisor (x : Int) (hy : y ≠ 0) :
    x.fmod y = 0 ∨ (x.fmod y).sign = y.sign ∧ |x.fmod y| < |y| := by
  rcases eq_or_ne (x.fmod y) 0 with h0 | h0
  · exact .inl h0
  refine .inr ?_
  -- The remainder lies between zero and the divisor, on either side.
  rcases lt_or_gt_of_ne hy with hneg | hpos
  · rcases fmod_of_neg x hneg with ⟨hlow, hhigh⟩
    have hlt : x.fmod y < 0 := by omega
    rw [Int.sign_eq_neg_one_of_neg hlt, Int.sign_eq_neg_one_of_neg hneg, abs_of_neg hlt,
      abs_of_neg hneg]
    omega
  · have hlow := Int.fmod_nonneg_of_pos x hpos
    have hhigh := Int.fmod_lt_of_pos x hpos
    have hlt : 0 < x.fmod y := by omega
    rw [Int.sign_eq_one_of_pos hlt, Int.sign_eq_one_of_pos hpos, abs_of_pos hlt, abs_of_pos hpos]
    omega

/-- The floor of the quotient of two numbers. -/
theorem fdiv_eq_floor (x y : Int) : x.fdiv y = ⌊(x : ℚ) / y⌋ := by
  -- a negative divisor changes its sign together with the dividend
  have hnat : ∀ (x : Int) (n : Nat), x.fdiv n = ⌊(x : ℚ) / (n : Int)⌋ := by
    intro x n
    rw [Int.fdiv_eq_ediv_of_nonneg x (Int.natCast_nonneg n), Int.cast_natCast,
      Rat.floor_intCast_div_natCast]
  rcases Int.eq_nat_or_neg y with ⟨n, rfl | rfl⟩
  · exact hnat x n
  · rw [← Int.neg_fdiv_neg, neg_neg, hnat, Int.cast_neg, Int.cast_neg, neg_div, div_neg]

/-- The quotient is between the bounds that the dividend is between. -/
theorem fdiv_between (hlow : -m ≤ x) (hhigh : x < m) (hy : y ≠ 0) (h : ¬(x = -m ∧ y = -1)) :
    -m ≤ x.fdiv y ∧ x.fdiv y < m := by
  have hsum := Int.mul_fdiv_add_fmod x y
  -- dividing by minus one changes the sign, and any other divisor makes nothing larger
  rcases lt_or_gt_of_ne hy with hneg | hpos
  · rcases fmod_of_neg x hneg with ⟨hr, hr'⟩
    rcases eq_or_lt_of_le (show y ≤ -1 by omega) with rfl | hy'
    · omega
    · constructor <;> nlinarith
  · have hr := Int.fmod_nonneg_of_pos x hpos
    have hr' := Int.fmod_lt_of_pos x hpos
    constructor <;> nlinarith

end Integers

section Words

variable {w : Nat} {a b : BitVec w}

/-- Whether the signs differ. -/
theorem xor_slt_zero (a b : BitVec w) :
    (a ^^^ b).slt 0 = true ↔ ¬(a.toInt < 0 ↔ b.toInt < 0) := by
  change (a ^^^ b).slt 0#w = true ↔ _
  rw [BitVec.slt_zero_eq_msb, BitVec.msb_xor, BitVec.msb_eq_toInt, BitVec.msb_eq_toInt]
  by_cases ha : a.toInt < 0 <;> by_cases hb : b.toInt < 0 <;> simp [ha, hb]

/-- A word is zero if its number is. -/
theorem ne_zero_iff_toInt (a : BitVec w) : a ≠ 0 ↔ a.toInt ≠ 0 := by
  rw [ne_eq, ne_eq, ← BitVec.toInt_inj]
  exact not_congr (by rw [show (0 : BitVec w).toInt = 0 from BitVec.toInt_zero])

/-- A word that is not zero has some width. -/
theorem pos_of_ne_zero (hb : b ≠ 0) : 0 < w := by
  by_contra h
  have heq : w = 0 := by omega
  subst heq
  exact hb (Subsingleton.elim _ _)

/-- Half of the words are negative. -/
theorem two_pow_eq_two_mul (hw : 0 < w) : (2 ^ w : Int) = 2 * 2 ^ (w - 1) := by
  rw [← pow_succ', Nat.sub_add_cancel hw]

/-- An integer that fits a word is not wrapped. -/
theorem bmod_eq_self (hw : 0 < w) {n : Int} (hlow : -2 ^ (w - 1) ≤ n) (hhigh : n < 2 ^ (w - 1)) :
    n.bmod (2 ^ w) = n := by
  have htwice := two_pow_eq_two_mul hw
  refine Int.bmod_eq_of_le ?_ ?_ <;> push_cast <;> omega

/-- The remainder of words is that of integers. -/
theorem toInt_floorMod (hb : b ≠ 0) : (floorMod a b).toInt = a.toInt.fmod b.toInt := by
  have hy := (ne_zero_iff_toInt b).mp hb
  -- where there is a remainder, its sign is that of the dividend, so both tests are the same
  have hwrapped : (floorMod a b).toInt = (a.toInt.fmod b.toInt).bmod (2 ^ w) := by
    unfold floorMod
    simp only [xor_slt_zero, ne_zero_iff_toInt, BitVec.toInt_srem]
    rw [fmod_eq_corrected]
    split_ifs with h h' h'
    · rw [BitVec.toInt_add, BitVec.toInt_srem]
    · exact absurd (by rwa [tmod_neg_iff h.1] at h) h'
    · exact absurd (by rwa [← tmod_neg_iff h'.1] at h') h
    · rw [← BitVec.toInt_srem, BitVec.toInt_bmod_cancel]
  -- the remainder is between zero and the divisor, which is a word
  have hlow := BitVec.le_toInt b
  have hhigh := BitVec.toInt_lt (x := b)
  rw [hwrapped]
  rcases lt_or_gt_of_ne hy with hneg | hpos
  · rcases fmod_of_neg a.toInt hneg with ⟨hr, hr'⟩
    exact bmod_eq_self (pos_of_ne_zero hb) (by omega) (by omega)
  · have hr := Int.fmod_nonneg_of_pos a.toInt hpos
    have hr' := Int.fmod_lt_of_pos a.toInt hpos
    exact bmod_eq_self (pos_of_ne_zero hb) (by omega) (by omega)

/-- The quotient of words is that of integers as a word. -/
theorem toInt_floorDiv (hb : b ≠ 0) :
    (floorDiv a b (a.srem b)).toInt = (a.toInt.fdiv b.toInt).bmod (2 ^ w) := by
  rw [fdiv_eq_corrected ((ne_zero_iff_toInt b).mp hb)]
  unfold floorDiv
  simp only [xor_slt_zero, ne_zero_iff_toInt, BitVec.toInt_srem]
  split_ifs
  · rw [BitVec.toInt_sub, BitVec.toInt_sdiv, BitVec.toInt_ofNat, Int.sub_bmod_bmod,
      Int.bmod_sub_bmod, Nat.cast_one]
  · exact BitVec.toInt_sdiv a b

/-- The functions on words give quotient and remainder. -/
theorem floorDivision (a : BitVec w) (hb : b ≠ 0) :
    FloorDivision w a.toInt b.toInt (floorDiv a b (a.srem b)).toInt (floorMod a b).toInt := by
  have hy := (ne_zero_iff_toInt b).mp hb
  have hw := pos_of_ne_zero hb
  rw [toInt_floorMod hb, toInt_floorDiv hb]
  refine ⟨?_, fmod_with_divisor a.toInt hy, fun h => ?_, fun ⟨hx, hy⟩ => ?_⟩
  · -- wrapping changes the quotient by a multiple of the number of words
    have hq : (a.toInt.fdiv b.toInt).bmod (2 ^ w) ≡ a.toInt.fdiv b.toInt [ZMOD 2 ^ w] := by
      have hmod := @Int.bmod_emod (a.toInt.fdiv b.toInt) (2 ^ w)
      push_cast at hmod
      exact hmod
    have hsum := (hq.mul_right b.toInt).add_right (a.toInt.fmod b.toInt)
    rw [Int.fdiv_mul_add_fmod] at hsum
    exact hsum.symm
  · -- a quotient between the bounds of words is not wrapped
    rcases fdiv_between (BitVec.le_toInt a) BitVec.toInt_lt hy h with ⟨hlow, hhigh⟩
    rw [bmod_eq_self hw hlow hhigh, fdiv_eq_floor]
  · have htwice := two_pow_eq_two_mul hw
    have hpos : (0 : Int) < 2 ^ (w - 1) := by positivity
    rw [hx, hy, Int.neg_fdiv_neg, Int.neg_fmod_neg, Int.fdiv_one, Int.fmod_one, Int.bmod_def]
    push_cast
    rw [Int.emod_eq_of_lt (by omega) (by omega), if_neg (by omega), htwice]
    exact ⟨by ring, trivial⟩

end Words

end Word

namespace Natives

section Apply

variable {env : Env} {s : Machine}

/-- A division by a number other than zero gives a value. -/
theorem divideInts_apply (op : Int32 → Int32 → Int32) (a : Int32) {b : Int32} (hb : b ≠ 0) :
    divideInts op [.int a, .int b] env s = .ok (some (.int (op a b))) s := by
  change (if b = 0 then Emu.raiseZeroDivision else int (op a b)) env s = _
  rw [if_neg hb]
  rfl

-- So it does of long numbers.
theorem divideLongs_apply (op : Int64 → Int64 → Int64) (a : Int64) {b : Int64} (hb : b ≠ 0) :
    divideLongs op [.long a, .long b] env s = .ok (some (.long (op a b))) s := by
  change (if b = 0 then Emu.raiseZeroDivision else long (op a b)) env s = _
  rw [if_neg hb]
  rfl

/-- Only the least number by minus one ends the program. -/
theorem floorDivInts_apply (a : Int32) {b : Int32} (hb : b ≠ 0) :
    floorDivInts [.int a, .int b] env s =
      if a = Int32.minValue ∧ b = -1 then .error .aborted s
      else .ok
        (some (.int (.ofBitVec
          (Word.floorDiv a.toBitVec b.toBitVec (a.toBitVec.srem b.toBitVec))))) s := by
  change (if b = 0 then Emu.raiseZeroDivision
    else do
      let remainder ← strictRemainder a b
      int (.ofBitVec (Word.floorDiv a.toBitVec b.toBitVec remainder.toBitVec))) env s = _
  rw [if_neg hb]
  -- the strict remainder is what breaks off
  unfold strictRemainder
  split
  · rfl
  · rfl

/-- What the table of native methods gives for a method of the class. -/
theorem outcome_of_mem {b : Builtin} (hb : b ∈ mathMethods) (args : List Value) :
    outcome (b.signature.on "java/lang/Math") args env s = some (b.run args env s) := by
  have hmem : ("java/lang/Math", mathMethods) ∈ all := by
    simp only [all, List.cons_append, List.mem_cons, true_or, or_true]
  exact outcome_builtin hmem hb args

end Apply

end Natives

/-- The two types of integers that are divided. -/
inductive WordType where
  | int
  | long
deriving DecidableEq

namespace WordType

/-- The number of bits. -/
def width : WordType → Nat
  | int => 32
  | long => 64

/-- A word as a value of the machine. -/
def value : (t : WordType) → BitVec t.width → Value
  | int, x => .int (.ofBitVec x)
  | long, x => .long (.ofBitVec x)

/-- The function of arithmetic of a name that takes two words and gives one. -/
def member (t : WordType) (name : String) : Member :=
  ⟨"java/lang/Math", name, match t with | int => "(II)I" | long => "(JJ)J"⟩

open Natives

variable {env : Env} {s : Machine}

/-- The remainder, for both widths. -/
theorem outcome_floorMod (t : WordType) (x : BitVec t.width) {y : BitVec t.width} (hy : y ≠ 0) :
    outcome (t.member "floorMod") [t.value x, t.value y] env s
      = some (.ok (some (t.value (Word.floorMod x y))) s) := by
  cases t with
  | int =>
      have hmem : method "floorMod" "(II)I" floorModInts ∈ mathMethods := by
        simp [mathMethods]
      refine (outcome_of_mem hmem _).trans (congrArg some ?_)
      exact divideInts_apply _ _ fun h => hy (congrArg Int32.toBitVec h)
  | long =>
      have hmem : method "floorMod" "(JJ)J" floorModLongs ∈ mathMethods := by
        simp [mathMethods]
      refine (outcome_of_mem hmem _).trans (congrArg some ?_)
      exact divideLongs_apply _ _ fun h => hy (congrArg Int64.toBitVec h)

/-- The quotient, for both widths. -/
theorem outcome_floorDiv (t : WordType) (x : BitVec t.width) {y : BitVec t.width} (hy : y ≠ 0) :
    outcome (t.member "floorDiv") [t.value x, t.value y] env s
      = some (if t = .int ∧ x = .intMin _ ∧ y = -1 then .error .aborted s
        else .ok (some (t.value (Word.floorDiv x y (x.srem y)))) s) := by
  -- Only the method for words of 32 bits may end the program.
  cases t with
  | int =>
      have hmem : method "floorDiv" "(II)I" floorDivInts ∈ mathMethods := by
        simp [mathMethods]
      have hy' : Int32.ofBitVec y ≠ 0 := fun h => hy (congrArg Int32.toBitVec h)
      refine (outcome_of_mem hmem _).trans (congrArg some ?_)
      refine (floorDivInts_apply _ hy').trans (if_congr ?_ rfl rfl)
      rw [← Int32.toBitVec_inj, ← Int32.toBitVec_inj]
      exact (and_iff_right rfl).symm
  | long =>
      have hmem : method "floorDiv" "(JJ)J" floorDivLongs ∈ mathMethods := by
        simp [mathMethods]
      rw [if_neg fun h => nomatch h.1]
      refine (outcome_of_mem hmem _).trans (congrArg some ?_)
      exact divideLongs_apply _ _ fun h => hy (congrArg Int64.toBitVec h)

/-- For all words and all divisors but zero, and for both types, the methods give the quotient
    rounded down and its remainder, and leave the state as it is. Only for the quotient of the least
    `int` by minus one the machine breaks off. -/
theorem floor_methods_divide (t : WordType) (x y : BitVec t.width) (hy : y ≠ 0) (env : Env)
    (s : Machine) :
    ∃ q r : BitVec t.width, Word.FloorDivision t.width x.toInt y.toInt q.toInt r.toInt ∧
      outcome (t.member "floorMod") [t.value x, t.value y] env s
        = some (.ok (some (t.value r)) s) ∧
      outcome (t.member "floorDiv") [t.value x, t.value y] env s
        = some (if t = .int ∧ x = .intMin _ ∧ y = -1 then .error .aborted s
          else .ok (some (t.value q)) s) :=
  ⟨_, _, Word.floorDivision x hy, t.outcome_floorMod x hy, t.outcome_floorDiv x hy⟩

/-- Minus seven by two is minus four. -/
theorem floor_methods_divide_seven :
    (2 : BitVec 32) ≠ 0 ∧
      outcome ⟨"java/lang/Math", "floorDiv", "(II)I"⟩ [.int (-7), .int 2]
          (Engine.env (.ofUniverse {}) {}) {}
        = some (.ok (some (.int (-4))) {}) := by
  refine ⟨by decide, ?_⟩
  rcases floor_methods_divide .int (-7) 2 (by decide) (Engine.env (.ofUniverse {}) {}) {} with
    ⟨q, r, hdivision, -, hanswer⟩
  have hq : q.toInt = (-4 : BitVec 32).toInt := by
    rw [hdivision.floor (by decide)]
    change ⌊((-7 : Int) : ℚ) / (2 : Int)⌋ = -4
    norm_num
  rw [BitVec.toInt_inj.mp hq, if_neg (by decide)] at hanswer
  exact hanswer

/-- There is a quotient that the machine does not come to, that of the least `int` by minus one. For
    `long` it is the least `long`. -/
theorem least_quotient_breaks_off :
    outcome ⟨"java/lang/Math", "floorDiv", "(II)I"⟩ [.int Int32.minValue, .int (-1)]
        (Engine.env (.ofUniverse {}) {}) {}
      = some (.error .aborted {}) ∧
    outcome ⟨"java/lang/Math", "floorDiv", "(JJ)J"⟩ [.long Int64.minValue, .long (-1)]
        (Engine.env (.ofUniverse {}) {}) {}
      = some (.ok (some (.long Int64.minValue)) {}) := by
  constructor
  · exact (outcome_floorDiv .int (.intMin 32) (y := -1) (by decide)).trans
      (congrArg some (if_pos ⟨rfl, rfl, rfl⟩))
  · exact outcome_floorDiv .long (.intMin 64) (y := -1) (by decide)

end WordType

end JvmFold
