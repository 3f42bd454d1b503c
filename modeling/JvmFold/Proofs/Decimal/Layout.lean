import Mathlib
import JvmFold.Decimal.Layout
import JvmFold.Proofs.Natives.Integers

/-!
# What Laid Out Decimals Denote

A decimal is digits with the power of ten of the first one, and both layouts
move its point. They put it behind the first digit or where the power of ten
says, and fill up with zeros on the side where the digits end too early, or with
one zero where no digit is left. None of this may change the number.

A text denotes a number by its digits alone: those on both sides of the point
make a natural number, and how many there are behind the point says what it is
divided by. So zeros that fill up count on the left of the digits for nothing, on
the right for powers of ten, and the three ways to place the point come down to
one sum of exponents each.

That the first digit is not zero keeps superfluous zeros out of the positional
form. The shortest decimal of a number has such a digit: a grid that is coarse
enough to have zero next to the value has it outside of the interval.

## Main definitions

* `Decimal.number`, `Decimal.value`: The numbers of digits and of a decimal.
* `Decimal.Normal`: A decimal whose first digit is not zero.
* `Decimal.Shows`: What a text in scientific form stands for.
* `Decimal.Pointed`, `Decimal.Unsigned`, `Decimal.Denotes`: What a text denotes.

## Theorems

* `Radix.denotes_toString`: The decimal text of an integer denotes it.
* `Decimal.value_split`: The digits around the point make up the number.
* `Decimal.Shows.exists_normal`: A text in scientific form is read as a decimal of its number.
* `Decimal.Normal.unsigned_positional`, `Decimal.Normal.unsigned_scientific`: What the
  layouts of a decimal denote.
* `Decimal.normal_shortest`: The shortest decimal does not begin with a zero.
* `Layout.rearrange_denotes`: Both layouts of a text denote its number with the sign.
* `Layout.rearrange_scientific`: To lay out a decimal is to lay out its scientific form.
* `Layout.render_machine_denotes`: A number of the machine is written as its shortest decimal.
-/

namespace JvmFold

namespace Decimal

/-- The natural number of digits. -/
def number (digits : List Nat) : Nat :=
  Nat.ofDigits 10 digits.reverse

/-- Zeros behind the digits multiply by a power of ten. -/
theorem number_append_zeros (digits : List Nat) (k : Nat) :
    number (digits ++ List.replicate k 0) = number digits * 10 ^ k := by
  unfold number
  rw [List.reverse_append, List.reverse_replicate, Nat.ofDigits_append,
    Nat.ofDigits_replicate_zero, List.length_replicate, Nat.zero_add, Nat.mul_comm]

/-- Zeros in front of them change nothing. -/
theorem number_zeros_append (k : Nat) (digits : List Nat) :
    number (List.replicate k 0 ++ digits) = number digits := by
  unfold number
  rw [List.reverse_append, List.reverse_replicate, Nat.ofDigits_append,
    Nat.ofDigits_replicate_zero, Nat.mul_zero, Nat.add_zero]

/-- Without a leading zero a number is at least the power of ten of its length. -/
theorem pow_le_number_cons {x : Nat} (hx : x ≠ 0) (digits : List Nat) :
    10 ^ digits.length ≤ number (x :: digits) := by
  unfold number
  rw [List.reverse_cons, Nat.ofDigits_append, Nat.ofDigits_singleton, List.length_reverse]
  exact (Nat.le_mul_of_pos_right _ (Nat.pos_of_ne_zero hx)).trans (Nat.le_add_left _ _)

/-- The ten digits are told apart by their characters. -/
theorem digitChar_decimal : ∀ x < 10,
    x.digitChar.isDigit ∧ x.digitChar.toNat - '0'.toNat = x ∧ x.digitChar ≠ 'e' := by
  decide

theorem digitChar_eq_zero_iff : ∀ x < 10, x.digitChar = '0' ↔ x = 0 := by
  decide

@[simp]
theorem digitChars_cons (x : Nat) (digits : List Nat) :
    digitChars (x :: digits) = x.digitChar :: digitChars digits :=
  rfl

@[simp]
theorem length_digitChars (digits : List Nat) : (digitChars digits).length = digits.length :=
  List.length_map _

@[simp]
theorem digitChars_eq_nil_iff {digits : List Nat} : digitChars digits = [] ↔ digits = [] :=
  List.map_eq_nil_iff

theorem digitChars_append (digits more : List Nat) :
    digitChars (digits ++ more) = digitChars digits ++ digitChars more :=
  List.map_append

end Decimal

namespace Radix

open Decimal (digitChars number)

variable {cs : List Char} {c : Char} {n d : Nat} {ds : List Nat}

/-- A decimal digit is the character of its value. -/
theorem isDigit_ten_iff : IsDigit 10 c d ↔ d < 10 ∧ c = d.digitChar := by
  have hchars : ∀ d < 10, lowerDigits[d]? = some d.digitChar ∧
      upperDigits[d]? = some d.digitChar := by decide +kernel
  refine and_congr_right fun hd => ?_
  rw [(hchars d hd).1, (hchars d hd).2, or_self, Option.some.injEq, eq_comm]

-- So digits are read exactly from their characters.
theorem forall₂_isDigit_iff :
    List.Forall₂ (IsDigit 10) cs ds ↔ cs = digitChars ds ∧ ∀ x ∈ ds, x < 10 := by
  induction ds generalizing cs with
  | nil => simp [digitChars]
  | cons d ds ih =>
      rw [List.forall₂_cons_right_iff]
      simp only [isDigit_ten_iff, ih, List.forall_mem_cons]
      constructor
      · rintro ⟨_, _, ⟨hd, rfl⟩, ⟨rfl, hds⟩, rfl⟩
        exact ⟨rfl, hd, hds⟩
      · rintro ⟨rfl, hd, hds⟩
        exact ⟨_, _, ⟨hd, rfl⟩, ⟨rfl, hds⟩, rfl⟩

/-- Digits are the text of their number, with zeros in front or without. -/
theorem numeral_ten_iff :
    Numeral 10 cs n ↔
      ∃ ds, ds ≠ [] ∧ (∀ x ∈ ds, x < 10) ∧ cs = digitChars ds ∧ number ds = n := by
  unfold Numeral
  simp only [forall₂_isDigit_iff]
  constructor
  · rintro ⟨hne, ds, ⟨rfl, hlt⟩, hn⟩
    exact ⟨ds, by simpa using hne, hlt, rfl, hn⟩
  · rintro ⟨ds, hne, hlt, rfl, hn⟩
    exact ⟨by simpa using hne, ds, ⟨rfl, hlt⟩, hn⟩

/-- A numeral is read as the number that it was written for. -/
theorem numeral_digitChars (hne : ds ≠ []) (hlt : ∀ x ∈ ds, x < 10) :
    Numeral 10 (digitChars ds) (number ds) :=
  numeral_ten_iff.mpr ⟨ds, hne, hlt, rfl, rfl⟩

/-- A further digit makes room for itself. -/
theorem Numeral.snoc (h : Numeral 10 cs n) (hd : d < 10) :
    Numeral 10 (cs ++ [d.digitChar]) (n * 10 + d) := by
  rcases h with ⟨hne, ds, hds, rfl⟩
  refine ⟨by simp, ds ++ [d], List.rel_append hds (.cons (isDigit_ten_iff.mpr ⟨hd, rfl⟩) .nil), ?_⟩
  rw [List.reverse_append, List.reverse_singleton, List.singleton_append, Nat.ofDigits_cons,
    Nat.mul_comm, Nat.add_comm]

/-- The decimal text of a natural number, one digit after the other from the right. -/
theorem numeral_toDigits (n : Nat) : Numeral 10 (Nat.toDigits 10 n) n := by
  induction n using Nat.strong_induction_on with
  | _ n ih =>
      rw [Nat.toDigits_eq_if (by decide)]
      split
      next hlt =>
        have hone := numeral_digitChars (List.cons_ne_nil n []) (by simpa using hlt)
        rwa [number, List.reverse_singleton, Nat.ofDigits_singleton] at hone
      next hge =>
        have hlast := (ih (n / 10) (by omega)).snoc (Nat.mod_lt n (by decide : 0 < 10))
        rwa [Nat.div_add_mod'] at hlast

/-- Integers are written in decimal. -/
theorem denotes_toString (v : Int) : Denotes 10 (toString v).toList v := by
  cases v with
  | ofNat n =>
      have h := Denotes.unsigned (numeral_toDigits n)
      rwa [← String.toList_ofList (l := Nat.toDigits 10 n)] at h
  | negSucc n =>
      have h := Denotes.minus (numeral_toDigits (n + 1))
      change Denotes 10 ("-" ++ String.ofList (Nat.toDigits 10 (n + 1))).toList _
      rw [String.toList_append, String.toList_ofList (l := Nat.toDigits 10 (n + 1))]
      exact h

end Radix

namespace Decimal

variable {d : Decimal} {whole fraction : List Nat} {text : List Char} {v : ℚ}

/-- The number of a decimal: as a natural number its digits are too large by the powers of ten of
    those behind the first one. -/
def value (d : Decimal) : ℚ :=
  number d.digits * 10 ^ (d.exponent + 1 - d.digits.length)

/-- What a decimal is whose first digit is not zero. -/
structure Normal (d : Decimal) : Prop where
  ne : d.digits ≠ []
  lt : ∀ x ∈ d.digits, x < 10
  head : d.digits.head? ≠ some 0

/-- A normal decimal starts with a digit other than zero. -/
theorem Normal.exists_cons (h : d.Normal) : ∃ x rest e, d = ⟨x :: rest, e⟩ ∧ x ≠ 0 := by
  rcases d with ⟨digits, e⟩
  rcases List.exists_cons_of_ne_nil h.ne with ⟨x, rest, rfl⟩
  refine ⟨x, rest, e, rfl, ?_⟩
  rintro rfl
  exact h.head rfl

/-- Digits behind the first one are digits behind the point. -/
theorem value_cons (x : Nat) (rest : List Nat) (e : Int) :
    value ⟨x :: rest, e⟩ = number (x :: rest) * 10 ^ (e - rest.length) := by
  unfold value
  dsimp only
  rw [List.length_cons]
  push_cast
  rw [add_sub_add_right_eq_sub]

theorem Normal.value_pos (h : d.Normal) : 0 < d.value := by
  rcases h.exists_cons with ⟨x, rest, e, rfl, hx⟩
  have hnumber : 0 < number (x :: rest) :=
    (Nat.pow_pos (by decide)).trans_le (pow_le_number_cons hx rest)
  rw [value_cons]
  positivity

/-- The digits around the point make up the number, divided by the powers of ten behind the
    point. -/
theorem value_split (d : Decimal) :
    (number (d.split.1 ++ d.split.2) : ℚ) * 10 ^ (-(d.split.2.length : ℤ)) = d.value := by
  rcases d with ⟨digits, exponent⟩
  unfold split value
  cases exponent with
  | ofNat e =>
      dsimp only
      -- The point is behind all digits, with zeros between, or among them.
      rcases le_or_gt digits.length (e + 1) with hle | hlt
      · rw [List.take_of_length_le hle, List.drop_of_length_le hle, List.append_nil,
          number_append_zeros]
        push_cast
        rw [List.length_nil, Nat.cast_zero, neg_zero, zpow_zero, mul_one, ← zpow_natCast]
        congr 2
        simp only [Int.ofNat_eq_natCast]
        omega
      · rw [Nat.sub_eq_zero_of_le hlt.le, List.replicate_zero, List.append_nil,
          List.take_append_drop, List.length_drop]
        congr 2
        simp only [Int.ofNat_eq_natCast]
        omega
  | negSucc e =>
      dsimp only
      rw [← List.append_assoc, List.singleton_append, ← List.replicate_succ, number_zeros_append,
        List.length_append, List.length_replicate]
      congr 2
      rw [Int.negSucc_eq]
      push_cast
      ring

/-- That a text is digits, the first of which is not zero and stands in front of a point if there
    are more, and behind an `e` an exponent of 32 bits; with the number it stands for. -/
inductive Shows : List Char → ℚ → Prop
  | mk {first : Char} {more exponent : List Char} {n : Nat} {e : Int}
      (hdigits : Radix.Numeral 10 (first :: more) n) (hfirst : first ≠ '0')
      (he : Radix.Denotes 10 exponent e) (hlow : -2 ^ 31 ≤ e) (hhigh : e < 2 ^ 31) :
      Shows (first :: (if more = [] then [] else '.' :: more) ++ 'e' :: exponent)
        (n * 10 ^ (e - more.length))

/-- That a text has digits on both sides of a point, no zero in front of others, and denotes a
    number. -/
inductive Pointed : List Char → ℚ → Prop
  | mk {whole fraction : List Char} {n : Nat} (hwhole : whole ≠ []) (hfraction : fraction ≠ [])
      (hzero : whole.head? = some '0' → whole = ['0'])
      (h : Radix.Numeral 10 (whole ++ fraction) n) :
      Pointed (whole ++ '.' :: fraction) (n * 10 ^ (-(fraction.length : ℤ)))

/-- That a text denotes a number, as it stands if `plain` is set and with an exponent behind an `E`
    otherwise. -/
inductive Unsigned : Bool → List Char → ℚ → Prop
  | plain {text : List Char} {v : ℚ} (h : Pointed text v) : Unsigned true text v
  | scaled {text exponent : List Char} {v : ℚ} {e : Int} (h : Pointed text v)
      (he : Radix.Denotes 10 exponent e) :
      Unsigned false (text ++ 'E' :: exponent) (v * 10 ^ e)

/-- That a text denotes a number, a negative one behind a minus sign. -/
inductive Denotes (plain : Bool) : List Char → ℚ → Prop
  | unsigned {text : List Char} {v : ℚ} (h : Unsigned plain text v) : Denotes plain text v
  | minus {text : List Char} {v : ℚ} (h : Unsigned plain text v) : Denotes plain ('-' :: text) (-v)

/-- The characters of a decimal without the point are its digits. -/
theorem filter_scientific {x : Nat} {more : List Nat} (hlt : ∀ y ∈ x :: more, y < 10) :
    (x.digitChar :: (if digitChars more = [] then [] else '.' :: digitChars more)).filter
      Char.isDigit = digitChars (x :: more) := by
  have hall : ∀ digits : List Nat, (∀ y ∈ digits, y < 10) →
      (digitChars digits).filter Char.isDigit = digitChars digits := by
    intro digits hlt
    refine List.filter_eq_self.mpr fun c hc => ?_
    rcases List.mem_map.mp hc with ⟨y, hy, rfl⟩
    exact (digitChar_decimal y (hlt y hy)).1
  have hfull := hall (x :: more) hlt
  rw [digitChars_cons] at hfull ⊢
  -- Without further digits there is no point to take out.
  split
  next hempty => rwa [hempty] at hfull ⊢
  next hne =>
    rw [List.filter_cons] at hfull ⊢
    rwa [List.filter_cons_of_neg (by decide)]

/-- Digits are read from their characters. -/
theorem map_digitChars {digits : List Nat} (hlt : ∀ x ∈ digits, x < 10) :
    (digitChars digits).map (fun c => c.toNat - '0'.toNat) = digits := by
  unfold digitChars
  rw [List.map_map]
  conv_rhs => rw [← List.map_id digits]
  exact List.map_congr_left fun x hx => (digitChar_decimal x (hlt x hx)).2.1

/-- What stands in front of the first `e` is read as digits and what stands behind it as the
    exponent. -/
theorem ofScientific_append {front exponent : List Char} {digits : List Nat} {e : Int}
    (hfront : 'e' ∉ front) (hdigits : front.filter Char.isDigit = digitChars digits)
    (hlt : ∀ x ∈ digits, x < 10) (he : Radix.Denotes 10 exponent e) (hlow : -2 ^ 31 ≤ e)
    (hhigh : e < 2 ^ 31) : ofScientific (front ++ 'e' :: exponent) = ⟨digits, e⟩ := by
  have hall : ∀ c ∈ front, (c != 'e') = true := fun c hc =>
    bne_iff_ne.mpr fun h => hfront (h ▸ hc)
  have hread : Radix.parse? 10 Int32.minValue.toInt Int32.maxValue.toInt exponent = some e :=
    (Radix.parse?_eq_some_iff (by decide) (by decide) (by decide) (by decide)).mpr
      ⟨he, hlow, Int.le_of_lt_add_one hhigh⟩
  unfold ofScientific
  rw [List.takeWhile_append_of_pos hall, List.dropWhile_append_of_pos hall,
    List.takeWhile_cons_of_neg (by decide), List.dropWhile_cons_of_neg (by decide),
    List.append_nil, hdigits]
  dsimp only
  rw [map_digitChars hlt, List.drop_one, List.tail_cons, hread, Option.getD_some]

/-- A text in scientific form is read digit by digit. -/
theorem ofScientific_cons {x : Nat} {rest : List Nat} {exponent : List Char} {e : Int}
    (hlt : ∀ y ∈ x :: rest, y < 10) (he : Radix.Denotes 10 exponent e) (hlow : -2 ^ 31 ≤ e)
    (hhigh : e < 2 ^ 31) :
    ofScientific (x.digitChar :: (if digitChars rest = [] then [] else '.' :: digitChars rest) ++
      'e' :: exponent) = ⟨x :: rest, e⟩ := by
  refine ofScientific_append ?_ (filter_scientific hlt) hlt he hlow hhigh
  -- the mark is neither a digit nor the point
  have hnot : ∀ y ∈ x :: rest, 'e' ≠ y.digitChar := fun y hy =>
    ((digitChar_decimal y (hlt y hy)).2.2).symm
  have hrest : 'e' ∉ digitChars rest := by
    intro hmem
    rcases List.mem_map.mp hmem with ⟨y, hy, heq⟩
    exact hnot y (List.mem_cons_of_mem _ hy) heq.symm
  refine List.not_mem_cons_of_ne_of_not_mem (hnot x List.mem_cons_self) ?_
  split
  · exact List.not_mem_nil
  · exact List.not_mem_cons_of_ne_of_not_mem (by decide) hrest

/-- A text in scientific form is read as a decimal of its number. -/
theorem Shows.exists_normal (h : Shows text v) :
    ∃ d : Decimal, d.Normal ∧ ofScientific text = d ∧ d.value = v := by
  rcases h with @⟨first, more, exponent, n, e, hdigits, hfirst, he, hlow, hhigh⟩
  rcases Radix.numeral_ten_iff.mp hdigits with ⟨digits, hne, hlt, hchars, rfl⟩
  rcases List.exists_cons_of_ne_nil hne with ⟨x, rest, rfl⟩
  rcases List.cons.inj hchars with ⟨rfl, rfl⟩
  refine ⟨⟨x :: rest, e⟩, ⟨List.cons_ne_nil _ _, hlt, ?_⟩,
    ofScientific_cons hlt he hlow hhigh, ?_⟩
  · intro hzero
    refine hfirst ((digitChar_eq_zero_iff x (hlt x List.mem_cons_self)).mpr ?_)
    exact Option.some.inj hzero
  · rw [value_cons]
    exact congrArg (fun k : Nat => _ * (10 : ℚ) ^ (e - k)) (length_digitChars rest).symm

/-- The scientific form without a point behind a lone digit. -/
theorem toList_scientific (x : Nat) (rest : List Nat) (e : Int) :
    (scientific ⟨x :: rest, e⟩ false 'e').toList = x.digitChar ::
      (if digitChars rest = [] then [] else '.' :: digitChars rest) ++
        'e' :: (toString e).toList := by
  rw [scientific, String.toList_append, String.toList_ofList]
  cases rest <;> simp [fractionChars, digitChars]

/-- The scientific form of a decimal shows its number. -/
theorem Normal.shows_scientific (h : d.Normal) (hlow : -2 ^ 31 ≤ d.exponent)
    (hhigh : d.exponent < 2 ^ 31) : Shows (d.scientific false 'e').toList d.value := by
  rcases h.exists_cons with ⟨x, rest, e, rfl, hx⟩
  rw [toList_scientific, value_cons, ← length_digitChars]
  exact .mk (Radix.numeral_digitChars h.ne h.lt)
    (mt (digitChar_eq_zero_iff x (h.lt x List.mem_cons_self)).mp hx)
    (Radix.denotes_toString e) hlow hhigh

/-- The scientific form of a decimal is read as the decimal. -/
theorem Normal.ofScientific_scientific (h : d.Normal) (hlow : -2 ^ 31 ≤ d.exponent)
    (hhigh : d.exponent < 2 ^ 31) : ofScientific (d.scientific false 'e').toList = d := by
  rcases h.exists_cons with ⟨x, rest, e, rfl, -⟩
  rw [toList_scientific]
  exact ofScientific_cons h.lt (Radix.denotes_toString e) hlow hhigh

/-- Digits around a point, with a zero where there are none behind it. -/
theorem pointed_digits (hwhole : whole ≠ []) (hlt : ∀ x ∈ whole ++ fraction, x < 10)
    (hzero : whole.head? = some 0 → whole = [0]) :
    Pointed (digitChars whole ++ fractionChars fraction true)
      (number (whole ++ fraction) * 10 ^ (-(fraction.length : ℤ))) := by
  -- a fraction that is not empty stands as it is
  have hpointed : ∀ fs : List Nat, fs ≠ [] → (∀ x ∈ whole ++ fs, x < 10) →
      Pointed (digitChars whole ++ '.' :: digitChars fs)
        (number (whole ++ fs) * 10 ^ (-(fs.length : ℤ))) := by
    intro fs hne hlt
    rw [← length_digitChars fs]
    refine .mk (mt digitChars_eq_nil_iff.mp hwhole) (mt digitChars_eq_nil_iff.mp hne) ?_ ?_
    · intro hhead
      rcases List.exists_cons_of_ne_nil hwhole with ⟨x, rest, rfl⟩
      have hx : x = 0 := (digitChar_eq_zero_iff x (hlt x (by simp))).mp (Option.some.inj hhead)
      rw [hzero (congrArg some hx)]
      rfl
    · rw [← digitChars_append]
      exact Radix.numeral_digitChars (by simp [hwhole]) hlt
  cases fraction with
  | nil =>
      have hpoint := hpointed [0] (by simp) (by simpa [or_imp, forall_and] using hlt)
      have hnumber : (number (whole ++ [0]) : ℚ) * 10 ^ (-(([0] : List Nat).length : ℤ))
          = number (whole ++ []) * 10 ^ (-(([] : List Nat).length : ℤ)) := by
        rw [show [0] = List.replicate 1 0 from rfl, number_append_zeros, List.append_nil]
        simp
      rwa [hnumber] at hpoint
  | cons x fraction => exact hpointed _ (List.cons_ne_nil _ _) hlt

/-- What stands on both sides of the point are digits, with no zero in front of others. -/
theorem Normal.split (h : d.Normal) : d.split.1 ≠ [] ∧ (∀ x ∈ d.split.1 ++ d.split.2, x < 10) ∧
    (d.split.1.head? = some 0 → d.split.1 = [0]) := by
  have hzeros : ∀ k, ∀ x ∈ List.replicate k 0, x < 10 := by
    intro k x hx
    rw [List.eq_of_mem_replicate hx]
    decide
  rcases h.exists_cons with ⟨x, rest, e, rfl, hx⟩
  unfold Decimal.split
  cases e with
  | ofNat e =>
      -- the first digit comes first
      dsimp only
      refine ⟨List.cons_ne_nil _ _, ?_, fun hzero => absurd (Option.some.inj hzero) hx⟩
      simp only [List.forall_mem_append]
      exact ⟨⟨fun y hy => h.lt y (List.mem_of_mem_take hy), hzeros _⟩,
        fun y hy => h.lt y (List.mem_of_mem_drop hy)⟩
  | negSucc e =>
      -- only zero is in front of the point
      dsimp only
      refine ⟨List.cons_ne_nil _ _, ?_, fun _ => rfl⟩
      simp only [List.forall_mem_append]
      exact ⟨hzeros 1, hzeros _, h.lt⟩

/-- In plain layout it denotes its value. -/
theorem Normal.unsigned_positional (h : d.Normal) :
    Unsigned true (d.positional true).toList d.value := by
  rcases h.split with ⟨hwhole, hlt, hzero⟩
  rw [← value_split, positional, String.toList_ofList]
  exact .plain (pointed_digits hwhole hlt hzero)

-- And so it does with an exponent.
theorem Normal.unsigned_scientific (h : d.Normal) :
    Unsigned false (d.scientific true 'E').toList d.value := by
  rcases h.exists_cons with ⟨x, rest, e, rfl, hx⟩
  have hpoint : Pointed (digitChars [x] ++ fractionChars rest true)
      (number (x :: rest) * 10 ^ (-(rest.length : ℤ))) :=
    pointed_digits (List.cons_ne_nil _ _) h.lt fun hzero => absurd (Option.some.inj hzero) hx
  have hvalue : value ⟨x :: rest, e⟩ = number (x :: rest) * 10 ^ (-(rest.length : ℤ)) * 10 ^ e := by
    rw [value_cons, mul_assoc, ← zpow_add₀ (by norm_num), neg_add_eq_sub]
  rw [hvalue, scientific, String.toList_append, String.toList_ofList, List.append_assoc]
  exact .scaled hpoint (Radix.denotes_toString _)

/-- The last digit is the remainder, and the others are those of the quotient. -/
theorem digitsOf_eq (n : Nat) :
    digitsOf n = (if n < 10 then [] else digitsOf (n / 10)) ++ [n % 10] := by
  unfold digitsOf
  rw [Nat.toDigits_eq_if (by decide)]
  split
  next hlt =>
    rw [List.nil_append, Nat.mod_eq_of_lt hlt]
    exact congrArg (fun x => [x]) (digitChar_decimal n hlt).2.1
  next hge =>
    rw [List.map_append]
    exact congrArg (fun x => _ ++ [x]) (digitChar_decimal _ (Nat.mod_lt n (by decide))).2.1

/-- What is written are digits of the number. -/
theorem digitsOf_spec (n : Nat) :
    digitsOf n ≠ [] ∧ (∀ x ∈ digitsOf n, x < 10) ∧ number (digitsOf n) = n := by
  rcases Radix.numeral_ten_iff.mp (Radix.numeral_toDigits n) with ⟨digits, hne, hlt, hdigits, hn⟩
  unfold digitsOf
  rw [hdigits, map_digitChars hlt]
  exact ⟨hne, hlt, hn⟩

/-- The digits of a positive number do not begin with a zero. -/
theorem exists_digitsOf {n : Nat} (hn : 0 < n) : ∃ x rest, digitsOf n = x :: rest ∧ x ≠ 0 := by
  induction n using Nat.strong_induction_on with
  | _ n ih =>
      rw [digitsOf_eq]
      split
      next hlt => exact ⟨n % 10, [], rfl, by omega⟩
      next hge =>
        rcases ih (n / 10) (by omega) (by omega) with ⟨x, rest, hdigits, hx⟩
        exact ⟨x, rest ++ [n % 10], by rw [hdigits]; rfl, hx⟩

/-- Zeros at the end are left out, but never the first digit. -/
theorem normal_ofScaled {c : Nat} (hc : 0 < c) (scale : Int) : (ofScaled c scale).Normal := by
  rcases exists_digitsOf hc with ⟨x, rest, hdigits, hx⟩
  rcases digitsOf_spec c with ⟨-, hlt, -⟩
  -- The leading digit stays, since only zeros at the end are dropped.
  have hkept : ((x :: rest).reverse.dropWhile (· == 0)).reverse =
      x :: (rest.reverse.dropWhile (· == 0)).reverse := by
    rw [List.reverse_cons, List.dropWhile_append, List.dropWhile_cons_of_neg (by simpa using hx)]
    split
    next hempty => rw [List.isEmpty_iff.mp hempty]; rfl
    next => rw [List.reverse_append, List.reverse_singleton, List.singleton_append]
  unfold ofScaled
  rw [hdigits] at hlt ⊢
  dsimp only
  rw [hkept]
  refine ⟨List.cons_ne_nil _ _, ?_, fun hzero => hx (Option.some.inj hzero)⟩
  rw [List.forall_mem_cons] at hlt ⊢
  refine ⟨hlt.1, fun y hy => hlt.2 y ?_⟩
  exact List.mem_reverse.mp ((List.dropWhile_sublist _).mem (List.mem_reverse.mp hy))

/-- The power of ten is not above the quotient. -/
theorem log10_le {num den : Nat} (hnum : 0 < num) (hden : 0 < den) :
    den * 10 ^ (log10 num den).toNat ≤ num * 10 ^ (-log10 num den).toNat := by
  have hlength : ∀ n, (Nat.toDigits 10 n).length = (digitsOf n).length := fun n =>
    (List.length_map _).symm
  unfold log10
  rw [hlength, hlength]
  split
  next hle =>
    -- the quotient has as many digits as its power of ten, and one more
    rcases exists_digitsOf (Nat.div_pos hle hden) with ⟨x, rest, hdigits, hx⟩
    have hpow : 10 ^ rest.length ≤ num / den := by
      rw [← (digitsOf_spec (num / den)).2.2, hdigits]
      exact pow_le_number_cons hx rest
    have hexponent : ((digitsOf (num / den)).length : Int) - 1 = rest.length := by
      rw [hdigits, List.length_cons]
      omega
    rw [hexponent, Int.toNat_natCast, Int.toNat_neg_natCast, pow_zero, mul_one]
    exact (Nat.mul_le_mul_left den hpow).trans (Nat.mul_div_le num den)
  next hgt =>
    -- so many digits are enough for the inverse, rounded down
    have hpow : (den - 1) / num < 10 ^ (digitsOf ((den - 1) / num)).length := by
      rcases digitsOf_spec ((den - 1) / num) with ⟨-, hdigit, hnumber⟩
      conv_lhs => rw [← hnumber]
      rw [number, ← List.length_reverse]
      refine Nat.ofDigits_lt_base_pow_length (by decide) fun y hy => ?_
      exact hdigit y (List.mem_reverse.mp hy)
    have hlt := (Nat.div_lt_iff_lt_mul hnum).mp hpow
    rw [neg_neg, Int.toNat_neg_natCast, Int.toNat_natCast, pow_zero, mul_one, Nat.mul_comm num]
    omega

/-- The point of a grid is not zero, which is not in the interval. -/
theorem Around.pos_of_gridPoint? {a : Around} (ha : 0 < a.low) {scale : Int} {c : Nat}
    (h : a.gridPoint? scale = some c) : 0 < c := by
  have hlow : 0 < a.low * Nat.pow 10 (-scale).toNat :=
    Nat.mul_pos ha (Nat.pow_pos (by decide))
  have hfloor : ∀ floor step,
      a.low * Nat.pow 10 (-scale).toNat ≤ floor * step → 0 < floor := fun floor step hle =>
    Nat.pos_of_mul_pos_right (hlow.trans_le hle)
  unfold gridPoint? at h
  -- the point below is taken only if it is in the interval, with its ends or without
  cases hclosed : a.closed <;> simp only [hclosed, Bool.false_eq_true, if_true, if_false] at h
  all_goals
    split at h
    next => exact Option.some.inj h ▸ Nat.succ_pos _
    next =>
      split at h
      next hdown =>
        have hbelow := of_decide_eq_true hdown
        exact Option.some.inj h ▸ hfloor _ (a.den * Nat.pow 10 scale.toNat) (by omega)
      next => exact nomatch h

/-- The shortest decimal of a positive number is not zero. -/
theorem Around.normal_shortest {a : Around} (hlow : 0 < a.low) (hvalue : 0 < a.value)
    (hden : 0 < a.den) (most : Nat) : (a.shortest most).Normal := by
  have hlog := log10_le hvalue hden
  unfold Around.shortest
  dsimp only
  generalize log10 a.value a.den = top at hlog
  cases hfind : (List.range most).findSome? _ with
  | some d =>
      rcases List.exists_of_findSome?_eq_some hfind with ⟨n, -, hn⟩
      rcases Option.map_eq_some_iff.mp hn with ⟨c, hc, rfl⟩
      exact normal_ofScaled (pos_of_gridPoint? hlow hc) _
  | none =>
      -- the power of ten is not above the value, all the less a smaller one
      refine normal_ofScaled (Nat.div_pos ?_ ?_) _
      · calc a.den * Nat.pow 10 (top - most).toNat
          _ ≤ a.den * 10 ^ top.toNat :=
              Nat.mul_le_mul_left _ (Nat.pow_le_pow_right (by decide) (by omega))
          _ ≤ a.value * 10 ^ (-top).toNat := hlog
          _ ≤ a.value * Nat.pow 10 (most - top).toNat :=
              Nat.mul_le_mul_left _ (Nat.pow_le_pow_right (by decide) (by omega))
      · exact Nat.mul_pos hden (Nat.pow_pos (by decide))

/-- The shortest decimal starts with a digit other than zero. -/
theorem normal_shortest (f : FloatFormat) {m : Nat} (hm : 0 < m) (e : Int) :
    (shortest f m e).Normal := by
  have hpow : ∀ k, 0 < Nat.pow 2 k := fun k => Nat.pow_pos (by decide)
  refine Around.normal_shortest (Nat.mul_pos ?_ (hpow _)) (Nat.mul_pos (by omega) (hpow _))
    (hpow _) 17
  split <;> omega

end Decimal

namespace Layout

variable {d : Decimal} {text : List Char} {v : ℚ}

/-- A sign in front of a decimal negates it. -/
theorem denotes_signed {plain : Bool} {text : String} (h : Decimal.Unsigned plain text.toList v)
    (negative : Bool) :
    Decimal.Denotes plain (signed negative text).toList (if negative then -v else v) := by
  cases negative with
  | false => exact .unsigned h
  | true =>
      have hsign := Decimal.Denotes.minus h
      rw [signed, if_pos rfl, if_pos rfl, String.toList_append]
      exact hsign

/-- Whichever way it is laid out, the text of a decimal denotes its number. -/
theorem unsigned_machine (h : d.Normal) (plain : Bool) :
    Decimal.Unsigned plain (if plain then d.positional machine.pointPositional
      else d.scientific machine.pointScientific machine.mark).toList d.value := by
  cases plain with
  | true => exact h.unsigned_positional
  | false => exact h.unsigned_scientific

/-- Both layouts of a text denote the number that it shows, with the sign. -/
theorem rearrange_denotes (h : Decimal.Shows text v) (negative plain : Bool) :
    0 < v ∧ Decimal.Denotes plain (rearrange negative plain text).toList
      (if negative then -v else v) := by
  rcases h.exists_normal with ⟨d, hnormal, hread, rfl⟩
  refine ⟨hnormal.value_pos, ?_⟩
  unfold rearrange
  rw [hread]
  exact denotes_signed (unsigned_machine hnormal plain) negative

/-- Zeros fill up between the point and the digits. -/
theorem rearrange_denotes_small :
    Decimal.Shows "1.25e-4".toList (125 * 10 ^ (-6 : ℤ)) ∧
      rearrange true true "1.25e-4".toList = "-0.000125" ∧
      Decimal.Denotes true (rearrange true true "1.25e-4".toList).toList
        (-(125 * 10 ^ (-6 : ℤ))) := by
  have hshows : Decimal.Shows "1.25e-4".toList (125 * 10 ^ (-6 : ℤ)) := by
    have hdigits : Radix.Numeral 10 ['1', '2', '5'] 125 :=
      Radix.numeral_digitChars (List.cons_ne_nil 1 [2, 5]) (by decide)
    have htext : "1.25e-4".toList = '1' :: (if ['2', '5'] = [] then [] else ['.', '2', '5']) ++
        'e' :: (toString (-4 : Int)).toList := by
      decide +kernel
    have hvalue : (125 * 10 ^ (-6 : ℤ) : ℚ) = (125 : ℕ) * 10 ^ (-4 - (['2', '5'].length : ℤ)) := by
      norm_num
    rw [htext, hvalue]
    exact .mk hdigits (by decide) (Radix.denotes_toString (-4)) (by decide) (by decide)
  exact ⟨hshows, by decide +kernel, (rearrange_denotes hshows true true).2⟩

/-- The machine lays out what it reads from the scientific form of a decimal, which is the same
    as to lay out the decimal. -/
theorem rearrange_scientific (h : d.Normal) (hlow : -2 ^ 31 ≤ d.exponent)
    (hhigh : d.exponent < 2 ^ 31) (negative : Bool) :
    rearrange negative (machine.isPositional d.exponent) (d.scientific false 'e').toList =
      signed negative (machine.magnitude d) := by
  unfold rearrange magnitude
  rw [h.ofScientific_scientific hlow hhigh]

/-- The text of a number inside the machine denotes its shortest decimal, with the sign. -/
theorem render_machine_denotes {f : FloatFormat} {bits m : Nat} {negative : Bool} {e : Int}
    (hview : f.view bits = .finite negative m e) (hm : m ≠ 0) :
    Decimal.Denotes (machine.isPositional (Decimal.shortest f m e).exponent)
      (machine.render f bits).toList
      (if negative then -(Decimal.shortest f m e).value else (Decimal.shortest f m e).value) := by
  have hnormal := Decimal.normal_shortest f (Nat.pos_of_ne_zero hm) e
  unfold render
  rw [hview]
  dsimp only
  rw [if_neg hm]
  exact denotes_signed (unsigned_machine hnormal _) negative

end Layout

end JvmFold
