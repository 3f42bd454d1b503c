import Mathlib
import JvmFold.Proofs.Machine.Adding
import JvmFold.Proofs.Text.Units

/-!
# Integers as Strings

Reading an integer goes through the characters of a string in a loop that
breaks off at a character that is no digit and as soon as the number is beyond
its limit, which is one higher for negative integers. Breaking off early is
right since digits that follow make no number smaller, and it is what keeps
numbers small, however long the string is.

The loop is one way to find out what a string stands for. What it stands for is
said without it: a sign that may be missing, and digits with their values, of
which the number is made. A string is read if and only if it stands for an
integer of the range. The text that is written for an integer stands for it, so
it is read back.

A string may have unpaired surrogates, and then it is read as if U+FFFD stood in
their place. Nothing is mistaken for an integer by that, since U+FFFD is neither
a digit nor a sign.

## Main definitions

* `Radix.IsDigit`, `Radix.Numeral`, `Radix.Denotes`: What a text stands for.
* `Radix.Extends`: What the loop goes through.
* `Radix.boundedParse?`: Reading where products and sums are checked.
* `Units.Denotes`: What a string of the machine stands for.

## Theorems

* `Radix.magnitude?_eq_some_iff`: The loop gives the number of the digits.
* `Radix.parse?_eq_some_iff`: A text is read if and only if it denotes an integer of the range.
* `Radix.boundedParse?_eq_some`: No text takes a number to 127 bits.
* `Radix.denotes_render`: What is written denotes the integer.
* `Natives.parseIntegral_iff`: A string is read if and only if it denotes an integer of the range.
* `Natives.parseIntegral_textInRadix`: The string that is written for an integer is read back.
-/

namespace JvmFold

namespace Radix

variable {radix limit acc n d : Nat} {c : Char} {cs : List Char}

/-- The digits with their values as places, in lower case. -/
def lowerDigits : List Char :=
  "0123456789abcdefghijklmnopqrstuvwxyz".toList

/-- The digits with their values as places, in upper case. -/
def upperDigits : List Char :=
  "0123456789ABCDEFGHIJKLMNOPQRSTUVWXYZ".toList

/-- That a character is the digit of a value below the radix, in either case. -/
def IsDigit (radix : Nat) (c : Char) (d : Nat) : Prop :=
  d < radix ∧ (lowerDigits[d]? = some c ∨ upperDigits[d]? = some c)

/-- Every digit of the table is read as itself. -/
theorem digit?_lowerDigits : ∀ d < 36, (lowerDigits[d]?).bind (digit? 36) = some d := by
  decide +kernel

theorem digit?_upperDigits : ∀ d < 36, (upperDigits[d]?).bind (digit? 36) = some d := by
  decide +kernel

/-- The first ten digits are the decimal ones. -/
theorem lowerDigits_decimal : ∀ d < 10, lowerDigits[d]? = some (Char.ofNat ('0'.toNat + d)) := by
  decide +kernel

/-- The others are the letters in order. -/
theorem lowerDigits_letter :
    ∀ d < 26, lowerDigits[d + 10]? = some (Char.ofNat ('a'.toNat + d)) := by
  decide +kernel

theorem upperDigits_letter :
    ∀ d < 26, upperDigits[d + 10]? = some (Char.ofNat ('A'.toNat + d)) := by
  decide +kernel

/-- A character between two others is as many places behind the first as its value is greater. -/
theorem eq_ofNat_of_between {low high : Char} (hlow : low ≤ c) (hhigh : c ≤ high) :
    c.toNat - low.toNat ≤ high.toNat - low.toNat ∧
      c = Char.ofNat (low.toNat + (c.toNat - low.toNat)) := by
  have hle : low.toNat ≤ c.toNat := hlow
  have hle' : c.toNat ≤ high.toNat := hhigh
  refine ⟨by omega, ?_⟩
  rw [Nat.add_sub_cancel' hle, Char.ofNat_toNat]

/-- A character is read as the digit that it is in one of the lists. -/
theorem digit?_eq_some_iff (hradix : radix ≤ 36) : digit? radix c = some d ↔ IsDigit radix c d := by
  constructor
  · -- the three kinds of characters that are looked at are three parts of the lists
    intro h
    unfold digit? at h
    rcases Option.filter_eq_some_iff.mp h with ⟨hvalue, hd⟩
    refine ⟨by simpa using hd, ?_⟩
    split_ifs at hvalue with h0 ha hA
    · rcases eq_ofNat_of_between h0.1 h0.2 with ⟨hle, hc⟩
      cases hvalue
      exact .inl ((lowerDigits_decimal _ (Nat.lt_succ_of_le hle)).trans (congrArg some hc.symm))
    · rcases eq_ofNat_of_between ha.1 ha.2 with ⟨hle, hc⟩
      cases hvalue
      exact .inl ((lowerDigits_letter _ (Nat.lt_succ_of_le hle)).trans (congrArg some hc.symm))
    · rcases eq_ofNat_of_between hA.1 hA.2 with ⟨hle, hc⟩
      cases hvalue
      exact .inr ((upperDigits_letter _ (Nat.lt_succ_of_le hle)).trans (congrArg some hc.symm))
  · rintro ⟨hd, hc⟩
    have hvalue : digit? 36 c = some d := by
      rcases hc with hc | hc
      · rw [← digit?_lowerDigits d (by omega), hc, Option.bind_some]
      · rw [← digit?_upperDigits d (by omega), hc, Option.bind_some]
    unfold digit? at hvalue ⊢
    rcases Option.filter_eq_some_iff.mp hvalue with ⟨hvalue, -⟩
    exact Option.filter_eq_some_iff.mpr ⟨hvalue, by simpa using hd⟩

/-- A character that is read as no digit is none. -/
theorem not_isDigit (hradix : radix ≤ 36) (h : digit? radix c = none) : ¬IsDigit radix c d := by
  rw [← digit?_eq_some_iff hradix, h]
  exact nofun

/-- What a number is written with is a digit of the radix. -/
theorem isDigit_digitChar (hradix : radix ≤ 36) (hd : d < radix) :
    IsDigit radix (digitChar d) d := by
  refine ⟨hd, .inl ?_⟩
  have hall : ∀ d < 36, lowerDigits[d]? = some (digitChar d) := by decide +kernel
  exact hall d (by omega)

/-- That characters are digits, at least one, of a natural number. -/
def Numeral (radix : Nat) (cs : List Char) (n : Nat) : Prop :=
  cs ≠ [] ∧ ∃ ds, List.Forall₂ (IsDigit radix) cs ds ∧ Nat.ofDigits radix ds.reverse = n

/-- That a text is an optional sign and digits, at least one, of an integer. -/
inductive Denotes (radix : Nat) : List Char → Int → Prop
  | unsigned {cs : List Char} {n : Nat} (h : Numeral radix cs n) : Denotes radix cs n
  | plus {cs : List Char} {n : Nat} (h : Numeral radix cs n) : Denotes radix ('+' :: cs) n
  | minus {cs : List Char} {n : Nat} (h : Numeral radix cs n) : Denotes radix ('-' :: cs) (-n)

/-- Digits are taken from the left, and each makes room for the next one. -/
theorem ofDigits_reverse (radix : Nat) (ds : List Nat) :
    Nat.ofDigits radix ds.reverse = ds.foldl (fun acc d => acc * radix + d) 0 := by
  rw [Nat.ofDigits_eq_foldr, List.foldr_reverse]
  congr 1
  funext acc d
  rw [Nat.mul_comm, Nat.add_comm]
  rfl

/-- That characters are digits which take a number to another one. -/
def Extends (radix acc : Nat) (cs : List Char) (n : Nat) : Prop :=
  ∃ ds, List.Forall₂ (IsDigit radix) cs ds ∧ ds.foldl (fun acc d => acc * radix + d) acc = n

theorem extends_nil : Extends radix acc [] n ↔ acc = n := by
  constructor
  · rintro ⟨ds, hds, rfl⟩
    cases hds
    rfl
  · rintro rfl
    exact ⟨[], .nil, rfl⟩

/-- A digit more multiplies by the radix and adds its value. -/
theorem extends_cons :
    Extends radix acc (c :: cs) n ↔
      ∃ d, IsDigit radix c d ∧ Extends radix (acc * radix + d) cs n := by
  constructor
  · rintro ⟨ds, hds, rfl⟩
    rcases List.forall₂_cons_left_iff.mp hds with ⟨d, ds', hd, hds', rfl⟩
    exact ⟨d, hd, ds', hds', rfl⟩
  · rintro ⟨d, hd, ds, hds, rfl⟩
    exact ⟨d :: ds, .cons hd hds, rfl⟩

/-- A numeral is some digits, read from zero. -/
theorem numeral_iff_extends : Numeral radix cs n ↔ cs ≠ [] ∧ Extends radix 0 cs n := by
  unfold Numeral Extends
  simp only [ofDigits_reverse]

/-- Digits only make a number greater. -/
theorem Extends.le (hpos : 0 < radix) (h : Extends radix acc cs n) : acc ≤ n := by
  induction cs generalizing acc with
  | nil => exact (extends_nil.mp h).le
  | cons c cs ih =>
      rcases extends_cons.mp h with ⟨d, -, h⟩
      calc acc ≤ acc * radix := Nat.le_mul_of_pos_right acc hpos
        _ ≤ acc * radix + d := Nat.le_add_right _ _
        _ ≤ n := ih h

/-- A character that is no digit is not among digits. -/
theorem Extends.not_mem (hradix : radix ≤ 36) (hc : digit? radix c = none)
    (h : Extends radix acc cs n) : c ∉ cs := by
  induction cs generalizing acc with
  | nil => exact List.not_mem_nil
  | cons c' cs ih =>
      rcases extends_cons.mp h with ⟨d, hd, h⟩
      rintro (_ | ⟨_, hmem⟩)
      · exact not_isDigit hradix hc hd
      · exact ih h hmem

/-- The loop gives the number of the digits unless it is beyond the limit. It may break off early,
    since digits that follow make no number smaller. -/
theorem magnitude?_eq_some_iff (hpos : 0 < radix) (hradix : radix ≤ 36) (hacc : acc ≤ limit) :
    magnitude? radix limit acc cs = some n ↔ Extends radix acc cs n ∧ n ≤ limit := by
  induction cs generalizing acc with
  | nil =>
      rw [magnitude?, extends_nil, Option.some.injEq]
      exact ⟨fun h => ⟨h, h ▸ hacc⟩, And.left⟩
  | cons c cs ih =>
      rw [magnitude?, extends_cons]
      cases hdigit : digit? radix c with
      | none =>
          refine iff_of_false nofun ?_
          rintro ⟨⟨d, hd, -⟩, -⟩
          rw [(digit?_eq_some_iff hradix).mpr hd] at hdigit
          cases hdigit
      | some d =>
          have hd := (digit?_eq_some_iff hradix).mp hdigit
          -- the character is no other digit
          have hiff : (∃ d, IsDigit radix c d ∧ Extends radix (acc * radix + d) cs n) ↔
              Extends radix (acc * radix + d) cs n := by
            refine ⟨fun ⟨d', hd', h⟩ => ?_, fun h => ⟨d, hd, h⟩⟩
            rw [← digit?_eq_some_iff hradix, hdigit] at hd'
            cases hd'
            exact h
          rw [hiff]
          dsimp only
          split
          next hbeyond =>
            -- the number is beyond the limit already, and what follows does not bring it back
            refine iff_of_false nofun ?_
            rintro ⟨h, hle⟩
            have := h.le hpos
            omega
          next hwithin => exact ih (by omega)

/-- The loop where a product or a sum is refused if it is not below the bound. -/
def boundedMagnitude? (bound radix limit acc : Nat) : List Char → Option (Option Nat)
  | [] => some (some acc)
  | c :: rest =>
    match digit? radix c with
    | none => some none
    | some d =>
      if bound ≤ acc * radix ∨ bound ≤ acc * radix + d then none
      else if limit < acc * radix + d then some none
      else boundedMagnitude? bound radix limit (acc * radix + d) rest

/-- Numbers within a limit of 64 bits never come to 127 bits on the way. -/
theorem boundedMagnitude?_eq_some (hradix : radix ≤ 36) (hlimit : limit ≤ 2 ^ 63)
    (hacc : acc ≤ limit) (cs : List Char) :
    boundedMagnitude? (2 ^ 127) radix limit acc cs = some (magnitude? radix limit acc cs) := by
  induction cs generalizing acc with
  | nil => rfl
  | cons c cs ih =>
      rw [boundedMagnitude?, magnitude?]
      cases hdigit : digit? radix c with
      | none => rfl
      | some d =>
          have hd := ((digit?_eq_some_iff hradix).mp hdigit).1
          have hproduct : acc * radix ≤ 2 ^ 63 * 36 := Nat.mul_le_mul (hacc.trans hlimit) hradix
          dsimp only
          -- a number within the limit, 36 times and a digit, is far below the bound
          rw [if_neg (by omega)]
          split
          · rfl
          next hwithin => exact ih (by omega)

/-- A sign is taken off once, if there is one. -/
theorem splitSign_cases (cs : List Char) :
    (∃ rest, cs = '-' :: rest ∧ splitSign cs = (true, rest)) ∨
      (∃ rest, cs = '+' :: rest ∧ splitSign cs = (false, rest)) ∨ splitSign cs = (false, cs) := by
  unfold splitSign
  split
  · exact .inl ⟨_, rfl, rfl⟩
  · exact .inr (.inl ⟨_, rfl, rfl⟩)
  · exact .inr (.inr rfl)

/-- A sign is no digit. -/
theorem Numeral.splitSign (hradix : radix ≤ 36) (h : Numeral radix cs n) :
    splitSign cs = (false, cs) := by
  rcases splitSign_cases cs with ⟨rest, rfl, -⟩ | ⟨rest, rfl, -⟩ | hsplit
  · rcases extends_cons.mp (numeral_iff_extends.mp h).2 with ⟨d, hd, -⟩
    exact absurd hd (not_isDigit hradix rfl)
  · rcases extends_cons.mp (numeral_iff_extends.mp h).2 with ⟨d, hd, -⟩
    exact absurd hd (not_isDigit hradix rfl)
  · exact hsplit

/-- A text denotes what its digits do, with the sign. -/
theorem denotes_iff_splitSign (hradix : radix ≤ 36) {v : Int} :
    Denotes radix cs v ↔ ∃ n : Nat, Numeral radix (splitSign cs).2 n ∧
      v = if (splitSign cs).1 then -(n : Int) else n := by
  constructor
  · rintro (h | h | h)
    · rw [h.splitSign hradix]
      exact ⟨_, h, rfl⟩
    · exact ⟨_, h, rfl⟩
    · exact ⟨_, h, rfl⟩
  · rintro ⟨n, hn, rfl⟩
    rcases splitSign_cases cs with ⟨rest, rfl, -⟩ | ⟨rest, rfl, -⟩ | hsplit
    · exact .minus hn
    · exact .plus hn
    · rw [hsplit] at hn ⊢
      exact .unsigned hn

/-- A text is read if and only if it denotes an integer of the range. -/
theorem parse?_eq_some_iff (hpos : 0 < radix) (hradix : radix ≤ 36) {low high v : Int}
    (hlow : low ≤ 0) (hhigh : 0 ≤ high) :
    parse? radix low high cs = some v ↔ Denotes radix cs v ∧ low ≤ v ∧ v ≤ high := by
  rw [denotes_iff_splitSign hradix]
  -- the limit of the loop is the bound of the range on the side that the sign leads to
  unfold parse?
  rcases splitSign cs with ⟨negative, digits⟩
  simp only [numeral_iff_extends, List.isEmpty_iff]
  split
  next hempty =>
    refine iff_of_false nofun ?_
    rintro ⟨⟨n, ⟨hne, -⟩, -⟩, -⟩
    exact hne hempty
  next hne =>
    simp only [Option.map_eq_some_iff, Option.bind_eq_bind, Option.bind_eq_some_iff,
      Option.pure_def, Option.some.injEq, magnitude?_eq_some_iff hpos hradix (Nat.zero_le _)]
    constructor
    · rintro ⟨_, ⟨n, ⟨h, hle⟩, rfl⟩, rfl⟩
      refine ⟨⟨n, ⟨hne, h⟩, rfl⟩, ?_⟩
      cases negative <;> grind
    · rintro ⟨⟨n, ⟨-, h⟩, rfl⟩, hle⟩
      refine ⟨n, ⟨n, ⟨h, ?_⟩, rfl⟩, rfl⟩
      cases negative <;> grind

/-- Reading with the loop where products and sums are checked against a bound. -/
def boundedParse? (bound radix : Nat) (low high : Int) (text : List Char) : Option (Option Int) :=
  let (negative, digits) := splitSign text
  if digits.isEmpty then some none
  else
    (boundedMagnitude? bound radix (if negative then (-low).toNat else high.toNat) 0 digits).map
      fun read => read.map fun n => if negative then -(n : Int) else n

/-- No text however long takes a number to 127 bits. -/
theorem boundedParse?_eq_some (hradix : radix ≤ 36) {low high : Int} (hlow : -2 ^ 63 ≤ low)
    (hhigh : high < 2 ^ 63) (text : List Char) :
    boundedParse? (2 ^ 127) radix low high text = some (parse? radix low high text) := by
  unfold boundedParse? parse?
  rcases splitSign text with ⟨negative, digits⟩
  dsimp only
  split
  · rfl
  · rw [boundedMagnitude?_eq_some hradix (by cases negative <;> grind) (Nat.zero_le _)]
    rfl

/-- A character that is neither digit nor sign is in no text of an integer. -/
theorem Denotes.not_mem (hradix : radix ≤ 36) (hc : digit? radix c = none) (hplus : c ≠ '+')
    (hminus : c ≠ '-') {v : Int} (h : Denotes radix cs v) : c ∉ cs := by
  rcases h with h | h | h
  · exact (numeral_iff_extends.mp h).2.not_mem hradix hc
  · rintro (_ | ⟨_, hmem⟩)
    · exact hplus rfl
    · exact (numeral_iff_extends.mp h).2.not_mem hradix hc hmem
  · rintro (_ | ⟨_, hmem⟩)
    · exact hminus rfl
    · exact (numeral_iff_extends.mp h).2.not_mem hradix hc hmem

/-- Rounds give the digits of a number, if there are enough of them. -/
theorem exists_digits (hbase : 1 < radix) {rounds : Nat} (hn : n < 2 ^ rounds)
    (hrounds : rounds ≠ 0) (acc : List Char) :
    ∃ ds, digits radix rounds n acc = ds.map digitChar ++ acc ∧ ds ≠ [] ∧ (∀ d ∈ ds, d < radix) ∧
      Nat.ofDigits radix ds.reverse = n := by
  induction rounds generalizing n acc with
  | zero => exact absurd rfl hrounds
  | succ rounds ih =>
      rw [digits]
      split
      next hlt =>
        refine ⟨[n], rfl, List.cons_ne_nil _ _, ?_, Nat.ofDigits_singleton⟩
        simpa using hlt
      next hge =>
        -- a number that is not below the radix is halved at least
        have hhalf : n / radix < 2 ^ rounds := by
          rw [Nat.div_lt_iff_lt_mul (by omega)]
          calc n < 2 ^ rounds * 2 := by rwa [← Nat.pow_succ]
            _ ≤ 2 ^ rounds * radix := Nat.mul_le_mul_left _ hbase
        have hleft : rounds ≠ 0 := by
          rintro rfl
          omega
        rcases ih hhalf hleft (digitChar (n % radix) :: acc) with ⟨ds, hds, hne, hlt, hvalue⟩
        refine ⟨ds ++ [n % radix], ?_, by simp, ?_, ?_⟩
        · rw [hds, List.map_append, List.append_assoc]
          rfl
        · intro d hd
          rcases List.mem_append.mp hd with hd | hd
          · exact hlt d hd
          · rw [List.mem_singleton.mp hd]
            exact Nat.mod_lt _ (by omega)
        · rw [List.reverse_append, List.reverse_singleton, List.singleton_append,
            Nat.ofDigits_cons, hvalue]
          exact Nat.mod_add_div n radix

/-- The text of a natural number is digits of it. -/
theorem numeral_renderNat (hbase : 1 < radix) (hradix : radix ≤ 36) (n : Nat) :
    Numeral radix (renderNat radix n) n := by
  rcases exists_digits hbase (Nat.lt_log2_self (n := n)) (Nat.succ_ne_zero _) [] with
    ⟨ds, hds, hne, hlt, hvalue⟩
  rw [List.append_nil] at hds
  unfold renderNat
  rw [hds]
  refine ⟨by simpa using hne, ds, ?_, hvalue⟩
  rw [List.forall₂_map_left_iff]
  exact List.forall₂_same.mpr fun d hd => isDigit_digitChar hradix (hlt d hd)

/-- What is written denotes the integer. -/
theorem denotes_render (hbase : 1 < radix) (hradix : radix ≤ 36) (v : Int) :
    Denotes radix (render radix v) v := by
  have habs := numeral_renderNat hbase hradix v.natAbs
  unfold render
  split
  next hneg =>
    have h := Denotes.minus habs
    rwa [show -(v.natAbs : Int) = v by omega] at h
  next hnonneg =>
    have h := Denotes.unsigned habs
    rwa [show (v.natAbs : Int) = v by omega] at h

end Radix

namespace Utf16

/-- Units are those of the text they stand for if that has no U+FFFD in place of a surrogate. -/
theorem ofString_toStringLossy {units : List UInt16}
    (h : Char.ofNat 0xFFFD ∉ (toStringLossy units).toList) :
    ofString (toStringLossy units) = units := by
  refine ofString_of_toString? ?_
  unfold toStringLossy at h ⊢
  rw [String.toList_ofList] at h
  -- an unpaired surrogate would show as U+FFFD
  have hpaired : ∀ n ∈ codePoints units, isSurrogate n = false := by
    intro n hn
    by_contra hsurrogate
    rw [Bool.not_eq_false] at hsurrogate
    exact h (List.mem_map.mpr ⟨n, hn, if_pos hsurrogate⟩)
  unfold toString?
  rw [if_neg]
  · congr 2
    refine List.map_congr_left fun n hn => ?_
    rw [hpaired n hn, if_neg Bool.false_ne_true]
  · rintro hany
    rcases List.any_eq_true.mp hany with ⟨n, hn, hsurrogate⟩
    rw [hpaired n hn] at hsurrogate
    exact Bool.false_ne_true hsurrogate

end Utf16

/-- That units are the text of an integer. -/
def Units.Denotes (radix : Nat) (units : Units) (v : Int) : Prop :=
  ∃ text, units = .ofString text ∧ Radix.Denotes radix text.toList v

/-- Units are read as the text they stand for, and that loses nothing, since U+FFFD is no digit. -/
theorem Units.denotes_iff {radix : Nat} (hradix : radix ≤ 36) {units : Units} {v : Int} :
    units.Denotes radix v ↔ Radix.Denotes radix units.toStringLossy.toList v := by
  constructor
  · rintro ⟨text, rfl, h⟩
    rwa [Units.toStringLossy, Units.ofString, Utf16.toStringLossy_ofString]
  · intro h
    refine ⟨_, ?_, h⟩
    have hnot := h.not_mem hradix (c := Char.ofNat 0xFFFD) (by rfl) (by decide) (by decide)
    rw [Units.ofString, Units.toStringLossy, Utf16.ofString_toStringLossy hnot]

namespace Radix

/-- A range of integers of 64 bits with zero. -/
structure IsRange (low high : Int) : Prop where
  le_low : -2 ^ 63 ≤ low
  low_le : low ≤ 0
  le_high : 0 ≤ high
  high_lt : high < 2 ^ 63

/-- The numbers of 32 bits reach one further below zero than above. -/
theorem isRange_int : IsRange Int32.minValue.toInt Int32.maxValue.toInt := by
  constructor <;> decide

theorem isRange_long : IsRange Int64.minValue.toInt Int64.maxValue.toInt := by
  constructor <;> decide

end Radix

namespace Natives

/-- The message about a text that is no integer in a radix. -/
def inputMessage (text : String) (radix : Nat) : String :=
  "For input string: \"" ++ text ++ "\""
    ++ if (radix : Int) = 10 then "" else " under radix " ++ toString (radix : Int)

variable {units : Units} {r : HeapRef} {radix : Nat} {low high : Int} {env : Env} {s : Machine}

/-- The text of a string is read in the radix. -/
theorem parseIntegral_apply (hstring : s.heap.get? r = some (.string units)) (hbase : 2 ≤ radix)
    (hradix : radix ≤ 36) :
    parseIntegral (.ref r) radix low high env s =
      match Radix.parse? radix low high units.toStringLossy.toList with
      | some v => .ok v s
      | none => .error (.thrown ⟨s.heap.size + 1⟩)
          (s.adding (s.exception "java/lang/NumberFormatException"
            (inputMessage units.toStringLossy radix))) := by
  unfold parseIntegral
  rw [if_neg nofun, if_neg (by omega), if_neg (by omega), Emu.bind_apply,
    Emu.stringUnits_apply hstring]
  dsimp only
  rw [Int.toNat_natCast]
  cases Radix.parse? radix low high units.toStringLossy.toList with
  | some v => rfl
  | none => exact Emu.raise_apply _ _ env s

/-- What is parsed is what the text denotes, if it is in range. -/
theorem parse?_units_iff (hbase : 2 ≤ radix) (hradix : radix ≤ 36)
    (hrange : Radix.IsRange low high) {v : Int} :
    Radix.parse? radix low high units.toStringLossy.toList = some v ↔
      units.Denotes radix v ∧ low ≤ v ∧ v ≤ high := by
  rw [Units.denotes_iff hradix]
  exact Radix.parse?_eq_some_iff (by omega) hradix hrange.low_le hrange.le_high

/-- The native methods parse in the same way. -/
theorem parseIntegral_eq_ok_iff (hstring : s.heap.get? r = some (.string units))
    (hbase : 2 ≤ radix) (hradix : radix ≤ 36) (hrange : Radix.IsRange low high) {v : Int} :
    parseIntegral (.ref r) radix low high env s = .ok v s ↔
      units.Denotes radix v ∧ low ≤ v ∧ v ≤ high := by
  rw [← parse?_units_iff hbase hradix hrange, parseIntegral_apply hstring hbase hradix]
  cases Radix.parse? radix low high units.toStringLossy.toList with
  | none => exact iff_of_false nofun nofun
  | some v' => simp

/-- What is written for an integer of the range is read back. -/
theorem parseIntegral_render {v : Int}
    (hstring : s.heap.get? r = some (.string (.ofString (String.ofList (Radix.render radix v)))))
    (hbase : 2 ≤ radix) (hradix : radix ≤ 36) (hrange : Radix.IsRange low high) (hlow : low ≤ v)
    (hhigh : v ≤ high) : parseIntegral (.ref r) radix low high env s = .ok v s := by
  refine (parseIntegral_eq_ok_iff hstring hbase hradix hrange).mpr ⟨⟨_, rfl, ?_⟩, hlow, hhigh⟩
  rw [String.toList_ofList]
  exact Radix.denotes_render hbase hradix v

/-- A string is read in a radix from 2 to 36 as an integer of a range if and only if it is an
    optional sign and digits, at least one, of that integer, and the integer is within the range.
    Otherwise an exception is thrown that names the string. No product and no sum on the way comes
    to 127 bits, however long the string is, and every integer of the range is read from the text
    that is written for it. -/
theorem parseIntegral_iff (hstring : s.heap.get? r = some (.string units)) (hbase : 2 ≤ radix)
    (hradix : radix ≤ 36) (hrange : Radix.IsRange low high) (env : Env) :
    (∀ v, parseIntegral (.ref r) radix low high env s = .ok v s ↔
      units.Denotes radix v ∧ low ≤ v ∧ v ≤ high) ∧
    ((¬∃ v, units.Denotes radix v ∧ low ≤ v ∧ v ≤ high) →
      parseIntegral (.ref r) radix low high env s = .error (.thrown ⟨s.heap.size + 1⟩)
        (s.adding (s.exception "java/lang/NumberFormatException"
          (inputMessage units.toStringLossy radix)))) ∧
    Radix.boundedParse? (2 ^ 127) radix low high units.toStringLossy.toList
      = some (Radix.parse? radix low high units.toStringLossy.toList) ∧
    ∀ v, low ≤ v → v ≤ high → units = .ofString (String.ofList (Radix.render radix v)) →
      parseIntegral (.ref r) radix low high env s = .ok v s := by
  refine ⟨fun v => parseIntegral_eq_ok_iff hstring hbase hradix hrange, fun hnone => ?_, ?_,
    fun v hlow hhigh hunits => ?_⟩
  · rw [parseIntegral_apply hstring hbase hradix]
    cases hread : Radix.parse? radix low high units.toStringLossy.toList with
    | none => rfl
    | some v => exact absurd ⟨v, (parse?_units_iff hbase hradix hrange).mp hread⟩ hnone
  · exact Radix.boundedParse?_eq_some hradix hrange.le_low hrange.high_lt _
  · subst hunits
    exact parseIntegral_render hstring hbase hradix hrange hlow hhigh

/-- The texts of the least `int` and the least `long` in radix sixteen as strings of the machine. -/
def leastTexts : Machine :=
  Machine.adding {} [.string (.ofString "-80000000"), .string (.ofString "-8000000000000000")]

/-- Both are read. -/
theorem parseIntegral_iff_least :
    leastTexts.heap.get? ⟨0⟩ = some (.string (.ofString "-80000000")) ∧
      Radix.IsRange Int32.minValue.toInt Int32.maxValue.toInt ∧
      parseIntegral (.ref ⟨0⟩) 16 Int32.minValue.toInt Int32.maxValue.toInt
          (Engine.env (.ofUniverse {}) {}) leastTexts
        = .ok Int32.minValue.toInt leastTexts ∧
      leastTexts.heap.get? ⟨1⟩ = some (.string (.ofString "-8000000000000000")) ∧
      Radix.IsRange Int64.minValue.toInt Int64.maxValue.toInt ∧
      parseIntegral (.ref ⟨1⟩) 16 Int64.minValue.toInt Int64.maxValue.toInt
          (Engine.env (.ofUniverse {}) {}) leastTexts
        = .ok Int64.minValue.toInt leastTexts :=
  ⟨rfl, Radix.isRange_int,
    (parseIntegral_iff rfl (show 2 ≤ 16 by decide) (by decide) Radix.isRange_int _).2.2.2 _
      (by decide) (by decide) (by decide +kernel),
    rfl, Radix.isRange_long,
    (parseIntegral_iff rfl (show 2 ≤ 16 by decide) (by decide) Radix.isRange_long _).2.2.2 _
      (by decide) (by decide) (by decide +kernel)⟩

/-- The string that is written for an `int` in a radix is a new one and is read back. -/
theorem parseIntegral_textInRadix (v radix : Int32) (hbase : 2 ≤ radix.toInt)
    (hradix : radix.toInt ≤ 36) (env : Env) (s : Machine) :
    ∃ s', textInRadix [.int v, .int radix] env s = .ok (some (.ref ⟨s.heap.size⟩)) s' ∧
      parseIntegral (.ref ⟨s.heap.size⟩) radix.toInt Int32.minValue.toInt Int32.maxValue.toInt env
        s' = .ok v.toInt s' := by
  rcases Int.eq_ofNat_of_zero_le (show 0 ≤ radix.toInt by omega) with ⟨n, hn⟩
  have htext : textInRadix [.int v, .int radix] env s
      = text (String.ofList (Radix.render n v.toInt)) env s := by
    change text (String.ofList (Radix.render
      (if 2 ≤ radix.toInt ∧ radix.toInt ≤ 36 then radix.toInt.toNat else 10) v.toInt)) env s = _
    -- A radix within bounds is taken as it is.
    rw [if_pos ⟨hbase, hradix⟩, hn, Int.toNat_natCast]
  refine ⟨s.adding [.string (.ofString (String.ofList (Radix.render n v.toInt)))], ?_, ?_⟩
  · rw [htext]
    unfold text
    rw [Emu.bind_apply, Emu.newText_apply]
    rfl
  · rw [hn]
    exact parseIntegral_render (s.get?_adding_append [] _ []) (by omega) (by omega)
      Radix.isRange_int v.minValue_le_toInt v.toInt_le

end Natives

end JvmFold
