import Mathlib
import JvmFold.Text.ModifiedUtf8

/-!
# Texts as Units and as Bytes

A text has three forms: a `String`, 16-bit units, and the bytes of a class file.
A `String` goes through units and bytes and comes back as it was. Units go
through bytes and come back as well, but only units without an unpaired
surrogate are the units of a `String`.

The bytes leave room for others around them. A zero ends a text elsewhere and no
encoded text has one, since the unit zero takes two bytes; and no byte is that
of a sequence of four, since a code point beyond the units is written as its two
surrogates. The length is computed from the units without the bytes, and agrees
with them because both go by the same three ranges.

## Theorems

* `Utf16.flatMap_codePoints`: Splitting units into code points loses nothing.
* `Utf16.codePoints_ofString`: The code points of a text are those of its characters.
* `Utf16.ofString_of_toString?`: The text that units stand for has those units.
* `ModifiedUtf8.decodeUnits_encodeUnits`: Units are given back by their bytes.
* `ModifiedUtf8.decode_of_text`: A text is given back by its bytes.
* `ModifiedUtf8.toNat_marked`: A byte is a mark with some bits of the unit behind it.
* `ModifiedUtf8.mem_encodeUnits`: The bytes that occur.
* `ModifiedUtf8.length_encodeUnits`: The length is that of the bytes.
* `ModifiedUtf8.encoding_lossless`: Units and texts are given back by such bytes.
-/

namespace JvmFold

namespace Utf16

theorem toNat_toUInt16 {n : Nat} (h : n < 65536) : n.toUInt16.toNat = n := by
  simp
  omega

theorem isHigh_iff (u : UInt16) : isHigh u = true ↔ 0xD800 ≤ u.toNat ∧ u.toNat ≤ 0xDBFF := by
  simp [isHigh, UInt16.le_iff_toNat_le]

theorem isLow_iff (u : UInt16) : isLow u = true ↔ 0xDC00 ≤ u.toNat ∧ u.toNat ≤ 0xDFFF := by
  simp [isLow, UInt16.le_iff_toNat_le]

theorem ofCodePoint_toNat (u : UInt16) : ofCodePoint u.toNat = [u] := by
  rw [ofCodePoint, if_pos (by have := u.toNat_lt; omega)]
  simp

/-- A pair of surrogates is the code point that it stands for. -/
theorem ofCodePoint_pairValue {u v : UInt16} (hu : isHigh u = true) (hv : isLow v = true) :
    ofCodePoint (pairValue u v) = [u, v] := by
  rw [isHigh_iff] at hu
  rw [isLow_iff] at hv
  have hhigh : 0xD800 + (pairValue u v - 0x10000) / 0x400 = u.toNat := by
    unfold pairValue
    omega
  have hlow : 0xDC00 + (pairValue u v - 0x10000) % 0x400 = v.toNat := by
    unfold pairValue
    omega
  rw [ofCodePoint, if_neg (by unfold pairValue; omega), hhigh, hlow]
  simp

/-- A code point from U+10000 on is written as a pair that stands for it. -/
theorem exists_pair {n : Nat} (h : 0x10000 ≤ n) (hn : n < 0x110000) :
    ∃ u v, ofCodePoint n = [u, v] ∧ isHigh u = true ∧ isLow v = true ∧ pairValue u v = n := by
  have hhigh : (0xD800 + (n - 0x10000) / 0x400).toUInt16.toNat = 0xD800 + (n - 0x10000) / 0x400 :=
    toNat_toUInt16 (by omega)
  have hlow : (0xDC00 + (n - 0x10000) % 0x400).toUInt16.toNat = 0xDC00 + (n - 0x10000) % 0x400 :=
    toNat_toUInt16 (by omega)
  refine ⟨(0xD800 + (n - 0x10000) / 0x400).toUInt16, (0xDC00 + (n - 0x10000) % 0x400).toUInt16,
    by rw [ofCodePoint, if_neg (by omega)], ?_, ?_, ?_⟩
  · rw [isHigh_iff, hhigh]
    omega
  · rw [isLow_iff, hlow]
    omega
  · unfold pairValue
    omega

/-- Code points are written as the units that they were read from. -/
theorem flatMap_codePoints_go (acc : List Nat) (units : List UInt16) :
    (codePoints.go acc units).flatMap ofCodePoint = acc.reverse.flatMap ofCodePoint ++ units := by
  fun_induction codePoints.go acc units with
  | case1 acc => simp
  | case2 acc u => simp [ofCodePoint_toNat]
  | case3 acc u v rest h ih =>
      rw [Bool.and_eq_true] at h
      simp [ih, ofCodePoint_pairValue h.1 h.2]
  | case4 acc u v rest _ ih => simp [ih, ofCodePoint_toNat]

/-- Splitting units into code points loses nothing. -/
theorem flatMap_codePoints (units : List UInt16) :
    (codePoints units).flatMap ofCodePoint = units :=
  flatMap_codePoints_go [] units

/-- No code point is beyond the last one of Unicode. -/
theorem codePoints_go_lt (acc : List Nat) (units : List UInt16) (hacc : ∀ n ∈ acc, n < 0x110000) :
    ∀ n ∈ codePoints.go acc units, n < 0x110000 := by
  fun_induction codePoints.go acc units with
  | case1 acc => simpa using hacc
  | case2 acc u =>
      have := u.toNat_lt
      grind
  | case3 acc u v rest h ih =>
      -- A pair stands for at most the last code point.
      rw [Bool.and_eq_true, isHigh_iff, isLow_iff] at h
      refine ih (List.forall_mem_cons.mpr ⟨?_, hacc⟩)
      unfold pairValue
      omega
  | case4 acc u v rest _ ih =>
      have := u.toNat_lt
      exact ih (List.forall_mem_cons.mpr ⟨by omega, hacc⟩)

/-- A unit that starts no pair is a code point of its own. -/
theorem codePoints_go_single (acc : List Nat) {u : UInt16} (h : isHigh u = false)
    (rest : List UInt16) : codePoints.go acc (u :: rest) = codePoints.go (u.toNat :: acc) rest := by
  cases rest with
  | nil => rfl
  | cons v rest => rw [codePoints.go, if_neg (by simp [h])]

-- And a pair is one code point.
theorem codePoints_go_pair (acc : List Nat) {u v : UInt16} (hu : isHigh u = true)
    (hv : isLow v = true) (rest : List UInt16) :
    codePoints.go acc (u :: v :: rest) = codePoints.go (pairValue u v :: acc) rest := by
  rw [codePoints.go, if_pos (by simp [hu, hv])]

/-- Characters are read from their units. -/
theorem codePoints_go_flatMap (acc : List Nat) (chars : List Char) :
    codePoints.go acc (chars.flatMap fun c => ofCodePoint c.toNat)
      = acc.reverse ++ chars.map Char.toNat := by
  induction chars generalizing acc with
  | nil => simp [codePoints.go]
  | cons c chars ih =>
      rw [List.flatMap_cons]
      have hvalid := c.valid
      -- A character takes one unit that is no surrogate, or a pair of them.
      rcases Nat.lt_or_ge c.toNat 0x10000 with hlt | hge
      · have htoNat : c.toNat.toUInt16.toNat = c.toNat := toNat_toUInt16 hlt
        have hhigh : isHigh c.toNat.toUInt16 = false := by
          rw [Bool.eq_false_iff, ne_eq, isHigh_iff, htoNat]
          rcases hvalid with h | h <;> grind [Char.toNat]
        rw [ofCodePoint, if_pos hlt, List.singleton_append, codePoints_go_single acc hhigh, ih,
          htoNat]
        simp
      · have hlt : c.toNat < 0x110000 := by
          rcases hvalid with h | h <;> grind [Char.toNat]
        rcases exists_pair hge hlt with ⟨u, v, heq, hu, hv, hpair⟩
        rw [heq, List.cons_append, List.singleton_append, codePoints_go_pair acc hu hv, ih, hpair]
        simp

/-- The code points of a text are those of its characters. -/
theorem codePoints_ofString (s : String) : codePoints (ofString s) = s.toList.map Char.toNat :=
  codePoints_go_flatMap [] s.toList

theorem isSurrogate_toNat (c : Char) : isSurrogate c.toNat = false := by
  have hvalid := c.valid
  rcases hvalid with h | h <;> grind [Char.toNat, isSurrogate]

/-- Nothing is lost of a text that has characters only. -/
theorem toStringLossy_ofString (s : String) : toStringLossy (ofString s) = s := by
  rw [toStringLossy, codePoints_ofString, List.map_map]
  have hchars : ((fun n => if isSurrogate n then Char.ofNat 0xFFFD else Char.ofNat n) ∘ Char.toNat)
      = id := by
    funext c
    simp [isSurrogate_toNat]
  rw [hchars, List.map_id, String.ofList_toList]

/-- The text that units stand for has those units. -/
theorem ofString_of_toString? {units : List UInt16} {text : String}
    (h : toString? units = some text) : ofString text = units := by
  rw [toString?] at h
  split at h
  · cases h
  next hsurrogate =>
    cases h
    rw [ofString, String.toList_ofList, List.flatMap_map]
    calc (codePoints units).flatMap (fun n => ofCodePoint (Char.ofNat n).toNat)
        = (codePoints units).flatMap ofCodePoint := by
          refine List.flatMap_congr fun n hn => ?_
          have hlt := codePoints_go_lt [] units (by simp) n hn
          -- No code point is a surrogate, so each one is a character.
          have hnot : isSurrogate n = false := by
            simp only [List.any_eq_true, not_exists, not_and, Bool.not_eq_true] at hsurrogate
            exact hsurrogate n hn
          rw [Char.toNat_ofNat, if_pos]
          grind [isSurrogate]
      _ = units := flatMap_codePoints units

end Utf16

namespace ModifiedUtf8

/-- The bits that a bound leaves free are all that a unit has. -/
theorem and_mask {u : UInt16} (k : Nat) (hk : 2 ^ k ≤ 65536) (h : u.toNat < 2 ^ k) :
    u &&& UInt16.ofNat (2 ^ k - 1) = u := by
  apply UInt16.toNat_inj.mp
  rw [UInt16.toNat_and, UInt16.toNat_ofNat_of_lt' (by change _ < 65536; omega),
    Nat.and_two_pow_sub_one_of_lt_two_pow h]

theorem lead_single (u : UInt16) : (u &&& 0x7F).toUInt8 &&& 0x80 = 0 := by
  apply UInt8.eq_of_toBitVec_eq
  ext i hi
  simp
  interval_cases i <;> simp

theorem toUInt16_single (u : UInt16) : (u &&& 0x7F).toUInt8.toUInt16 = u &&& 0x7F := by
  apply UInt16.eq_of_toBitVec_eq
  ext i hi
  simp [-UInt16.toUInt16_toUInt8, -BitVec.setWidth_setWidth]
  interval_cases i <;> simp [-UInt16.toUInt16_toUInt8]

/-- How the first byte tells that two belong together. -/
theorem lead_pair (x : UInt16) :
    ((0xC0 : UInt8) ||| (x &&& 0x1F).toUInt8) &&& 0x80 ≠ 0 ∧
      ((0xC0 : UInt8) ||| (x &&& 0x1F).toUInt8) &&& 0xE0 = 0xC0 := by
  refine ⟨fun h => ?_, ?_⟩
  · have hbit := congrArg (fun a : UInt8 => a.toBitVec[7]) h
    simp at hbit
  · apply UInt8.eq_of_toBitVec_eq
    ext i hi
    simp
    interval_cases i <;> simp

/-- The unit of two bytes. -/
theorem pairUnit_bytes (u : UInt16) :
    pairUnit ((0xC0 : UInt8) ||| ((u >>> 6) &&& 0x1F).toUInt8)
      ((0x80 : UInt8) ||| (u &&& 0x3F).toUInt8) = u &&& 0x7FF := by
  apply UInt16.eq_of_toBitVec_eq
  unfold pairUnit
  ext i hi
  simp [-UInt16.toUInt16_toUInt8, -BitVec.setWidth_setWidth]
  interval_cases i <;> simp [-UInt16.toUInt16_toUInt8]

/-- How it tells three. -/
theorem lead_triple (x : UInt16) :
    ((0xE0 : UInt8) ||| (x &&& 0x0F).toUInt8) &&& 0x80 ≠ 0 ∧
      ((0xE0 : UInt8) ||| (x &&& 0x0F).toUInt8) &&& 0xE0 ≠ 0xC0 ∧
        ((0xE0 : UInt8) ||| (x &&& 0x0F).toUInt8) &&& 0xF0 = 0xE0 := by
  refine ⟨fun h => ?_, fun h => ?_, ?_⟩
  · have hbit := congrArg (fun a : UInt8 => a.toBitVec[7]) h
    simp at hbit
  · have hbit := congrArg (fun a : UInt8 => a.toBitVec[5]) h
    simp at hbit
  · apply UInt8.eq_of_toBitVec_eq
    ext i hi
    simp
    interval_cases i <;> simp

/-- The unit of three bytes. -/
theorem tripleUnit_bytes (u : UInt16) :
    tripleUnit ((0xE0 : UInt8) ||| ((u >>> 12) &&& 0x0F).toUInt8)
      ((0x80 : UInt8) ||| ((u >>> 6) &&& 0x3F).toUInt8)
      ((0x80 : UInt8) ||| (u &&& 0x3F).toUInt8) = u := by
  apply UInt16.eq_of_toBitVec_eq
  unfold tripleUnit
  ext i hi
  simp [-UInt16.toUInt16_toUInt8, -BitVec.setWidth_setWidth]
  interval_cases i <;> simp [-UInt16.toUInt16_toUInt8]

/-- Each form is decoded by its first byte. -/
theorem go_single (acc : List UInt16) {a : UInt8} (h : a &&& 0x80 = 0) (rest : Bytes) :
    decodeUnits.go acc (a :: rest) = decodeUnits.go (a.toUInt16 :: acc) rest := by
  rw [decodeUnits.go.eq_def]
  simp [h]

theorem go_pair (acc : List UInt16) {a : UInt8} (h : a &&& 0x80 ≠ 0) (hp : a &&& 0xE0 = 0xC0)
    (b : UInt8) (rest : Bytes) :
    decodeUnits.go acc (a :: b :: rest) = decodeUnits.go (pairUnit a b :: acc) rest := by
  rw [decodeUnits.go.eq_def]
  simp [h, hp]

theorem go_triple (acc : List UInt16) {a : UInt8} (h : a &&& 0x80 ≠ 0) (hp : a &&& 0xE0 ≠ 0xC0)
    (ht : a &&& 0xF0 = 0xE0) (b c : UInt8) (rest : Bytes) :
    decodeUnits.go acc (a :: b :: c :: rest) = decodeUnits.go (tripleUnit a b c :: acc) rest := by
  rw [decodeUnits.go.eq_def]
  simp [h, hp, ht]

/-- A unit is decoded from its own bytes. -/
theorem go_encodeUnit (acc : List UInt16) (u : UInt16) (rest : Bytes) :
    decodeUnits.go acc (encodeUnit u ++ rest) = decodeUnits.go (u :: acc) rest := by
  -- The three forms take seven bits, eleven and sixteen.
  unfold encodeUnit
  split
  next h =>
    have hlow : u.toNat ≤ 0x7F := UInt16.le_iff_toNat_le.mp h.2
    have hu : u &&& 0x7F = u := and_mask 7 (by decide) (Nat.lt_succ_of_le hlow)
    have hlead := lead_single u
    have hbyte := toUInt16_single u
    rw [hu] at hlead hbyte
    rw [List.singleton_append, go_single acc hlead, hbyte]
  split
  next h =>
    have hlow : u.toNat ≤ 0x7FF := UInt16.le_iff_toNat_le.mp h
    have hu : u &&& 0x7FF = u := and_mask 11 (by decide) (Nat.lt_succ_of_le hlow)
    have hlead := lead_pair (u >>> 6)
    rw [List.cons_append, List.singleton_append, go_pair acc hlead.1 hlead.2, pairUnit_bytes, hu]
  next =>
    have hlead := lead_triple (u >>> 12)
    rw [List.cons_append, List.cons_append, List.singleton_append,
      go_triple acc hlead.1 hlead.2.1 hlead.2.2, tripleUnit_bytes]

-- So all of them are.
theorem decodeUnits_go (acc units : List UInt16) :
    decodeUnits.go acc (encodeUnits units) = .ok (acc.reverse ++ units) := by
  induction units generalizing acc with
  | nil => simp [encodeUnits, decodeUnits.go]
  | cons u units ih =>
      rw [encodeUnits, List.flatMap_cons, go_encodeUnit, ← encodeUnits, ih]
      simp

/-- Units are given back by their bytes. -/
theorem decodeUnits_encodeUnits (units : List UInt16) :
    decodeUnits (encodeUnits units) = .ok units :=
  decodeUnits_go [] units

/-- A text is given back by its bytes. -/
theorem decode_of_text (text : String) : decode (encode text) = .ok text := by
  rw [decode, encode, decodeUnits_encodeUnits]
  exact congrArg Except.ok (Utf16.toStringLossy_ofString text)

end ModifiedUtf8

namespace ModifiedUtf8

variable {u : UInt16} {b : UInt8} {units : List UInt16}

/-- A mark with bits of a unit behind it is their sum, if they do not overlap. -/
theorem toNat_marked {mark : UInt8} {mask : UInt16} {k m : Nat} (hmark : mark.toNat = 2 ^ k * m)
    (hmask : mask.toNat < 2 ^ k) (hk : 2 ^ k ≤ 256) (x : UInt16) :
    (mark ||| (x &&& mask).toUInt8).toNat = mark.toNat + (x &&& mask).toNat := by
  have hle : (x &&& mask).toNat ≤ mask.toNat := by
    rw [UInt16.toNat_and]
    exact Nat.and_le_right
  rw [UInt8.toNat_or, UInt16.toNat_toUInt8, Nat.mod_eq_of_lt (by omega), hmark,
    Nat.two_pow_add_eq_or_of_lt (by omega)]

/-- A marked byte is not zero, and no more than the mark with all bits behind it. -/
theorem marked_bounds (mark : UInt8) (mask : UInt16) {k m n : Nat}
    (hmark : mark.toNat = 2 ^ k * m) (hmask : mask.toNat < 2 ^ k) (hk : 2 ^ k ≤ 256)
    (hpos : 0 < mark.toNat) (hle : mark.toNat + mask.toNat ≤ n) (x : UInt16) :
    0 < (mark ||| (x &&& mask).toUInt8).toNat ∧ (mark ||| (x &&& mask).toUInt8).toNat ≤ n := by
  have hbits : (x &&& mask).toNat ≤ mask.toNat := by
    rw [UInt16.toNat_and]
    exact Nat.and_le_right
  rw [toNat_marked hmark hmask hk]
  omega

/-- The bytes of a unit are neither zero nor such as a sequence of four bytes starts with. -/
theorem mem_encodeUnit (h : b ∈ encodeUnit u) : b ≠ 0 ∧ b ≤ 0xEF := by
  have hpair := marked_bounds 0xC0 0x1F (k := 6) (m := 3) (n := 0xEF) rfl (by decide) (by decide)
    (by decide) (by decide)
  have htriple := marked_bounds 0xE0 0x0F (k := 5) (m := 7) (n := 0xEF) rfl (by decide) (by decide)
    (by decide) (by decide)
  -- What comes behind the first byte of a sequence has the same form in both.
  have hbehind := marked_bounds 0x80 0x3F (k := 7) (m := 1) (n := 0xEF) rfl (by decide) (by decide)
    (by decide) (by decide)
  have hbounds : 0 < b.toNat ∧ b.toNat ≤ 0xEF := by
    unfold encodeUnit at h
    split at h
    next hsingle =>
      have hpos : 1 ≤ u.toNat := UInt16.le_iff_toNat_le.mp hsingle.1
      have hle : u.toNat ≤ 0x7F := UInt16.le_iff_toNat_le.mp hsingle.2
      rw [List.mem_singleton.mp h, UInt16.toNat_toUInt8]
      omega
    split at h
    next =>
      rcases List.mem_pair.mp h with rfl | rfl
      · exact hpair _
      · exact hbehind _
    next =>
      rcases List.mem_cons.mp h with rfl | h
      · exact htriple _
      rcases List.mem_pair.mp h with rfl | rfl
      · exact hbehind _
      · exact hbehind _
  refine ⟨fun hzero => ?_, UInt8.le_iff_toNat_le.mpr hbounds.2⟩
  rw [hzero] at hbounds
  exact absurd hbounds.1 (by decide)

/-- No byte of the encoding is zero, or beyond what starts three bytes. -/
theorem mem_encodeUnits (h : b ∈ encodeUnits units) : b ≠ 0 ∧ b ≤ 0xEF := by
  rcases List.mem_flatMap.mp h with ⟨u, -, hb⟩
  exact mem_encodeUnit hb

/-- A unit takes one byte, two or three. -/
theorem length_encodeUnit (u : UInt16) : (encodeUnit u).length = unitLength u := by
  unfold encodeUnit unitLength
  split
  · rfl
  · split <;> rfl

/-- The lengths of units are added to those counted before. -/
theorem foldl_unitLength (n : Nat) (units : List UInt16) :
    units.foldl (fun n u => n + unitLength u) n = n + (encodeUnits units).length := by
  induction units generalizing n with
  | nil => rfl
  | cons u units ih =>
      have hcons : encodeUnits (u :: units) = encodeUnit u ++ encodeUnits units :=
        List.flatMap_cons
      rw [List.foldl_cons, ih, hcons, List.length_append, length_encodeUnit, Nat.add_assoc]

/-- The length that is computed from units is that of their bytes. -/
theorem length_encodeUnits (units : List UInt16) :
    (encodeUnits units).length = encodedLength units := by
  rw [encodedLength, foldl_unitLength, Nat.zero_add]

/-- Any units come back from bytes that are neither zero nor above 0xEF and as many as computed,
    and so does any text. -/
theorem encoding_lossless (units : List UInt16) (text : String) :
    decodeUnits (encodeUnits units) = .ok units ∧
      (∀ b ∈ encodeUnits units, b ≠ 0 ∧ b ≤ 0xEF) ∧
      (encodeUnits units).length = encodedLength units ∧
      decode (encode text) = .ok text :=
  ⟨decodeUnits_encodeUnits units, fun _ => mem_encodeUnits, length_encodeUnits units,
    decode_of_text text⟩

/-- An unpaired surrogate and a zero come back as they were. -/
example : encodeUnits [0xD800, 0] = [0xED, 0xA0, 0x80, 0xC0, 0x80] := by
  decide

end ModifiedUtf8

end JvmFold
