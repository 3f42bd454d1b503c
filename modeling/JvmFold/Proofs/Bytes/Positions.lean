import Mathlib
import JvmFold.Proofs.Bytes.Answers

/-!
# Where a Cursor Stands

A cursor is asked for numbers and for bytes and is moved about, and whoever asks
goes on after a request that failed. So it matters where a failed request leaves
the cursor.

What a request should come to can be said from the byte string and the position
alone, without the bytes that the cursor holds on to: the bytes behind the
position, as many as the request is wide, with the most significant one first.
Every read is made of steps that take all their bytes or none. A read in one
step stays where it is if it fails. The eight bytes of a long number and a byte
string behind its length are read in two steps, and if only the first of them
succeeds, it is not taken back.

## Main definitions

* `Bytes.value`: The number of a byte string.
* `Cursor.behind`: A cursor by its byte string and position.
* `Cursor.Request`, `Cursor.Request.perform`: What a cursor is asked for.
* `Cursor.Request.expected`: What a request should come to.
* `Cursor.Request.leaves`: Where a failed request leaves the cursor.
* `Cursor.after`: A cursor behind many requests, failed ones among them.
* `Read.Steps`: Reads that take all their bytes or none.

## Theorems

* `Read.Steps.answers`: A read in one step comes to what it should.
* `Cursor.Request.perform_behind`: Any request.
* `Cursor.after_behind`: The cursor stays within its bytes.
* `Cursor.requests_stay_iff`: Requests in a row, and which failed ones move the cursor.
-/

namespace JvmFold

namespace Bytes

/-- The number of a byte string, the most significant byte first. -/
def value (w : Bytes) : Nat :=
  w.foldl (fun n b => n * 256 + b.toNat) 0

/-- Two bytes make a number with the higher byte in front. -/
theorem toNat_toU16 (a b : UInt8) : (toU16 a b).toNat = value [a, b] := by
  have ha : a.toNat < 256 := a.toNat_lt
  have hfit : a.toNat <<< 8 % 65536 = a.toNat <<< 8 := by
    rw [Nat.shiftLeft_eq]
    omega
  simp only [toU16, UInt16.toNat_or, UInt16.toNat_shiftLeft, UInt8.toNat_toUInt16]
  change a.toNat <<< 8 % 65536 ||| b.toNat = (0 * 256 + a.toNat) * 256 + b.toNat
  rw [hfit, shiftLeft_or b.toNat_lt, Nat.zero_mul, Nat.zero_add]

-- So do four.
theorem toNat_toU32 (a b c d : UInt8) : (toU32 a b c d).toNat = value [a, b, c, d] := by
  -- No byte is shifted out at the top.
  have hfit (x : UInt8) (k : Nat) (hk : 256 * 2 ^ k ≤ 4294967296) :
      x.toNat <<< k % 4294967296 = x.toNat <<< k := by
    rw [Nat.shiftLeft_eq]
    have hlt : x.toNat * 2 ^ k < 256 * 2 ^ k :=
      Nat.mul_lt_mul_of_pos_right x.toNat_lt (Nat.two_pow_pos k)
    exact Nat.mod_eq_of_lt (Nat.lt_of_lt_of_le hlt hk)
  have hjoin (a b k : Nat) : a <<< (8 + k) ||| b <<< k = (a <<< 8 ||| b) <<< k := by
    rw [Nat.shiftLeft_or_distrib, ← Nat.shiftLeft_add]
  simp only [toU32, UInt32.toNat_or, UInt32.toNat_shiftLeft, UInt8.toNat_toUInt32]
  change a.toNat <<< 24 % 4294967296 ||| b.toNat <<< 16 % 4294967296
    ||| c.toNat <<< 8 % 4294967296 ||| d.toNat
      = (((0 * 256 + a.toNat) * 256 + b.toNat) * 256 + c.toNat) * 256 + d.toNat
  rw [hfit _ 24 (by decide), hfit _ 16 (by decide), hfit _ 8 (by decide), hjoin _ _ 16,
    hjoin _ _ 8, shiftLeft_or b.toNat_lt, shiftLeft_or c.toNat_lt, shiftLeft_or d.toNat_lt,
    Nat.zero_mul, Nat.zero_add]

-- And two words of four bytes each.
theorem toNat_toU64 (high low : UInt32) :
    (toU64 high low).toNat = high.toNat * 4294967296 + low.toNat := by
  have hhigh : high.toNat < 4294967296 := high.toNat_lt
  have hlow : low.toNat < 4294967296 := low.toNat_lt
  simp only [toU64, UInt64.toNat_or, UInt64.toNat_shiftLeft, UInt32.toNat_toUInt64]
  change high.toNat <<< 32 % 18446744073709551616 ||| low.toNat = _
  rw [Nat.mod_eq_of_lt (by rw [Nat.shiftLeft_eq]; omega),
    ← Nat.shiftLeft_add_eq_or_of_lt hlow, Nat.shiftLeft_eq]

/-- Four more bytes move a number up by 32 bits. -/
theorem value_append {w z : Bytes} (hz : z.length = 4) :
    value (w ++ z) = value w * 4294967296 + value z := by
  rcases List.length_eq_four.1 hz with ⟨a, b, c, d, rfl⟩
  simp only [value, List.foldl_append, List.foldl_cons, List.foldl_nil]
  omega

end Bytes

namespace Cursor

variable {data : Bytes} {pos : Nat}

/-- The cursor behind the given number of bytes. -/
def behind (data : Bytes) (pos : Nat) : Cursor :=
  ⟨data, pos, data.drop pos⟩

/-- What a cursor is asked for. -/
inductive Request where
  | u8 | i8 | u16 | i16 | u32 | i32 | u64
  /-- A number of bytes. -/
  | bytes (count : Nat)
  /-- A byte string behind its length. -/
  | lengthPrefixed
  /-- To move to a position. -/
  | seek (pos : Nat)
  /-- To move on by a distance. -/
  | advance (distance : UInt64)
deriving DecidableEq, Repr

/-- What a request is answered. -/
inductive Answer where
  | number (n : Int)
  | bytes (w : Bytes)
  | moved
deriving DecidableEq, Repr

/-- What bytes behind a position are answered, with the position behind them; nothing if there are
    not as many. -/
def taking (data : Bytes) (pos width : Nat) (f : Bytes → Answer) : Option (Answer × Nat) :=
  if pos + width ≤ data.length then some (f ((data.drop pos).take width), pos + width) else none

/-- The number of bytes as an answer. -/
def unsigned (w : Bytes) : Answer :=
  .number (Bytes.value w)

/-- The number of bytes with sign as an answer. -/
def signed (w : Bytes) : Answer :=
  .number ((Bytes.value w : Int).bmod (256 ^ w.length))

/-- Moving to a position within the byte string. -/
def moving (data : Bytes) (pos : Nat) : Option (Answer × Nat) :=
  if pos ≤ data.length then some (.moved, pos) else none

namespace Request

/-- Has the request done. -/
def perform : Request → Read Answer
  | .u8 => return .number (← Read.u8).toNat
  | .i8 => return .number (← Read.i8).toInt
  | .u16 => return .number (← Read.u16).toNat
  | .i16 => return .number (← Read.i16).toInt
  | .u32 => return .number (← Read.u32).toNat
  | .i32 => return .number (← Read.i32).toInt
  | .u64 => return .number (← Read.u64).toNat
  | .bytes count => return .bytes (← Read.bytes count)
  | .lengthPrefixed => return .bytes (← Read.lengthPrefixed)
  | .seek pos => do
    Read.seek pos
    return .moved
  | .advance distance => do
    Read.advance distance
    return .moved

/-- What the request should come to behind a position: the answer and the new position. -/
def expected (data : Bytes) (pos : Nat) : Request → Option (Answer × Nat)
  | .u8 => taking data pos 1 unsigned
  | .i8 => taking data pos 1 signed
  | .u16 => taking data pos 2 unsigned
  | .i16 => taking data pos 2 signed
  | .u32 => taking data pos 4 unsigned
  | .i32 => taking data pos 4 signed
  | .u64 => taking data pos 8 unsigned
  | .bytes count => taking data pos count .bytes
  | .lengthPrefixed =>
    taking data pos (4 + Bytes.value ((data.drop pos).take 4)) fun w => .bytes (w.drop 4)
  | .seek target => moving data target
  | .advance distance => moving data (pos + distance.toNat)

/-- The request is for a read in two steps, and the first one has its bytes. -/
def HasHalf (data : Bytes) (pos : Nat) (r : Request) : Prop :=
  (r = .u64 ∨ r = .lengthPrefixed) ∧ pos + 4 ≤ data.length

instance (data : Bytes) (pos : Nat) (r : Request) : Decidable (r.HasHalf data pos) :=
  inferInstanceAs (Decidable (_ ∧ _))

/-- Where the request leaves the cursor if it fails. -/
def leaves (data : Bytes) (pos : Nat) (r : Request) : Nat :=
  if r.HasHalf data pos then pos + 4 else pos

/-- What a request comes to: what it should, or else it fails. -/
def outcome (data : Bytes) (left : Nat) : Option (Answer × Nat) → EStateM.Result Error Cursor Answer
  | some (a, pos) => .ok a (behind data pos)
  | none => .error .outOfBounds (behind data left)

/-- The distance of a move leads to no position beyond those of 64 bits. -/
def Fits (pos : Nat) : Request → Prop
  | .advance distance => pos + distance.toNat < 2 ^ 64
  | _ => True

/-- What fits in from a later position does so from an earlier one. -/
theorem Fits.mono {r : Request} {pos last : Nat} (h : r.Fits last) (hle : pos ≤ last) :
    r.Fits pos := by
  cases r with
  | advance distance => exact Nat.lt_of_le_of_lt (Nat.add_le_add_right hle _) h
  | _ => trivial

end Request

end Cursor

namespace Read

open Cursor (behind)

variable {α β : Type} {r : Read α} {n : Nat} {P : Bytes → α → Prop} {data : Bytes} {pos : Nat}

/-- A read of a fixed width takes all its bytes, or it fails and takes none of them. -/
def Steps (r : Read α) (n : Nat) (P : Bytes → α → Prop) : Prop :=
  ∀ data pos, pos ≤ data.length →
    (pos + n ≤ data.length ∧ ∃ v, r (behind data pos) = .ok v (behind data (pos + n)) ∧
      P ((data.drop pos).take n) v) ∨
    (data.length < pos + n ∧ r (behind data pos) = .error .outOfBounds (behind data pos))

/-- A read that takes any bytes of its width and fails on fewer of them. -/
theorem Steps.of_takes (htakes : ∀ w : Bytes, w.length = n → ∃ v, Takes r w v ∧ P w v)
    (hfails : ∀ data pos rest, rest.length < n →
      r ⟨data, pos, rest⟩ = .error .outOfBounds ⟨data, pos, rest⟩) : Steps r n P := by
  intro data pos hpos
  have hrest : (data.drop pos).length = data.length - pos := List.length_drop
  by_cases hn : pos + n ≤ data.length
  · have hwidth : ((data.drop pos).take n).length = n := List.length_take_of_le (by omega)
    rcases htakes _ hwidth with ⟨v, hv, hP⟩
    have hread := hv data pos ((data.drop pos).drop n)
    rw [List.take_append_drop, hwidth, List.drop_drop] at hread
    exact .inl ⟨hn, v, hread, hP⟩
  · exact .inr ⟨by omega, hfails data pos _ (by omega)⟩

/-- One byte is read as a number. -/
theorem steps_u8 : Steps u8 1 fun w v => v.toNat = Bytes.value w := by
  refine .of_takes (fun w hw => ?_) fun data pos rest hrest => ?_
  · rcases List.length_eq_one_iff.1 hw with ⟨a, rfl⟩
    exact ⟨a, takes_u8 a, by simp [Bytes.value]⟩
  · rcases List.length_eq_zero_iff.1 (Nat.lt_one_iff.1 hrest) with rfl
    rfl

theorem steps_u16 : Steps u16 2 fun w v => v.toNat = Bytes.value w := by
  refine .of_takes (fun w hw => ?_) fun data pos rest hrest => ?_
  · rcases List.length_eq_two.1 hw with ⟨a, b, rfl⟩
    exact ⟨Bytes.toU16 a b, fun _ _ _ => rfl, Bytes.toNat_toU16 a b⟩
  · match rest with
    | [] | [_] => rfl

theorem steps_u32 : Steps u32 4 fun w v => v.toNat = Bytes.value w := by
  refine .of_takes (fun w hw => ?_) fun data pos rest hrest => ?_
  · rcases List.length_eq_four.1 hw with ⟨a, b, c, d, rfl⟩
    exact ⟨Bytes.toU32 a b c d, fun _ _ _ => rfl, Bytes.toNat_toU32 a b c d⟩
  · match rest with
    | [] | [_] | [_, _] | [_, _, _] => rfl

/-- No more bytes can be split off than there are. -/
theorem splitExact_go_eq_none {acc l : List α} (h : l.length < n) :
    Bytes.splitExact.go acc n l = none := by
  induction n generalizing acc l with
  | zero => exact absurd h (Nat.not_lt_zero _)
  | succ n ih =>
      cases l with
      | nil => rfl
      | cons a l => exact ih (Nat.lt_of_succ_lt_succ h)

/-- Bytes that are read are taken as they are. -/
theorem steps_bytes (n : Nat) : Steps (bytes n) n fun w v => v = w := by
  refine .of_takes (fun w hw => ⟨w, ?_, rfl⟩) fun data pos rest hrest => ?_
  · rw [← hw]
    exact takes_bytes w
  · unfold bytes Bytes.splitExact
    dsimp only
    rw [splitExact_go_eq_none hrest]

/-- A read in one step comes to what it should, and if it fails, it stays where it is. -/
theorem Steps.answers {f : Bytes → Cursor.Answer} {g : α → Cursor.Answer} (h : Steps r n P)
    (hf : ∀ w v, w.length = n → P w v → g v = f w) (hpos : pos ≤ data.length) :
    (r >>= fun v => pure (g v) : Read Cursor.Answer) (behind data pos)
      = Cursor.Request.outcome data pos (Cursor.taking data pos n f) := by
  unfold Cursor.taking
  rcases h data pos hpos with ⟨hn, v, hread, hv⟩ | ⟨hn, hread⟩
  · have hwidth : ((data.drop pos).take n).length = n :=
      List.length_take_of_le (by rw [List.length_drop]; omega)
    rw [bind_of_ok hread, if_pos hn, ← hf _ v hwidth hv]
    rfl
  · rw [bind_of_error hread, if_neg (Nat.not_le_of_lt hn)]
    rfl

/-- A read in two steps comes to what its second step does, and if the first one fails, it stays
    where it is. -/
theorem Steps.answers_bind {k : α → Read Cursor.Answer} {e : Option (Cursor.Answer × Nat)}
    (h : Steps r n P) (hpos : pos ≤ data.length)
    (hk : ∀ a, P ((data.drop pos).take n) a → pos + n ≤ data.length →
      k a (behind data (pos + n)) = Cursor.Request.outcome data (pos + n) e)
    (hnone : data.length < pos + n → e = none) :
    (r >>= k) (behind data pos)
      = Cursor.Request.outcome data (if pos + n ≤ data.length then pos + n else pos) e := by
  rcases h data pos hpos with ⟨hn, a, hread, ha⟩ | ⟨hn, hread⟩
  · rw [bind_of_ok hread, if_pos hn, hk a ha hn]
  · rw [bind_of_error hread, if_neg (Nat.not_le_of_lt hn), hnone hn]
    rfl

end Read

namespace Cursor

variable {data : Bytes} {pos : Nat}

/-- The bytes of an answer in two parts. -/
theorem taking_add (n m : Nat) (f : Bytes → Answer) :
    taking data pos (n + m) f
      = taking data (pos + n) m fun z => f ((data.drop pos).take n ++ z) := by
  unfold taking
  rw [← Nat.add_assoc, List.take_add, List.drop_drop]

/-- Nothing is taken beyond the end. -/
theorem taking_eq_none {width : Nat} {f : Bytes → Answer} (h : data.length < pos + width) :
    taking data pos width f = none :=
  if_neg (Nat.not_le_of_lt h)

-- And what is taken ends within the data.
theorem taking_bounds {width q : Nat} {f : Bytes → Answer} {a : Answer}
    (h : taking data pos width f = some (a, q)) : q ≤ data.length := by
  rcases Option.ite_none_right_eq_some.1 h with ⟨hle, heq⟩
  cases heq
  exact hle

namespace Request

/-- An advance that fits does not run over 64 bits. -/
theorem fits_bounds {distance : UInt64} (h : Fits pos (.advance distance)) :
    (pos.toUInt64 + distance).toNat = pos + distance.toNat := by
  have hsum : pos + distance.toNat < 2 ^ 64 := h
  rw [UInt64.toNat_add]
  change (pos % 2 ^ 64 + distance.toNat) % 2 ^ 64 = _
  rw [Nat.mod_eq_of_lt (a := pos) (by omega), Nat.mod_eq_of_lt hsum]

/-- What seeking does, as a move to its target. -/
theorem seek_behind (target : Nat) :
    perform (.seek target) (behind data pos) = outcome data pos (moving data target) := by
  change (Read.seek target >>= fun _ => pure .moved : Read Answer) (behind data pos) = _
  unfold moving
  by_cases h : target ≤ data.length
  · have hseek : Read.seek target (behind data pos) = .ok () (behind data target) := if_pos h
    rw [bind_of_ok hseek, if_pos h]
    rfl
  · have hseek : Read.seek target (behind data pos) = .error .outOfBounds (behind data pos) :=
      if_neg h
    rw [bind_of_error hseek, if_neg h]
    rfl

/-- What advancing does, as a move by its distance. -/
theorem advance_behind {distance : UInt64} (hfits : Fits pos (.advance distance)) :
    perform (.advance distance) (behind data pos)
      = outcome data pos (moving data (pos + distance.toNat)) := by
  have hseek : perform (.seek (pos.toUInt64 + distance).toNat) (behind data pos)
      = outcome data pos (moving data (pos.toUInt64 + distance).toNat) := seek_behind _
  rw [fits_bounds hfits] at hseek
  rw [← hseek]
  change perform (.seek (pos.toUInt64 + distance).toNat) (behind data pos) = _
  rw [fits_bounds hfits]

/-- A long word moves by four bytes as soon as its first half can be read. -/
theorem u64_behind (hpos : pos ≤ data.length) :
    perform .u64 (behind data pos)
      = outcome data (if pos + 4 ≤ data.length then pos + 4 else pos) (expected data pos .u64) := by
  have hparts : perform .u64 = Read.u32 >>= fun high => Read.u32 >>= fun low =>
      pure (.number (Bytes.toU64 high low).toNat) := by
    simp only [perform, Read.u64, bind_assoc, pure_bind]
  rw [hparts]
  refine Read.steps_u32.answers_bind hpos (fun high hhigh hn => ?_) fun hn => ?_
  · change _ = outcome data (pos + 4) (taking data pos (4 + 4) unsigned)
    rw [taking_add]
    refine Read.steps_u32.answers (fun z low hz hlow => ?_) hn
    rw [unsigned, Bytes.toNat_toU64, Bytes.value_append hz, hhigh, hlow]
  · exact taking_eq_none (by omega)

-- So do prefixed bytes, as soon as their length can be.
theorem lengthPrefixed_behind (hpos : pos ≤ data.length) :
    perform .lengthPrefixed (behind data pos)
      = outcome data (if pos + 4 ≤ data.length then pos + 4 else pos)
          (expected data pos .lengthPrefixed) := by
  have hparts : perform .lengthPrefixed = Read.u32 >>= fun length =>
      Read.bytes length.toNat >>= fun w => pure (.bytes w) := by
    simp only [perform, Read.lengthPrefixed, bind_assoc]
  rw [hparts]
  -- The length is read first; the cursor has moved behind it when the bytes are asked for.
  refine Read.steps_u32.answers_bind hpos (fun length hlength hn => ?_) fun hn => ?_
  · unfold expected
    rw [taking_add, ← hlength]
    refine (Read.steps_bytes length.toNat).answers (fun z w _ hw => ?_) hn
    have hwidth : ((data.drop pos).take 4).length = 4 :=
      List.length_take_of_le (by rw [List.length_drop]; omega)
    rw [hw, List.drop_left' hwidth]
  · unfold expected
    exact taking_eq_none (by omega)

/-- A request comes to what it should, and one that fails stays where it is unless it has half of
    its bytes. -/
theorem perform_behind (r : Request) (hpos : pos ≤ data.length) (hfits : r.Fits pos) :
    r.perform (behind data pos) = outcome data (r.leaves data pos) (r.expected data pos) := by
  -- What has no halves stays where it is.
  have hstays (hr : r ≠ .u64 ∧ r ≠ .lengthPrefixed) : r.leaves data pos = pos :=
    if_neg fun h => h.1.elim hr.1 hr.2
  have hhalves (hr : r = .u64 ∨ r = .lengthPrefixed) :
      r.leaves data pos = if pos + 4 ≤ data.length then pos + 4 else pos := by
    simp only [leaves, HasHalf, hr, true_and]
  cases r with
  | u8 =>
      rw [hstays (by decide)]
      exact Read.steps_u8.answers (fun w v _ hv => by rw [unsigned, hv]) hpos
  | i8 =>
      rw [hstays (by decide)]
      have hparts : perform .i8 = Read.u8 >>= fun v => pure (.number v.toInt8.toInt) := by
        simp only [perform, Read.i8, bind_assoc, pure_bind]
      rw [hparts]
      refine Read.steps_u8.answers (fun w v hw hv => ?_) hpos
      rw [signed, hw, ← hv]
      exact congrArg Answer.number (BitVec.toInt_eq_toNat_bmod v.toBitVec)
  | u16 =>
      rw [hstays (by decide)]
      exact Read.steps_u16.answers (fun w v _ hv => by rw [unsigned, hv]) hpos
  | i16 =>
      rw [hstays (by decide)]
      have hparts : perform .i16 = Read.u16 >>= fun v => pure (.number v.toInt16.toInt) := by
        simp only [perform, Read.i16, bind_assoc, pure_bind]
      rw [hparts]
      refine Read.steps_u16.answers (fun w v hw hv => ?_) hpos
      rw [signed, hw, ← hv]
      exact congrArg Answer.number (BitVec.toInt_eq_toNat_bmod v.toBitVec)
  | u32 =>
      rw [hstays (by decide)]
      exact Read.steps_u32.answers (fun w v _ hv => by rw [unsigned, hv]) hpos
  | i32 =>
      rw [hstays (by decide)]
      have hparts : perform .i32 = Read.u32 >>= fun v => pure (.number v.toInt32.toInt) := by
        simp only [perform, Read.i32, bind_assoc, pure_bind]
      rw [hparts]
      refine Read.steps_u32.answers (fun w v hw hv => ?_) hpos
      rw [signed, hw, ← hv]
      exact congrArg Answer.number (BitVec.toInt_eq_toNat_bmod v.toBitVec)
  | u64 =>
      rw [hhalves (.inl rfl)]
      exact u64_behind hpos
  | bytes count =>
      rw [hstays ⟨nofun, nofun⟩]
      exact (Read.steps_bytes count).answers (fun w v _ hv => by rw [hv]) hpos
  | lengthPrefixed =>
      rw [hhalves (.inr rfl)]
      exact lengthPrefixed_behind hpos
  | seek target =>
      rw [hstays ⟨nofun, nofun⟩]
      exact seek_behind target
  | advance distance =>
      rw [hstays ⟨nofun, nofun⟩]
      exact advance_behind hfits

/-- A request that comes to something leaves the cursor within the byte string. -/
theorem expected_bounds {r : Request} {a : Answer} {q : Nat}
    (h : r.expected data pos = some (a, q)) : q ≤ data.length := by
  unfold expected at h
  cases r with
  | seek | advance =>
      rcases Option.ite_none_right_eq_some.1 h with ⟨hle, heq⟩
      cases heq
      exact hle
  | _ => exact taking_bounds h

/-- No request leaves the data. -/
theorem leaves_bounds (r : Request) (hpos : pos ≤ data.length) :
    r.leaves data pos ≤ data.length := by
  unfold leaves
  split
  next h => exact h.2
  · exact hpos

/-- A request that fails stays in place exactly if it has no first half to read. -/
theorem leaves_eq_iff (r : Request) : r.leaves data pos = pos ↔ ¬r.HasHalf data pos := by
  unfold leaves
  split
  next h => exact iff_of_false (by omega) (not_not_intro h)
  next h => exact iff_of_true rfl h

/-- Where a request leaves the cursor, failed or not. -/
def next (r : Request) (c : Cursor) : Cursor :=
  match r.perform c with
  | .ok _ c => c
  | .error _ c => c

/-- Whatever becomes of a request, it leaves the cursor within the byte string. -/
theorem next_behind (r : Request) (hpos : pos ≤ data.length) (hfits : r.Fits pos) :
    ∃ q ≤ data.length, r.next (behind data pos) = behind data q := by
  unfold next
  rw [perform_behind r hpos hfits]
  cases h : r.expected data pos with
  | none => exact ⟨_, r.leaves_bounds hpos, rfl⟩
  | some e => exact ⟨e.2, expected_bounds h, rfl⟩

end Request

/-- The cursor behind requests, of which any may have failed. -/
def after (c : Cursor) (requests : List Request) : Cursor :=
  requests.foldl (fun c r => r.next c) c

/-- No move among the requests leads beyond the positions of 64 bits. -/
def Fitting (c : Cursor) (requests : List Request) : Prop :=
  ∀ before r later, requests = before ++ r :: later → r.Fits (c.after before).pos

/-- The cursor stays within its bytes. -/
theorem after_behind {requests : List Request} (hfits : Fitting (start data) requests) :
    ∃ pos ≤ data.length, (start data).after requests = behind data pos := by
  induction requests using List.reverseRecOn with
  | nil => exact ⟨0, Nat.zero_le _, rfl⟩
  | append_singleton requests r ih =>
      have hearlier : Fitting (start data) requests := fun before r' later h =>
        hfits before r' (later ++ [r]) (by rw [h, List.append_assoc, List.cons_append])
      rcases ih hearlier with ⟨pos, hpos, hafter⟩
      have hr : r.Fits ((start data).after requests).pos := hfits requests r [] rfl
      rw [hafter] at hr
      rcases r.next_behind hpos hr with ⟨q, hq, hnext⟩
      refine ⟨q, hq, ?_⟩
      rw [after, List.foldl_append, List.foldl_cons, List.foldl_nil, ← hnext, ← hafter]
      rfl

/-- Moves by distances that fit behind the last byte fit wherever they come up. -/
theorem fitting_of_last {requests : List Request} (h : ∀ r ∈ requests, r.Fits data.length) :
    Fitting (start data) requests := by
  induction requests using List.reverseRecOn with
  | nil =>
      intro before r later hsplit
      exact absurd hsplit.symm (List.append_ne_nil_of_right_ne_nil _ (List.cons_ne_nil _ _))
  | append_singleton requests last ih =>
      have hfits : Fitting (start data) requests :=
        ih fun r hr => h r (List.mem_append_left _ hr)
      intro before r later hsplit
      -- The request is the last one, or one of those before it.
      rcases List.eq_nil_or_concat later with rfl | ⟨inner, end', rfl⟩
      · rcases List.append_inj' hsplit rfl with ⟨rfl, hr⟩
        rcases after_behind hfits with ⟨pos, hpos, hafter⟩
        rw [hafter, ← List.head_eq_of_cons_eq hr]
        exact (h last (by simp)).mono hpos
      · rw [List.concat_eq_append, ← List.cons_append, ← List.append_assoc] at hsplit
        exact hfits before r inner (List.append_inj' hsplit rfl).1

/-- In every sequence of requests the cursor stays within the byte string. A request that should
    come to something does: a read is answered the bytes behind the position, the most significant
    one first, and moves on by its width. Any other request fails, and it leaves the position as it
    was if and only if it is not one for eight bytes, or for a byte string behind its length, with
    the first four bytes there. -/
theorem requests_stay_iff {requests before later : List Request} {r : Request}
    (hfits : Fitting (start data) requests) (hsplit : requests = before ++ r :: later) :
    ∃ pos ≤ data.length, (start data).after before = behind data pos ∧
      (∀ a q, r.expected data pos = some (a, q) →
        q ≤ data.length ∧ r.perform (behind data pos) = .ok a (behind data q)) ∧
      (r.expected data pos = none → ∃ q ≤ data.length,
        r.perform (behind data pos) = .error .outOfBounds (behind data q) ∧
          (q = pos ↔ ¬r.HasHalf data pos)) := by
  -- What comes before the request fits as well, so its position is known.
  have hearlier : Fitting (start data) before := fun before' r' later' h =>
    hfits before' r' (later' ++ r :: later) (by rw [hsplit, h, List.append_assoc]; rfl)
  rcases after_behind hearlier with ⟨pos, hpos, hafter⟩
  have hr : r.Fits pos := by
    have hat := hfits before r later hsplit
    rwa [hafter] at hat
  have hperform := r.perform_behind hpos hr
  refine ⟨pos, hpos, hafter, fun a q h => ⟨Request.expected_bounds h, ?_⟩, fun h => ?_⟩
  · rw [hperform, h]
    rfl
  · refine ⟨r.leaves data pos, r.leaves_bounds hpos, ?_, r.leaves_eq_iff⟩
    rw [hperform, h]
    rfl

/-- Neither eight bytes nor a byte string behind its length, but the first four bytes of both. -/
def cutShort : Bytes :=
  [0, 0, 0, 2, 7]

/-- A number behind a move, where the request for eight bytes between them has failed. -/
theorem requests_stay_cutShort :
    Fitting (start cutShort) [.advance 1, .u64, .i8] ∧
      ∃ pos ≤ cutShort.length, (start cutShort).after [.advance 1] = behind cutShort pos ∧
        (∀ a q, Request.u64.expected cutShort pos = some (a, q) →
          q ≤ cutShort.length ∧
            Request.u64.perform (behind cutShort pos) = .ok a (behind cutShort q)) ∧
        (Request.u64.expected cutShort pos = none → ∃ q ≤ cutShort.length,
          Request.u64.perform (behind cutShort pos) = .error .outOfBounds (behind cutShort q) ∧
            (q = pos ↔ ¬Request.u64.HasHalf cutShort pos)) := by
  have hfits : Fitting (start cutShort) [.advance 1, .u64, .i8] := by
    refine fitting_of_last (List.forall_mem_cons.2 ⟨?_, ?_⟩)
    · change 5 + 1 < 2 ^ 64
      decide
    · simp [Request.Fits]
  have hsplit : [Request.advance 1, .u64, .i8] = [.advance 1] ++ .u64 :: [.i8] := rfl
  exact ⟨hfits, requests_stay_iff hfits hsplit⟩

/-- A request that fails half way moves the cursor: of eight bytes the first four are gone, and of a
    byte string its length. -/
theorem half_read_moves :
    Request.u64.perform (start cutShort) = .error .outOfBounds (behind cutShort 4) ∧
      Request.lengthPrefixed.perform (start cutShort) = .error .outOfBounds (behind cutShort 4) ∧
      (behind cutShort 4).pos ≠ (start cutShort).pos :=
  ⟨rfl, rfl, by decide⟩

end Cursor

end JvmFold
