import Mathlib
import JvmFold.Bytes.Cursor

/-!
# Reading Back What Was Written

A reader takes a value from bytes if it answers that value wherever the bytes
come up, and moves just behind them. What follows them does not matter, so
readers that are run one after the other take what was written one behind the
other.

## Main definitions

* `Read.Takes`: Reading a value from bytes.

## Theorems

* `repeated_succ`: The first of several equal computations.
* `Read.takes_u16`, `Read.takes_u32`: Numbers are read back.
* `Read.Takes.bind`: Readers one after the other.
* `Read.takes_lengthPrefixed`: A byte string behind its length.
-/

namespace JvmFold

/-- A computation in two steps that does not fail takes both. -/
theorem bind_eq_ok {ε σ α β : Type} {m : EStateM ε σ α} {f : α → EStateM ε σ β} {s t : σ} {b : β}
    (h : (m >>= f) s = .ok b t) : ∃ a u, m s = .ok a u ∧ f a u = .ok b t := by
  change EStateM.bind m f s = _ at h
  unfold EStateM.bind at h
  split at h
  next a u hm =>
    exact ⟨a, u, hm, h⟩
  · cases h

/-- The same without a state. -/
theorem except_bind_ok {ε α β : Type} {x : Except ε α} {f : α → Except ε β} {b : β}
    (h : x >>= f = .ok b) : ∃ a, x = .ok a ∧ f a = .ok b := by
  cases x with
  | error e => cases h
  | ok a => exact ⟨a, rfl, h⟩

/-- The elements of a list that were all taken to something, with what they were taken to. -/
theorem forall₂_of_mapM {ε α β : Type} {f : α → Except ε β} {l : List α} {bs : List β}
    (h : l.mapM f = .ok bs) : List.Forall₂ (fun a b => f a = .ok b) l bs := by
  induction l generalizing bs with
  | nil =>
      cases h
      exact List.Forall₂.nil
  | cons a l ih =>
      rw [List.mapM_cons] at h
      rcases except_bind_ok h with ⟨b, ha, h⟩
      rcases except_bind_ok h with ⟨bs', hl, h⟩
      cases h
      exact List.Forall₂.cons ha (ih hl)

theorem exists_of_mapM {ε α β : Type} {f : α → Except ε β} {l : List α} {bs : List β}
    (h : l.mapM f = .ok bs) {a : α} (ha : a ∈ l) : ∃ b, f a = .ok b := by
  have hall := forall₂_of_mapM h
  clear h
  induction hall with
  | nil => cases ha
  | cons hb _ ih =>
      rcases List.mem_cons.mp ha with rfl | ha
      · exact ⟨_, hb⟩
      · exact ih ha

/-- A second part runs on the value and the state of the first. -/
theorem bind_of_ok {ε σ α β : Type} {m : EStateM ε σ α} {f : α → EStateM ε σ β} {s t : σ} {a : α}
    (h : m s = .ok a t) : (m >>= f) s = f a t := by
  change EStateM.bind m f s = _
  unfold EStateM.bind
  rw [h]

/-- An element more is one step in front. -/
theorem mapM_cons_of_ok {ε σ α β : Type} {f : α → EStateM ε σ β} {a : α} {l : List α} {b : β}
    {bs : List β} {s t u : σ} (ha : f a s = .ok b t) (hl : l.mapM f t = .ok bs u) :
    (a :: l).mapM f s = .ok (b :: bs) u := by
  rw [List.mapM_cons]
  exact (bind_of_ok ha).trans (bind_of_ok hl)

/-- The first of several runs of a computation comes in front of the others. -/
theorem repeated_succ {m : Type → Type} [Monad m] [LawfulMonad m] {α : Type} (n : Nat) (r : m α) :
    repeated (n + 1) r = r >>= fun a => repeated n r >>= fun l => pure (a :: l) := by
  -- The answers that are held back come out in front of those that follow.
  have hgo (n : Nat) (acc : List α) :
      repeated.go r acc n = repeated n r >>= fun l => pure (acc.reverse ++ l) := by
    induction n generalizing acc with
    | zero => simp [repeated, repeated.go]
    | succ n ih =>
        rw [repeated, repeated.go, repeated.go, bind_assoc]
        congr 1
        funext a
        rw [ih (a :: acc), ih [a], bind_assoc]
        simp
  rw [repeated, repeated.go]
  congr 1
  funext a
  rw [hgo]
  simp

namespace Bytes

/-- A byte behind others, as a sum. -/
theorem shiftLeft_or {a b : Nat} (hb : b < 256) : a <<< 8 ||| b = a * 256 + b := by
  rw [← Nat.shiftLeft_add_eq_or_of_lt hb, Nat.shiftLeft_eq]

/-- Numbers are read as they are written. -/
theorem toU16_ofU16 (n : UInt16) : toU16 (n >>> 8).toUInt8 n.toUInt8 = n := by
  apply UInt16.toNat.inj
  have hn : n.toNat < 65536 := n.toNat_lt
  simp only [toU16, UInt16.toNat_or, UInt16.toNat_shiftLeft, UInt8.toNat_toUInt16,
    UInt16.toNat_toUInt8, UInt16.toNat_shiftRight]
  change (n.toNat >>> 8 % 256) <<< 8 % 65536 ||| n.toNat % 256 = n.toNat
  have hhigh : (n.toNat >>> 8 % 256) <<< 8 % 65536 = (n.toNat >>> 8 % 256) <<< 8 := by
    rw [Nat.shiftLeft_eq]
    omega
  rw [hhigh, shiftLeft_or (by omega), Nat.shiftRight_eq_div_pow]
  omega

-- And written as they were read.
theorem ofU16_toU16 (a b : UInt8) : ofU16 (toU16 a b) = [a, b] := by
  have ha : a.toNat < 256 := a.toNat_lt
  have hb : b.toNat < 256 := b.toNat_lt
  -- The word is the higher byte times 256 and the lower one.
  have hword : (toU16 a b).toNat = a.toNat * 256 + b.toNat := by
    simp only [toU16, UInt16.toNat_or, UInt16.toNat_shiftLeft, UInt8.toNat_toUInt16]
    change a.toNat <<< 8 % 65536 ||| b.toNat = _
    rw [Nat.mod_eq_of_lt (by rw [Nat.shiftLeft_eq]; omega), shiftLeft_or hb]
  have hhigh : ((toU16 a b) >>> 8).toUInt8 = a := by
    apply UInt8.toNat.inj
    rw [UInt16.toNat_toUInt8, UInt16.toNat_shiftRight, hword]
    change (a.toNat * 256 + b.toNat) >>> 8 % 256 = a.toNat
    rw [Nat.shiftRight_eq_div_pow]
    omega
  have hlow : (toU16 a b).toUInt8 = b := by
    apply UInt8.toNat.inj
    rw [UInt16.toNat_toUInt8, hword]
    omega
  rw [ofU16, hhigh, hlow]

/-- Words are read as they are written. -/
theorem toU32_ofU32 (n : UInt32) :
    toU32 (n >>> 24).toUInt8 (n >>> 16).toUInt8 (n >>> 8).toUInt8 n.toUInt8 = n := by
  apply UInt32.toNat.inj
  have hn : n.toNat < 4294967296 := n.toNat_lt
  simp only [toU32, UInt32.toNat_or, UInt32.toNat_shiftLeft, UInt8.toNat_toUInt32,
    UInt32.toNat_toUInt8, UInt32.toNat_shiftRight]
  change (n.toNat >>> 24 % 256) <<< 24 % 4294967296 ||| (n.toNat >>> 16 % 256) <<< 16 % 4294967296
    ||| (n.toNat >>> 8 % 256) <<< 8 % 4294967296 ||| n.toNat % 256 = n.toNat
  -- No byte is shifted out at the top.
  have hfit (a k : Nat) (hk : 256 * 2 ^ k ≤ 4294967296) :
      (a % 256) <<< k % 4294967296 = (a % 256) <<< k := by
    rw [Nat.shiftLeft_eq]
    have hlt : a % 256 * 2 ^ k < 256 * 2 ^ k :=
      Nat.mul_lt_mul_of_pos_right (Nat.mod_lt a (by decide)) (Nat.two_pow_pos k)
    exact Nat.mod_eq_of_lt (Nat.lt_of_lt_of_le hlt hk)
  rw [hfit _ 24 (by decide), hfit _ 16 (by decide), hfit _ 8 (by decide)]
  have hjoin (a b k : Nat) : a <<< (8 + k) ||| b <<< k = (a <<< 8 ||| b) <<< k := by
    rw [Nat.shiftLeft_or_distrib, ← Nat.shiftLeft_add]
  rw [hjoin _ _ 16, hjoin _ _ 8, shiftLeft_or (by omega), shiftLeft_or (by omega),
    shiftLeft_or (by omega)]
  simp only [Nat.shiftRight_eq_div_pow]
  omega

end Bytes

namespace Read

/-- Parsing is reading from the start. -/
theorem parse_eq_ok {α : Type} {r : Read α} {data : Bytes} {v : α} :
    r.parse data = .ok v ↔ ∃ c, r (Cursor.start data) = .ok v c := by
  unfold Read.parse EStateM.run
  cases r (Cursor.start data) <;> simp

/-- Reading gives `v` from bytes that start with `w`, whatever follows, and stops behind `w`. -/
def Takes {α : Type} (r : Read α) (w : Bytes) (v : α) : Prop :=
  ∀ data pos rest, r ⟨data, pos, w ++ rest⟩ = .ok v ⟨data, pos + w.length, rest⟩

section Takes

variable {α β : Type} {r : Read α} {w z : Bytes} {v : α}

theorem takes_pure (v : α) : Takes (pure v) [] v := by
  intro data pos rest
  rfl

/-- Two parts take their bytes one behind the other. -/
theorem Takes.bind {f : α → Read β} {u : β} (h : Takes r w v) (hf : Takes (f v) z u) :
    Takes (r >>= f) (w ++ z) u := by
  intro data pos rest
  change EStateM.bind r f _ = _
  unfold EStateM.bind
  rw [List.append_assoc, h, List.length_append, ← Nat.add_assoc]
  exact hf data (pos + w.length) rest

/-- Changing a value takes no bytes. -/
theorem Takes.map {u : β} {f : α → β} (h : Takes r w v) (hu : f v = u) :
    Takes (r >>= fun x => pure (f x)) w u := by
  have hbind : Takes (r >>= fun x => pure (f x)) (w ++ []) (f v) := h.bind (takes_pure (f v))
  rw [List.append_nil, hu] at hbind
  exact hbind

theorem takes_u8 (n : UInt8) : Takes u8 [n] n := by
  intro data pos rest
  rfl

theorem takes_u16 (n : UInt16) : Takes u16 (Bytes.ofU16 n) n := by
  intro data pos rest
  change EStateM.Result.ok (Bytes.toU16 (n >>> 8).toUInt8 n.toUInt8) _ = _
  rw [Bytes.toU16_ofU16]
  rfl

theorem takes_u32 (n : UInt32) : Takes u32 (Bytes.ofU32 n) n := by
  intro data pos rest
  change EStateM.Result.ok
    (Bytes.toU32 (n >>> 24).toUInt8 (n >>> 16).toUInt8 (n >>> 8).toUInt8 n.toUInt8) _ = _
  rw [Bytes.toU32_ofU32]
  rfl

theorem takes_i8 (n : Int8) : Takes i8 [n.toUInt8] n :=
  (takes_u8 n.toUInt8).map rfl

theorem takes_i16 (n : Int16) : Takes i16 (Bytes.ofU16 n.toUInt16) n :=
  (takes_u16 n.toUInt16).map rfl

theorem takes_i32 (n : Int32) : Takes i32 (Bytes.ofU32 n.toUInt32) n :=
  (takes_u32 n.toUInt32).map rfl

/-- As many bytes are split off as the first part has. -/
theorem splitExact_go {acc l rest : List α} :
    Bytes.splitExact.go acc l.length (l ++ rest) = some (acc.reverse ++ l, rest) := by
  induction l generalizing acc with
  | nil =>
      rw [List.append_nil, List.nil_append, List.length_nil, Bytes.splitExact.go]
  | cons a l ih =>
      change Bytes.splitExact.go (a :: acc) l.length (l ++ rest) = _
      rw [ih, List.reverse_cons, List.append_assoc]
      rfl

/-- Bytes are taken as they stand. -/
theorem takes_bytes (w : Bytes) : Takes (bytes w.length) w w := by
  intro data pos rest
  unfold bytes Bytes.splitExact
  simp only [splitExact_go]
  rfl

/-- Skipping takes any bytes of that number. -/
theorem takes_skip {n : Nat} (hw : w.length = n) : Takes (skip n) w () := by
  rw [← hw]
  exact (takes_bytes w).map rfl

/-- Bytes behind their length are taken as a whole. -/
theorem takes_lengthPrefixed (hw : w.length < 4294967296) :
    Takes lengthPrefixed (Bytes.lengthPrefixed w) w := by
  have hlength : w.length.toUInt32.toNat = w.length := Nat.mod_eq_of_lt hw
  refine (takes_u32 w.length.toUInt32).bind ?_
  rw [hlength]
  exact takes_bytes w

/-- A pure part reads nothing. -/
theorem lift_eq_ok {x : Except Error α} {c c' : Cursor} (h : lift x c = .ok v c') :
    x = .ok v ∧ c' = c := by
  cases x with
  | error e => cases h
  | ok a =>
      cases h
      exact ⟨rfl, rfl⟩

theorem takes_lift {x : Except Error α} (hx : x = .ok v) : Takes (Read.lift x) [] v := by
  rw [hx]
  exact takes_pure v

end Takes

end Read

end JvmFold
