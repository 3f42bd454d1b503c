import JvmFold.Error

/-!
# Reading Bytes

A cursor is a position in a byte string. Reading moves it forward, and a read
that would pass the end fails and leaves it where it was. A read made of two
steps, such as eight bytes or a length with what it counts, stays behind its
first step when the second fails.

## Main definitions

* `Cursor`: A byte string with a position.
* `Read`: A computation that reads from a cursor.
* `Read.bytes` and the fixed-width reads.
* `repeated`, `iterated`: A number of equal computations in a row.
-/

namespace JvmFold

/-- A byte string with a position in it. -/
structure Cursor where
  /-- The whole byte string. -/
  data : Bytes
  /-- The number of bytes in front of the position. -/
  pos : Nat
  /-- The bytes behind the position. -/
  rest : Bytes
deriving DecidableEq, Repr

namespace Cursor

/-- The cursor at the start of a byte string. -/
def start (data : Bytes) : Cursor :=
  ⟨data, 0, data⟩

/-- Whether bytes remain. -/
def hasMore (c : Cursor) : Bool :=
  !c.rest.isEmpty

end Cursor

/-- A computation that reads from a cursor. -/
abbrev Read := EStateM Error Cursor

namespace Read

/-- Runs a computation from the start of a byte string. -/
def parse {α : Type} (r : Read α) (data : Bytes) : Except Error α :=
  match r.run (Cursor.start data) with
  | .ok a _ => .ok a
  | .error e _ => .error e

/-- Continues with the answer of a pure computation, or fails as it did. -/
def lift {α : Type} (r : Except Error α) : Read α :=
  match r with
  | .ok a => pure a
  | .error e => throw e

/-- Fails because the bytes are malformed. -/
def malformed {α : Type} (m : Malformed) : Read α :=
  throw (.malformed m)

/-- The next `n` bytes. -/
def bytes (n : Nat) : Read Bytes := fun c =>
  match Bytes.splitExact n c.rest with
  | some (taken, rest) => .ok taken { c with pos := c.pos + n, rest }
  | none => .error .outOfBounds c

/-- Skips `n` bytes. -/
def skip (n : Nat) : Read Unit := do
  let _ ← bytes n

/-- Moves to a position. -/
def seek (pos : Nat) : Read Unit := fun c =>
  if pos ≤ c.data.length then .ok () { c with pos, rest := c.data.drop pos }
  else .error .outOfBounds c

/-- The number of bytes in front of the position. -/
def position : Read Nat :=
  return (← get).pos

/-- Moves on by a distance. Positions are counted in 64 bits, so that a distance close to the
    greatest one leads back. -/
def advance (distance : UInt64) : Read Unit := do
  seek ((← position).toUInt64 + distance).toNat

/-- Whether bytes remain. -/
def hasMore : Read Bool :=
  return (← get).hasMore

/-- An unsigned byte. -/
def u8 : Read UInt8 := fun c =>
  match c.rest with
  | b :: rest => .ok b { c with pos := c.pos + 1, rest }
  | [] => .error .outOfBounds c

/-- Two bytes. -/
def u16 : Read UInt16 := fun c =>
  match c.rest with
  | a :: b :: rest => .ok (Bytes.toU16 a b) { c with pos := c.pos + 2, rest }
  | _ => .error .outOfBounds c

/-- Four bytes. -/
def u32 : Read UInt32 := fun c =>
  match c.rest with
  | a :: b :: d :: e :: rest => .ok (Bytes.toU32 a b d e) { c with pos := c.pos + 4, rest }
  | _ => .error .outOfBounds c

/-- Eight bytes, in two steps of four. -/
def u64 : Read UInt64 := do
  let high ← u32
  let low ← u32
  return Bytes.toU64 high low

/-- A signed byte. -/
def i8 : Read Int8 :=
  return (← u8).toInt8

/-- Two bytes, signed. -/
def i16 : Read Int16 :=
  return (← u16).toInt16

/-- Four bytes, signed. -/
def i32 : Read Int32 :=
  return (← u32).toInt32

/-- Four bytes of length and then that many bytes. -/
def lengthPrefixed : Read Bytes := do
  let length ← u32
  bytes length.toNat

/-- The answer of a computation with the bytes that it took. -/
def consumed {α : Type} (r : Read α) : Read (α × Bytes) := fun c =>
  match r c with
  | .ok a c' => .ok (a, c.rest.take (c'.pos - c.pos)) c'
  | .error e c' => .error e c'

end Read

/-- The answers of `n` runs of a computation, in order. -/
@[specialize]
def repeated {m : Type → Type} [Monad m] {α : Type} (n : Nat) (r : m α) : m (List α) :=
  go [] n
where
  /-- Runs the computation `n` more times; `acc` holds the earlier answers in reverse. -/
  go (acc : List α) : Nat → m (List α)
    | 0 => pure acc.reverse
    | n + 1 => do
      let a ← r
      go (a :: acc) n

/-- Runs a step `n` times, each from the state that the one before it left. -/
@[specialize]
def iterated {m : Type → Type} [Monad m] {σ : Type} (step : σ → m σ) : Nat → σ → m σ
  | 0, s => pure s
  | n + 1, s => do
    let s ← step s
    iterated step n s

end JvmFold
