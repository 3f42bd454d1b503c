import JvmFold.Pool.Basic

/-!
# The Written Form of Constant Pools

A pool is written as the number of its indices followed by its entries, each a
tag and its fields. The second index of an entry of eight bytes is not
written; the reader leaves it out again. The reader counts indices in 16 bits,
and an entry whose indices do not fit ends the whole program.

## Main definitions

* `PoolEntry.bytes`, `PoolEntry.read`: One entry.
* `Pool.bytes`, `Pool.read`: A whole pool.
-/

namespace JvmFold

namespace PoolEntry

/-- A tag and one index. -/
private def tagged (tag : UInt8) (index : UInt16) : Bytes :=
  tag :: Bytes.ofU16 index

/-- A tag and two indices. -/
private def taggedPair (tag : UInt8) (first second : UInt16) : Bytes :=
  tag :: (Bytes.ofU16 first ++ Bytes.ofU16 second)

/-- The written form of an entry, which is empty for an unusable one. -/
def bytes : PoolEntry → Bytes
  | .unusable => []
  | .utf8 _ raw => 1 :: (Bytes.ofCount raw.length ++ raw)
  | .integer v => 3 :: Bytes.ofU32 v.toUInt32
  | .float b => 4 :: Bytes.ofU32 b
  | .long v => 5 :: Bytes.ofU64 v.toUInt64
  | .double b => 6 :: Bytes.ofU64 b
  | .classRef n => tagged 7 n
  | .string t => tagged 8 t
  | .fieldRef c n => taggedPair 9 c n
  | .methodRef c n => taggedPair 10 c n
  | .interfaceMethodRef c n => taggedPair 11 c n
  | .nameAndType n d => taggedPair 12 n d
  | .methodHandle k r => 15 :: k :: Bytes.ofU16 r
  | .methodType d => tagged 16 d
  | .dynamic b n => taggedPair 17 b n
  | .invokeDynamic b n => taggedPair 18 b n
  | .moduleName n => tagged 19 n
  | .packageName n => tagged 20 n

/-- Reads an entry; `index` is where it will stand. -/
def read (index : UInt16) : Read PoolEntry := do
  let tag ← Read.u8
  match tag.toNat with
  | 1 => do
    let length ← Read.u16
    let raw ← Read.bytes length.toNat
    return .utf8 (← Read.lift (ModifiedUtf8.decode raw)) raw
  | 3 => return .integer (← Read.i32)
  | 4 => return .float (← Read.u32)
  | 5 => return .long (← Read.u64).toInt64
  | 6 => return .double (← Read.u64)
  | 7 => return .classRef (← Read.u16)
  | 8 => return .string (← Read.u16)
  | 9 => return .fieldRef (← Read.u16) (← Read.u16)
  | 10 => return .methodRef (← Read.u16) (← Read.u16)
  | 11 => return .interfaceMethodRef (← Read.u16) (← Read.u16)
  | 12 => return .nameAndType (← Read.u16) (← Read.u16)
  | 15 => return .methodHandle (← Read.u8) (← Read.u16)
  | 16 => return .methodType (← Read.u16)
  | 17 => return .dynamic (← Read.u16) (← Read.u16)
  | 18 => return .invokeDynamic (← Read.u16) (← Read.u16)
  | 19 => return .moduleName (← Read.u16)
  | 20 => return .packageName (← Read.u16)
  | _ => Read.malformed (.unknownPoolTag tag index)

end PoolEntry

namespace Pool

/-- The written form of a pool. -/
def bytes (p : Pool) : Bytes :=
  Bytes.ofCount p.size ++ (p.entries.toList.drop 1).flatMap PoolEntry.bytes

/-- The index behind one. Indices are counted in 16 bits, and there is none behind the last. -/
def nextIndex (index : UInt16) : Except Error UInt16 :=
  if index = 65535 then .error .aborted else .ok (index + 1)

/-- The index behind those of an entry. An entry of eight bytes has two. -/
def indexBehind (index : UInt16) (entry : PoolEntry) : Except Error UInt16 := do
  let next ← nextIndex index
  if entry.isWide then nextIndex next else return next

/-- Reads entries from an index on, until the index is `count`. An entry takes up at least one
    byte, so one round more than there are bytes left suffices. -/
def readEntries (count : UInt16) : Nat → UInt16 → Pool → Read Pool
  | 0, _, p => pure p
  | rounds + 1, index, p =>
    if index < count then do
      let entry ← PoolEntry.read index
      let next ← Read.lift (indexBehind index entry)
      readEntries count rounds next (p.record index entry)
    else pure p

/-- Reads a pool. -/
def read : Read Pool := do
  let count ← Read.u16
  if count = 0 then Read.malformed .emptyPool
  else readEntries count ((← get).rest.length + 1) 1 empty

end Pool

end JvmFold
