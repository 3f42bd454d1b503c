import Std.Data.HashMap
import JvmFold.Bytes.Cursor
import JvmFold.Text.ModifiedUtf8

/-!
# Constant Pools

The pool of a class is an array of entries; index zero and the second index of
an entry of eight bytes are unusable. Adding an entry that is already there
answers the index it has. Two texts count as the same if they decode to the
same text, whatever their bytes; numbers are compared bit by bit. Handles and
the rarer kinds are not looked up this way, except that a method handle is
searched for among the entries.

A step that adds several entries keeps those added before it fails, so adding
is a computation with state rather than a function to a new pool.

## Main definitions

* `Pool`: The entries with the index of the first entry of each key.
* `Pool.entry`, `Pool.text`, `Pool.className`, `Pool.nameAndType`, `Pool.member`: Reading.
* `Pool.Edit`: A computation that adds entries.
* `Pool.addUtf8` and the other additions.
-/

namespace JvmFold

/-- What makes two entries the same when one is added. -/
inductive PoolKey where
  | utf8 (text : String)
  | integer (value : Int32)
  | float (bits : Bits32)
  | long (value : Int64)
  | double (bits : Bits64)
  | classRef (name : UInt16)
  | string (text : UInt16)
  | fieldRef (owner nameAndType : UInt16)
  | methodRef (owner nameAndType : UInt16)
  | interfaceMethodRef (owner nameAndType : UInt16)
  | nameAndType (name descriptor : UInt16)
  | invokeDynamic (bootstrap nameAndType : UInt16)
deriving DecidableEq, Hashable, Inhabited, Repr

/-- The key of an entry, if entries of its kind are looked up. -/
def PoolEntry.key? : PoolEntry → Option PoolKey
  | .utf8 text _ => some (.utf8 text)
  | .integer v => some (.integer v)
  | .float b => some (.float b)
  | .long v => some (.long v)
  | .double b => some (.double b)
  | .classRef n => some (.classRef n)
  | .string t => some (.string t)
  | .fieldRef c n => some (.fieldRef c n)
  | .methodRef c n => some (.methodRef c n)
  | .interfaceMethodRef c n => some (.interfaceMethodRef c n)
  | .nameAndType n d => some (.nameAndType n d)
  | .invokeDynamic b n => some (.invokeDynamic b n)
  | _ => none

/-- A constant pool. -/
structure Pool where
  /-- The entries, the unusable ones included. -/
  entries : Array PoolEntry
  /-- The first index of each key. -/
  lookup : Std.HashMap PoolKey UInt16

namespace Pool

/-- The pool with no entry but the unusable one at index zero. -/
def empty : Pool :=
  ⟨#[.unusable], ∅⟩

instance : Inhabited Pool := ⟨empty⟩

/-- The number of indices, that of index zero included. -/
def size (p : Pool) : Nat :=
  p.entries.size

/-- Whether there is nothing but the entry at index zero. -/
def isEmpty (p : Pool) : Bool :=
  p.size ≤ 1

/-- The entry at an index. -/
def entry (p : Pool) (index : UInt16) : Except Error PoolEntry :=
  match p.entries[index.toNat]? with
  | none | some .unusable => .error (.malformed (.invalidPoolIndex index))
  | some entry => .ok entry

/-- The text at an index. -/
def text (p : Pool) (index : UInt16) : Except Error String := do
  match ← p.entry index with
  | .utf8 text _ => return text
  | other => throw (.malformed (.notUtf8 index other))

/-- The name of the class at an index. -/
def className (p : Pool) (index : UInt16) : Except Error String := do
  match ← p.entry index with
  | .classRef name => p.text name
  | other => throw (.malformed (.notClass index other))

/-- The name and descriptor at an index. -/
def nameAndType (p : Pool) (index : UInt16) : Except Error Signature := do
  match ← p.entry index with
  | .nameAndType name descriptor => return ⟨← p.text name, ← p.text descriptor⟩
  | other => throw (.malformed (.notNameAndType index other))

/-- The member at an index, and whether it belongs to an interface. -/
def member (p : Pool) (index : UInt16) : Except Error (Member × Bool) := do
  let resolve (owner nameAndType : UInt16) (isInterface : Bool) : Except Error (Member × Bool) := do
    let owner ← p.className owner
    let signature ← p.nameAndType nameAndType
    return (signature.on owner, isInterface)
  match ← p.entry index with
  | .fieldRef owner nat | .methodRef owner nat => resolve owner nat false
  | .interfaceMethodRef owner nat => resolve owner nat true
  | other => throw (.malformed (.notMember index other))

/-- Puts an entry at the end. Its key is found under the given index, unless it was found before. -/
def record (p : Pool) (index : UInt16) (entry : PoolEntry) : Pool where
  entries := if entry.isWide then (p.entries.push entry).push .unusable else p.entries.push entry
  lookup :=
    match entry.key? with
    | some key => p.lookup.insertIfNew key index
    | none => p.lookup

/-- Puts an entry at the end, where its key is found under the index it gets. -/
def append (p : Pool) (entry : PoolEntry) : Pool :=
  p.record p.size.toUInt16 entry

/-- A computation that adds entries to a pool. -/
abbrev Edit := EStateM Error Pool

/-- The index of an entry with the same key, if there is one. -/
def find? (p : Pool) (entry : PoolEntry) : Option UInt16 :=
  entry.key?.bind fun key => p.lookup[key]?

/-- Answers the index of an equal entry, or adds the entry at the end. -/
def push (entry : PoolEntry) : Edit UInt16 := fun p =>
  match p.find? entry with
  | some index => .ok index p
  | none =>
    let size := p.size
    if 65535 < size + (if entry.isWide then 2 else 1) then .error (.poolOverflow size) p
    else .ok size.toUInt16 (p.append entry)

/-- Adds a text. -/
def addUtf8 (text : String) : Edit UInt16 := fun p =>
  match p.lookup[PoolKey.utf8 text]? with
  | some index => .ok index p
  | none =>
    let raw := ModifiedUtf8.encode text
    if ModifiedUtf8.maxLength < raw.length then .error (.stringTooLong raw.length) p
    else push (.utf8 text raw) p

/-- Adds a class. -/
def addClass (name : String) : Edit UInt16 := do
  push (.classRef (← addUtf8 name))

/-- Adds a string constant. -/
def addString (text : String) : Edit UInt16 := do
  push (.string (← addUtf8 text))

/-- Adds a name and descriptor. -/
def addNameAndType (name descriptor : String) : Edit UInt16 := do
  let name ← addUtf8 name
  let descriptor ← addUtf8 descriptor
  push (.nameAndType name descriptor)

/-- Adds a field. -/
def addField (m : Member) : Edit UInt16 := do
  let owner ← addClass m.owner
  let nat ← addNameAndType m.name m.descriptor
  push (.fieldRef owner nat)

/-- Adds a method of a class or of an interface. -/
def addMethod (m : Member) (isInterface : Bool) : Edit UInt16 := do
  let owner ← addClass m.owner
  let nat ← addNameAndType m.name m.descriptor
  push (if isInterface then .interfaceMethodRef owner nat else .methodRef owner nat)

/-- Adds a handle of a method. -/
def addMethodHandle (kind : UInt8) (m : Member) (isInterface : Bool) : Edit UInt16 := do
  let reference ← addMethod m isInterface
  match (← get).entries.findIdx? (· == .methodHandle kind reference) with
  | some index => return index.toUInt16
  | none => push (.methodHandle kind reference)

/-- Adds a call site. -/
def addInvokeDynamic (bootstrap : UInt16) (name descriptor : String) : Edit UInt16 := do
  let nat ← addNameAndType name descriptor
  push (.invokeDynamic bootstrap nat)

/-- Adds a constant; one that is named by its index has that index. -/
def addConstant : Constant → Edit UInt16
  | .int v => push (.integer v)
  | .float b => push (.float b)
  | .long v => push (.long v)
  | .double b => push (.double b)
  | .string t => addString t
  | .classRef n => addClass n
  | .pool index => pure index

end Pool

end JvmFold
