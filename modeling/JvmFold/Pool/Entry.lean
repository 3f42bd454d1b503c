import JvmFold.Bytes.Basic
import JvmFold.Decimal.Layout
import JvmFold.Text.Quoted

/-!
# Constant Pool Entries

The entries of the table through which a class file names everything: texts,
numbers, classes, members and call sites. An entry refers to others by index.
A text keeps the bytes it was read from beside its decoded form, because bytes
that do not decode to proper characters must still be written back unchanged.

## Main definitions

* `PoolEntry`: One entry.
* `PoolEntry.describe`: The form shown in messages.
-/

namespace JvmFold

/-- One entry of the constant pool. -/
inductive PoolEntry where
  /-- The entry of index zero, and the second index of an entry of eight bytes. -/
  | unusable
  | utf8 (text : String) (raw : Bytes)
  | integer (value : Int32)
  | float (bits : Bits32)
  | long (value : Int64)
  | double (bits : Bits64)
  | classRef (name : UInt16)
  | string (text : UInt16)
  | fieldRef (owner nameAndType : UInt16)
  | methodRef (owner nameAndType : UInt16)
  | interfaceMethodRef (owner nameAndType : UInt16)
  | nameAndType (name descriptor : UInt16)
  | methodHandle (kind : UInt8) (reference : UInt16)
  | methodType (descriptor : UInt16)
  | dynamic (bootstrap nameAndType : UInt16)
  | invokeDynamic (bootstrap nameAndType : UInt16)
  | moduleName (name : UInt16)
  | packageName (name : UInt16)
deriving DecidableEq, Inhabited, Repr

namespace PoolEntry

/-- Whether the entry takes up two indices. -/
def isWide : PoolEntry → Bool
  | .long _ | .double _ => true
  | _ => false

/-- A name with one argument in parentheses. -/
private def single (name argument : String) : String :=
  name ++ "(" ++ argument ++ ")"

/-- A name with labelled arguments in braces. -/
private def labelled (name : String) (arguments : List (String × String)) : String :=
  name ++ " \x7b " ++ ", ".intercalate (arguments.map fun a => a.1 ++ ": " ++ a.2) ++ " \x7d"

/-- The form shown in messages. -/
def describe : PoolEntry → String
  | .unusable => "Unusable"
  | .utf8 text raw =>
    labelled "Utf8" [("text", Text.quoted text),
      ("raw", "[" ++ ", ".intercalate (raw.map fun b => toString b.toNat) ++ "]")]
  | .integer value => single "Integer" (toString value.toInt)
  | .float bits => single "Float" (Layout.entry.single bits)
  | .long value => single "Long" (toString value.toInt)
  | .double bits => single "Double" (Layout.entry.double bits)
  | .classRef name => single "Class" (toString name.toNat)
  | .string text => single "String" (toString text.toNat)
  | .fieldRef c n =>
    labelled "FieldRef" [("class", toString c.toNat), ("name_and_type", toString n.toNat)]
  | .methodRef c n =>
    labelled "MethodRef" [("class", toString c.toNat), ("name_and_type", toString n.toNat)]
  | .interfaceMethodRef c n =>
    labelled "InterfaceMethodRef"
      [("class", toString c.toNat), ("name_and_type", toString n.toNat)]
  | .nameAndType n d =>
    labelled "NameAndType" [("name", toString n.toNat), ("descriptor", toString d.toNat)]
  | .methodHandle k r =>
    labelled "MethodHandle" [("kind", toString k.toNat), ("reference", toString r.toNat)]
  | .methodType d => single "MethodType" (toString d.toNat)
  | .dynamic b n =>
    labelled "Dynamic" [("bootstrap", toString b.toNat), ("name_and_type", toString n.toNat)]
  | .invokeDynamic b n =>
    labelled "InvokeDynamic" [("bootstrap", toString b.toNat), ("name_and_type", toString n.toNat)]
  | .moduleName n => single "Module" (toString n.toNat)
  | .packageName n => single "Package" (toString n.toNat)

end PoolEntry

end JvmFold
