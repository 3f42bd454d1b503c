import JvmFold.ClassFile.Basic
import JvmFold.Pool.Format

/-!
# Reading Class Files

Reads a class file from bytes, either in full or in outline, where the bodies
of methods stay bytes until someone asks for them. Bytes behind the class are
an error.

## Main definitions

* `ReadMode`: Whether bodies are decoded.
* `ClassFile.AttributeTable`: Attributes sorted by what they hold.
* `ClassFile.parse`: Reads a class file.
-/

namespace JvmFold

/-- Whether the bodies of methods are decoded. -/
inductive ReadMode where
  | full
  | outline
deriving DecidableEq, Inhabited, Repr

namespace ClassFile

/-- An attribute: the text of its name and its contents. -/
def readAttribute (pool : Pool) : Read Attribute := do
  let name ← Read.lift (pool.text (← Read.u16))
  let data ← Read.lengthPrefixed
  return { name, data }

/-- The annotations in an attribute, if it is one of annotations. -/
def annotationsOf? (pool : Pool) (a : Attribute) : Option (Except Error (List AnnotationRecord)) :=
  if a.name = "RuntimeVisibleAnnotations" then some ((Annotations.read pool true).parse a.data)
  else if a.name = "RuntimeInvisibleAnnotations" then
    some ((Annotations.read pool false).parse a.data)
  else none

/-- The attributes of a class, field or method, sorted by what they hold. -/
structure AttributeTable (α : Type) where
  /-- What the attribute holds that only such a thing has; the last one counts. -/
  own : Option α := none
  /-- The annotations. -/
  annotations : Array AnnotationRecord := #[]
  /-- The attributes that are kept as bytes. -/
  others : Array Attribute := #[]

/-- Reads an attribute into the table. -/
def readAttributeInto {α : Type} (pool : Pool) (own? : Attribute → Option (Except Error α))
    (t : AttributeTable α) : Read (AttributeTable α) := do
  let a ← readAttribute pool
  match own? a with
  | some found => return { t with own := some (← Read.lift found) }
  | none =>
    match annotationsOf? pool a with
    | some found => return { t with annotations := t.annotations ++ (← Read.lift found) }
    | none => return { t with others := t.others.push a }

/-- Reads a list of attributes after its count. -/
def readAttributes {α : Type} (pool : Pool) (own? : Attribute → Option (Except Error α)) :
    Read (AttributeTable α) := do
  iterated (readAttributeInto pool own?) (← Read.u16).toNat {}

/-- The constant that a field starts with, if the attribute holds it. -/
def constantOf? (pool : Pool) (field : String) (a : Attribute) : Option (Except Error Constant) :=
  if a.name = "ConstantValue" then
    some do
      let index ← Read.u16.parse a.data
      match ← pool.entry index with
      | .integer v => return .int v
      | .float b => return .float b
      | .long v => return .long v
      | .double b => return .double b
      | .string t => return .string (← pool.text t)
      | other => throw (.malformed (.notFieldConstant field other))
  else none

/-- Reads a field. -/
def readField (pool : Pool) : Read Field := do
  let access ← Read.u16
  let name ← Read.lift (pool.text (← Read.u16))
  let descriptor ← Read.lift (pool.text (← Read.u16))
  let t ← readAttributes pool (constantOf? pool name)
  return { access := ⟨access⟩, name, descriptor, constant := t.own,
           annotations := t.annotations.toList, attributes := t.others.toList }

/-- The bytes of a body, if the attribute holds them. -/
def rawBodyOf? (a : Attribute) : Option (Except Error Bytes) :=
  if a.name = "Code" then some (.ok a.data) else none

/-- Reads a method of a class. -/
def readMethod (pool : Pool) (owner : String) (mode : ReadMode) : Read Method := do
  let access ← Read.u16
  let name ← Read.lift (pool.text (← Read.u16))
  let descriptor ← Read.lift (pool.text (← Read.u16))
  let t ← readAttributes pool rawBodyOf?
  let m : Method :=
    { access := ⟨access⟩, name, descriptor, raw := t.own, annotations := t.annotations.toList,
      attributes := t.others.toList }
  match mode with
  | .full => Read.lift (m.decodeBody pool owner)
  | .outline => return m

/-- Reads a bootstrap method. -/
def readBootstrap : Read BootstrapMethod := do
  let handle ← Read.u16
  let arguments ← repeated (← Read.u16).toNat Read.u16
  return { handle, arguments }

/-- The bootstrap methods, if the attribute holds them. -/
def bootstrapsOf? (a : Attribute) : Option (Except Error (List BootstrapMethod)) :=
  if a.name = "BootstrapMethods" then
    let read : Read (List BootstrapMethod) := do repeated (← Read.u16).toNat readBootstrap
    some (read.parse a.data)
  else none

/-- Reads a class. -/
def read (mode : ReadMode) : Read ClassFile := do
  let found ← Read.u32
  if found ≠ magic then Read.malformed (.invalidMagic found)
  let minor ← Read.u16
  let major ← Read.u16
  let pool ← Pool.read
  let access ← Read.u16
  let name ← Read.lift (pool.className (← Read.u16))
  let superIndex ← Read.u16
  let superName ←
    if superIndex = 0 then pure none else some <$> Read.lift (pool.className superIndex)
  let interfaces ← repeated (← Read.u16).toNat do Read.lift (pool.className (← Read.u16))
  let fields ← repeated (← Read.u16).toNat (readField pool)
  let methods ← repeated (← Read.u16).toNat (readMethod pool name mode)
  let t ← readAttributes pool bootstrapsOf?
  let rest := (← get).rest
  if !rest.isEmpty then Read.malformed (.trailingBytes rest.length name)
  return { minor, major, pool, access := ⟨access⟩, name, superName, interfaces, fields, methods,
           annotations := t.annotations.toList, bootstraps := t.own.getD [],
           attributes := t.others.toList }

/-- Reads a class file. -/
def parse (data : Bytes) (mode : ReadMode) : Except Error ClassFile :=
  if data.isEmpty then .error .empty else (read mode).parse data

end ClassFile

end JvmFold
