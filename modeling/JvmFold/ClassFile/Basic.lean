import JvmFold.Annotations
import JvmFold.Body.Decode

/-!
# Class Files

A class file is its constant pool, its fields and methods, and attributes. The
attributes that the library understands are taken apart; all others are kept
as bytes. A method keeps the bytes of its body beside the decoded form, so
that a body nobody changed is written back as it was read.

## Main definitions

* `Access`: The access flags.
* `Field`, `Method`, `ClassFile`: The parts of a class.
* `Method.parameterNames`: The recorded names of the parameters.
* `ClassFile.decodeBodies`: Decodes the bodies that were left as bytes.
-/

namespace JvmFold

/-- The access flags of a class, field or method. -/
structure Access where
  /-- The flags as bits. -/
  bits : UInt16
deriving DecidableEq, Inhabited, Repr

namespace Access

/-- Whether all the given flags are set. -/
def has (a : Access) (flags : UInt16) : Bool :=
  a.bits &&& flags == flags

/-- The flags together with others. -/
def including (a : Access) (flags : UInt16) : Access :=
  ⟨a.bits ||| flags⟩

/-- Accessible from everywhere. -/
def publicFlag : UInt16 := 0x0001
/-- Belongs to the class rather than to its objects. -/
def staticFlag : UInt16 := 0x0008
/-- Not to be overridden or assigned again. -/
def finalFlag : UInt16 := 0x0010
/-- Set on every class that is not an interface. -/
def superFlag : UInt16 := 0x0020
/-- Implemented outside the class file. -/
def nativeFlag : UInt16 := 0x0100
/-- An interface. -/
def interfaceFlag : UInt16 := 0x0200
/-- Without a body. -/
def abstractFlag : UInt16 := 0x0400
/-- An enumeration. -/
def enumFlag : UInt16 := 0x4000

/-- Whether the member belongs to the class rather than to its objects. -/
def isStatic (a : Access) : Bool :=
  a.has staticFlag

/-- Whether the member is final. -/
def isFinal (a : Access) : Bool :=
  a.has finalFlag

end Access

/-- An attribute that is kept as bytes. -/
structure Attribute where
  /-- The name. -/
  name : String
  /-- The contents. -/
  data : Bytes
deriving DecidableEq, Inhabited, Repr

/-- A bootstrap method of call sites. -/
structure BootstrapMethod where
  /-- The pool index of the method handle. -/
  handle : UInt16
  /-- The pool indices of the static arguments. -/
  arguments : List UInt16
deriving DecidableEq, Inhabited, Repr

/-- A field of a class. -/
structure Field where
  /-- The access flags. -/
  access : Access
  /-- The name. -/
  name : String
  /-- The descriptor. -/
  descriptor : String
  /-- The value that a static field starts with. -/
  constant : Option Constant := none
  /-- The annotations. -/
  annotations : List AnnotationRecord := []
  /-- The other attributes. -/
  attributes : List Attribute := []
deriving DecidableEq, Inhabited, Repr

namespace Field

/-- The name and descriptor. -/
def signature (f : Field) : Signature :=
  ⟨f.name, f.descriptor⟩

/-- Whether the field belongs to the class. -/
def isStatic (f : Field) : Bool :=
  f.access.isStatic

/-- Whether the field is static and final. -/
def isStaticFinal (f : Field) : Bool :=
  f.access.has (Access.staticFlag ||| Access.finalFlag)

/-- Whether the field has an annotation of the type. -/
def isMarked (f : Field) (descriptor : String) : Bool :=
  f.annotations.any (·.descriptor == descriptor)

end Field

/-- A method of a class. -/
structure Method where
  /-- The access flags. -/
  access : Access
  /-- The name. -/
  name : String
  /-- The descriptor. -/
  descriptor : String
  /-- The decoded body. -/
  body : Option Body := none
  /-- The bytes that the body was read from. -/
  raw : Option Bytes := none
  /-- The annotations. -/
  annotations : List AnnotationRecord := []
  /-- The other attributes. -/
  attributes : List Attribute := []
deriving DecidableEq, Inhabited, Repr

namespace Method

/-- The name and descriptor. -/
def signature (m : Method) : Signature :=
  ⟨m.name, m.descriptor⟩

/-- Whether the method has no receiver. -/
def isStatic (m : Method) : Bool :=
  m.access.isStatic

/-- Whether the method has no body of its own in the class file. -/
def isAbstract (m : Method) : Bool :=
  m.access.bits &&& (Access.abstractFlag ||| Access.nativeFlag) != 0

/-- Whether the method has an annotation of the type. -/
def isMarked (m : Method) (descriptor : String) : Bool :=
  m.annotations.any (·.descriptor == descriptor)

/-- What a body needs to know of the method of a class. -/
def info (m : Method) (owner : String) : MethodInfo :=
  ⟨⟨owner, m.name, m.descriptor⟩, m.isStatic⟩

/-- Reads the recorded names of parameters; nothing if one has no name. -/
def readParameterNames (pool : Pool) : Read (Option (List String)) := do
  let count ← Read.u8
  go count.toNat []
where
  /-- Reads `n` more names; `acc` holds the earlier ones in reverse. -/
  go : Nat → List String → Read (Option (List String))
    | 0, acc => return some acc.reverse
    | n + 1, acc => do
      let index ← Read.u16
      Read.skip 2
      if index = 0 then return none
      let name ← Read.lift (pool.text index)
      go n (name :: acc)

/-- The names of parameters by their slots, the first of which is `slot`; nothing if one has no
    name. -/
def namesBySlot (locals : List (UInt16 × String)) (slot : Nat) :
    List FieldType → Option (List String)
  | [] => some []
  | t :: rest => do
    let (_, name) ← locals.find? fun l => l.1.toNat == slot % 65536
    return name :: (← namesBySlot locals (slot + t.slots) rest)

/-- The recorded names of the parameters: from the attribute for them if its length is right, else
    from the local variables that are live at the start of the body. -/
def parameterNames (m : Method) (pool : Pool) : Except Error (Option (List String)) := do
  let type ← MethodType.parse m.descriptor
  let fromLocals : Except Error (Option (List String)) := do
    match m.raw with
    | none => return none
    | some raw =>
      let locals ← Body.parameterNames raw pool
      return namesBySlot locals (if m.isStatic then 0 else 1) type.parameters
  match m.attributes.find? (·.name == "MethodParameters") with
  | none => fromLocals
  | some found =>
    match ← (readParameterNames pool).parse found.data with
    | none => return none
    | some names =>
      if names.length = type.parameters.length then return some names else fromLocals

end Method

/-- A class file. -/
structure ClassFile where
  /-- The minor version of the format. -/
  minor : UInt16 := 0
  /-- The major version of the format. -/
  major : UInt16 := 52
  /-- The constant pool. -/
  pool : Pool := .empty
  /-- The access flags. -/
  access : Access := ⟨Access.publicFlag ||| Access.superFlag⟩
  /-- The internal name. -/
  name : String
  /-- The internal name of the superclass. -/
  superName : Option String := some "java/lang/Object"
  /-- The internal names of the interfaces. -/
  interfaces : List String := []
  /-- The fields. -/
  fields : List Field := []
  /-- The methods. -/
  methods : List Method := []
  /-- The annotations. -/
  annotations : List AnnotationRecord := []
  /-- The bootstrap methods of call sites. -/
  bootstraps : List BootstrapMethod := []
  /-- The other attributes. -/
  attributes : List Attribute := []
deriving Inhabited

namespace ClassFile

/-- The four bytes at the start of every class file. -/
def magic : UInt32 := 0xCAFEBABE

/-- The method that initializes a class. -/
def initializer : Signature :=
  ⟨"<clinit>", "()V"⟩

/-- The method of a signature. -/
def method? (c : ClassFile) (s : Signature) : Option Method :=
  c.methods.find? fun m => m.signature == s

/-- The field of a signature. -/
def field? (c : ClassFile) (s : Signature) : Option Field :=
  c.fields.find? fun f => f.signature == s

/-- Whether the class is an interface. -/
def isInterface (c : ClassFile) : Bool :=
  c.access.has Access.interfaceFlag

/-- Whether the class is an enumeration. -/
def isEnum (c : ClassFile) : Bool :=
  c.access.has Access.enumFlag && c.superName == some "java/lang/Enum"

/-- Whether the class has an annotation of the type. -/
def isMarked (c : ClassFile) (descriptor : String) : Bool :=
  c.annotations.any (·.descriptor == descriptor)

/-- The class with every decoded body marked as changed. -/
def markModified (c : ClassFile) : ClassFile :=
  { c with methods := c.methods.map fun m =>
      { m with body := m.body.map fun b => { b with modified := true } } }

/-- A method of the class as a member. -/
def methodMember (c : ClassFile) (m : Method) : Member :=
  m.signature.on c.name

/-- A field of the class as a member. -/
def fieldMember (c : ClassFile) (f : Field) : Member :=
  f.signature.on c.name

end ClassFile

/-- Decodes the body of a method of a class if it was left as bytes. -/
def Method.decodeBody (pool : Pool) (owner : String) (m : Method) : Except Error Method :=
  match m.body, m.raw with
  | none, some raw => do
    return { m with body := some (← Body.decode raw pool (m.info owner)) }
  | _, _ => .ok m

/-- Decodes the methods up to the first that fails. Answers the methods, those behind the failure
    unchanged, and the failure. -/
def ClassFile.decodeMethods (pool : Pool) (owner : String) :
    List Method → List Method × Option Error
  | [] => ([], none)
  | m :: rest =>
    match m.decodeBody pool owner with
    | .error e => (m :: rest, some e)
    | .ok m =>
      let (rest, e) := decodeMethods pool owner rest
      (m :: rest, e)

/-- Decodes the bodies that were left as bytes. A body that fails leaves those in front of it
    decoded. -/
def ClassFile.decodeBodies (c : ClassFile) : ClassFile × Option Error :=
  let (methods, e) := decodeMethods c.pool c.name c.methods
  ({ c with methods }, e)

end JvmFold
