import JvmFold.Body.Encode
import JvmFold.ClassFile.Basic
import JvmFold.Pool.Format

/-!
# Writing Class Files

Writes a class file to bytes. The pool of the class is the start of the pool
that is written: whatever the class refers to and the pool lacks is added at
the end, so bytes that refer to the pool, such as bodies nobody changed and
attributes that are not understood, keep their meaning.

## Main definitions

* `ClassFile.toBytes`: The bytes of a class file.
-/

namespace JvmFold

namespace ClassFile

/-- A count of at most 65535; `what` is named in the error. -/
def countBytes (count : Nat) (what : String) : Pool.Edit Bytes :=
  if 65535 < count then throw (.tooMany what count) else pure (Bytes.ofCount count)

/-- The attributes that hold annotations: the visible ones, then the others. -/
def annotationAttributes (l : List AnnotationRecord) : List Attribute :=
  let visible := l.filter (·.visible)
  let invisible := l.filter (!·.visible)
  (if visible.isEmpty then [] else [⟨"RuntimeVisibleAnnotations", Annotations.bytes visible⟩])
    ++ if invisible.isEmpty then []
      else [⟨"RuntimeInvisibleAnnotations", Annotations.bytes invisible⟩]

/-- An attribute. -/
def attributeBytes (a : Attribute) : Pool.Edit Bytes :=
  if UInt32.size ≤ a.data.length then throw (.attributeTooLong a.name)
  else Body.attributeBytes a.name a.data

/-- A list of attributes after its count. -/
def attributesBytes (l : List Attribute) : Pool.Edit Bytes := do
  let count ← countBytes l.length "attributes"
  return count ++ (← l.mapM attributeBytes).flatten

/-- The attribute of the constant that a field starts with. -/
def fieldConstantAttribute (f : Field) : Pool.Edit (List Attribute) :=
  match f.constant with
  | none => pure []
  | some c =>
    match c with
    | .classRef _ | .pool _ => throw (.malformed (.invalidFieldConstant c f.name))
    | _ => return [⟨"ConstantValue", Bytes.ofU16 (← Pool.addConstant c)⟩]

/-- The access flags, the name and the descriptor of a field or method. -/
def headerBytes (access : Access) (s : Signature) : Pool.Edit Bytes := do
  let name ← Pool.addUtf8 s.name
  let descriptor ← Pool.addUtf8 s.descriptor
  return Bytes.ofU16 access.bits ++ Bytes.ofU16 name ++ Bytes.ofU16 descriptor

/-- A field. -/
def fieldBytes (f : Field) : Pool.Edit Bytes := do
  let header ← headerBytes f.access f.signature
  let constant ← fieldConstantAttribute f
  let attributes ←
    attributesBytes (constant ++ annotationAttributes f.annotations ++ f.attributes)
  return header ++ attributes

/-- The attribute of a body: the bytes it was read from unless it was changed. -/
def bodyAttribute (owner : String) (m : Method) : Pool.Edit (List Attribute) :=
  let encoded (b : Body) : Pool.Edit (List Attribute) := do
    return [⟨"Code", ← b.encode (m.signature.on owner)⟩]
  match m.body, m.raw with
  | some b, some raw => if b.modified then encoded b else pure [⟨"Code", raw⟩]
  | some b, none => encoded b
  | none, some raw => pure [⟨"Code", raw⟩]
  | none, none => pure []

/-- A method of a class. -/
def methodBytes (owner : String) (m : Method) : Pool.Edit Bytes := do
  let header ← headerBytes m.access m.signature
  let body ← bodyAttribute owner m
  let attributes ← attributesBytes (body ++ annotationAttributes m.annotations ++ m.attributes)
  return header ++ attributes

/-- The attribute of the bootstrap methods. -/
def bootstrapAttribute (l : List BootstrapMethod) : List Attribute :=
  if l.isEmpty then []
  else
    let entry (b : BootstrapMethod) : Bytes :=
      Bytes.ofU16 b.handle ++ Bytes.ofCount b.arguments.length ++ b.arguments.flatMap Bytes.ofU16
    [⟨"BootstrapMethods", Body.tableBytes (l.map entry)⟩]

/-- Everything behind the pool. -/
def bodyBytes (c : ClassFile) : Pool.Edit Bytes := do
  let name ← Pool.addClass c.name
  let superName ← match c.superName with
    | some name => Pool.addClass name
    | none => pure 0
  let interfaceCount ← countBytes c.interfaces.length "interfaces"
  let interfaces ← c.interfaces.mapM Pool.addClass
  let fieldCount ← countBytes c.fields.length "fields"
  let fields ← c.fields.mapM fieldBytes
  let methodCount ← countBytes c.methods.length "methods"
  let methods ← c.methods.mapM (methodBytes c.name)
  let attributes ← attributesBytes
    (annotationAttributes c.annotations ++ bootstrapAttribute c.bootstraps ++ c.attributes)
  return Bytes.ofU16 c.access.bits ++ Bytes.ofU16 name ++ Bytes.ofU16 superName
    ++ interfaceCount ++ interfaces.flatMap Bytes.ofU16
    ++ fieldCount ++ fields.flatten ++ methodCount ++ methods.flatten ++ attributes

/-- The bytes of a class file. -/
def toBytes (c : ClassFile) : Except Error Bytes :=
  match c.bodyBytes c.pool with
  | .error e _ => .error e
  | .ok body pool =>
    .ok (Bytes.ofU32 magic ++ Bytes.ofU16 c.minor ++ Bytes.ofU16 c.major ++ pool.bytes ++ body)

end ClassFile

end JvmFold
