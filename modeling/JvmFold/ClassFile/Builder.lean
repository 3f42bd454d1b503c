import JvmFold.ClassFile.Basic

/-!
# Building Classes

Classes are built step by step from nothing. A step adds what it needs to the
pool, and the first step that fails fails the whole class. The limits of a
method's frame are worked out from its instructions unless they are given:
the local variables from the parameters and the accesses, the stack from the
effects of the instructions along the text, where an instruction that control
does not pass starts from an empty stack again.

## Main definitions

* `Build`: A computation that builds a class.
* `MethodDraft`, `FieldDraft`: Members as they are described to the builder.
* `Build.addMethod`, `Build.addField` and the other steps.
* `estimateStack`: The depth of the stack along the text of a body.
-/

namespace JvmFold

/-- A computation that builds a class. -/
abbrev Build := EStateM Error ClassFile

/-- A field as it is described to the builder. -/
structure FieldDraft where
  /-- The access flags. -/
  access : Access
  /-- The name. -/
  name : String
  /-- The descriptor. -/
  descriptor : String
  /-- The value it starts with. -/
  constant : Option Constant := none
  /-- The types of its annotations, and whether each is visible. -/
  markers : List (String × Bool) := []

/-- A method with a body as it is described to the builder. -/
structure MethodDraft where
  /-- The access flags. -/
  access : Access
  /-- The name. -/
  name : String
  /-- The descriptor. -/
  descriptor : String
  /-- The instructions. -/
  instructions : List Instruction
  /-- The exception handlers. -/
  handlers : List Handler := []
  /-- The depth of the stack, if it is given. -/
  maxStack : Option UInt16 := none
  /-- The number of local variables, if it is given. -/
  maxLocals : Option UInt16 := none
  /-- The types of its annotations, and whether each is visible. -/
  markers : List (String × Bool) := []
  /-- The names of the parameters, if they are recorded. -/
  parameterNames : Option (List String) := none

/-- The depth of the stack along the text of a body, at least the one slot that a handler starts
    with. An effect that is not known counts as two slots pushed. -/
def estimateStack (l : List Instruction) : UInt16 :=
  let step (s : UInt16 × UInt16) (i : Instruction) : UInt16 × UInt16 :=
    let (pop, push) := i.stackEffect?.getD (0, 2)
    let depth := (s.1.toNat - pop).toUInt16 + push.toUInt16
    (if i.opcode?.any Opcode.isUnconditionalTransfer then 0 else depth, max s.2 depth)
  max (l.foldl step (0, 0)).2 1

/-- One more than the last slot that an instruction accesses. -/
def usedSlots : Instruction → UInt16
  | .var op index =>
    index + match op with
      | .lload | .dload | .lstore | .dstore => 2
      | _ => 1
  | .iinc index _ => index + 1
  | _ => 0

/-- The number of local variables of a body: those of the receiver and the parameters and those that
    the instructions access. -/
def estimateLocals (type : MethodType) (isStatic : Bool) (l : List Instruction) : UInt16 :=
  let arguments := type.parameterSlots.toUInt16 + if isStatic then 0 else 1
  l.foldl (fun n i => max n (usedSlots i)) arguments

namespace Build

/-- Adds to the pool of the class. -/
def edit {α : Type} (e : Pool.Edit α) : Build α := fun c =>
  match e c.pool with
  | .ok a pool => .ok a { c with pool }
  | .error err pool => .error err { c with pool }

/-- Makes the class an enumeration. -/
def makeEnum : Build Unit :=
  modify fun c =>
    { c with
      access := c.access.including (Access.enumFlag ||| Access.finalFlag)
      superName := some "java/lang/Enum" }

/-- Annotates the class. -/
def annotate (descriptor : String) (visible : Bool) : Build Unit := do
  let a ← edit (AnnotationRecord.marker descriptor visible)
  modify fun c => { c with annotations := c.annotations ++ [a] }

/-- Changes the field at a position. -/
def modifyField (index : Nat) (f : Field → Field) : Build Unit :=
  modify fun c => { c with fields := c.fields.modify index f }

/-- Changes the method at a position. -/
def modifyMethod (index : Nat) (f : Method → Method) : Build Unit :=
  modify fun c => { c with methods := c.methods.modify index f }

/-- Annotates the method at a position. -/
def annotateMethod (index : Nat) (descriptor : String) (visible : Bool) : Build Unit := do
  let a ← edit (AnnotationRecord.marker descriptor visible)
  modifyMethod index fun m => { m with annotations := m.annotations ++ [a] }

/-- The method that links call sites for concatenating strings. -/
def concatFactory : Member :=
  ⟨"java/lang/invoke/StringConcatFactory", "makeConcatWithConstants",
    "(Ljava/lang/invoke/MethodHandles$Lookup;Ljava/lang/String;Ljava/lang/invoke/MethodType;"
      ++ "Ljava/lang/String;[Ljava/lang/Object;)Ljava/lang/invoke/CallSite;"⟩

/-- The kind of a handle that calls a static method. -/
def invokeStaticKind : UInt8 := 6

/-- Adds a bootstrap method. -/
def addBootstrap (b : BootstrapMethod) : Build Unit :=
  modify fun c => { c with bootstraps := c.bootstraps ++ [b] }

/-- Adds a bootstrap method for concatenating strings by a recipe. -/
def addConcatBootstrap (recipe : String) : Build Unit := do
  let handle ← edit (Pool.addMethodHandle invokeStaticKind concatFactory false)
  let recipe ← edit (Pool.addString recipe)
  addBootstrap ⟨handle, [recipe]⟩

/-- Adds a field. -/
def addField (d : FieldDraft) : Build Unit := do
  let annotations ← d.markers.mapM fun (t, visible) => edit (AnnotationRecord.marker t visible)
  modify fun c =>
    { c with fields := c.fields ++
        [{ access := d.access, name := d.name, descriptor := d.descriptor, constant := d.constant,
           annotations }] }

/-- Adds a method without a body. -/
def addAbstractMethod (access : Access) (name descriptor : String) : Build Unit :=
  modify fun c => { c with methods := c.methods ++ [{ access, name, descriptor }] }

/-- The attribute that records the names of parameters. -/
def parameterAttribute (names : List String) : Pool.Edit Attribute := do
  let entries ← names.mapM fun n => return Bytes.ofU16 (← Pool.addUtf8 n) ++ Bytes.ofU16 0
  return ⟨"MethodParameters", names.length.toUInt8 :: entries.flatten⟩

/-- Adds a method with a body. -/
def addMethod (d : MethodDraft) : Build Unit := do
  let type ← match MethodType.parse d.descriptor with
    | .ok t => pure t
    | .error e => throw e
  let body : Body :=
    { maxStack := d.maxStack.getD (estimateStack d.instructions)
      maxLocals := d.maxLocals.getD (estimateLocals type d.access.isStatic d.instructions)
      instructions := d.instructions
      handlers := d.handlers }
  let annotations ← d.markers.mapM fun (t, visible) => edit (AnnotationRecord.marker t visible)
  let attributes ← match d.parameterNames with
    | some names => pure [← edit (parameterAttribute names)]
    | none => pure []
  modify fun c =>
    { c with methods := c.methods ++
        [{ access := d.access, name := d.name, descriptor := d.descriptor, body := some body,
           annotations, attributes }] }

/-- Adds a constructor that only calls that of the superclass. -/
def addDefaultConstructor : Build Unit := do
  let superName := (← get).superName.getD "java/lang/Object"
  addMethod
    { access := ⟨Access.publicFlag⟩, name := "<init>", descriptor := "()V"
      instructions :=
        [.var .aload 0, .invoke .invokespecial ⟨superName, "<init>", "()V"⟩ false,
          .simple .voidReturn] }

end Build

end JvmFold
