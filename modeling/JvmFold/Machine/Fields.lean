import JvmFold.Machine.Throwable

/-!
# Classes and Fields

Reading and writing fields, making objects, and bringing a class to life. A
class is initialized when it is first used: its superclass comes first, then
its static fields get the values they start with, and then its initializer
runs, once. A class whose initializer throws is failed for good.

A field is named by some class and belongs to the one that declares it, which
may be a superclass or an interface. A few static fields of the platform are
built in.

## Main definitions

* `BuiltinField`: The static fields of the platform.
* `Emu.startClass`: Initializes a class.
* `Emu.getStatic`, `Emu.putStatic`, `Emu.getField`, `Emu.putField`: Access to fields.
* `Emu.instantiate`: Makes an object.
-/

namespace JvmFold

/-- The word for the type of the values that a wrapper holds. -/
def Wrapper.keyword (w : Wrapper) : String :=
  w.primitive.display

/-- The static fields of the platform that the machine knows. -/
inductive BuiltinField where
  /-- The class object of the type that a wrapper holds. -/
  | typeOf (wrapper : Wrapper)
  /-- A box of a truth value. -/
  | truth (value : Bool)
deriving DecidableEq, Repr

namespace BuiltinField

/-- All of them. -/
def all : List BuiltinField :=
  Wrapper.all.map .typeOf ++ [.truth true, .truth false]

/-- The field as a member. -/
def member : BuiltinField → Member
  | .typeOf w => ⟨w.className, "TYPE", "Ljava/lang/Class;"⟩
  | .truth true => ⟨"java/lang/Boolean", "TRUE", "Ljava/lang/Boolean;"⟩
  | .truth false => ⟨"java/lang/Boolean", "FALSE", "Ljava/lang/Boolean;"⟩

/-- The field of a member. -/
def ofMember? (m : Member) : Option BuiltinField :=
  all.find? fun f => f.member == m

/-- The value of the field. -/
def read : BuiltinField → Emu Value
  | .typeOf w => Emu.classObject w.keyword
  | .truth b => Emu.boxed .boolean (.ofBool b)

end BuiltinField

namespace Emu

/-- The value of a constant. -/
def constant : Constant → Emu Value
  | .int v => return .int v
  | .float b => return .float b
  | .long v => return .long v
  | .double b => return .double b
  | .string text => intern text
  | .classRef name => classObject name
  | .pool index => throw (.unsupported (.poolConstant index))

/-- Notes how far the initialization of a class has come. -/
def setInitState (name : String) (state : InitState) : Emu Unit :=
  modify fun s => { s with initialized := s.initialized.insert name state }

/-- Gives a static field a value. -/
def setStatic (m : Member) (v : Value) : Emu Unit :=
  modify fun s => { s with statics := s.statics.insert m v }

/-- Gives the static fields of a class the values they start with. -/
def startStatics (c : ClassFile) : Emu Unit :=
  (c.fields.filter (·.isStatic)).forM fun f => do
    let v ← match f.constant with
      | some k => constant k
      | none => pure (Value.defaultFor f.descriptor)
    setStatic (c.fieldMember f) v

/-- Throws what an exception of an initializer is seen as: an error stays, anything else becomes the
    cause of an error. -/
def raiseFromInitializer {α : Type} (exception : HeapRef) : Emu α := do
  if ← isInstance (.ref exception) "java/lang/Error" then throw (.thrown exception)
  else
    let wrapper ← newThrowable "java/lang/ExceptionInInitializerError" none
    setField wrapper Throwable.causeField (.ref exception)
    throw (.thrown wrapper)

/-- Runs the initializer of a class. -/
def runInitializer (c : ClassFile) (name : String) : Emu Unit := do
  if (c.method? ClassFile.initializer).isSome then
    try
      let _ ← call (.bytecode (ClassFile.initializer.on name)) []
    catch fault =>
      setInitState name .failed
      match fault with
      | .thrown exception => raiseFromInitializer exception
      | other => throw other

/-- Initializes a class that nothing has been done for. -/
def startClass (c : ClassFile) (name : String) : Emu Unit := do
  setInitState name .inProgress
  if let some parent := c.superName then
    try initClass parent
    catch fault =>
      setInitState name .failed
      throw fault
  startStatics c
  runInitializer c name
  setInitState name .done

/-- Initializes a class unless that has begun before. A class outside the universe has nothing to
    initialize. -/
def useClass (name : String) : Emu Unit := do
  match (← get).initialized[name]? with
  | some .done | some .inProgress => return
  | some .failed =>
    raise "java/lang/NoClassDefFoundError" (some ("Could not initialize class " ++ dotted name))
  | none =>
    match (← classes).class? name with
    | none => return
    | some c => startClass c name

/-- Whether the initialization of a class has come to its end. -/
def isInitialized (name : String) : Emu Bool := do
  return (← get).initialized[name]? == some .done

/-- The value of a static field. -/
def getStatic (f : Member) : Emu Value := do
  match (← classes).fieldOwner? f with
  | some owner =>
    initClass owner
    let key := f.withOwner owner
    match (← get).statics[key]? with
    | some v => return v
    | none => throw (.noSuchField key)
  | none =>
    match BuiltinField.ofMember? f with
    | some b => b.read
    | none =>
      if (← classes).contains f.owner || isPlatformType f.owner then throw (.noSuchField f)
      else throw (.classNotFound f.owner)

/-- Changes a static field. -/
def putStatic (f : Member) (v : Value) : Emu Unit := do
  match (← classes).fieldOwner? f with
  | none => throw (.noSuchField f)
  | some owner =>
    initClass owner
    setStatic (f.withOwner owner) v

/-- The field as the class that declares it names it. -/
def declaredField (f : Member) : Emu Member := do
  match (← classes).fieldOwner? f with
  | some owner => return f.withOwner owner
  | none => return f

/-- The value of a field of an object. -/
def getField (object : Value) (f : Member) : Emu Value := do
  match ← lift object.asReference with
  | none =>
    raiseNull (some ("Cannot read field \"" ++ f.name ++ "\" because value is null"))
  | some r =>
    let key ← declaredField f
    match ← Emu.object r with
    | .instance _ fields => return (fields.get? key).getD (Value.defaultFor f.descriptor)
    | o => throw (.unsupported (.fieldOf f o.className))

/-- Changes a field of an object. -/
def putField (object : Value) (f : Member) (v : Value) : Emu Unit := do
  match ← lift object.asReference with
  | none =>
    raiseNull (some ("Cannot assign field \"" ++ f.name ++ "\" because value is null"))
  | some r =>
    let key ← declaredField f
    match ← Emu.object r with
    | .instance _ _ => setField r key v
    | _ => throw (.unsupported (.platformField f))

/-- The fields of a new object of a class with the values they start with. -/
def startFields (u : Universe) (name : String) : Fields :=
  ((u.ancestors name).filterMap u.class?).foldl
    (fun fields c =>
      if c.isInterface then fields
      else (c.fields.filter (!·.isStatic)).foldl
        (fun fields f => fields.set (c.fieldMember f) (Value.defaultFor f.descriptor)) fields)
    []

/-- Makes an object of a class. -/
def instantiate (name : String) : Emu HeapRef := do
  initClass name
  if name = "java/lang/String" then alloc (.string #[])
  else if name = "java/lang/StringBuilder" then alloc (.builder #[])
  else
    match Wrapper.ofClassName? name with
    | some w => alloc (.boxed w (.int 0))
    | none =>
      let u ← classes
      if u.contains name then alloc (.instance name (startFields u name))
      else if isPlatformType name then alloc (.instance name [])
      else throw (.classNotFound name)

end Emu

end JvmFold
