import JvmFold.Machine.Fields

/-!
# Calls

A call names a method by a class, and what runs is found from there. A static
or special call runs what the named class declares or inherits; a virtual call
goes by the class of the receiver. Where a search leaves the universe, the
methods that are built into the machine take over.

Answers of calls can be kept. A call is known again by what its arguments
stand for, so this is done only if none of them can change.

## Main definitions

* `Emu.directTarget`, `Emu.virtualTarget`, `Emu.target`: What a call runs.
* `Emu.invoke`: A call.
* `Emu.invokeOnce`: A call whose answer is kept.
* `Emu.construct`: Makes an object and calls a constructor.
* `Emu.areEqual`: Equality as the program defines it.
-/

namespace JvmFold

/-- What a search for a target comes to at a class: an end or the next class. -/
def Universe.upwardsOn (u : Universe) (test : String → Option Target) (name : String) :
    Option Target ⊕ String :=
  match test name with
  | some t => .inl (some t)
  | none =>
    match u.superclass? name with
    | none => .inl none
    | some parent => .inr parent

/-- Looks for the first class from a class upwards that passes the test. -/
def Universe.upwards (u : Universe) (test : String → Option Target) (name : String) :
    Option (Option Target) :=
  ascend name (u.upwardsOn test)

/-- The built-in method that a member stands for on a class or above it. -/
def Env.nativeTarget? (e : Env) (m : Member) : Option Target :=
  (e.program.classes.upwards
    (fun name =>
      let member := m.withOwner name
      if e.isNative member then some (.native member) else none)
    m.owner).join

/-- What a static or special call runs. -/
def Env.directTarget (e : Env) (m : Member) : Except Fault Target :=
  let u := e.program.classes
  match u.methodOwner? m with
  | some owner => .ok (.bytecode (m.withOwner owner))
  | none =>
    match e.nativeTarget? m with
    | some t => .ok t
    | none =>
      if u.contains m.owner then .error (.noSuchMethod m)
      else if isPlatformType m.owner || (arrayComponent? m.owner).isSome then
        .error (.missingNative m)
      else .error (.classNotFound m.owner)

/-- A class that has the method itself has it run. -/
theorem Env.directTarget_of_method? {e : Env} {m : Member} {c : ClassFile}
    (hc : e.program.classes.class? m.owner = some c)
    (hm : (c.method? m.signature).isSome = true) :
    e.directTarget m = .ok (.bytecode m) := by
  unfold directTarget
  dsimp only
  rw [Universe.methodOwner?_of_method? hc hm]
  rfl

/-- What a class has a virtual call run: the method of the class, or one that is built in if the
    class is not in the universe. -/
def Env.implementation? (e : Env) (m : Member) (name : String) : Option Target :=
  let member := m.withOwner name
  match e.program.classes.class? name with
  | some c => if Universe.implements m.signature c then some (.bytecode member) else none
  | none => if e.isNative member then some (.native member) else none

/-- Looks for what a virtual call on an object of the class runs: the nearest implementation on the
    way up, and then one of an interface. -/
def Env.virtualSearch (e : Env) (name : String) (m : Member) : Option (Except Fault Target) := do
  let u := e.program.classes
  match ← u.upwards (e.implementation? m) name with
  | some t => return .ok t
  | none =>
    match ← u.defaultSearch (m.withOwner name) with
    | some owner => return .ok (.bytecode (m.withOwner owner))
    | none => return .error (.missingNative (m.withOwner name))

/-- What a virtual call on an object of the class runs. -/
def Env.virtualTarget (e : Env) (name : String) (m : Member) : Except Fault Target :=
  (e.virtualSearch name m).getD (.error .outOfSteps)

/-- An object of a class that implements the method has this one run. -/
theorem Env.virtualTarget_of_implements {e : Env} {name : String} {m : Member} {c : ClassFile}
    (hc : e.program.classes.class? name = some c)
    (hm : Universe.implements m.signature c = true) :
    e.virtualTarget name m = .ok (.bytecode (m.withOwner name)) := by
  have himplementation : e.implementation? m name = some (.bytecode (m.withOwner name)) := by
    unfold implementation?
    dsimp only
    rw [hc]
    exact if_pos hm
  have hupwards : e.program.classes.upwards (e.implementation? m) name
      = some (some (.bytecode (m.withOwner name))) := by
    unfold Universe.upwards ascend Universe.upwardsOn
    rw [himplementation]
  unfold virtualTarget virtualSearch
  dsimp only
  rw [hupwards]
  rfl

namespace Emu

/-- What a static or special call runs. -/
def directTarget (m : Member) : Emu Target := do
  lift ((← read).directTarget m)

/-- What a virtual call on an object of the class runs. -/
def virtualTarget (name : String) (m : Member) : Emu Target := do
  lift ((← read).virtualTarget name m)

/-- What a call runs; the receiver decides for virtual calls. -/
def target (kind : InvokeKind) (m : Member) (receiver : Option Value) : Emu Target := do
  match kind with
  | .static | .special => directTarget m
  | .virtual | .interface =>
    match receiver with
    | none => throw .stackUnderflow
    | some v =>
      match ← lift v.asReference with
      | none =>
        raiseNull (some ("Cannot invoke \"" ++ dotted m.owner ++ "." ++ m.name
          ++ "()\" because value is null"))
      | some r => virtualTarget (← object r).className m

/-- Calls a method; the receiver is the first argument. -/
def invoke (kind : InvokeKind) (m : Member) (arguments : List Value) : Emu (Option Value) := do
  let t ← target kind m arguments.head?
  if kind = .static then initClass t.member.owner
  call t arguments

end Emu

/-- The value in a box as bits. -/
def Value.boxBits? : Value → Option UInt64
  | .int v => some v.toInt64.toUInt64
  | .long v => some v.toUInt64
  | .float b => some b.toUInt64
  | .double b => some b
  | _ => none

/-- What a value stands for, unless it refers to an object that can change. -/
def Heap.key? (h : Heap) : Value → Option ValueKey
  | .int v => some (.int v)
  | .long v => some (.long v)
  | .float b => some (.float b)
  | .double b => some (.double b)
  | .null => some .null
  | .ref r =>
    match h.get r with
    | .string units => some (.string units)
    | .boxed w v => v.boxBits?.map (.boxed w)
    | .classObject name => some (.classObject name)
    | _ => none

namespace Emu

/-- Keeps the answer of a call. -/
def remember (key : CallKey) (answer : Except HeapRef (Option Value)) : Emu Unit :=
  modify fun s => { s with answers := s.answers.insert key answer }

/-- Calls a method, or answers as it did before if that is known. Exceptions are kept like values,
    and other faults are not. -/
def invokeOnce (kind : InvokeKind) (m : Member) (arguments : List Value) :
    Emu (Option Value) := do
  match arguments.mapM (← heap).key? with
  | none => invoke kind m arguments
  | some keys =>
    let key : CallKey := ⟨kind, m, keys⟩
    match (← get).answers[key]? with
    | some (.ok v) => return v
    | some (.error exception) => throw (.thrown exception)
    | none =>
      try
        let v ← invoke kind m arguments
        remember key (.ok v)
        return v
      catch fault =>
        if let .thrown exception := fault then remember key (.error exception)
        throw fault

/-- Makes an object and calls a constructor on it. -/
def construct (constructor : Member) (arguments : List Value) : Emu Value := do
  let object := Value.ref (← instantiate constructor.owner)
  let _ ← invoke .special constructor (object :: arguments)
  return object

/-- Whether two values are the same, or objects that are equal as the first of them sees it. -/
def areEqual (a b : Value) : Emu Bool := do
  if a = b then return true
  else if !a.isReference || !b.isReference || a = .null || b = .null then return false
  else
    match ← invoke .virtual ⟨objectClass, "equals", "(Ljava/lang/Object;)Z"⟩ [a, b] with
    | some (.int v) => return v ≠ 0
    | _ => return false

end Emu

end JvmFold
