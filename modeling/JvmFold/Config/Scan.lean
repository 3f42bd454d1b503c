import JvmFold.Config.Marker
import JvmFold.Config.Predicate
import JvmFold.Event.Basic
import JvmFold.Recipe.Selector

/-!
# Scanning for Markers

The classes of a universe are read for markers in the order of their names.
What is marked becomes constant, or a recipe for the objects of a class. The
arguments of a recipe are read back by getters, which are found by the names
of the parameters.

Enumerations need no markers: their enumerators are constant and can be used
again, and a method that finds an enumerator by its name is a recipe for those
enumerations that have no other.

A marker where it makes no sense is an error, and so are two recipes for one
class and a parameter without exactly one getter.

## Main definitions

* `Scan`: What a scan has found.
* `Accessor.resolve`: Finds the getters for the parameters of a recipe.
* `Scan.ofUniverse`: Scans all classes.
-/

namespace JvmFold

/-- What a scan has found. -/
structure Scan where
  /-- The classes whose members are all constant. -/
  types : Std.TreeSet String := ∅
  /-- The constant fields. -/
  fields : Std.TreeSet Member := ∅
  /-- The constant methods with their conditions. -/
  methods : Std.TreeMap Member Predicate := ∅
  /-- What makes objects again, by class and in the order of discovery. -/
  alternatives : Std.TreeMap String (List Alternative) := ∅
  /-- The executable recipe of a class. -/
  executables : Std.TreeMap String Recipe := ∅
  /-- The recipes of enumerations, for those that get no other. -/
  enumFactories : List (String × Recipe) := []
  /-- The events. -/
  log : EventLog := #[]

/-- A step of a scan. -/
abbrev Scanning := StateT Scan (Except Error)

/-- Whether two names are equal up to the case of the letters of the basic alphabet. -/
def sameIgnoringCase (a b : String) : Bool :=
  a.toList.map Char.toLower == b.toList.map Char.toLower

namespace Accessor

/-- Whether a method reads the part of an object that a parameter stands for. -/
def isGetter (parameter : String) (type : FieldType) (m : Method) : Bool :=
  !m.isStatic && m.descriptor == "()" ++ type.descriptor && m.name.toList.head? != some '<'
    && (sameIgnoringCase m.name parameter || sameIgnoringCase m.name ("get" ++ parameter))

/-- All getters for a parameter on a class and above it, in order. -/
def getters (u : Universe) (valueType parameter : String) (type : FieldType) : List Member :=
  ((u.ancestors valueType).filterMap u.class?).flatMap fun c =>
    (c.methods.filter (isGetter parameter type)).map c.methodMember

/-- The getters for a parameter, one for each spelling: the first. -/
def candidates (u : Universe) (valueType parameter : String) (type : FieldType) : List Member :=
  (getters u valueType parameter type).eraseDupsBy fun a b => a.name == b.name

/-- The getter for a parameter, which has to be the only one. -/
def resolveOne (u : Universe) (valueType executable : String) (index : Nat)
    (parameter : String × FieldType) : Except Error Accessor :=
  match candidates u valueType parameter.1 parameter.2 with
  | [] => .error (.missingAccessor executable index parameter.1)
  | [g] => .ok (ofGetter g.owner g.name parameter.2)
  | l => .error (.ambiguousAccessor executable index (l.map (·.name)))

/-- The getters for the parameters of a constructor or static method. -/
def resolve (u : Universe) (c : ClassFile) (m : Method) (valueType : String) :
    Except Error (List Accessor) := do
  let executable := (c.methodMember m).display
  match (← MethodType.parse m.descriptor).parameters with
  | [] => return []
  | parameters =>
    match ← m.parameterNames c.pool with
    | none => throw (.missingParameterNames executable)
    | some names =>
      (names.zip parameters).zipIdx.mapM fun (p, i) => resolveOne u valueType executable i p

end Accessor

namespace Scan

/-- The error of a marker where it makes no sense. -/
def invalid {α : Type} (m : Member) (reason : String) : Scanning α :=
  throw (.invalidMarker m.display reason)

/-- Adds a way to make objects of a class again. -/
def addAlternative (name : String) (a : Alternative) : Scanning Unit :=
  modify fun r =>
    { r with alternatives := r.alternatives.alter name fun l => some (l.getD [] ++ [a]) }

/-- The type of the objects of a class, as a descriptor. -/
def ownType (c : ClassFile) : String :=
  "L" ++ c.name ++ ";"

/-- The enumerators of a class. -/
def enumerators (c : ClassFile) : List Member :=
  (c.fields.filter fun f =>
    f.access.has (Access.enumFlag ||| Access.staticFlag) && f.descriptor == ownType c).map
      c.fieldMember

/-- How the name of an enumerator is read. -/
def enumName : Accessor :=
  .ofGetter "java/lang/Enum" "name" (.object "java/lang/String")

/-- The method that finds an enumerator by its name. -/
def valueOf (c : ClassFile) : Signature :=
  ⟨"valueOf", "(Ljava/lang/String;)" ++ ownType c⟩

/-- Scans an enumeration. -/
def scanEnum (c : ClassFile) : Scanning Unit := do
  let found := enumerators c
  modify fun r => { r with fields := r.fields.insertMany found }
  if !found.isEmpty then addAlternative c.name (.reuse found)
  if (c.method? (valueOf c)).any (·.isStatic) then
    let factory := Recipe.ofFactory ((valueOf c).on c.name) [enumName]
    modify fun r => { r with enumFactories := r.enumFactories ++ [(c.name, factory)] }
  else
    let text := "enum " ++ dotted c.name
      ++ " has no valueOf(String); only its enumerators are reusable"
    modify fun r => { r with log := r.log.info text }

/-- Whether a field is left out although it is marked: it is transient or made by a compiler. -/
def isHidden (f : Field) : Bool :=
  f.access.bits &&& (0x0080 ||| 0x1000) != 0

/-- Scans a field that holds an object to be used again. -/
def scanReusable (c : ClassFile) (f : Field) : Scanning Unit := do
  let member := c.fieldMember f
  if !f.isStatic then invalid member "reusable instances must be static fields"
  match ← FieldType.parse f.descriptor with
  | .object name =>
    if isHidden f then
      let text := "skipping transient or synthetic reusable instance " ++ member.display
      modify fun r => { r with log := r.log.warn text }
    else addAlternative name (.reuse [member])
  | .array _ => invalid member "array-typed fields cannot be reused"
  | _ => invalid member "primitive-typed fields need no reconstruction"

/-- Scans a field. -/
def scanField (c : ClassFile) (f : Field) : Scanning Unit := do
  if f.isMarked Marker.constant.descriptor then
    modify fun r => { r with fields := r.fields.insert (c.fieldMember f) }
  if f.isMarked Marker.reconstructor.descriptor then scanReusable c f

/-- The class that a marked method makes objects of, and the recipe. -/
def recipeOf (u : Universe) (c : ClassFile) (m : Method) : Scanning (String × Recipe) := do
  let member := c.methodMember m
  if member.isConstructor then
    return (c.name, .ofConstructor c.name m.descriptor (← Accessor.resolve u c m c.name))
  else if m.isStatic then
    match (← MethodType.parse m.descriptor).result with
    | some (.object name) =>
      return (name, .ofFactory member (← Accessor.resolve u c m name))
    | _ => invalid member "factories must return an object type"
  else invalid member "instance methods cannot reconstruct values"

/-- Adds the recipe of a class, which must not have one yet. -/
def addRecipe (name : String) (recipe : Recipe) : Scanning Unit := do
  match (← get).executables.get? name with
  | some existing =>
    throw (.duplicateReconstructor (dotted name) existing.display recipe.display)
  | none =>
    modify fun r => { r with executables := r.executables.insert name recipe }
    addAlternative name (.recipe recipe)

/-- Scans a method. -/
def scanMethod (u : Universe) (c : ClassFile) (m : Method) : Scanning Unit := do
  let member := c.methodMember m
  let isConstant := m.isMarked Marker.constant.descriptor
  let isRecipe := m.isMarked Marker.reconstructor.descriptor
  if (isConstant || isRecipe) && m.name == "<clinit>" then
    invalid member "static initializers cannot be marked"
  if isConstant then
    modify fun r =>
      { r with methods := r.methods.insert member (.forMember member m.isStatic) }
  if isRecipe then
    let (name, recipe) ← recipeOf u c m
    addRecipe name recipe

/-- Scans a class. -/
def scanClass (u : Universe) (c : ClassFile) : Scanning Unit := do
  if c.isMarked Marker.constantType.descriptor then
    modify fun r => { r with types := r.types.insert c.name }
  if c.isEnum then scanEnum c
  c.fields.forM (scanField c)
  c.methods.forM (scanMethod u c)

/-- Adds the recipes of those enumerations that have no other. -/
def addEnumFactories : Scanning Unit := do
  let r ← get
  (r.enumFactories.filter fun f => !r.executables.contains f.1).forM fun (name, factory) =>
    addAlternative name (.recipe factory)

/-- Scans all classes. -/
def ofUniverse (u : Universe) : Except Error Scan := do
  let scan : Scanning Unit := do
    u.entries.forM fun e => scanClass u e.outline
    addEnumFactories
  return (← scan.run {}).2

end Scan

end JvmFold
