import JvmFold.Natives.ClassObject
import JvmFold.Natives.Object

/-!
# Enumerations

A constant of an enumeration has a name and a number. Constants are the same
only if they are one object, are ordered by their numbers within one
enumeration, and can be found by name among the static fields of its class.

## Main definitions

* `Natives.enumMethods`: The methods of the constants.
-/

namespace JvmFold

namespace Natives

/-- The field that holds the name of a constant. -/
def enumNameField : Member :=
  ⟨"java/lang/Enum", "name", "Ljava/lang/String;"⟩

/-- The field that holds the number of a constant. -/
def enumOrdinalField : Member :=
  ⟨"java/lang/Enum", "ordinal", "I"⟩

/-- The enumeration of a constant's class: a constant with a body has a class of its own below it.
    -/
def enumOf (u : Universe) (name : String) : String :=
  match u.superclass? name with
  | some parent => if parent = "java/lang/Enum" then name else parent
  | none => name

/-- The enumeration that an object belongs to. -/
def enumOfObject (r : HeapRef) : Emu String := do
  return enumOf (← Emu.classes) (← Emu.object r).className

/-- The number of a constant. -/
def ordinalOf (r : HeapRef) : Emu Int32 := do
  match ← Emu.field? r enumOrdinalField with
  | some (.int v) => return v
  | _ => return 0

/-- Gives a constant its name and number. -/
def enumInit : Native := fun args => do
  let this ← receiver args
  let name ← arg args 1
  let ordinal ← argInt args 2
  Emu.setField this enumNameField name
  Emu.setField this enumOrdinalField (.int ordinal)
  void

/-- The name of a constant. -/
def enumName : Native := fun args => do
  return some ((← Emu.field? (← receiver args) enumNameField).getD .null)

/-- The order of two constants of one enumeration. -/
def enumCompare : Native := fun args => do
  let this ← receiver args
  let other ← argObject args 1
  let thisEnum ← enumOfObject this
  let otherEnum ← enumOfObject other
  if thisEnum ≠ otherEnum then raiseCast otherEnum thisEnum
  int ((← ordinalOf this) - (← ordinalOf other))

/-- The static field of a constant. -/
def enumConstant? (c : ClassFile) (name : String) : Option Field :=
  c.fields.find? fun f =>
    f.access.has (Access.enumFlag ||| Access.staticFlag)
      && f.descriptor == "L" ++ c.name ++ ";" && f.name == name

/-- The name of a class as source code writes it, nested classes included. -/
def sourceName (name : String) : String :=
  String.ofList ((dotted name).toList.map fun c => if c = '$' then '.' else c)

/-- The constant of a name. -/
def enumValueOf : Native := fun args => do
  let owner ← classNameOf (← arg args 0)
  let name ← arg args 1
  if name = .null then Emu.raiseNull (some "Name is null")
  let name := (← Emu.stringUnits name).toStringLossy
  match (← Emu.classes).class? owner with
  | none => throw (.classNotFound owner)
  | some c =>
    match enumConstant? c name with
    | some f => return some (← Emu.getStatic (c.fieldMember f))
    | none =>
      Emu.raise "java/lang/IllegalArgumentException"
        (some ("No enum constant " ++ sourceName owner ++ "." ++ name))

/-- The methods of the constants. -/
def enumMethods : List Builtin :=
  [method "<init>" "(Ljava/lang/String;I)V" enumInit,
   method "name" "()Ljava/lang/String;" enumName,
   method "toString" "()Ljava/lang/String;" enumName,
   method "ordinal" "()I" fun args => do
     return some ((← Emu.field? (← receiver args) enumOrdinalField).getD (.int 0)),
   method "equals" "(Ljava/lang/Object;)Z" sameValues,
   method "hashCode" "()I" identityHash,
   method "compareTo" "(Ljava/lang/Enum;)I" enumCompare,
   method "compareTo" "(Ljava/lang/Object;)I" enumCompare,
   method "getDeclaringClass" "()Ljava/lang/Class;" fun args => do
     return some (← Emu.classObject (← enumOfObject (← receiver args))),
   method "valueOf" "(Ljava/lang/Class;Ljava/lang/String;)Ljava/lang/Enum;" enumValueOf]

end Natives

end JvmFold
