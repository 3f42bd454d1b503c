import JvmFold.Natives.Basic

/-!
# Class Objects

What an object that stands for a class tells about it: its names, and its
place in the hierarchy. Primitive types have such objects as well, under the
words that source code has for them.

## Main definitions

* `Natives.classMethods`: The methods of class objects.
* `Natives.simpleName`: The name of a class without what it is nested in.
-/

namespace JvmFold

namespace Natives

/-- The name of the class that a value stands for. -/
def classNameOf (v : Value) : Emu String := do
  match ← Emu.lift v.asReference with
  | none => Emu.raiseNull
  | some r =>
    match ← Emu.object r with
    | .classObject name => return name
    | _ => throw (Value.mismatch "java/lang/Class" v)

/-- Whether the name is the word for a primitive type or for no type. -/
def isPrimitiveName (name : String) : Bool :=
  ["int", "long", "short", "byte", "char", "float", "double", "boolean", "void"].contains name

/-- What follows the last occurrence of a mark. -/
def afterLast (mark : Char) (cs : List Char) : List Char :=
  (cs.reverse.takeWhile (· != mark)).reverse

/-- The name without packages and enclosing classes; nothing is left of a class without a name of
    its own, whose last part is a number. -/
def lastName (name : String) : String :=
  let unqualified := afterLast '/' name.toList
  let nested := afterLast '$' unqualified
  if nested.all Char.isDigit && nested != unqualified then "" else String.ofList nested

/-- The name of a class without what it is nested in, that of an array after its component. The
    first argument bounds the nesting of arrays. -/
def simpleNameWithin : Nat → String → String
  | 0, name => name
  | bound + 1, name =>
    if (arrayComponent? name).isSome then
      match FieldType.parse name with
      | .ok (.array component) =>
        simpleNameWithin bound (component.className?.getD component.display) ++ "[]"
      | _ => name
    else lastName name

/-- The name of a class without what it is nested in. -/
def simpleName (name : String) : String :=
  simpleNameWithin (name.length + 1) name

/-- The interfaces of the platform that class objects know to be interfaces. -/
def platformInterfaces : List String :=
  ["java/lang/Comparable", "java/lang/CharSequence", "java/io/Serializable",
   "java/lang/Cloneable"]

/-- Whether the class is an interface of the universe. -/
def declaredInterface (name : String) : Emu Bool := do
  return ((← Emu.classes).class? name).any (·.isInterface)

/-- The class with the word for its kind. -/
def describeClass : Native := fun args => do
  let name ← classNameOf (← arg args 0)
  if isPrimitiveName name then text name
  else if ← declaredInterface name then text ("interface " ++ dotted name)
  else text ("class " ++ dotted name)

/-- The methods of class objects. -/
def classMethods : List Builtin :=
  [method "getName" "()Ljava/lang/String;" fun args => do
     text (dotted (← classNameOf (← arg args 0))),
   method "getSimpleName" "()Ljava/lang/String;" fun args => do
     text (simpleName (← classNameOf (← arg args 0))),
   method "toString" "()Ljava/lang/String;" describeClass,
   method "isInstance" "(Ljava/lang/Object;)Z" fun args => do
     let name ← classNameOf (← arg args 0)
     bool (← Emu.isInstance (← arg args 1) name),
   method "isAssignableFrom" "(Ljava/lang/Class;)Z" fun args => do
     let name ← classNameOf (← arg args 0)
     let other ← classNameOf (← arg args 1)
     if isPrimitiveName name || isPrimitiveName other then bool (name == other)
     else bool ((← Emu.classes).isSubtype other name),
   method "isArray" "()Z" fun args => do
     bool (arrayComponent? (← classNameOf (← arg args 0))).isSome,
   method "isPrimitive" "()Z" fun args => do
     bool (isPrimitiveName (← classNameOf (← arg args 0))),
   method "isInterface" "()Z" fun args => do
     let name ← classNameOf (← arg args 0)
     bool ((← declaredInterface name) || platformInterfaces.contains name),
   method "desiredAssertionStatus" "()Z" fun _ => bool false]

end Natives

end JvmFold
