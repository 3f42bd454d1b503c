import JvmFold.Config.Predicate
import JvmFold.Event.Basic
import JvmFold.Natives.Table
import JvmFold.Recipe.Selector

/-!
# Defaults for the Platform

The classes of the platform carry no markers, so what is constant in them
stands here. Only methods that the machine can run are listed: for most
classes all that are built in, less those that hand out arrays or call into
the program, and for the rest a choice.

Boxes are made again by the method that boxes a value.

## Main definitions

* `Defaults.methods`: The constant methods of the platform.
* `Defaults.recipes`: How boxes are made again.
-/

namespace JvmFold

namespace Defaults

/-- The classes of which nearly all built-in methods are constant. -/
def pureOwners : List String :=
  ["java/lang/String", "java/lang/Math"] ++ Wrapper.all.map (·.className)

/-- The methods of these classes that take or hand out arrays or call into the program. -/
def excluded : List Signature :=
  [⟨"<init>", "([C)V"⟩, ⟨"<init>", "([CII)V"⟩, ⟨"<init>", "(Ljava/lang/StringBuilder;)V"⟩,
   ⟨"toCharArray", "()[C"⟩, ⟨"valueOf", "([C)Ljava/lang/String;"⟩,
   ⟨"valueOf", "(Ljava/lang/Object;)Ljava/lang/String;"⟩,
   ⟨"join", "(Ljava/lang/CharSequence;[Ljava/lang/CharSequence;)Ljava/lang/String;"⟩]

/-- The constant methods of enumerators. -/
def enumMethods : List Signature :=
  [⟨"name", "()Ljava/lang/String;"⟩, ⟨"toString", "()Ljava/lang/String;"⟩, ⟨"ordinal", "()I"⟩,
   ⟨"equals", "(Ljava/lang/Object;)Z"⟩, ⟨"compareTo", "(Ljava/lang/Enum;)I"⟩,
   ⟨"compareTo", "(Ljava/lang/Object;)I"⟩, ⟨"getDeclaringClass", "()Ljava/lang/Class;"⟩,
   ⟨"valueOf", "(Ljava/lang/Class;Ljava/lang/String;)Ljava/lang/Enum;"⟩]

/-- The types that are appended to a builder by a constant method. -/
def appended : List String :=
  ["Ljava/lang/String;", "I", "J", "F", "D", "Z", "C"]

/-- The constant methods of builders. -/
def builderMethods : List Signature :=
  [⟨"<init>", "()V"⟩, ⟨"<init>", "(I)V"⟩, ⟨"<init>", "(Ljava/lang/String;)V"⟩, ⟨"length", "()I"⟩,
   ⟨"toString", "()Ljava/lang/String;"⟩]
  ++ appended.map fun t => ⟨"append", "(" ++ t ++ ")Ljava/lang/StringBuilder;"⟩

/-- Whether a built-in method is constant by its class. -/
def isPure (m : Member) : Bool :=
  pureOwners.contains m.owner
    && !(m.owner == "java/lang/String" && excluded.contains m.signature)

/-- The constant methods of the platform. -/
def members : List Member :=
  (Natives.members.map Prod.fst).filter isPure
  ++ (enumMethods.map (·.on "java/lang/Enum")
    ++ builderMethods.map (·.on "java/lang/StringBuilder")).filter Natives.contains

/-- The constant methods of the platform with their conditions; every call is accepted. -/
def methods : Std.TreeMap Member Predicate :=
  Std.TreeMap.ofList (members.map fun m => (m, Predicate.allowAll))

/-- The method that reads the value of a box. -/
def unboxing : Wrapper → String
  | .integer => "intValue"
  | .long => "longValue"
  | .short => "shortValue"
  | .byte => "byteValue"
  | .float => "floatValue"
  | .double => "doubleValue"
  | .boolean => "booleanValue"
  | .character => "charValue"

/-- How a box is made again. -/
def boxing (w : Wrapper) : Recipe :=
  .ofFactory
    ⟨w.className, "valueOf", "(" ++ w.primitive.descriptor ++ ")L" ++ w.className ++ ";"⟩
    [.ofGetter w.className (unboxing w) w.primitive]

/-- How boxes are made again, by their class. -/
def recipes : List (String × Selector) :=
  Wrapper.all.map fun w => (w.className, .only (.recipe (boxing w)))

end Defaults

end JvmFold
