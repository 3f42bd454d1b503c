/-!
# Platform Types

Classes of the platform are not read from class files. The ones that the
machine implements stand in a table with their place in the type hierarchy, so
that a question about subtypes can cross from a program's classes to them.

## Main definitions

* `PlatformType`: A class of the platform with its superclass and interfaces.
* `PlatformType.all`: The table.
* `isPlatformType`: Whether a name is in the table or the root of the hierarchy.
-/

namespace JvmFold

/-- The root of the type hierarchy. -/
def objectClass : String := "java/lang/Object"

/-- A class of the platform. -/
structure PlatformType where
  /-- The internal name. -/
  name : String
  /-- The internal name of the superclass. -/
  superName : String := objectClass
  /-- The internal names of the interfaces. -/
  interfaces : List String := []
deriving DecidableEq, Repr

namespace PlatformType

/-- An exception or error that adds nothing to its superclass. -/
def throwable (name superName : String) : PlatformType :=
  { name, superName }

/-- A box of a number. -/
def number (name : String) : PlatformType :=
  { name, superName := "java/lang/Number", interfaces := ["java/lang/Comparable"] }

/-- The classes that the machine implements. -/
def all : List PlatformType :=
  [{ name := "java/lang/String"
     interfaces := ["java/io/Serializable", "java/lang/Comparable", "java/lang/CharSequence"] },
   { name := "java/lang/StringBuilder"
     superName := "java/lang/AbstractStringBuilder"
     interfaces := ["java/io/Serializable", "java/lang/CharSequence", "java/lang/Appendable"] },
   { name := "java/lang/AbstractStringBuilder"
     interfaces := ["java/lang/Appendable", "java/lang/CharSequence"] },
   { name := "java/lang/Number", interfaces := ["java/io/Serializable"] },
   number "java/lang/Integer",
   number "java/lang/Long",
   number "java/lang/Short",
   number "java/lang/Byte",
   number "java/lang/Float",
   number "java/lang/Double",
   { name := "java/lang/Boolean"
     interfaces := ["java/io/Serializable", "java/lang/Comparable"] },
   { name := "java/lang/Character"
     interfaces := ["java/io/Serializable", "java/lang/Comparable"] },
   { name := "java/lang/Enum"
     interfaces := ["java/lang/Comparable", "java/io/Serializable"] },
   { name := "java/lang/Class", interfaces := ["java/io/Serializable"] },
   { name := "java/lang/Math" },
   { name := "java/lang/System" },
   { name := "java/util/Objects" },
   { name := "java/lang/Throwable", interfaces := ["java/io/Serializable"] },
   throwable "java/lang/Exception" "java/lang/Throwable",
   throwable "java/lang/Error" "java/lang/Throwable",
   throwable "java/lang/RuntimeException" "java/lang/Exception",
   throwable "java/lang/CloneNotSupportedException" "java/lang/Exception",
   throwable "java/lang/ReflectiveOperationException" "java/lang/Exception",
   throwable "java/lang/IllegalArgumentException" "java/lang/RuntimeException",
   throwable "java/lang/NumberFormatException" "java/lang/IllegalArgumentException",
   throwable "java/lang/IllegalStateException" "java/lang/RuntimeException",
   throwable "java/lang/ArithmeticException" "java/lang/RuntimeException",
   throwable "java/lang/NullPointerException" "java/lang/RuntimeException",
   throwable "java/lang/ClassCastException" "java/lang/RuntimeException",
   throwable "java/lang/ArrayStoreException" "java/lang/RuntimeException",
   throwable "java/lang/NegativeArraySizeException" "java/lang/RuntimeException",
   throwable "java/lang/UnsupportedOperationException" "java/lang/RuntimeException",
   throwable "java/lang/IndexOutOfBoundsException" "java/lang/RuntimeException",
   throwable "java/lang/ArrayIndexOutOfBoundsException" "java/lang/IndexOutOfBoundsException",
   throwable "java/lang/StringIndexOutOfBoundsException" "java/lang/IndexOutOfBoundsException",
   throwable "java/lang/LinkageError" "java/lang/Error",
   throwable "java/lang/ExceptionInInitializerError" "java/lang/LinkageError",
   throwable "java/lang/NoClassDefFoundError" "java/lang/LinkageError",
   throwable "java/lang/VirtualMachineError" "java/lang/Error",
   throwable "java/lang/StackOverflowError" "java/lang/VirtualMachineError",
   throwable "java/lang/OutOfMemoryError" "java/lang/VirtualMachineError",
   throwable "java/lang/AssertionError" "java/lang/Error"]

/-- The entry of a name. -/
def find? (name : String) : Option PlatformType :=
  all.find? fun t => t.name == name

end PlatformType

/-- Whether the machine knows the class without a class file. -/
def isPlatformType (name : String) : Bool :=
  name == objectClass || (PlatformType.find? name).isSome

end JvmFold
