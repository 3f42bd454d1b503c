import Std.Data.TreeMap
import JvmFold.ClassFile.Reader
import JvmFold.Universe.Platform

/-!
# The Universe

All classes of a run by their internal names: the inputs proper, which are
called primary, and those of the class path. A primary class hides one of the
class path, and of two on the class path the first stays; two primary classes
of one name are an error.

Every class is read in outline when it comes in. Its bodies are decoded when
somebody first asks for them, and an error in a body shows only then.

## Main definitions

* `ClassInput`: The bytes of a class with the key they are known by.
* `ClassEntry`: A class of the universe.
* `Universe`: The classes by name.
* `Universe.insert`: Adds a class.
-/

namespace JvmFold

/-- The bytes of a class. -/
structure ClassInput where
  /-- The key by which inputs and outputs are matched. -/
  key : String
  /-- The class file. -/
  bytes : Bytes
  /-- The file that the bytes were read from. -/
  path : Option String := none
deriving Inhabited

/-- The usual key of a class. -/
def ClassInput.keyOf (name : String) : String :=
  name ++ ".class"

/-- A class of the universe. -/
structure ClassEntry where
  /-- Where the class came from. -/
  input : ClassInput
  /-- Whether the class is an input proper rather than part of the class path. -/
  primary : Bool
  /-- The class without decoded bodies. -/
  outline : ClassFile
  /-- The class with decoded bodies. -/
  decoded : Thunk (Except Error ClassFile)
deriving Inhabited

namespace ClassEntry

/-- The entry of an input. -/
def ofInput (input : ClassInput) (primary : Bool) : Except Error ClassEntry := do
  let outline ← ClassFile.parse input.bytes .outline
  return { input, primary, outline, decoded := .mk fun _ => ClassFile.parse input.bytes .full }

/-- The class with decoded bodies. -/
def full (e : ClassEntry) : Except Error ClassFile :=
  e.decoded.get

end ClassEntry

/-- The classes of a run. -/
structure Universe where
  /-- The classes by internal name. -/
  classes : Std.TreeMap String ClassEntry := ∅
deriving Inhabited

namespace Universe

/-- The class of a name. -/
def entry? (u : Universe) (name : String) : Option ClassEntry :=
  u.classes.get? name

/-- The class of a name without its bodies. -/
def class? (u : Universe) (name : String) : Option ClassFile :=
  (u.entry? name).map (·.outline)

/-- Whether there is a class of the name. -/
def contains (u : Universe) (name : String) : Bool :=
  u.classes.contains name

/-- All classes in the order of their names. -/
def entries (u : Universe) : List ClassEntry :=
  u.classes.toList.map Prod.snd

/-- The primary classes in the order of their names. -/
def primaries (u : Universe) : List ClassEntry :=
  u.entries.filter (·.primary)

/-- The universe with an entry in the place of its name. -/
def place (u : Universe) (e : ClassEntry) : Universe :=
  { classes := u.classes.insert e.outline.name e }

/-- Adds an entry: a primary class replaces one of the class path, a class of the class path never
    replaces anything, and two primary classes clash. -/
def insertEntry (u : Universe) (e : ClassEntry) : Except Error Universe :=
  match u.entry? e.outline.name with
  | none => .ok (u.place e)
  | some existing =>
    if e.primary && existing.primary then
      .error (.duplicateClass e.outline.name existing.input.key e.input.key)
    else if e.primary then .ok (u.place e)
    else .ok u

/-- Adds a class. -/
def insert (u : Universe) (input : ClassInput) (primary : Bool) : Except Error Universe := do
  u.insertEntry (← ClassEntry.ofInput input primary)

end Universe

end JvmFold
