import JvmFold.ClassFile.Basic
import JvmFold.Universe.Hierarchy

/-!
# The Order of Initialization

While the initializer of a class runs, its static fields get their values one
after the other. A read in the initializer sees the final value of a field only
behind the first assignment to it, or if the field starts with its value.
Everywhere else the class is initialized already.

## Main definitions

* `InitOrder`: Where the initializer assigns which field.
* `InitOrder.isReadable`: Whether a read sees the value of a field.
* `InitOrder.isReusable`: Whether the object of a field can be used again.
-/

namespace JvmFold

/-- A field as the class that declares it names it. -/
def Universe.declaredField (u : Universe) (f : Member) : Member :=
  match u.fieldOwner? f with
  | some owner => f.withOwner owner
  | none => f

/-- A field of the class that a name is on is declared there. -/
theorem Universe.declaredField_of_field? {u : Universe} {f : Member} {c : ClassFile}
    (hc : u.class? f.owner = some c) (hf : (c.field? f.signature).isSome = true) :
    u.declaredField f = f := by
  unfold declaredField
  rw [fieldOwner?_of_field? hc hf]
  rfl

/-- Where the initializer of a class assigns which field. -/
structure InitOrder where
  /-- The class, if the method is its initializer. -/
  initializing : Option String := none
  /-- The assignments with their positions, in order. -/
  puts : List (Member × Nat) := []
  /-- The static fields that start with their values. -/
  constants : List Member := []
deriving DecidableEq, Inhabited, Repr

namespace InitOrder

/-- The assignments to static fields with their positions. -/
def putsOf (u : Universe) (code : List Instruction) : List (Member × Nat) :=
  code.zipIdx.filterMap fun
    | (.field .putstatic f, i) => some (u.declaredField f, i)
    | _ => none

/-- The order for a method of a class. -/
def ofMethod (u : Universe) (c : ClassFile) (m : Method) (code : List Instruction) : InitOrder :=
  if m.name = "<clinit>" then
    { initializing := some c.name
      puts := putsOf u code
      constants :=
        (c.fields.filter fun f => f.isStatic && f.constant.isSome).map c.fieldMember }
  else {}

/-- The position of the first assignment to a field. -/
def firstPut? (o : InitOrder) (f : Member) : Option Nat :=
  o.puts.lookup f

/-- Whether a read at a position sees the value of a field. -/
def isReadable (o : InitOrder) (f : Member) (position : Nat) : Bool :=
  if o.initializing = some f.owner then
    o.constants.contains f || (o.firstPut? f).any (· < position)
  else true

/-- Whether the object of a field can be used again at a position. The fields of a subclass cannot
    while the class is not initialized. -/
def isReusable (o : InitOrder) (u : Universe) (f : Member) (position : Nat) : Bool :=
  o.isReadable f position
    && o.initializing.all fun name => f.owner == name || !u.isSubtype f.owner name

end InitOrder

end JvmFold
