import JvmFold.Descriptor

/-!
# Recipes

An object that no instruction loads can still be put into a body, if there is
code that makes an equal one. A recipe says which code: a constructor or a
static method, together with how to read its arguments back from an object, or
a static field that holds such an object.

Two recipes are the same if they name the same member in the same way. How the
arguments are read back does not count, so a list of recipes can be cleared of
repetitions before anybody asks which accessors win.

## Main definitions

* `Accessor`: How an argument is read back from an object.
* `Recipe`: How an equal object is made.
* `Recipe.same`: Whether two recipes name the same member in the same way.
-/

namespace JvmFold

/-- The ways to read a part of an object. -/
inductive AccessorKind where
  | field
  /-- A method without parameters. -/
  | getter
deriving DecidableEq, Inhabited, Repr

/-- How an argument is read back from an object. -/
structure Accessor where
  /-- Whether a field is read or a method called. -/
  kind : AccessorKind
  /-- The field, or the method without parameters. -/
  member : Member
  /-- The type that the value is passed on as. -/
  type : FieldType
deriving DecidableEq, Inhabited, Repr

namespace Accessor

/-- A read of a field of a type. -/
def ofField (owner name : String) (type : FieldType) : Accessor :=
  ⟨.field, ⟨owner, name, type.descriptor⟩, type⟩

/-- A call of a method without parameters that answers a value of a type. -/
def ofGetter (owner name : String) (type : FieldType) : Accessor :=
  ⟨.getter, ⟨owner, name, "()" ++ type.descriptor⟩, type⟩

end Accessor

/-- The ways to make an object. -/
inductive RecipeKind where
  | constructor
  /-- A static method. -/
  | factory
  /-- A static field that holds the object. -/
  | staticField
deriving DecidableEq, Inhabited, Repr

/-- How an equal object is made. -/
structure Recipe where
  /-- The way to make it. -/
  kind : RecipeKind
  /-- The constructor, method or field. -/
  member : Member
  /-- How the arguments are read back, in the order of the parameters. -/
  accessors : List Accessor := []
deriving DecidableEq, Inhabited, Repr

namespace Recipe

/-- A call of a constructor. -/
def ofConstructor (owner descriptor : String) (accessors : List Accessor) : Recipe :=
  ⟨.constructor, ⟨owner, "<init>", descriptor⟩, accessors⟩

/-- A call of a static method. -/
def ofFactory (method : Member) (accessors : List Accessor) : Recipe :=
  ⟨.factory, method, accessors⟩

/-- A read of a static field. -/
def ofField (field : Member) : Recipe :=
  ⟨.staticField, field, []⟩

/-- Whether the recipe makes an object rather than reading one. -/
def isExecutable (r : Recipe) : Bool :=
  r.kind != .staticField

/-- Whether two recipes name the same member in the same way. -/
def same (a b : Recipe) : Bool :=
  a.kind == b.kind && a.member == b.member

/-- The form shown in messages. -/
def display (r : Recipe) : String :=
  r.member.display

end Recipe

end JvmFold
