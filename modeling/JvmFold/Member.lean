/-!
# Members

A field or method is named by the class that owns it, its own name and its
descriptor. Lists of members in answers are ordered by these three texts, each
compared by code points.

## Main definitions

* `Member`: Owner, name and descriptor.
* `Signature`: Name and descriptor without the owner.
* `Member.display`: The form shown in messages.
* `Member.lt`: The order of members.
-/

namespace JvmFold

/-- The name of a class as the messages show it, with points between the packages. -/
def dotted (name : String) : String :=
  String.ofList (name.toList.map fun c => if c = '/' then '.' else c)

/-- A field or method named without its owner. -/
structure Signature where
  /-- The name. -/
  name : String
  /-- The descriptor. -/
  descriptor : String
deriving DecidableEq, Hashable, Inhabited, Repr

/-- A field or method of a class. -/
structure Member where
  /-- The internal name of the class. -/
  owner : String
  /-- The name. -/
  name : String
  /-- The descriptor. -/
  descriptor : String
deriving DecidableEq, Hashable, Inhabited, Repr

namespace Signature

/-- The form shown in messages. -/
def display (s : Signature) : String :=
  s.name ++ s.descriptor

/-- The member of this signature on a class. -/
def on (s : Signature) (owner : String) : Member :=
  ⟨owner, s.name, s.descriptor⟩

end Signature

namespace Member

/-- The name and descriptor alone. -/
def signature (m : Member) : Signature :=
  ⟨m.name, m.descriptor⟩

/-- The same name and descriptor on another class. -/
def withOwner (m : Member) (owner : String) : Member :=
  { m with owner }

/-- Whether the member is an instance initializer. -/
def isConstructor (m : Member) : Bool :=
  m.name == "<init>"

/-- Whether the member is a method; the descriptor of a method starts with a parenthesis. -/
def isMethod (m : Member) : Bool :=
  m.descriptor.toList.head? == some '('

/-- The form shown in messages. -/
def display (m : Member) : String :=
  dotted m.owner ++ "." ++ m.name ++ " " ++ m.descriptor

/-- Whether `a` comes before `b`: by owner, then name, then descriptor. -/
def lt (a b : Member) : Bool :=
  if a.owner = b.owner then
    if a.name = b.name then a.descriptor < b.descriptor else a.name < b.name
  else a.owner < b.owner

/-- The members in ascending order. -/
def sort (l : List Member) : List Member :=
  l.mergeSort fun a b => !b.lt a

end Member

end JvmFold
