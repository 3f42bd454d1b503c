import Std.Data.HashSet
import JvmFold.Universe.Basic

/-!
# The Type Hierarchy

Superclasses, interfaces and the questions that follow from them: which type
is a subtype of which, and which class declares a field or method.

Classes of the universe name their superclass and interfaces themselves. For
the classes of the platform a table does it, and any other name counts as a
class directly below the root. Arrays have a hierarchy of their own, which
follows their components.

Nothing keeps class files from naming each other in a circle. A breadth-first
walk passes over names it has seen, so it comes to an end all the same. A way up
along superclasses does not: it keeps going round a circle, and the search for a
field does so as well. These searches are partial, and one that never ends has
no answer. That is another matter than a search that ends without finding
anything, so their answers are options twice over.

## Main definitions

* `walk`: What can be reached from some names, breadth first.
* `ascend`: Goes from name to name until an answer is found.
* `Universe.superclass?`, `Universe.interfaces`: The direct supertypes.
* `Universe.isSubtype`: Assignability.
* `Universe.ancestors`: The superclasses, then the interfaces breadth first.
* `Universe.fieldOwner?`, `Universe.methodOwner?`: The class that declares a member.
* `Universe.virtualOwner?`, `Universe.defaultOwner?`: The class that implements a method.
-/

namespace JvmFold

/-- The supertypes of every array besides the root. -/
def arrayInterfaces : List String :=
  ["java/lang/Cloneable", "java/io/Serializable"]

/-- The descriptor of the component, if the name is that of an array class. -/
def arrayComponent? (name : String) : Option String :=
  match name.toList with
  | '[' :: component => some (String.ofList component)
  | _ => none

/-- What a breadth-first walk has reached. -/
structure Trail where
  /-- The names in the order in which they were reached, the last one first. -/
  names : List String := []
  /-- The names that the walk passes over from now on. -/
  seen : Std.HashSet String := ∅
deriving Inhabited

namespace Trail

/-- Comes to a name. If it is new, what `next` leads to from it joins the following level, which
    stands with the last name first. -/
def visit (next : String → List String) : Trail × List String → String → Trail × List String
  | (⟨names, seen⟩, following), name =>
    if seen.contains name then (⟨names, seen⟩, following)
    else (⟨name :: names, seen.insert name⟩, (next name).reverseAux following)

/-- Goes on from the names of a level until a level is empty. -/
def extend (t : Trail) (f : String → List String) (level : List String) : Option Trail :=
  if level.isEmpty then some t
  else
    let (t, following) := level.foldl (visit f) (t, [])
    (extend (f := f)) t following.reverse
partial_fixpoint

end Trail

/-- Walks breadth first along `next` from the names of the first level, past the names in `seen`.
    Answers the names in the order in which they are reached, each once. -/
def walk (next : String → List String) (seen level : List String) : Option (List String) :=
  (Trail.extend { seen := .ofList seen } next level).map (·.names.reverse)

/-- Goes from name to name until an answer is found. -/
def ascend {α : Type} (name : String) (f : String → α ⊕ String) : Option α :=
  match f name with
  | .inl answer => some answer
  | .inr parent => (ascend (f := f)) parent
partial_fixpoint

namespace Universe

/-- The superclass of a class. -/
def superclass? (u : Universe) (name : String) : Option String :=
  if name = objectClass then none
  else
    match u.class? name with
    | some c => c.superName
    | none =>
      match PlatformType.find? name with
      | some t => some t.superName
      | none => some objectClass

/-- The interfaces that a class names. -/
def interfaces (u : Universe) (name : String) : List String :=
  if (arrayComponent? name).isSome then arrayInterfaces
  else
    match u.class? name with
    | some c => c.interfaces
    | none => ((PlatformType.find? name).map (·.interfaces)).getD []

/-- The direct supertypes, the superclass first. -/
def supertypes (u : Universe) (name : String) : List String :=
  (u.superclass? name).toList ++ u.interfaces name

/-- Whether one class is a subtype of another along superclasses and interfaces. -/
def reaches (u : Universe) (sub sup : String) : Bool :=
  (walk u.supertypes [] [sub]).any (·.contains sup)

/-- Whether values of one class can stand where the other is wanted. The first argument bounds how
    often the question is passed on to components. -/
def isSubtypeWithin (u : Universe) : Nat → String → String → Bool
  | 0, _, _ => false
  | bound + 1, sub, sup =>
    if sub = sup || sup = objectClass then true
    else
      match arrayComponent? sub, arrayComponent? sup with
      | some a, some b =>
        match FieldType.parse a, FieldType.parse b with
        | .ok a, .ok b =>
          match a.className?, b.className? with
          | some a, some b => u.isSubtypeWithin bound a b
          | _, _ => a = b
        | _, _ => false
      | some _, none => arrayInterfaces.contains sup
      | none, some _ => false
      | none, none => u.reaches sub sup

/-- Whether values of one class can stand where the other is wanted. -/
def isSubtype (u : Universe) (sub sup : String) : Bool :=
  u.isSubtypeWithin (sub.length + 1) sub sup

/-- The superclasses of a class, nearest first. -/
def superChain? (name : String) (u : Universe) : Option (List String) :=
  match u.superclass? name with
  | none => some []
  | some parent => do return parent :: (← (superChain? (u := u)) parent)
partial_fixpoint

/-- The class, its superclasses from near to far, and then the interfaces of all of them breadth
    first. -/
def ancestors? (u : Universe) (name : String) : Option (List String) := do
  let chain := name :: (← u.superChain? name)
  return chain ++ (← walk u.interfaces chain (chain.flatMap u.interfaces))

/-- The class with all its ancestors, or nothing if the way up never ends. -/
def ancestors (u : Universe) (name : String) : List String :=
  (u.ancestors? name).getD []

theorem superChain?_objectClass (u : Universe) : u.superChain? objectClass = some [] := by
  rw [superChain?]
  rfl

/-- The ancestors of a class right below the root. -/
theorem ancestors_of_objectClass {u : Universe} {name : String}
    (hsuper : u.superclass? name = some objectClass) (hnone : u.interfaces name = [])
    (hroot : u.interfaces objectClass = []) : u.ancestors name = [name, objectClass] := by
  have hchain : u.superChain? name = some [objectClass] := by
    rw [superChain?, hsuper]
    dsimp only
    rw [superChain?_objectClass]
    rfl
  have hwalk : walk u.interfaces [name, objectClass] [] = some [] := by
    unfold walk Trail.extend
    rfl
  unfold ancestors ancestors?
  simp [hchain, hnone, hroot, hwalk]

/-- Looks for the class that declares a field: the class itself, then its interfaces in turn with
    all they inherit, then its superclass. -/
def fieldSearch (u : Universe) (name : String) (s : Signature) : Option (Option String) :=
  match u.class? name with
  | none => some none
  | some c =>
    if (c.field? s).isSome then some (some name)
    else (c.interfaces ++ c.superName.toList).findSomeM? (u.fieldSearch (s := s))
partial_fixpoint

/-- The class that declares the field that a name on a class stands for. -/
def fieldOwner? (u : Universe) (f : Member) : Option String :=
  (u.fieldSearch f.owner f.signature).join

/-- A class that has a field of the name and descriptor declares it. -/
theorem fieldOwner?_of_field? {u : Universe} {f : Member} {c : ClassFile}
    (hc : u.class? f.owner = some c) (hf : (c.field? f.signature).isSome = true) :
    u.fieldOwner? f = some f.owner := by
  unfold fieldOwner? fieldSearch
  rw [hc]
  exact congrArg Option.join (if_pos hf)

/-- Nothing is declared by a class that is not in the universe. -/
theorem fieldOwner?_of_class?_eq_none {u : Universe} {f : Member} (hc : u.class? f.owner = none) :
    u.fieldOwner? f = none := by
  unfold fieldOwner? fieldSearch
  rw [hc]
  rfl

/-- Where a search along the superclasses ended. -/
inductive Climb where
  | found (name : String)
  /-- A superclass is not in the universe. -/
  | left
  /-- The last class of the universe has no superclass. -/
  | top
deriving DecidableEq, Repr

/-- What a search for a class that passes the test comes to at a class: an end or the next class. -/
def climbOn (u : Universe) (test : ClassFile → Bool) (name : String) : Climb ⊕ String :=
  match u.class? name with
  | none => .inl .left
  | some c =>
    if test c then .inl (.found name)
    else
      match c.superName with
      | none => .inl .top
      | some parent => .inr parent

/-- The first class on the way up that passes the test, from the class itself on. -/
def climb (u : Universe) (test : ClassFile → Bool) (name : String) : Option Climb :=
  ascend name (u.climbOn test)

/-- Looks for an interface of the universe among the ancestors that passes the test, and answers the
    first. -/
def interfaceSearch (u : Universe) (test : ClassFile → Bool) (name : String) :
    Option (Option String) := do
  return (← u.ancestors? name).find? fun i => (u.class? i).any fun c => c.isInterface && test c

/-- Whether the class has a method. -/
def declares (s : Signature) (c : ClassFile) : Bool :=
  (c.method? s).isSome

/-- Whether the class has a method that can be called on an object. -/
def implements (s : Signature) (c : ClassFile) : Bool :=
  (c.method? s).any fun m => !m.isAbstract && !m.isStatic

/-- Looks for the class that declares a method: the nearest on the way up, and if all superclasses
    are in the universe, an interface. -/
def methodSearch (u : Universe) (m : Member) : Option (Option String) := do
  match ← u.climb (declares m.signature) m.owner with
  | .found name => return some name
  | .left => return none
  | .top => u.interfaceSearch (declares m.signature) m.owner

/-- The class that declares the method that a name on a class stands for. -/
def methodOwner? (u : Universe) (m : Member) : Option String :=
  (u.methodSearch m).join

/-- A class that has the method declares it. -/
theorem methodOwner?_of_method? {u : Universe} {m : Member} {c : ClassFile}
    (hc : u.class? m.owner = some c) (hm : (c.method? m.signature).isSome = true) :
    u.methodOwner? m = some m.owner := by
  have hclimb : u.climb (declares m.signature) m.owner = some (.found m.owner) := by
    have hon : u.climbOn (declares m.signature) m.owner = .inl (.found m.owner) := by
      unfold climbOn
      rw [hc]
      exact if_pos hm
    unfold climb ascend
    rw [hon]
  unfold methodOwner? methodSearch
  rw [hclimb]
  rfl

/-- Looks for the nearest class on the way up that implements the method. -/
def virtualSearch (u : Universe) (m : Member) : Option (Option String) := do
  match ← u.climb (implements m.signature) m.owner with
  | .found name => return some name
  | _ => return none

/-- The nearest class on the way up that implements the method. -/
def virtualOwner? (u : Universe) (m : Member) : Option String :=
  (u.virtualSearch m).join

/-- Looks for the first interface among the ancestors that implements the method. -/
def defaultSearch (u : Universe) (m : Member) : Option (Option String) :=
  u.interfaceSearch (implements m.signature) m.owner

/-- The first interface among the ancestors that implements the method. -/
def defaultOwner? (u : Universe) (m : Member) : Option String :=
  (u.defaultSearch m).join

end Universe

end JvmFold
