import JvmFold.Universe.Hierarchy

/-!
# Conditions on Calls

A constant method is evaluated at a call only if its condition accepts the
call. The condition sees the method that would run, not the one that the call
names, together with the classes of the objects involved.

## Main definitions

* `Invocation`: A call as a condition sees it.
* `Predicate`: A condition.
* `Predicate.allows`: Whether a condition accepts a call.
-/

namespace JvmFold

/-- A call as a condition sees it. -/
structure Invocation where
  /-- The method that would run. -/
  method : Member
  /-- The class of the receiver; none for static methods and constructors. -/
  receiver : Option String
  /-- The classes of the arguments; none for primitive values and `null`. -/
  arguments : List (Option String)
deriving DecidableEq, Inhabited, Repr

/-- A condition on calls. -/
inductive Predicate where
  | allowAll
  /-- The receiver is of exactly this class. -/
  | exactType (name : String)
  /-- The receiver is an instance of this class. -/
  | instanceOf (name : String)
  | custom (test : Invocation → Bool)
deriving Inhabited

namespace Predicate

/-- Whether the condition accepts a call. The conditions on the receiver accept no call without one.
    -/
def allows (p : Predicate) (u : Universe) (i : Invocation) : Bool :=
  match p with
  | .allowAll => true
  | .exactType name => i.receiver == some name
  | .instanceOf name => i.receiver.any fun r => u.isSubtype r name
  | .custom test => test i

/-- The condition of a method that every call of its own class meets. -/
def forMember (m : Member) (isStatic : Bool) : Predicate :=
  if isStatic || m.isConstructor then .allowAll else .instanceOf m.owner

/-- The form shown to the user. -/
def display : Predicate → String
  | .allowAll => "AllowAll"
  | .exactType name => "ExactType(" ++ name ++ ")"
  | .instanceOf name => "InstanceOf(" ++ name ++ ")"
  | .custom _ => "Custom(..)"

end Predicate

end JvmFold
