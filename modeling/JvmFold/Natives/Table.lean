import JvmFold.Natives.Builder
import JvmFold.Natives.Enum
import JvmFold.Natives.Math
import JvmFold.Natives.Throwable

/-!
# All Built-In Methods

The built-in methods of all classes by their members. A class inherits the
methods of its superclasses, so each stands in the table once, for the class
that declares it. The classes are different from each other, and so are the
signatures of one class, so what is found for a member is what its class lists.

## Main definitions

* `Natives.all`: The methods with their classes.
* `Natives.table`: The methods by member.
* `Natives.contains`, `Natives.find?`: Look-up.
* `Natives.outcome`: What a built-in method does.

## Theorems

* `Natives.find?_of_mem`: A method of a class is found by its member.
* `Natives.outcome_builtin`: What is done for a member is what its class lists for it.
-/

namespace JvmFold

namespace Natives

/-- The methods with their classes. -/
def all : List (String × List Builtin) :=
  [(objectClass, objectMethods),
   ("java/lang/Class", classMethods),
   ("java/lang/Enum", enumMethods),
   ("java/lang/Throwable", throwableMethods),
   ("java/lang/AssertionError", assertionMethods),
   ("java/lang/System", systemMethods),
   ("java/util/Objects", objectsMethods),
   ("java/lang/String", stringMethods),
   ("java/lang/StringBuilder", builderMethods),
   ("java/lang/Math", mathMethods)]
  ++ Wrapper.all.map fun w => (w.className, wrapperMethods w)

/-- The members with what they do. -/
def members : List (Member × Native) :=
  all.flatMap fun (owner, methods) => methods.map fun b => (b.signature.on owner, b.run)

/-- The methods by member. -/
def table : Std.HashMap Member Native :=
  Std.HashMap.ofList members

/-- The method of a member. -/
def find? (m : Member) : Option Native :=
  table[m]?

/-- Whether the member is built in. -/
def contains (m : Member) : Bool :=
  table.contains m

/-- The members of a class in their order. -/
def membersOf (owner : String) : List Member :=
  Member.sort ((members.map Prod.fst).filter (·.owner == owner))

/-- The number of built-in methods. -/
def size : Nat :=
  table.size

theorem owners_nodup : (all.map Prod.fst).Nodup := by
  decide +kernel

theorem signatures_nodup : ∀ c ∈ all, (c.2.map Builtin.signature).Nodup := by
  decide +kernel

/-- No two members of the table are the same. -/
theorem members_pairwise : members.Pairwise fun p q => (p.1 == q.1) = false := by
  -- the signatures tell apart those of one class, and the owners those of two
  refine List.pairwise_flatMap.mpr ⟨fun c hc => ?_, ?_⟩
  · refine List.pairwise_map.mpr ((List.pairwise_map.mp (signatures_nodup c hc)).imp ?_)
    intro b b' hne
    refine beq_false_of_ne fun heq => hne ?_
    cases hb : b.signature
    cases hb' : b'.signature
    rw [hb, hb'] at heq
    cases heq
    rfl
  · refine (List.pairwise_map.mp owners_nodup).imp fun {c c'} hne => ?_
    intro p hp q hq
    rcases List.mem_map.mp hp with ⟨b, -, rfl⟩
    rcases List.mem_map.mp hq with ⟨b', -, rfl⟩
    exact beq_false_of_ne fun heq => hne (congrArg Member.owner heq)

/-- A method of a class is found by its member. -/
theorem find?_of_mem {owner : String} {l : List Builtin} (hl : (owner, l) ∈ all) {b : Builtin}
    (hb : b ∈ l) : find? (b.signature.on owner) = some b.run :=
  Std.HashMap.getElem?_ofList_of_mem BEq.rfl members_pairwise
    (List.mem_flatMap.mpr ⟨_, hl, List.mem_map_of_mem hb⟩)

/-- What the method that is built in for a member does to a state, if there is one. -/
def outcome (m : Member) (args : List Value) (env : Env) (s : Machine) :
    Option (EStateM.Result Fault Machine (Option Value)) :=
  (find? m).map fun run => run args env s

/-- What is done for a member of a class is what the class lists for it. -/
theorem outcome_builtin {owner : String} {l : List Builtin} (hl : (owner, l) ∈ all) {b : Builtin}
    (hb : b ∈ l) (args : List Value) {env : Env} {s : Machine} :
    outcome (b.signature.on owner) args env s = some (b.run args env s) := by
  unfold outcome
  rw [find?_of_mem hl hb]
  rfl

end Natives

end JvmFold
