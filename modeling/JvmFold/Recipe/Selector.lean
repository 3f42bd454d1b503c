import JvmFold.Recipe.Basic

/-!
# Selectors

What is tried, and in which order, to make objects of a class again. A
selector is a tree: its leaves are recipes and lists of static fields that may
hold an equal object, and its inner nodes try what stands below them in turn.

A tree comes together from several sources. Before it is used it is flattened:
all static fields are gathered in front, because reading a field is cheaper
than making an object, and the executable recipes follow in the order of the
leaves, each once.

## Main definitions

* `Alternative`: One way to make objects again.
* `Selector`: A tree of alternatives.
* `Selector.alternatives`: The leaves in order.
* `Selector.flatten`: The normal form.
* `Selector.same`: Equality that does not look at accessors.
-/

namespace JvmFold

/-- One way to make objects of a class again. -/
inductive Alternative where
  | recipe (recipe : Recipe)
  /-- Use the first of these static fields that holds an equal object. -/
  | reuse (fields : List Member)
deriving DecidableEq, Inhabited, Repr

namespace Alternative

/-- The static fields that are read. -/
def fields : Alternative → List Member
  | .recipe r => if r.isExecutable then [] else [r.member]
  | .reuse fields => fields

/-- The recipe, if it makes an object. -/
def executable? : Alternative → Option Recipe
  | .recipe r => if r.isExecutable then some r else none
  | .reuse _ => none

/-- Whether two alternatives are equal up to the accessors of their recipes. -/
def same : Alternative → Alternative → Bool
  | .recipe a, .recipe b => a.same b
  | .reuse a, .reuse b => a == b
  | _, _ => false

end Alternative

/-- What is tried to make objects of a class again. -/
inductive Selector where
  | only (alternative : Alternative)
  /-- Try each in turn. -/
  | first (selectors : List Selector)
deriving Inhabited, Repr

namespace Selector

mutual
/-- The leaves in the order in which they are tried. -/
def alternatives : Selector → List Alternative
  | .only a => [a]
  | .first l => alternativesOf l

/-- The leaves of several trees in order. -/
def alternativesOf : List Selector → List Alternative
  | [] => []
  | s :: rest => s.alternatives ++ alternativesOf rest
end

/-- All static fields in the order of the leaves, each once. -/
def fields (s : Selector) : List Member :=
  (s.alternatives.flatMap Alternative.fields).eraseDups

/-- The executable recipes in the order of the leaves. -/
def executable (s : Selector) : List Recipe :=
  s.alternatives.filterMap Alternative.executable?

/-- The executable recipes in the order of the leaves, each once and as it first occurs. -/
def recipes (s : Selector) : List Recipe :=
  s.executable.eraseDupsBy Recipe.same

/-- The static fields in front as one alternative, if there are any, and then the recipes. -/
def normalAlternatives (s : Selector) : List Alternative :=
  (if s.fields.isEmpty then [] else [.reuse s.fields]) ++ s.recipes.map .recipe

/-- The normal form; an only alternative stands for itself. -/
def flatten (s : Selector) : Selector :=
  match s.normalAlternatives with
  | [a] => .only a
  | l => .first (l.map .only)

mutual
/-- Whether two trees are equal up to the accessors of their recipes. -/
def same : Selector → Selector → Bool
  | .only a, .only b => a.same b
  | .first a, .first b => sameList a b
  | _, _ => false

/-- Whether two lists of trees are equal up to the accessors of their recipes. -/
def sameList : List Selector → List Selector → Bool
  | [], [] => true
  | a :: as, b :: bs => a.same b && sameList as bs
  | _, _ => false
end

end Selector

end JvmFold
