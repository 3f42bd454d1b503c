import JvmFold.Recipe.Basic

/-!
# Obstacles

Why an object could not be made again. The obstacles of single alternatives
are collected when none of them works, so an obstacle can hold others.

## Main definitions

* `Obstacle`: Why an object could not be made again.
* `Obstacle.message`: The text of an obstacle.
-/

namespace JvmFold

/-- The deepest nesting of objects that are made again for one another. -/
def maxRebuildDepth : Nat := 32

/-- Why an object could not be made again. -/
inductive Obstacle where
  | tooDeep
  | cyclic
  | noSelector (name : String)
  /-- None of the alternatives worked. -/
  | exhausted (name : String) (reasons : List Obstacle)
  /-- None of the fields holds an equal object; some of them are not assigned yet. -/
  | noEqualField (fields unassigned : Nat)
  | accessorFailed (accessor : Member) (cause : String)
  | accessorVoid (accessor : Member)
  | recipeFailed (recipe : Recipe) (cause : String)
  | recipeVoid (recipe : Recipe)
  | comparisonFailed (recipe : Recipe) (cause : String)
  /-- What the recipe makes is not equal. -/
  | unequal (recipe : Recipe)
deriving Inhabited, Repr

namespace Obstacle

mutual
/-- The text of an obstacle. -/
def message : Obstacle → String
  | .tooDeep =>
    "reconstruction nested deeper than " ++ toString maxRebuildDepth ++ " levels"
  | .cyclic => "object graph is cyclic"
  | .noSelector name => "no recipe for " ++ dotted name
  | .exhausted name reasons =>
    "no recipe reproduces " ++ dotted name ++ ": " ++ "; ".intercalate (messages reasons)
  | .noEqualField n 0 => "no equal instance among " ++ toString n ++ " fields"
  | .noEqualField n (k + 1) =>
    "no equal instance among " ++ toString n ++ " fields (" ++ toString (k + 1)
      ++ " not yet assigned)"
  | .accessorFailed a cause => a.display ++ ": " ++ cause
  | .accessorVoid a => a.display ++ " returned no value"
  | .recipeFailed r cause => r.display ++ ": " ++ cause
  | .recipeVoid r =>
    r.display ++ ": unsupported: " ++ r.member.display ++ " returned no value"
  | .comparisonFailed r cause => r.display ++ ": equals " ++ cause
  | .unequal r => r.display ++ " does not reproduce an equal value"

/-- The texts of several obstacles. -/
def messages : List Obstacle → List String
  | [] => []
  | o :: rest => o.message :: messages rest
end

end Obstacle

end JvmFold
