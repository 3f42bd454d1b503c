import JvmFold.Event.Basic

/-!
# Statistics

The numbers of a log. They are computed from the events and kept nowhere else,
so they always agree with them.

## Main definitions

* `FoldStats`: The numbers.
* `FoldStats.ofLog`: Counts the events of a log.
* `FoldStats.summary`: The numbers that are not zero as a text.
-/

namespace JvmFold

/-- The numbers of a log. -/
structure FoldStats where
  /-- Methods with a change. -/
  methods : Nat
  /-- Reads and calls that became constants. -/
  folded : Nat
  /-- Calls that became code that makes an equal object. -/
  deconstructed : Nat
  /-- What could not be folded. -/
  skipped : Nat
  /-- Members that could not be used. -/
  inaccessible : Nat
  /-- Static final fields whose values became known. -/
  resolved : Nat
  /-- Fields that were given a value to start with. -/
  inlined : Nat
  /-- Initializers that were removed. -/
  removed : Nat
  /-- Classes that were written. -/
  emitted : Nat
  /-- Passes that were completed. -/
  passes : Nat
  /-- Warnings. -/
  warnings : Nat
  /-- Errors. -/
  errors : Nat
deriving DecidableEq, Inhabited, Repr

namespace FoldStats

/-- Counts the events of a log. -/
def ofLog (l : EventLog) : FoldStats where
  methods := l.affected.size
  folded := l.countOf .constantFolded
  deconstructed := l.countOf .instanceDeconstructed
  skipped := l.countOf .foldSkipped
  inaccessible := l.countOf .memberInaccessible
  resolved := l.countOf .fieldResolved
  inlined := l.countOf .constantValueInlined
  removed := l.countOf .initializerRemoved
  emitted := l.countOf .classEmitted
  passes := l.countOf .passCompleted
  warnings := l.countOf .warning
  errors := l.countOf .error

/-- The numbers that the summary shows, with what they count. -/
def parts (s : FoldStats) : List (Nat × String) :=
  [(s.methods, "methods"), (s.folded, "constants folded"),
   (s.deconstructed, "instances deconstructed"), (s.inlined, "constant values"),
   (s.removed, "initializers removed"), (s.emitted, "classes emitted"),
   (s.skipped, "skipped"), (s.errors, "errors"), (s.warnings, "warnings")]

/-- The numbers that are not zero as a text. -/
def summary (s : FoldStats) : String :=
  match s.parts.filter (0 < ·.1) with
  | [] => "no transformations"
  | shown => ", ".intercalate (shown.map fun (n, what) => toString n ++ " " ++ what)

end FoldStats

end JvmFold
