import JvmFold.Member.Order

/-!
# Events

Everything that a run decides is noted as an event: what was folded, what was
left alone and why, and what was written. Nothing that merely prevents a fold
is an error, so the events are the only place where it shows.

## Main definitions

* `EventKind`: What an event is about.
* `Event`: One event.
* `EventLog`: The events in the order in which they were noted.
* `EventLog.summary`: The changes in a log as a text.
-/

namespace JvmFold

/-- What an event is about. -/
inductive EventKind where
  /-- A read or call became an instruction that loads its value. -/
  | constantFolded
  /-- A call became code that makes an equal object. -/
  | instanceDeconstructed
  /-- Something could not be folded. -/
  | foldSkipped
  /-- A member is missing or has nothing to run. -/
  | memberInaccessible
  /-- The value of a static final field has become known. -/
  | fieldResolved
  /-- An assignment of the initializer became the value that a field starts with. -/
  | constantValueInlined
  | initializerRemoved
  | markersStripped
  | classEmitted
  | passStarted
  | passCompleted
  | info
  | warning
  | error
deriving DecidableEq, Inhabited, Repr

namespace EventKind

/-- All kinds in order. -/
def all : List EventKind :=
  [.constantFolded, .instanceDeconstructed, .foldSkipped, .memberInaccessible, .fieldResolved,
   .constantValueInlined, .initializerRemoved, .markersStripped, .classEmitted, .passStarted,
   .passCompleted, .info, .warning, .error]

/-- The kind in words. -/
def description : EventKind → String
  | .constantFolded => "constant folded"
  | .instanceDeconstructed => "instance deconstructed"
  | .foldSkipped => "fold skipped"
  | .memberInaccessible => "member inaccessible"
  | .fieldResolved => "field resolved"
  | .constantValueInlined => "constant value inlined"
  | .initializerRemoved => "initializer removed"
  | .markersStripped => "markers stripped"
  | .classEmitted => "class emitted"
  | .passStarted => "pass started"
  | .passCompleted => "pass completed"
  | .info => "info"
  | .warning => "warning"
  | .error => "error"

/-- The kind of a description. -/
def ofDescription? (text : String) : Option EventKind :=
  all.find? fun k => k.description == text

/-- Whether the event changes a class. -/
def isTransformation : EventKind → Bool
  | .constantFolded | .instanceDeconstructed | .constantValueInlined | .initializerRemoved
  | .markersStripped => true
  | _ => false

/-- Whether the event explains something that did not happen, or is a remark. -/
def isDiagnostic : EventKind → Bool
  | .foldSkipped | .memberInaccessible | .info | .warning | .error => true
  | _ => false

end EventKind

/-- One event. -/
structure Event where
  /-- What it is about. -/
  kind : EventKind
  /-- The method in which it happened. -/
  method : Option Member := none
  /-- The position in the body of the method. -/
  location : Option Nat := none
  /-- The member that was folded or is missing. -/
  member : Option Member := none
  /-- What happened. -/
  message : String := kind.description
  /-- The number of the pass. -/
  pass : Option Nat := none
deriving DecidableEq, Inhabited, Repr

/-- The form shown to the user. A location is shown only with its method. -/
def Event.display (e : Event) : String :=
  "[" ++ e.kind.description ++ "] "
    ++ (match e.method with
      | none => ""
      | some m =>
        m.display ++ e.location.elim "" (fun i => " @" ++ toString i) ++ ": ")
    ++ e.message

/-- The events in the order in which they were noted. -/
abbrev EventLog := Array Event

namespace EventLog

/-- Notes a remark. -/
def info (l : EventLog) (message : String) : EventLog :=
  l.push { kind := .info, message }

/-- Notes a warning. -/
def warn (l : EventLog) (message : String) : EventLog :=
  l.push { kind := .warning, message }

/-- Notes an error. -/
def fail (l : EventLog) (message : String) : EventLog :=
  l.push { kind := .error, message }

/-- Notes that a member could not be used. -/
def inaccessible (l : EventLog) (member : Member) (cause : String) : EventLog :=
  l.push { kind := .memberInaccessible, member := some member,
           message := member.display ++ ": " ++ cause }

/-- The events of a kind. -/
def ofKind (l : EventLog) (k : EventKind) : List Event :=
  l.toList.filter (·.kind == k)

/-- The number of events of a kind. -/
def countOf (l : EventLog) (k : EventKind) : Nat :=
  (l.ofKind k).length

/-- The events inside a method. -/
def inMethod (l : EventLog) (m : Member) : List Event :=
  l.toList.filter (·.method == some m)

/-- The events that change a class. -/
def transformations (l : EventLog) : List Event :=
  l.toList.filter (·.kind.isTransformation)

/-- The events that explain or remark something. -/
def diagnostics (l : EventLog) : List Event :=
  l.toList.filter (·.kind.isDiagnostic)

/-- The methods that changes were made in, each once. -/
def affected (l : EventLog) : Std.TreeSet Member :=
  Std.TreeSet.ofList (l.transformations.filterMap (·.method))

/-- The texts of the kinds of change that occur, with their numbers, in the order of the texts. -/
def summaryParts (l : EventLog) : List String :=
  let kinds := EventKind.all.filter fun k => k.isTransformation && 0 < l.countOf k
  (kinds.map fun k => toString (l.countOf k) ++ " " ++ k.description).mergeSort fun a b => a ≤ b

/-- The changes in the log as a text. -/
def summary (l : EventLog) : String :=
  if l.isEmpty then "no events"
  else
    match l.summaryParts with
    | [] => toString l.size ++ " events"
    | parts => ", ".intercalate parts

end EventLog

end JvmFold
