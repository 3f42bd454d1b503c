import JvmFold.Event.Stats
import JvmFold.Fold.Analysis
import JvmFold.Fold.Initializer
import JvmFold.Fold.Splice
import JvmFold.ClassFile.Writer
import JvmFold.Machine.Engine

/-!
# Runs

A run folds the primary classes of a configuration and delivers those that
changed.

It works in passes. Each pass analyses every body of every primary class as it
was read. A field whose value becomes known in a pass may be read in a body
that was analysed before, so a pass that resolves a field is thrown away and
another one follows; only the changes and events of the last pass count. The
resolved fields are static final fields of primary classes, so there are only
so many passes.

Then the initializers of changed classes are pruned, the markers of all classes
are removed, and what changed is written. Nothing is delivered before
everything is written, so a failure up to there delivers nothing.

## Main definitions

* `Folding`: A run in progress.
* `Folding.passes`: Passes until no field is resolved any more.
* `Folding.emit`: The classes to be delivered.
* `Config.run`: A run.
-/

namespace JvmFold

/-- The state of a run before its classes are delivered. -/
structure FoldState where
  /-- The events of the run. -/
  log : EventLog
  /-- The events of the pass. -/
  passLog : EventLog := #[]
  /-- The machine, which lives as long as the run. -/
  machine : Machine := {}
  /-- What is kept from one pass to the next. -/
  progress : Progress := {}

/-- A run in progress. -/
abbrev Folding := EStateM Error FoldState

/-- A primary class behind a pass. -/
structure FoldedClass where
  /-- The class as it was read. -/
  entry : ClassEntry
  /-- The class with its changes. -/
  folded : ClassFile
  /-- Whether a body changed. -/
  modified : Bool

/-- What a run works with. -/
structure FoldJob where
  /-- The configuration. -/
  config : Config
  /-- What the machine is given. -/
  env : Env

/-- The job of a configuration. -/
def FoldJob.ofConfig (c : Config) : FoldJob where
  config := c
  env := Engine.env (.ofUniverse c.classes) c.limits

/-- The number of static final fields of the primary classes. -/
def Config.finalFields (c : Config) : Nat :=
  (c.classes.primaries.flatMap fun e => e.outline.fields.filter (·.isStaticFinal)).length

namespace Folding

/-- Notes an event of the run. -/
def note (e : Event) : Folding Unit :=
  modify fun s => { s with log := s.log.push e }

/-- Analyses a body and answers the replacements in it. -/
def analyse (j : FoldJob) (s : Subject) : Folding (List Replacement) := fun state =>
  let t : Tracker :=
    { progress := state.progress, runLog := state.log, passLog := state.passLog }
  let ((found, t), machine) := Analysis.replacements s t j.env state.machine
  .ok found { log := t.runLog, passLog := t.passLog, machine, progress := t.progress }

/-- Folds a method of a class, and answers whether its body changed. -/
def foldMethod (j : FoldJob) (pass : Nat) (owner : ClassFile) (m : Method) :
    Folding (Method × Bool) := do
  match m.body with
  | none => return (m, false)
  | some b =>
    match ← analyse j (.ofBody j.config pass owner m b) with
    | [] => return (m, false)
    | found =>
      let (spliced, count) := b.apply found
      return ({ m with body := some spliced }, 0 < count)

/-- Folds a class. -/
def foldClass (j : FoldJob) (pass : Nat) (e : ClassEntry) : Folding FoldedClass := do
  match e.full with
  | .error cause => throw cause
  | .ok c =>
    let methods ← c.methods.mapM (foldMethod j pass c)
    return { entry := e, folded := { c with methods := methods.map Prod.fst },
             modified := methods.any Prod.snd }

/-- A pass over the primary classes. Answers them and how many fields it resolved. -/
def runPass (j : FoldJob) (pass : Nat) : Folding (List FoldedClass × Nat) := do
  let known := (← get).progress.resolved.size
  let name := "pass " ++ toString pass
  note { kind := .passStarted, pass := some pass,
         message := name ++ ": " ++ toString known ++ " resolved fields" }
  modify fun s => { s with passLog := #[] }
  let classes ← j.config.classes.primaries.mapM (foldClass j pass)
  let grown := (← get).progress.resolved.size - known
  note { kind := .passCompleted, pass := some pass,
         message := name ++ ": " ++ toString (← get).passLog.size ++ " events, "
           ++ toString grown ++ " new resolved fields" }
  return (classes, grown)

/-- Makes the events of the pass events of the run. -/
def keepPass : Folding Unit :=
  modify fun s => { s with log := s.log ++ s.passLog, passLog := #[] }

/-- Passes from the given one on until no field is resolved any more, and at most `more` further
    ones. Answers the classes and the number of the last pass. -/
def passesFrom (j : FoldJob) : Nat → Nat → Folding (List FoldedClass × Nat)
  | 0, pass => do
    let (classes, _) ← runPass j pass
    keepPass
    return (classes, pass)
  | more + 1, pass => do
    let (classes, grown) ← runPass j pass
    if grown = 0 then
      keepPass
      return (classes, pass)
    else passesFrom j more (pass + 1)

/-- Passes until no field is resolved any more. Every pass but the last resolves a field, so there
    are no more further passes than final fields. -/
def passes (j : FoldJob) : Folding (List FoldedClass × Nat) :=
  passesFrom j j.config.finalFields 1

/-- Prunes the initializer of a class that changed. -/
def prune (pass : Nat) (f : FoldedClass) : Folding ClassFile := do
  if f.modified then
    let (pruned, events) := f.folded.pruneInitializer pass
    events.forM note
    return pruned
  else return f.folded

/-- Removes the markers of a class, and answers whether there were any. -/
def strip (pass : Nat) (c : ClassFile) : Folding (ClassFile × Bool) := do
  let count := c.markerCount
  if count = 0 then return (c, false)
  else
    note { kind := .markersStripped, pass := some pass,
           message := toString count ++ " markers removed from " ++ dotted c.name }
    return (c.withoutMarkers, true)

/-- A class as it is delivered, with its name; nothing if it did not change. -/
def emitOne (pass : Nat) (f : FoldedClass) : Folding (Option (String × Delivery)) := do
  let (c, stripped) ← strip pass (← prune pass f)
  if f.modified || stripped then
    match c.toBytes with
    | .ok bytes => return some (c.name, ⟨f.entry.input, bytes⟩)
    | .error e => throw e
  else return none

/-- The classes to be delivered, with their names, and the number of passes. -/
def emit (j : FoldJob) : Folding (List (String × Delivery) × Nat) := do
  let (classes, pass) ← passes j
  let outputs ← classes.mapM (emitOne pass)
  return (outputs.filterMap id, pass)

end Folding

/-- What a run changes outside: the events and what was delivered. -/
structure RunState where
  /-- The events. -/
  log : EventLog
  /-- What was delivered. -/
  storage : Storage := {}

/-- The outcome of a run. -/
structure RunReport where
  /-- The names of the classes that were delivered. -/
  emitted : List String
  /-- The number of passes. -/
  passes : Nat
deriving DecidableEq, Inhabited, Repr

/-- The event of a class that was delivered. -/
def OutputMode.emittedEvent (m : OutputMode) (name : String) (d : Delivery) : Event :=
  { kind := .classEmitted
    message := dotted name ++ " -> " ++ d.input.key ++ " (" ++ toString d.bytes.length ++ " bytes, "
      ++ m.name ++ ")" }

namespace Config

/-- Delivers classes. -/
def deliver (c : Config) (l : List (String × Delivery)) : EStateM Error RunState Unit := fun s =>
  if l.isEmpty then .ok () s
  else
    match c.output with
    | none => .error .missingOutput s
    | some mode =>
      match mode.deliver (l.map Prod.snd) s.storage with
      | .error e storage => .error e { s with storage }
      | .ok _ storage =>
        let emitted := l.map fun (name, d) => mode.emittedEvent name d
        .ok () { log := s.log ++ emitted.toArray, storage }

/-- Folds the primary classes and delivers those that changed. -/
def run (c : Config) : EStateM Error RunState RunReport := fun s =>
  match Folding.emit (.ofConfig c) { log := s.log } with
  | .error e f => .error e { s with log := f.log }
  | .ok (outputs, passes) f =>
    match c.deliver outputs { s with log := f.log } with
    | .error e s => .error e s
    | .ok _ s => .ok { emitted := outputs.map Prod.fst, passes } s

end Config

end JvmFold
