import JvmFold.Output.FileTree
import JvmFold.Universe.Basic

/-!
# Delivery

Where the classes of a run go. They can be handed over by their keys, written
below a directory, or put in the place of the files they came from.

Files are delivered in two rounds. The first writes every class beside its
target, and only if all are written does the second move them into place. So a
failure to write leaves all targets as they were, and nothing of the first
round is left behind.

Only four operations on files are used for that, and a delivery does not care
what stands behind them.

## Main definitions

* `OutputMode`: Where classes go.
* `Storage`: What outlives a run.
* `FileSystem`: The operations on files.
* `Delivery.toFiles`: The two rounds.
* `OutputMode.deliver`: Delivers classes.
-/

namespace JvmFold

/-- Where the classes of a run go. -/
inductive OutputMode where
  /-- They are handed over by their keys. -/
  | sink
  /-- They are written below a directory, by their keys. -/
  | directory (path : String)
  /-- They replace the files they came from. -/
  | inPlace
deriving DecidableEq, Inhabited, Repr

/-- The form shown to the user. -/
def OutputMode.name : OutputMode → String
  | .sink => "sink"
  | .directory _ => "output directory"
  | .inPlace => "in-place"

/-- What outlives a run. -/
structure Storage where
  /-- The classes that were handed over, by their keys. -/
  sink : Std.TreeMap String Bytes := ∅
  /-- The files. -/
  files : FileTree := {}
deriving Inhabited

/-- Changes the files. -/
def Storage.onFiles (x : EStateM Error FileTree Unit) : EStateM Error Storage Unit := fun s =>
  match x s.files with
  | .ok _ files => .ok () { s with files }
  | .error e files => .error e { s with files }

/-- A class to be delivered. -/
structure Delivery where
  /-- The input that it came from. -/
  input : ClassInput
  /-- The class file. -/
  bytes : Bytes

/-- The operations on files that a delivery takes. -/
structure FileSystem (σ : Type) where
  /-- Makes a directory and all on the way to it. -/
  makeDirectory (path : String) : EStateM Error σ Unit
  /-- Writes a file, in the place of any other file. -/
  write (path : String) (bytes : Bytes) : EStateM Error σ Unit
  /-- Removes a file. -/
  remove (path : String) : EStateM Error σ Unit
  /-- Moves a file, in the place of any other file. -/
  rename (source target : String) : EStateM Error σ Unit

/-- The operations on a tree of files. -/
def FileTree.system : FileSystem FileTree where
  makeDirectory := FileTree.makeDirectory
  write := FileTree.write
  remove := FileTree.remove
  rename := FileTree.rename

namespace Delivery

/-- The path of a file in the first round. -/
def staging (target : String) : String :=
  target ++ ".classfold"

section Rounds

variable {σ : Type} (fs : FileSystem σ)

/-- Removes the files of the first round. What cannot be removed stays. -/
def discard (targets : List String) : EStateM Error σ Unit :=
  targets.forM fun target =>
    try fs.remove (staging target)
    catch _ => return

/-- Writes a class beside its target. -/
def stage (target : String) (bytes : Bytes) : EStateM Error σ Unit := do
  fs.makeDirectory (Path.parent target)
  fs.write (staging target) bytes

/-- The first round; `done` are the targets whose classes are written already. -/
def stageAll (done : List String) : List (String × Bytes) → EStateM Error σ Unit
  | [] => return
  | (target, bytes) :: rest => do
    try stage fs target bytes
    catch e =>
      discard fs done
      throw e
    stageAll (target :: done) rest

/-- The second round. A failure removes what is still beside its target. -/
def moveAll : List String → EStateM Error σ Unit
  | [] => return
  | target :: rest => do
    try fs.rename (staging target) target
    catch e =>
      discard fs (target :: rest)
      throw e
    moveAll rest

/-- Delivers classes to files. -/
def toFiles (l : List (String × Bytes)) : EStateM Error σ Unit := do
  stageAll fs [] l
  moveAll fs (l.map Prod.fst)

end Rounds

/-- The file that a class came from. -/
def origin (d : Delivery) : Except Error String :=
  match d.input.path with
  | some path => .ok path
  | none => .error (.inPlaceUnsupported d.input.key)

/-- The files that some rule assigns to classes, with what is to stand there. -/
def assign (target : Delivery → Except Error String) (l : List Delivery) :
    Except Error (List (String × Bytes)) :=
  l.mapM fun d => do return (← target d, d.bytes)

end Delivery

namespace OutputMode

/-- The rule by which classes are assigned their files, unless they are handed over. -/
def target? : OutputMode → Option (Delivery → Except Error String)
  | .sink => none
  | .directory path => some fun d => .ok (Path.within path d.input.key)
  | .inPlace => some Delivery.origin

/-- Delivers to files that some rule assigns. -/
def deliverFiles {σ : Type} (fs : FileSystem σ) (target : Delivery → Except Error String)
    (l : List Delivery) : EStateM Error σ Unit :=
  match Delivery.assign target l with
  | .error e => throw e
  | .ok files => Delivery.toFiles fs files

/-- Delivers classes. -/
def deliver (m : OutputMode) (l : List Delivery) : EStateM Error Storage Unit :=
  match m.target? with
  | none =>
    modify fun s => { s with sink := l.foldl (fun k d => k.insert d.input.key d.bytes) s.sink }
  | some target => Storage.onFiles (deliverFiles FileTree.system target l)

end OutputMode

end JvmFold
