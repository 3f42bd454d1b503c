import Std.Data.TreeMap
import JvmFold.Output.Path
import JvmFold.Universe.Basic

/-!
# Files

The files that a run reads from and writes to, as a tree: what stands at a
place is a directory or a file with its bytes, and the directory above it is
always there too.

A path is followed part by part, and every part but the last has to lead to a
directory that is there. So a way down and up again is not the same as no way
at all: it fails if there is nothing to go down to.

Every operation either does what it says or fails with `Error.file`. Making a
directory makes those on the way first, and these stay if it fails further on.

## Main definitions

* `FileTree`: What stands at which place.
* `FileTree.directoryAt?`, `FileTree.fileSpot?`: Where a path leads.
* `FileTree.makeDirectory`, `FileTree.write`, `FileTree.remove`, `FileTree.rename`: Changes.
* `FileTree.below`, `FileTree.classFiles`: What stands below a directory.
-/

namespace JvmFold

/-- What stands at a place. -/
inductive FileNode where
  | directory
  | file (bytes : Bytes)
deriving DecidableEq, Inhabited, Repr

/-- What stands at which place. -/
structure FileTree where
  /-- The directory that paths start from if they do not start at the root. It is always there, with
      those above it, and they are not listed. -/
  home : Place := []
  /-- The directories and files by the paths that lead straight to them. -/
  nodes : Std.TreeMap String FileNode := ∅
deriving Inhabited

/-- A change of files that may fail. -/
abbrev Filing := EStateM Error FileTree

namespace FileTree

/-- What stands at a place. -/
def node? (t : FileTree) (place : Place) : Option FileNode :=
  if place.isSuffixOf t.home then some .directory else t.nodes.get? place.path

/-- Where a path starts. -/
def start (t : FileTree) (path : String) : Place :=
  if Path.isAbsolute path then [] else t.home

/-- Follows parts from a place through directories. -/
def follow (t : FileTree) : List String → Place → Option Place
  | [], place => some place
  | part :: rest, place =>
    match t.node? (place.enter part) with
    | some .directory => t.follow rest (place.enter part)
    | _ => none

/-- The directory that a path leads to. -/
def directoryAt? (t : FileTree) (path : String) : Option Place :=
  if Path.isUsable path then t.follow (Path.parts path) (t.start path) else none

/-- The place that a path names for a file: it ends in a name, and the directory for it is there.
    Nothing need stand at the place yet. -/
def fileSpot? (t : FileTree) (path : String) : Option Place :=
  if Path.isUsable path && Path.isName (Path.lastPart path) then
    (t.follow (Path.parts path).dropLast (t.start path)).map (Path.lastPart path :: ·)
  else none

/-- Puts a node at a place. -/
def put (place : Place) (n : FileNode) : Filing Unit :=
  modify fun t => { t with nodes := t.nodes.insert place.path n }

/-- Makes a directory in one that is there. -/
def makeOne (place : Place) : Filing Unit := do
  match (← get).node? place with
  | some .directory => return
  | some (.file _) => throw .file
  | none => if place.head?.all Path.isName then put place .directory else throw .file

/-- Makes the directories that parts lead to from a place. -/
def makeAlong : List String → Place → Filing Unit
  | [], _ => return
  | part :: rest, place => do
    makeOne (place.enter part)
    makeAlong rest (place.enter part)

/-- Makes a directory and all on the way to it. -/
def makeDirectory (path : String) : Filing Unit := do
  if Path.isUsable path then makeAlong (Path.parts path) ((← get).start path) else throw .file

/-- Writes a file into a directory that is there, in the place of any other file. -/
def write (path : String) (bytes : Bytes) : Filing Unit := do
  let t ← get
  match t.fileSpot? path with
  | none => throw .file
  | some place =>
    match t.node? place with
    | some .directory => throw .file
    | _ => put place (.file bytes)

/-- Writes a file, and makes its directory first. -/
def store (path : String) (bytes : Bytes) : Filing Unit := do
  makeDirectory (Path.parent path)
  write path bytes

/-- The file that a path leads to. -/
def file? (t : FileTree) (path : String) : Option (Place × Bytes) :=
  match t.fileSpot? path with
  | none => none
  | some place =>
    match t.node? place with
    | some (.file bytes) => some (place, bytes)
    | _ => none

/-- Removes a file; anything else stays as it is. -/
def remove (path : String) : Filing Unit :=
  modify fun t =>
    match t.file? path with
    | some (place, _) => { t with nodes := t.nodes.erase place.path }
    | none => t

/-- Moves a file, in the place of any other file. -/
def rename (source target : String) : Filing Unit := do
  match (← get).file? source with
  | some (place, bytes) =>
    write target bytes
    if (← get).fileSpot? target ≠ some place then remove source
  | none => throw .file

/-- What follows some text at the beginning of another. -/
def dropText? (front text : String) : Option String :=
  if front.toList.isPrefixOf text.toList then
    some (String.ofList (text.toList.drop front.length))
  else none

/-- All that stands below a directory, by the paths below it and in the order of these. -/
def below (t : FileTree) (directory : String) : Except Error (List (String × FileNode)) :=
  match t.directoryAt? directory with
  | none => .error .file
  | some place =>
    let front := place.path ++ "/"
    .ok <| t.nodes.toList.filterMap fun (path, n) => (dropText? front path).map (·, n)

/-- Whether a file holds a class by its name: something, and then the usual ending. -/
def isClassFile (name : String) : Bool :=
  ".class".toList.isSuffixOf name.toList && 6 < name.length

/-- The class files below a directory as inputs, by their paths below it and in the order of these.
    -/
def classFiles (t : FileTree) (directory : String) : Except Error (List ClassInput) := do
  return (← t.below directory).filterMap fun (key, n) =>
    match n with
    | .file bytes =>
      if isClassFile (Path.lastPart key) then
        some { key, bytes, path := some (Path.within directory key) }
      else none
    | .directory => none

end FileTree

end JvmFold
