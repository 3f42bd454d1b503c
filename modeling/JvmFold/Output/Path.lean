/-!
# Paths

Paths of files as text. The parts of a path stand between slashes. Empty parts
and single points mean nothing, and two points lead one directory up. A path
that begins with a slash starts at the root, and any other starts at a
directory that whoever reads it has to know.

A path says where to go, so two paths can lead to the same place, and where one
leads depends on the directories on its way. The place itself is a list of
names. It has the innermost name first: one part further down or up is then
one step at the front.

## Main definitions

* `Path.parts`, `Path.parent`, `Path.within`: Taking paths apart and putting them together.
* `Path.isUsable`, `Path.isName`: The paths and names that files can have.
* `Place`: Where a path leads.
-/

namespace JvmFold

namespace Path

/-- The most bytes that a path can have. -/
def maxBytes : Nat :=
  4095

/-- The most bytes that a name can have. -/
def maxNameBytes : Nat :=
  255

/-- Whether the path starts at the root. -/
def isAbsolute (path : String) : Bool :=
  path.toList.head? == some '/'

/-- The parts of a path that mean something. -/
def parts (path : String) : List String :=
  (path.splitOn "/").filter fun p => p != "" && p != "."

/-- What stands behind the last slash. -/
def lastPart (path : String) : String :=
  (path.splitOn "/").getLast?.getD ""

/-- The path without its last part that means something. -/
def parent (path : String) : String :=
  (if isAbsolute path then "/" else "") ++ "/".intercalate (parts path).dropLast

/-- The path, read from a directory. A slash comes between the two unless the directory is the empty
    path or ends with one. -/
def within (directory path : String) : String :=
  if isAbsolute path then path
  else if directory.toList.getLast?.all (· == '/') then directory ++ path
  else directory ++ "/" ++ path

/-- Whether the path can be used at all: it is not too long and free of the character zero. -/
def isUsable (path : String) : Bool :=
  path.utf8ByteSize ≤ maxBytes && !path.toList.contains '\x00'

/-- Whether the part can be the name of a file or directory. -/
def isName (part : String) : Bool :=
  part != "" && part != "." && part != ".." && part.utf8ByteSize ≤ maxNameBytes

end Path

/-- A place among files: the names on the way down to it, the innermost first. The root has none. -/
abbrev Place := List String

namespace Place

/-- The place one part further. Nothing is above the root. -/
def enter (place : Place) (part : String) : Place :=
  if part = ".." then place.drop 1 else part :: place

/-- The path that leads straight to the place. -/
def path (place : Place) : String :=
  "/" ++ "/".intercalate place.reverse

end Place

end JvmFold
