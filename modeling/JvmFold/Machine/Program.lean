import Std.Data.HashMap
import JvmFold.Machine.Fault
import JvmFold.Universe.Hierarchy

/-!
# Programs

A program is a universe whose methods are ready to run. A method that is ready
has its instructions in an array, the positions of its labels, and its
handlers as ranges of positions. Getting a method ready can fail, because its
class has a body that does not decode, because it has no body, or because a
handler names a label that is not there. That is a fault of the call and
nothing is lost before.

## Main definitions

* `Prepared`: A method that is ready to run.
* `Universe.prepare`: Gets a method ready.
* `Program`: A universe with its methods.
-/

namespace JvmFold

/-- A handler as a range of positions. -/
structure Guard where
  /-- The first guarded position. -/
  start : Nat
  /-- The position behind the last guarded one. -/
  stop : Nat
  /-- Where the handler starts. -/
  target : Nat
  /-- The class of the exceptions that are handled; all of them if there is none. -/
  catchType : Option String
deriving DecidableEq, Repr

/-- A method that is ready to run. -/
structure Prepared where
  /-- The method. -/
  member : Member
  /-- The class of the method. -/
  owner : ClassFile
  /-- The number of local variables. -/
  maxLocals : Nat
  /-- The instructions and marks. -/
  code : Array Instruction
  /-- The positions of the labels. -/
  labels : Std.HashMap Label Nat
  /-- The handlers, in the order in which they are tried. -/
  guards : List Guard

namespace Prepared

/-- The positions of labels in a list of instructions, the first of which is at `position`. The last
    of several marks of one label counts. -/
def labelPositions (position : Nat) (found : Std.HashMap Label Nat) :
    List Instruction → Std.HashMap Label Nat
  | [] => found
  | .label l :: rest => labelPositions (position + 1) (found.insert l position) rest
  | _ :: rest => labelPositions (position + 1) found rest

/-- The position of a label. -/
def position (labels : Std.HashMap Label Nat) (l : Label) : Except Fault Nat :=
  match labels[l]? with
  | some i => .ok i
  | none => .error (.derailed (.unknownLabel l))

/-- The position of a label in the method. -/
def target (p : Prepared) (l : Label) : Except Fault Nat :=
  position p.labels l

/-- A method of a class made ready. -/
def ofBody (owner : ClassFile) (member : Member) (b : Body) : Except Fault Prepared := do
  let labels := labelPositions 0 ∅ b.instructions
  let guards ← b.handlers.mapM fun h => do
    return {
      start := ← position labels h.start
      stop := ← position labels h.stop
      target := ← position labels h.target
      catchType := h.catchType : Guard }
  return { member, owner, maxLocals := b.maxLocals.toNat, code := b.instructions.toArray, labels,
           guards }

end Prepared

/-- The method of a universe made ready. -/
def Universe.prepare (u : Universe) (m : Member) : Except Fault Prepared :=
  match u.entry? m.owner with
  | none => .error (.classNotFound m.owner)
  | some e =>
    match e.full with
    | .error cause => .error (.classLoad m.owner cause)
    | .ok c =>
      match c.method? m.signature with
      | none => .error (.noSuchMethod m)
      | some method =>
        match method.body with
        | none => .error (.unsupported (.noBody m))
        | some b => Prepared.ofBody c m b

/-- A universe with its methods, each of which is made ready when it is first called. -/
structure Program where
  /-- The classes. -/
  classes : Universe
  /-- The methods of the classes. -/
  methods : Std.HashMap Member (Thunk (Except Fault Prepared))

namespace Program

/-- The program of a universe. -/
def ofUniverse (u : Universe) : Program where
  classes := u
  methods := u.entries.foldl
    (fun methods e => e.outline.methods.foldl
      (fun methods m =>
        let member := e.outline.methodMember m
        methods.insert member (.mk fun _ => u.prepare member))
      methods)
    ∅

/-- The method made ready. -/
def prepare (p : Program) (m : Member) : Except Fault Prepared :=
  match p.methods[m]? with
  | some method => method.get
  | none => p.classes.prepare m

end Program

end JvmFold
