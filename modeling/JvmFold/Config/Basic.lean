import JvmFold.Config.Defaults
import JvmFold.Config.Scan
import JvmFold.Output.Delivery

/-!
# Configurations

What a run works on and what may be folded in it. It comes together from three
sources: the defaults for the platform, the markers in the classes, and what
the user asks for. Of two conditions for one method the later source wins, and
the ways to make objects of a class again are tried in the order of the
sources.

## Main definitions

* `Setup`: What the user asks for.
* `Setup.build`: Reads and scans the inputs and puts the sources together.
* `Config`: The configuration of a run.
* `Config.isConstantField`, `Config.predicate?`, `Config.selector?`: The questions of a run.
-/

namespace JvmFold

/-- What the user asks for. -/
structure Setup where
  /-- The inputs proper. -/
  primary : List ClassInput := []
  /-- The class path. -/
  classPath : List ClassInput := []
  /-- Where the classes go; at most one place makes sense. -/
  outputs : List OutputMode := []
  /-- The classes whose members are all constant. -/
  types : List String := []
  /-- The constant fields. -/
  fields : List Member := []
  /-- The constant methods with their conditions. -/
  methods : List (Member × Predicate) := []
  /-- What makes objects of a class again. -/
  selectors : List (String × Selector) := []
  /-- Whether the defaults for the platform apply. -/
  platform : Bool := false
  /-- Whether joined strings are folded; as the defaults for the platform if not given. -/
  concat : Option Bool := none
  /-- The limits of evaluations. -/
  limits : Limits := {}

/-- The configuration of a run. -/
structure Config where
  /-- The classes whose members are all constant. -/
  types : Std.TreeSet String
  /-- The constant fields. -/
  fields : Std.TreeSet Member
  /-- The constant methods with their conditions. -/
  methods : Std.TreeMap Member Predicate
  /-- What makes objects of a class again, flattened. -/
  selectors : Std.TreeMap String Selector
  /-- Whether joined strings are folded. -/
  foldsConcat : Bool
  /-- Where the classes go. -/
  output : Option OutputMode
  /-- The limits of evaluations. -/
  limits : Limits
  /-- The classes. -/
  classes : Universe

namespace Config

/-- Whether a field is constant: itself, or with its class. -/
def isConstantField (c : Config) (f : Member) : Bool :=
  c.fields.contains f || c.types.contains f.owner

/-- The condition of a constant method. -/
def predicate? (c : Config) (m : Member) (isStatic : Bool) : Option Predicate :=
  match c.methods.get? m with
  | some p => some p
  | none => if c.types.contains m.owner then some (.forMember m isStatic) else none

/-- What makes objects of a class again: what stands for the class itself or else for the nearest
    ancestor. -/
def selector? (c : Config) (name : String) : Option Selector :=
  (c.classes.ancestors name).findSome? c.selectors.get?

end Config

namespace Setup

/-- The only output. -/
def output (s : Setup) : Except Error (Option OutputMode) :=
  match s.outputs with
  | [] => if s.primary.isEmpty then .ok none else .error .missingOutput
  | [o] => .ok (some o)
  | a :: b :: _ => .error (.conflictingOutputModes a.name b.name)

/-- Whether a path leads to a variant of a class for some versions of the platform only. -/
def isVersioned : List String → Bool
  | "META-INF" :: "versions" :: _ :: _ => true
  | _ :: rest => isVersioned rest
  | [] => false

/-- Refuses variants of classes. -/
def checkKeys (l : List ClassInput) : Except Error Unit :=
  match l.find? fun i => isVersioned (i.key.splitOn "/") with
  | some i => .error (.multiReleaseInput i.key)
  | none => .ok ()

/-- Reads the inputs. -/
def readClasses (s : Setup) : Except Error Universe := do
  let u ← s.primary.foldlM (fun u i => u.insert i true) {}
  s.classPath.foldlM (fun u i => u.insert i false) u

/-- The inputs proper as they are behind a run: delivered classes take the place of those they came
    from. -/
def updated (s : Setup) (sink : Std.TreeMap String Bytes) : Setup :=
  { s with primary := s.primary.map fun i => { i with bytes := (sink.get? i.key).getD i.bytes } }

/-- The constant methods of all sources. -/
def mergeMethods (s : Setup) (found : Scan) : Std.TreeMap Member Predicate :=
  ((if s.platform then Defaults.methods else ∅).insertMany found.methods.toList).insertMany
    s.methods

/-- The ways of all sources to make objects again. -/
def mergeSelectors (s : Setup) (found : Scan) : Std.TreeMap String Selector :=
  let all := (if s.platform then Defaults.recipes else [])
    ++ found.alternatives.toList.flatMap (fun (name, l) => l.map fun a => (name, .only a))
    ++ s.selectors
  let byClass : Std.TreeMap String (List Selector) :=
    all.foldl (fun m (name, a) => m.alter name fun l => some (l.getD [] ++ [a])) ∅
  byClass.map fun _ l => (Selector.first l).flatten

/-- The configuration that the sources make together. -/
def merge (s : Setup) (output : Option OutputMode) (u : Universe) (found : Scan) : Config where
  types := found.types.insertMany s.types
  fields := found.fields.insertMany s.fields
  methods := s.mergeMethods found
  selectors := s.mergeSelectors found
  foldsConcat := s.concat.getD s.platform
  output := output
  limits := s.limits
  classes := u

/-- The closing remark of a configuration. -/
def remark (c : Config) : String :=
  "configured " ++ toString c.types.size ++ " constant types, " ++ toString c.fields.size
    ++ " constant fields, " ++ toString c.methods.size ++ " constant methods over "
    ++ toString c.classes.classes.size ++ " classes"

/-- Reads and scans the inputs and puts the sources together. Answers the configuration and the
    events on the way. -/
def build (s : Setup) : Except Error (Config × EventLog) := do
  let output ← s.output
  checkKeys (s.primary ++ s.classPath)
  let u ← s.readClasses
  let found ← Scan.ofUniverse u
  let config := s.merge output u found
  return (config, found.log.info (remark config))

end Setup

end JvmFold
