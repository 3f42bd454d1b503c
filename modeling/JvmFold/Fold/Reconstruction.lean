import JvmFold.Config.Basic
import JvmFold.Fold.Encoding
import JvmFold.Fold.InitOrder
import JvmFold.Fold.Obstacle
import JvmFold.Machine.Probe

/-!
# Making Objects Again

Code that leaves an object on the stack which is equal to a given one. The
alternatives for the class of the object are tried in turn: a static field
that holds an equal object, or a recipe. A recipe is not trusted. Its arguments
are read from the object, it is run in the machine, and it is used only if the
result is equal to the object.

Arguments that no instruction loads are made again in turn. Nesting is limited,
and an object is never made again for its own sake, so this ends on any graph
of objects.

## Main definitions

* `Reconstruction`: Code that makes an equal object.
* `Rebuild.reuse`, `Rebuild.execute`: The two kinds of alternatives.
* `Rebuild.run`: Finds code for an object.
* `castNeeded?`: The cast behind the code that the type at its place asks for.
-/

namespace JvmFold

/-- Code that makes an equal object. -/
structure Reconstruction where
  /-- The instructions that leave the object on the stack. -/
  code : List Instruction
  /-- The class that the code promises. -/
  produces : String
  /-- The recipe or field that is used, as it is shown in messages. -/
  recipe : String
deriving DecidableEq, Inhabited, Repr

/-- The class to cast to where code that promises one class stands for a value of a type. -/
def castNeeded? (u : Universe) (produces : String) (expected : FieldType) : Option String :=
  expected.className?.filter fun name =>
    !(name == objectClass || name == produces || u.isSubtype produces name)

/-- Code with the cast that the type at its place asks for. -/
def Reconstruction.codeFor (r : Reconstruction) (u : Universe) (expected : FieldType) :
    List Instruction :=
  r.code ++ (castNeeded? u r.produces expected).toList.map (.typed .checkcast)

/-- A search for code in progress. -/
abbrev Rebuild := ExceptT Obstacle Probe

/-- The place in a body that code is wanted for. -/
structure RebuildSite where
  /-- The configuration. -/
  config : Config
  /-- The order of initialization in the method. -/
  order : InitOrder
  /-- The position in the method. -/
  position : Nat

namespace Rebuild

/-- Runs an operation of the machine, a fault of which is an obstacle. -/
def guarded {α : Type} (obstacle : String → Obstacle) (operation : Emu α) : Rebuild α := do
  match ← Probe.attempt operation with
  | .ok a => return a
  | .error f => throw (obstacle ((← Probe.heap).describe f))

/-- Whether two values are the same or equal as the program defines it; a comparison that fails
    counts as no. -/
def equalOrFalse (a b : Value) : Rebuild Bool := do
  match ← Probe.attempt (Emu.areEqual a b) with
  | .ok equal => return equal
  | .error _ => return false

/-- Code that reads a static field. -/
def ofField (f : Member) : Reconstruction where
  code := [.field .getstatic f]
  produces := ((FieldType.parse f.descriptor).toOption.bind FieldType.className?).getD f.owner
  recipe := f.display

/-- The first of the fields that can be used here and holds an equal object. A field that cannot be
    read holds none. -/
def firstEqual? (site : RebuildSite) (value : Value) : List Member → Rebuild (Option Member)
  | [] => return none
  | f :: rest => do
    if site.order.isReusable site.config.classes f site.position then
      match ← Probe.attempt (Emu.getStatic f) with
      | .error _ => firstEqual? site value rest
      | .ok candidate =>
        if ← equalOrFalse candidate value then return some f else firstEqual? site value rest
    else firstEqual? site value rest

/-- Uses a static field that holds an equal object. -/
def reuse (site : RebuildSite) (fields : List Member) (value : Value) :
    Rebuild Reconstruction := do
  match ← firstEqual? site value fields with
  | some f => return ofField f
  | none =>
    let unassigned := fields.filter fun f =>
      !site.order.isReusable site.config.classes f site.position
    throw (.noEqualField fields.length unassigned.length)

/-- Reads an argument of a recipe from the object. -/
def extract (value : Value) (a : Accessor) : Rebuild Value := do
  match a.kind with
  | .field => guarded (.accessorFailed a.member) (Emu.getField value a.member)
  | .getter =>
    match ← guarded (.accessorFailed a.member) (Emu.invoke .virtual a.member [value]) with
    | some v => return v
    | none => throw (.accessorVoid a.member)

/-- The arguments of a recipe with the code for them. `nested` makes objects again. -/
def encodeArguments (site : RebuildSite) (nested : HeapRef → Rebuild Reconstruction)
    (value : Value) : List Accessor → Rebuild (List Value × List Instruction)
  | [] => return ([], [])
  | a :: rest => do
    let v ← extract value a
    let code ← match (← Probe.heap).encoding v with
      | .literal load => pure [load]
      | .object r => do pure ((← nested r).codeFor site.config.classes a.type)
    let (values, following) ← encodeArguments site nested value rest
    return (v :: values, code ++ following)

/-- Runs a recipe. -/
def perform (recipe : Recipe) (arguments : List Value) : Rebuild Value := do
  match recipe.kind with
  | .constructor =>
    guarded (.recipeFailed recipe) (Emu.construct recipe.member arguments)
  | _ =>
    match ← guarded (.recipeFailed recipe) (Emu.invoke .static recipe.member arguments) with
    | some v => return v
    | none => throw (.recipeVoid recipe)

/-- The code of a recipe around the code for its arguments. -/
def ofRecipe (u : Universe) (recipe : Recipe) (arguments : List Instruction) : Reconstruction :=
  let m := recipe.member
  let isInterface := (u.class? m.owner).any (·.isInterface)
  match recipe.kind with
  | .constructor =>
    { code := [.typed .new m.owner, .simple .dup] ++ arguments
        ++ [.invoke .invokespecial m isInterface]
      produces := m.owner
      recipe := recipe.display }
  | _ =>
    { code := arguments ++ [.invoke .invokestatic m isInterface]
      produces := (((MethodType.parse m.descriptor).toOption.bind (·.result)).bind
        FieldType.className?).getD m.owner
      recipe := recipe.display }

/-- Uses a recipe, if what it makes is equal to the object. -/
def execute (site : RebuildSite) (nested : HeapRef → Rebuild Reconstruction) (recipe : Recipe)
    (value : Value) : Rebuild Reconstruction := do
  let (arguments, code) ← encodeArguments site nested value recipe.accessors
  let made ← perform recipe arguments
  if ← guarded (.comparisonFailed recipe) (Emu.areEqual made value) then
    return ofRecipe site.config.classes recipe code
  else throw (.unequal recipe)

/-- Tries an alternative. -/
def attempt (site : RebuildSite) (nested : HeapRef → Rebuild Reconstruction) (value : Value) :
    Alternative → Rebuild Reconstruction
  | .reuse fields => reuse site fields value
  | .recipe r =>
    if r.isExecutable then execute site nested r value else reuse site [r.member] value

/-- The first alternative that works; `reasons` are the obstacles so far. -/
def firstOf (site : RebuildSite) (nested : HeapRef → Rebuild Reconstruction) (name : String)
    (value : Value) (reasons : List Obstacle) : List Alternative → Rebuild Reconstruction
  | [] => throw (.exhausted name reasons)
  | a :: rest =>
    tryCatch (attempt site nested value a) fun o =>
      firstOf site nested name value (reasons ++ [o]) rest

/-- Finds code for an object that may nest to a depth below `room`; `visiting` are the objects that
    it is made again for. -/
def within (site : RebuildSite) : Nat → List HeapRef → HeapRef → Rebuild Reconstruction
  | 0, _, _ => throw .tooDeep
  | room + 1, visiting, r => do
    if visiting.contains r then throw .cyclic
    let name := ((← Probe.heap).get r).className
    match site.config.selector? name with
    | none => throw (.noSelector name)
    | some s =>
      firstOf site (within site room (r :: visiting)) name (.ref r) [] s.alternatives

/-- Finds code for an object. -/
def run (site : RebuildSite) (r : HeapRef) : Probe (Except Obstacle Reconstruction) := do
  Probe.beginEvaluation
  ExceptT.run (within site maxRebuildDepth [] r)

end Rebuild

end JvmFold
