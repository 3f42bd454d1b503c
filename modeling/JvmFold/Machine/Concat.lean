import JvmFold.Machine.Text

/-!
# Joining Strings

A call site that joins strings names a factory of the platform and, with it, a
recipe: a text in which one mark stands for the next argument and another for
the next of some constants. Without a recipe the arguments are joined in order.

## Main definitions

* `ConcatRecipe`: What a call site joins.
* `ConcatRecipe.ofCallSite`: Reads it from a class.
* `ConcatRecipe.apply`: Joins the values of a call.
-/

namespace JvmFold

/-- What a call site joins. -/
structure ConcatRecipe where
  /-- The text with its marks; without one the arguments are joined in order. -/
  pattern : Option Units
  /-- The texts of the constants. -/
  constants : List Units
deriving DecidableEq, Repr

namespace ConcatRecipe

/-- The fault of a call site whose entries in the pool are wrong. -/
def poolFault (e : Error) : Fault :=
  .unsupported (.bootstrapArguments e)

/-- Reads the pool; what is wrong there is a fault. -/
def fromPool {α : Type} : Except Error α → Except Fault α
  | .ok a => .ok a
  | .error e => .error (poolFault e)

/-- The text of a constant. -/
def constantText (pool : Pool) (index : UInt16) : Except Fault Units := do
  match ← fromPool (pool.entry index) with
  | .string utf8 => return .ofString (← fromPool (pool.text utf8))
  | .integer v => return .ofString (toString v.toInt)
  | .long v => return .ofString (toString v.toInt)
  | .float b => return .ofString (Layout.machine.single b)
  | .double b => return .ofString (Layout.machine.double b)
  | other => throw (.unsupported (.concatConstant other))

/-- The class of the factory. -/
def factoryClass : String := "java/lang/invoke/StringConcatFactory"

/-- The recipe of a bootstrap method; nothing if it does not join strings. -/
def ofBootstrap (pool : Pool) (b : BootstrapMethod) : Except Fault (Option ConcatRecipe) := do
  match ← fromPool (pool.entry b.handle) with
  | .methodHandle _ reference =>
    let (factory, _) ← fromPool (pool.member reference)
    if factory.owner ≠ factoryClass then return none
    else if factory.name = "makeConcat" then return some ⟨none, []⟩
    else if factory.name = "makeConcatWithConstants" then
      match b.arguments with
      | [] => return none
      | first :: rest =>
        let pattern ← constantText pool first
        return some ⟨some pattern, ← rest.mapM (constantText pool)⟩
    else return none
  | _ => return none

/-- The recipe of a call site of a class; nothing if it does not join strings. -/
def ofCallSite (c : ClassFile) (bootstrap : UInt16) : Except Fault (Option ConcatRecipe) :=
  match c.bootstraps[bootstrap.toNat]? with
  | none => .error (.unsupported (.missingBootstrap bootstrap c.name))
  | some b => ofBootstrap c.pool b

/-- Joins the texts of arguments to `text`. -/
def joinAll (text : Units) : List (Value × FieldType) → Emu Units
  | [] => return text
  | (v, t) :: rest => do joinAll (text ++ (← Emu.valueText v t)) rest

/-- Follows a pattern, with the arguments and constants that are left. -/
def follow (text : Units) (arguments : List (Value × FieldType)) (constants : List Units) :
    List UInt16 → Emu Units
  | [] => return text
  | u :: rest =>
    if u = 1 then
      match arguments with
      | [] => throw .stackUnderflow
      | (v, t) :: arguments => do
        follow (text ++ (← Emu.valueText v t)) arguments constants rest
    else if u = 2 then
      match constants with
      | [] => throw (.unsupported .missingConcatConstant)
      | k :: constants => follow (text ++ k) arguments constants rest
    else follow (text.push u) arguments constants rest

/-- Joins the values of a call. -/
def apply (r : ConcatRecipe) (parameters : List FieldType) (values : List Value) : Emu Value := do
  let arguments := values.zip parameters
  let text ← match r.pattern with
    | none => joinAll #[] arguments
    | some pattern => follow #[] arguments r.constants pattern.toList
  Emu.newString text

end ConcatRecipe

end JvmFold
