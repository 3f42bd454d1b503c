import JvmFold.Config.Basic
import JvmFold.Machine.Concat
import JvmFold.Machine.Probe

/-!
# Evaluating Calls

Whether a call may be evaluated, and what comes of it. What counts is the
method that would run: it has to be constant and its condition has to accept
the call, so a method that overrides a constant one is not constant for that.

Every evaluation starts with a full allowance of instructions.

## Main definitions

* `Failure`: Why a call has no value.
* `Evaluation`: An evaluation in progress.
* `Evaluation.invoke`: Evaluates a call of a method.
* `Evaluation.concat`: Evaluates a call site that joins strings.
-/

namespace JvmFold

/-- Why a call or read has no value. -/
inductive Failure where
  /-- It is not constant; this is not worth an event. -/
  | notConstant
  /-- The condition of the method does not accept the call. -/
  | rejected (method : Member)
  /-- A member is missing or has nothing to run. -/
  | inaccessible (member : Member) (cause : String)
  /-- The evaluation failed. -/
  | failed (message : String)
deriving DecidableEq, Repr

/-- What a fault means for the member that was used. -/
def Failure.ofFault (h : Heap) (m : Member) (f : Fault) : Failure :=
  match f with
  | .classNotFound _ | .noSuchMethod _ | .noSuchField _ | .classLoad _ _ =>
    .inaccessible m (h.describe f)
  | .missingNative missing => .inaccessible missing (h.describe f)
  | _ => .failed (m.display ++ ": " ++ h.describe f)

/-- An evaluation in progress. -/
abbrev Evaluation := ExceptT Failure Probe

namespace Evaluation

/-- Runs an operation of the machine on behalf of a member. -/
def guarded {α : Type} (m : Member) (operation : Emu α) : Evaluation α := do
  match ← Probe.attempt operation with
  | .ok a => return a
  | .error f => throw (.ofFault (← Probe.heap) m f)

/-- Reads a static field. -/
def readStatic (f : Member) : Evaluation Value := do
  Probe.beginEvaluation
  guarded f (Emu.getStatic f)

/-- Reads a field of an object. -/
def readField (object : Value) (f : Member) : Evaluation Value := do
  Probe.beginEvaluation
  guarded f (Emu.getField object f)

/-- The call as the condition of the method sees it. -/
def invocation (h : Heap) (method : Member) (receiver : Option Value) (operands : List Value) :
    Invocation where
  method := method
  receiver := receiver.bind h.runtimeClass?
  arguments := (if receiver.isSome then operands.drop 1 else operands).map h.runtimeClass?

/-- Evaluates a call and answers the method that ran with its value. The receiver is the first
    operand; a constructor takes its parameters only and answers the new object. -/
def invoke (c : Config) (kind : InvokeKind) (m : Member) (operands : List Value) :
    Evaluation (Member × Value) := do
  let constructing := m.isConstructor && kind == .special
  let receiver := if kind.hasReceiver && !constructing then operands.head? else none
  let method := (← guarded m (Emu.target kind m receiver)).member
  match c.predicate? method (kind == .static) with
  | none => throw .notConstant
  | some condition =>
    if !condition.allows c.classes (invocation (← Probe.heap) method receiver operands) then
      throw (.rejected method)
    Probe.beginEvaluation
    let result ← guarded method
      (if constructing then some <$> Emu.construct m operands else Emu.invokeOnce kind m operands)
    match result with
    | some v => return (method, v)
    | none => throw (.failed (method.display ++ " returned no value"))

/-- The member under which joined strings are reported. -/
def concatSite : Member where
  owner := ConcatRecipe.factoryClass
  name := "makeConcatWithConstants"
  descriptor := "(Ljava/lang/invoke/MethodHandles$Lookup;Ljava/lang/String;"
    ++ "Ljava/lang/invoke/MethodType;Ljava/lang/String;[Ljava/lang/Object;)"
    ++ "Ljava/lang/invoke/CallSite;"

/-- Evaluates a call site of a class. Only sites that join strings are constant. -/
def concat (c : ClassFile) (bootstrap : UInt16) (parameters : List FieldType)
    (operands : List Value) : Evaluation (Member × Value) := do
  match ← guarded concatSite (Emu.lift (ConcatRecipe.ofCallSite c bootstrap)) with
  | none => throw .notConstant
  | some recipe =>
    Probe.beginEvaluation
    return (concatSite, ← guarded concatSite (recipe.apply parameters operands))

end Evaluation

end JvmFold
