import JvmFold.Instruction.Basic
import JvmFold.Machine.Value

/-!
# Faults

Why an evaluation did not come to an answer. An exception of the program is
one fault among others: it can be caught by the program, and all others end
the evaluation. Running out of steps is kept apart from everything that the
program itself can bring about, and so is the machine's own breaking off, which
is no answer of an evaluation but the end of everything.

## Main definitions

* `Unsupported`: What the machine does not do.
* `Derailed`: How control went wrong.
* `Fault`: Why there is no answer.
* `Fault.message`: The text of a fault.
-/

namespace JvmFold

/-- What the machine does not do. -/
inductive Unsupported where
  | poolConstant (index : UInt16)
  | fieldOf (field : Member) (name : String)
  | platformField (field : Member)
  | noBody (method : Member)
  | badDescriptor (cause : Error)
  | opcode (op : Opcode)
  | callSite (name descriptor : String)
  | arrayKind (kind : UInt8)
  | arrayType (type : FieldType)
  | arrayLoad (name : String)
  | arrayStore (name : String)
  | arrayLength (name : String)
  | hexFloat (text : String)
  | joinNonArray
  | bootstrapArguments (cause : Error)
  | concatConstant (entry : PoolEntry)
  | missingConcatConstant
  | missingBootstrap (index : UInt16) (name : String)
deriving DecidableEq, Repr

/-- How control went wrong. -/
inductive Derailed where
  | unknownLabel (label : Label)
  | localOutOfRange (index : UInt16)
  | fellOff (method : Member)
deriving DecidableEq, Repr

/-- Why an evaluation has no answer. -/
inductive Fault where
  /-- An exception of the program. -/
  | thrown (exception : HeapRef)
  | unsupported (what : Unsupported)
  | missingNative (method : Member)
  | classNotFound (name : String)
  | noSuchMethod (method : Member)
  | noSuchField (field : Member)
  | classLoad (name : String) (cause : Error)
  | typeMismatch (expected found : String)
  | stackUnderflow
  | derailed (how : Derailed)
  | instructionLimit (limit : Nat)
  /-- The steps that the caller of the machine granted are used up. -/
  | outOfSteps
  /-- The machine itself broke off in the middle of an operation. -/
  | aborted
deriving DecidableEq, Repr

/-- The text of what is not supported. -/
def Unsupported.message : Unsupported → String
  | .poolConstant i => "ldc of constant pool entry " ++ toString i.toNat
  | .fieldOf f c => "field " ++ f.display ++ " of " ++ c
  | .platformField f => "field " ++ f.display ++ " of a platform object"
  | .noBody m => m.display ++ " has no bytecode (abstract or native)"
  | .badDescriptor e => e.message
  | .opcode op => op.mnemonic
  | .callSite n d => "invokedynamic " ++ n ++ d
  | .arrayKind k => "newarray type " ++ toString k.toNat
  | .arrayType t => "multianewarray of " ++ t.display
  | .arrayLoad c => "array load from " ++ c
  | .arrayStore c => "array store to " ++ c
  | .arrayLength c => "arraylength of " ++ c
  | .hexFloat t => "hexadecimal floating-point literal \"" ++ t ++ "\""
  | .joinNonArray => "String.join over a non-array"
  | .bootstrapArguments e => "bootstrap arguments: " ++ e.message
  | .concatConstant e => "concatenation constant " ++ e.describe
  | .missingConcatConstant => "concatenation constant missing"
  | .missingBootstrap i c => "missing bootstrap method " ++ toString i.toNat ++ " in " ++ c

/-- The text of how control went wrong. -/
def Derailed.message : Derailed → String
  | .unknownLabel l => "unknown label " ++ l.display
  | .localOutOfRange i => "local " ++ toString i.toNat ++ " out of range"
  | .fellOff m => "fell off the end of " ++ m.display

/-- The text of a fault. -/
def Fault.message : Fault → String
  | .thrown r => "uncaught exception " ++ r.display
  | .unsupported u => "unsupported: " ++ u.message
  | .missingNative m => "no native implementation for " ++ m.display
  | .classNotFound c => "class not found: " ++ c
  | .noSuchMethod m => "no such method: " ++ m.display
  | .noSuchField m => "no such field: " ++ m.display
  | .classLoad c e => "failed to load " ++ c ++ ": " ++ e.message
  | .typeMismatch e f => "operand type mismatch: expected " ++ e ++ ", found " ++ f
  | .stackUnderflow => "operand stack underflow"
  | .derailed d => "invalid control flow: " ++ d.message
  | .instructionLimit n => "instruction limit of " ++ toString n ++ " exceeded"
  | .outOfSteps => "out of steps"
  | .aborted => "aborted"

namespace Value

/-- The fault of a value of the wrong kind. -/
def mismatch (expected : String) (v : Value) : Fault :=
  .typeMismatch expected v.typeName

/-- The value as an `int`. -/
@[inline] def asInt : Value → Except Fault Int32
  | .int v => .ok v
  | v => .error (mismatch "int" v)

/-- The value as a `long`. -/
@[inline] def asLong : Value → Except Fault Int64
  | .long v => .ok v
  | v => .error (mismatch "long" v)

/-- The value as a `float`. -/
@[inline] def asFloat : Value → Except Fault Bits32
  | .float b => .ok b
  | v => .error (mismatch "float" v)

/-- The value as a `double`. -/
@[inline] def asDouble : Value → Except Fault Bits64
  | .double b => .ok b
  | v => .error (mismatch "double" v)

/-- The value as a reference; nothing for `null`. -/
@[inline] def asReference : Value → Except Fault (Option HeapRef)
  | .ref r => .ok (some r)
  | .null => .ok none
  | v => .error (mismatch "reference" v)

end Value

end JvmFold
