import JvmFold.Constant
import JvmFold.Opcode
import JvmFold.Pool.Entry

/-!
# Errors

Everything that can make reading, writing or configuring fail, by cause. A
constructor carries what its message needs, and the wording stands in one
place, `Malformed.message` and `Error.message`.

## Main definitions

* `Malformed`: What is wrong with a class file, a descriptor or a text.
* `Error`: The failures of the library.
* `Error.message`: The text of a failure.
-/

namespace JvmFold

/-- What is wrong with a class file, a descriptor or a text. -/
inductive Malformed where
  | emptyDescriptor
  | invalidDescriptorChar (found : Char) (descriptor : String)
  | unterminatedClass (descriptor : String)
  | emptyClassName (descriptor : String)
  | trailingDescriptor (descriptor : String)
  | missingParenthesis (descriptor : String)
  | unterminatedMethod (descriptor : String)
  | truncatedText
  | invalidLeadByte (byte : UInt8)
  | emptyPool
  | unknownPoolTag (tag : UInt8) (index : UInt16)
  | invalidPoolIndex (index : UInt16)
  | notUtf8 (index : UInt16) (found : PoolEntry)
  | notClass (index : UInt16) (found : PoolEntry)
  | notNameAndType (index : UInt16) (found : PoolEntry)
  | notMember (index : UInt16) (found : PoolEntry)
  | notLoadable (index : UInt16) (found : PoolEntry)
  | notCallSite (pc : Nat) (index : UInt16)
  | notFieldConstant (field : String) (found : PoolEntry)
  | invalidFieldConstant (constant : Constant) (field : String)
  | unknownOpcode (byte : UInt8)
  | wideOpcode (op : Opcode) (pc : Nat)
  | negativeBranch (pc : Nat)
  | switchRange (pc : Nat)
  | switchPairs (pc : Nat) (count : Int32)
  | labelInsideInstruction (offset : Nat) (method : Member)
  | labelOutsideCode (offset : Nat) (method : Member)
  | labelNotPlaced (label : Nat) (method : Member)
  | chopFrame (removed present : Nat) (method : Member)
  | reservedFrame (kind : UInt8) (method : Member)
  | verificationTag (tag : UInt8)
  | elementTag (tag : UInt8)
  | invalidMagic (magic : UInt32)
  | trailingBytes (count : Nat) (name : String)
deriving DecidableEq, Repr

/-- The failures of the library. -/
inductive Error where
  | malformed (cause : Malformed)
  | outOfBounds
  | empty
  | file
  | tooMany (what : String) (count : Nat)
  | attributeTooLong (name : String)
  | poolOverflow (entries : Nat)
  | stringTooLong (bytes : Nat)
  | branchOutOfRange (method : Member) (offset : Nat)
  | codeTooLarge (method : Member)
  | duplicateReconstructor (valueType existing duplicate : String)
  | missingAccessor (executable : String) (index : Nat) (parameter : String)
  | ambiguousAccessor (executable : String) (index : Nat) (candidates : List String)
  | missingParameterNames (executable : String)
  | invalidMarker (member reason : String)
  | multiReleaseInput (key : String)
  | duplicateClass (name first second : String)
  | conflictingOutputModes (first second : String)
  | missingOutput
  | inPlaceUnsupported (key : String)
  | recursionLimit (depth : Nat)
  /-- A number did not fit its width, which ends the whole program. -/
  | aborted
deriving DecidableEq, Repr

/-- At least `width` upper-case hexadecimal digits. -/
private def upperHex (width n : Nat) : String :=
  let digits := (Nat.toDigits 16 n).map Char.toUpper
  String.ofList (List.replicate (width - digits.length) '0' ++ digits)

/-- The text of a malformation. -/
def Malformed.message : Malformed → String
  | .emptyDescriptor => "Empty field descriptor"
  | .invalidDescriptorChar c d =>
    "Invalid descriptor character '" ++ String.singleton c ++ "' in '" ++ d ++ "'"
  | .unterminatedClass d => "Unterminated class descriptor '" ++ d ++ "'"
  | .emptyClassName d => "Empty class name in '" ++ d ++ "'"
  | .trailingDescriptor d => "Trailing data in descriptor '" ++ d ++ "'"
  | .missingParenthesis d => "Method descriptor '" ++ d ++ "' lacks '('"
  | .unterminatedMethod d => "Unterminated method descriptor '" ++ d ++ "'"
  | .truncatedText => "Truncated modified UTF-8 sequence"
  | .invalidLeadByte b => "Invalid modified UTF-8 lead byte 0x" ++ upperHex 2 b.toNat
  | .emptyPool => "Constant pool count of zero"
  | .unknownPoolTag tag index =>
    "Unknown constant pool tag " ++ toString tag.toNat ++ " at index " ++ toString index.toNat
  | .invalidPoolIndex i => "Invalid constant pool index " ++ toString i.toNat
  | .notUtf8 i e => expected "Utf8" i e
  | .notClass i e => expected "Class" i e
  | .notNameAndType i e => expected "NameAndType" i e
  | .notMember i e => expected "member reference" i e
  | .notLoadable i e =>
    "Constant pool entry #" ++ toString i.toNat ++ " (" ++ e.describe ++ ") is not loadable"
  | .notCallSite pc i =>
    "invokedynamic at " ++ toString pc ++ " refers to a non call site entry #" ++ toString i.toNat
  | .notFieldConstant f e => "ConstantValue of field " ++ f ++ " refers to " ++ e.describe
  | .invalidFieldConstant c f => c.display ++ " is not a valid ConstantValue for field " ++ f
  | .unknownOpcode b => "Unknown opcode 0x" ++ upperHex 2 b.toNat
  | .wideOpcode op pc => "wide cannot modify " ++ op.mnemonic ++ " at " ++ toString pc
  | .negativeBranch pc => "Branch at " ++ toString pc ++ " targets negative offset"
  | .switchRange pc => "tableswitch at " ++ toString pc ++ " has high < low"
  | .switchPairs pc n =>
    "lookupswitch at " ++ toString pc ++ " has " ++ toString n.toInt ++ " pairs"
  | .labelInsideInstruction o m =>
    "Label at offset " ++ toString o ++ " in " ++ m.display ++ " is inside an instruction"
  | .labelOutsideCode o m =>
    "Label at offset " ++ toString o ++ " in " ++ m.display ++ " is outside the code"
  | .labelNotPlaced l m => "Label L" ++ toString l ++ " is not placed in " ++ m.display
  | .chopFrame n k m =>
    "chop_frame removes " ++ toString n ++ " of " ++ toString k ++ " locals in " ++ m.display
  | .reservedFrame k m =>
    "Reserved stack map frame type " ++ toString k.toNat ++ " in " ++ m.display
  | .verificationTag t => "Invalid verification type tag " ++ toString t.toNat
  | .elementTag t =>
    "Invalid element value tag '" ++ String.singleton (Char.ofNat t.toNat) ++ "'"
  | .invalidMagic n => "Invalid magic 0x" ++ upperHex 8 n.toNat
  | .trailingBytes n c => toString n ++ " trailing bytes after class " ++ c
where
  /-- The text for an entry of another kind than the one wanted. -/
  expected (what : String) (index : UInt16) (found : PoolEntry) : String :=
    "Expected " ++ what ++ " at constant pool index " ++ toString index.toNat ++ ", found "
      ++ found.describe

/-- The text of a failure, as it stands inside longer texts. -/
def Error.message : Error → String
  | .malformed m => "Malformed: " ++ m.message
  | .outOfBounds => "Out of Bound read would have occurred!"
  | .empty => "Provided input was empty"
  | .file => ""
  | .tooMany what n => "Too many " ++ what ++ " (" ++ toString n ++ ") for a class file"
  | .attributeTooLong name => "Attribute " ++ name ++ " exceeds 4 GiB"
  | .poolOverflow n => "Constant pool of " ++ toString n ++ " entries exceeds 65535 entries"
  | .stringTooLong n =>
    "String of " ++ toString n ++ " modified UTF-8 bytes exceeds the constant pool limit"
  | .branchOutOfRange m pc =>
    "Branch at offset " ++ toString pc ++ " in " ++ m.display
      ++ " is out of range for a 16-bit jump"
  | .codeTooLarge m => "Code of " ++ m.display ++ " exceeds 65535 bytes"
  | .duplicateReconstructor t a b =>
    "Type " ++ t ++ " has more than one executable reconstructor: " ++ a ++ " and " ++ b
  | .missingAccessor e i p =>
    "No accessor found for parameter " ++ toString i ++ " ('" ++ p ++ "') of reconstructor " ++ e
  | .ambiguousAccessor e i l =>
    "Ambiguous accessors for parameter " ++ toString i ++ " of reconstructor " ++ e ++ ": "
      ++ Text.quotedList l
  | .missingParameterNames e =>
    "Reconstructor " ++ e
      ++ " has no recorded parameter names (compile with -parameters or debug info)"
  | .invalidMarker m r => "Invalid marker on " ++ m ++ ": " ++ r
  | .multiReleaseInput k =>
    "Input " ++ k
      ++ " is a platform-specific class variant; multi-release inputs are not supported"
  | .duplicateClass c a b => "Class " ++ c ++ " is defined by both " ++ a ++ " and " ++ b
  | .conflictingOutputModes a b => "Conflicting output modes requested: " ++ a ++ " and " ++ b
  | .missingOutput => "No output mode configured"
  | .inPlaceUnsupported k =>
    "Input " ++ k ++ " has no backing file and cannot be rewritten in place"
  | .recursionLimit n => "Reach the maximum recursion level allowed - " ++ toString n
  | .aborted => "aborted"

end JvmFold
