import JvmFold.Machine.Concat
import JvmFold.Machine.Throwable
import JvmFold.Text.ModifiedUtf8

/-!
# Values in Bodies

A value gets into a body by an instruction that loads it, if there is one.
Numbers, `null`, strings that fit into the constant pool and classes have one;
the classes of the primitive types are read from a field of their wrappers.
Any other object has to be made again.

## Main definitions

* `Encoding`: How a value gets into a body.
* `Heap.encoding`: The encoding of a value.
* `Heap.render`: A short text of a value.
-/

namespace JvmFold

/-- How a value gets into a body. -/
inductive Encoding where
  /-- One instruction loads it. -/
  | literal (load : Instruction)
  /-- The object has to be made again. -/
  | object (reference : HeapRef)
deriving DecidableEq, Repr

/-- The class that holds the object of a primitive type's class. -/
def primitiveHolder? (keyword : String) : Option String :=
  if keyword = "void" then some "java/lang/Void"
  else (Wrapper.all.find? fun w => w.keyword == keyword).map (·.className)

/-- The longest string that fits into the constant pool, in bytes. -/
def maxStringBytes : Nat := 65535

/-- The instruction that loads the object of a class. -/
def loadClass (name : String) : Instruction :=
  match primitiveHolder? name with
  | some holder => .field .getstatic ⟨holder, "TYPE", "Ljava/lang/Class;"⟩
  | none => .literal (.classRef name)

namespace Heap

/-- How an object gets into a body. -/
def encodingOf (h : Heap) (r : HeapRef) : Encoding :=
  match h.get r with
  | .string units =>
    if maxStringBytes < ModifiedUtf8.encodedLength units.toList then .object r
    else
      match Utf16.toString? units.toList with
      | some text => .literal (.literal (.string text))
      | none => .object r
  | .classObject name => .literal (loadClass name)
  | _ => .object r

/-- How a value gets into a body. -/
def encoding (h : Heap) : Value → Encoding
  | .int v => .literal (.literal (.int v))
  | .long v => .literal (.literal (.long v))
  | .float b => .literal (.literal (.float b))
  | .double b => .literal (.literal (.double b))
  | .null => .literal (.simple .aconstNull)
  | .ref r => h.encodingOf r

/-- A string in quotes, of which at most 64 characters are shown. -/
def renderString (text : String) : String :=
  if text.length ≤ 64 then Text.quoted text
  else Text.quoted (String.ofList (text.toList.take 64)) ++ "..."

/-- A short text of an object. -/
def renderObject (h : Heap) (r : HeapRef) : String :=
  match h.get r with
  | .string units =>
    match Utf16.toString? units.toList with
    | some text => renderString text
    | none => "<string with unpaired surrogates>"
  | .classObject name => "class " ++ dotted name
  | o => dotted o.className ++ " " ++ r.display

/-- A short text of a value. -/
def render (h : Heap) : Value → String
  | .int v => toString v.toInt
  | .long v => toString v.toInt ++ "L"
  | .float b => Layout.machine.single b ++ "f"
  | .double b => Layout.machine.double b
  | .null => "null"
  | .ref r => h.renderObject r

end Heap

end JvmFold
