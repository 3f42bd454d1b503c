import Std.Data.HashMap
import JvmFold.Machine.Value
import JvmFold.Text.Utf16

/-!
# Objects

The heap numbers objects in the order of allocation and never frees them.
Strings, string builders, boxes of primitive values and classes are objects of
their own kinds, because the machine works on their contents itself; all other
objects have fields.

Some objects are canonical: an interned string, the object of a class and the
boxes of small values. The heap remembers these and answers the same reference
again.

## Main definitions

* `Wrapper`: The classes that box primitive values.
* `HeapObject`: An object.
* `Heap`: All objects, with the canonical ones by what they stand for.
* `Heap.alloc`, `Heap.intern`, `Heap.classObject`, `Heap.boxed`: Allocation.
-/

namespace JvmFold

/-- The classes whose objects hold primitive values. -/
inductive Wrapper where
  | integer | long | short | byte | float | double | boolean | character
deriving DecidableEq, Hashable, Inhabited, Repr

namespace Wrapper

/-- All of them. -/
def all : List Wrapper :=
  [.integer, .long, .short, .byte, .float, .double, .boolean, .character]

/-- The internal name. -/
def className : Wrapper → String
  | .integer => "java/lang/Integer"
  | .long => "java/lang/Long"
  | .short => "java/lang/Short"
  | .byte => "java/lang/Byte"
  | .float => "java/lang/Float"
  | .double => "java/lang/Double"
  | .boolean => "java/lang/Boolean"
  | .character => "java/lang/Character"

/-- The type of the values. -/
def primitive : Wrapper → FieldType
  | .integer => .int
  | .long => .long
  | .short => .short
  | .byte => .byte
  | .float => .float
  | .double => .double
  | .boolean => .boolean
  | .character => .char

/-- The wrapper of an internal name. -/
def ofClassName? (name : String) : Option Wrapper :=
  all.find? fun w => w.className == name

/-- The value cut to the range of the type that the wrapper holds. -/
def normalize : Wrapper → Value → Value
  | .boolean, .int v => .ofBool (v != 0)
  | .character, .int v => .int v.toUInt32.toUInt16.toUInt32.toInt32
  | .short, .int v => .int v.toInt16.toInt32
  | .byte, .int v => .int v.toInt8.toInt32
  | _, v => v

/-- The number by which a box of the value is canonical, if it is. -/
def cacheKey? : Wrapper → Value → Option Int
  | .boolean, .int v => some (if v = 0 then 0 else 1)
  | .character, .int v => if 0 ≤ v ∧ v ≤ 127 then some v.toInt else none
  | .integer, .int v | .short, .int v | .byte, .int v =>
    if -128 ≤ v ∧ v ≤ 127 then some v.toInt else none
  | .long, .long v => if -128 ≤ v ∧ v ≤ 127 then some v.toInt else none
  | _, _ => none

end Wrapper

/-- The fields of an object that have been given a value. -/
abbrev Fields := List (Member × Value)

namespace Fields

/-- The value of a field. -/
def get? (l : Fields) (m : Member) : Option Value :=
  l.lookup m

/-- The fields with one value changed or added. -/
def set (m : Member) (v : Value) : Fields → Fields
  | [] => [(m, v)]
  | (n, w) :: rest => if n = m then (n, v) :: rest else (n, w) :: set m v rest

end Fields

/-- An object. -/
inductive HeapObject where
  | string (units : Units)
  | builder (units : Units)
  | boxed (wrapper : Wrapper) (value : Value)
  | classObject (name : String)
  | array (component : FieldType) (elements : Array Value)
  | instance (name : String) (fields : Fields)
deriving DecidableEq, Inhabited, Repr

namespace HeapObject

/-- The internal name of the class of the object. -/
def className : HeapObject → String
  | .string _ => "java/lang/String"
  | .builder _ => "java/lang/StringBuilder"
  | .boxed w _ => w.className
  | .classObject _ => "java/lang/Class"
  | .array component _ => "[" ++ component.descriptor
  | .instance name _ => name

/-- Whether the contents of the object can change. -/
def isMutable : HeapObject → Bool
  | .builder _ | .array _ _ | .instance _ _ => true
  | _ => false

end HeapObject

/-- All objects, with the canonical ones by what they stand for. -/
structure Heap where
  /-- The objects, in the order of allocation. -/
  objects : Array HeapObject := #[]
  /-- The interned strings. -/
  interned : Std.HashMap Units HeapRef := ∅
  /-- The objects of classes. -/
  classes : Std.HashMap String HeapRef := ∅
  /-- The canonical boxes. -/
  boxes : Std.HashMap (Wrapper × Int) HeapRef := ∅
deriving Inhabited

namespace Heap

/-- The number of objects. -/
def size (h : Heap) : Nat :=
  h.objects.size

/-- The object of a reference. -/
def get? (h : Heap) (r : HeapRef) : Option HeapObject :=
  h.objects[r.index]?

/-- The object of a reference. References come from allocation, so the empty string that stands for
    a missing object is never seen. -/
def get (h : Heap) (r : HeapRef) : HeapObject :=
  (h.get? r).getD (.string #[])

/-- Puts another object, made from the one there, in the place of a reference. -/
@[inline] def modify (h : Heap) (r : HeapRef) (f : HeapObject → HeapObject) : Heap :=
  { h with objects := h.objects.modify r.index f }

/-- Adds an object. -/
def alloc (h : Heap) (o : HeapObject) : HeapRef × Heap :=
  (⟨h.objects.size⟩, { h with objects := h.objects.push o })

/-- Adds a string. -/
def newString (h : Heap) (units : Units) : HeapRef × Heap :=
  h.alloc (.string units)

/-- The canonical string of the units. -/
def intern (h : Heap) (units : Units) : HeapRef × Heap :=
  match h.interned[units]? with
  | some r => (r, h)
  | none =>
    let (r, h) := h.alloc (.string units)
    (r, { h with interned := h.interned.insert units r })

/-- The canonical string with the contents of a string, which becomes canonical if there is none.
    Other objects stand for themselves. -/
def internExisting (h : Heap) (r : HeapRef) : HeapRef × Heap :=
  match h.get? r with
  | some (.string units) =>
    match h.interned[units]? with
    | some canonical => (canonical, h)
    | none => (r, { h with interned := h.interned.insert units r })
  | _ => (r, h)

/-- The object of a class. -/
def classObject (h : Heap) (name : String) : HeapRef × Heap :=
  match h.classes[name]? with
  | some r => (r, h)
  | none =>
    let (r, h) := h.alloc (.classObject name)
    (r, { h with classes := h.classes.insert name r })

/-- A box of a value: the canonical one for small values and a new one for others. -/
def boxed (h : Heap) (w : Wrapper) (v : Value) : HeapRef × Heap :=
  match w.cacheKey? v with
  | none => h.alloc (.boxed w v)
  | some key =>
    match h.boxes[(w, key)]? with
    | some r => (r, h)
    | none =>
      let (r, h) := h.alloc (.boxed w v)
      (r, { h with boxes := h.boxes.insert (w, key) r })

/-- The units of a string. -/
def stringUnits? (h : Heap) (r : HeapRef) : Option Units :=
  match h.get r with
  | .string units => some units
  | _ => none

/-- The text of a string without unpaired surrogates. -/
def string? (h : Heap) (r : HeapRef) : Option String :=
  (h.stringUnits? r).bind fun units => Utf16.toString? units.toList

end Heap

end JvmFold
