import JvmFold.Pool.Basic

/-!
# Annotations

An annotation is a type and a list of named values that nest. The library
looks at the type only and keeps the bytes, so reading has to find where an
annotation ends: it walks over the values without keeping them. Nesting is
limited, so that bytes from outside cannot exhaust the machine.

## Main definitions

* `AnnotationRecord`: An annotation by its type, with its bytes.
* `Annotations.read`, `Annotations.bytes`: A list of annotations.
* `AnnotationRecord.marker`: An annotation without values.
-/

namespace JvmFold

/-- An annotation by its type, with its bytes. -/
structure AnnotationRecord where
  /-- The descriptor of the type. -/
  descriptor : String
  /-- Whether running programs can see it. -/
  visible : Bool
  /-- The bytes, the index of the type included. -/
  raw : Bytes
deriving DecidableEq, Inhabited, Repr

namespace Annotations

/-- The deepest nesting of values that is read. -/
def maxNesting : Nat := 64

/-- Skips named values, each with the given computation. -/
def skipPairs (value : Read Unit) : Read Unit := do
  let count ← Read.u16
  iterated (fun _ => do Read.skip 2; value) count.toNat ()

/-- Skips a value that may nest to a depth below `room`. -/
def skipValue : Nat → Read Unit
  | 0 => throw (.recursionLimit maxNesting)
  | room + 1 => do
    let tag ← Read.u8
    match Char.ofNat tag.toNat with
    | 'B' | 'C' | 'D' | 'F' | 'I' | 'J' | 'S' | 'Z' | 's' | 'c' => Read.skip 2
    | 'e' => Read.skip 4
    | '@' => do
      Read.skip 2
      skipPairs (skipValue room)
    | '[' => do
      let count ← Read.u16
      iterated (fun _ => skipValue room) count.toNat ()
    | _ => Read.malformed (.elementTag tag)

/-- Reads an annotation. -/
def readOne (pool : Pool) (visible : Bool) : Read AnnotationRecord := do
  let (descriptor, raw) ← Read.consumed do
    let descriptor ← Read.lift (pool.text (← Read.u16))
    skipPairs (skipValue (maxNesting + 1))
    return descriptor
  return { descriptor, visible, raw }

/-- Reads a list of annotations. -/
def read (pool : Pool) (visible : Bool) : Read (List AnnotationRecord) := do
  repeated (← Read.u16).toNat (readOne pool visible)

/-- The bytes of a list of annotations. -/
def bytes (l : List AnnotationRecord) : Bytes :=
  Bytes.ofCount l.length ++ l.flatMap AnnotationRecord.raw

end Annotations

/-- An annotation without values. -/
def AnnotationRecord.marker (descriptor : String) (visible : Bool) :
    Pool.Edit AnnotationRecord := do
  let index ← Pool.addUtf8 descriptor
  return { descriptor, visible, raw := Bytes.ofU16 index ++ Bytes.ofU16 0 }

end JvmFold
