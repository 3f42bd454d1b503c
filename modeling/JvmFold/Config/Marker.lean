import JvmFold.ClassFile.Basic

/-!
# Markers

The annotations by which a program tells what is constant in it. A class whose
members are all constant, a constant member, and a recipe or an object to be
used again are marked by one annotation each, known by its descriptor.

The markers are meant for the folding alone and are removed from every class
that is written.

## Main definitions

* `Marker`: The markers.
* `ClassFile.withoutMarkers`: A class without its markers.
-/

namespace JvmFold

/-- The annotations by which a program tells what is constant in it. -/
inductive Marker where
  /-- On a class: all its members are constant. -/
  | constantType
  /-- On a member: it is constant. -/
  | constant
  /-- On a constructor or static method: it makes objects again. On a static field: its object is to
      be used again. -/
  | reconstructor
deriving DecidableEq, Repr

namespace Marker

/-- The package of the markers as it starts their descriptors. -/
def home : String := "Lclassfold/annotations/"

/-- The descriptor of the annotation. -/
def descriptor : Marker → String
  | .constantType => home ++ "ConstantType;"
  | .constant => home ++ "Constant;"
  | .reconstructor => home ++ "Reconstructor;"

/-- Whether the annotation belongs to the package of the markers. -/
def isMarker (a : AnnotationRecord) : Bool :=
  home.toList.isPrefixOf a.descriptor.toList

/-- The annotations that are not markers. -/
def strip (l : List AnnotationRecord) : List AnnotationRecord :=
  l.filter fun a => !isMarker a

/-- The number of markers. -/
def count (l : List AnnotationRecord) : Nat :=
  (l.filter isMarker).length

end Marker

namespace ClassFile

/-- The class without markers on itself, its fields and its methods. -/
def withoutMarkers (c : ClassFile) : ClassFile :=
  { c with
    annotations := Marker.strip c.annotations
    fields := c.fields.map fun f => { f with annotations := Marker.strip f.annotations }
    methods := c.methods.map fun m => { m with annotations := Marker.strip m.annotations } }

/-- The number of markers on the class, its fields and its methods. -/
def markerCount (c : ClassFile) : Nat :=
  Marker.count c.annotations + Marker.count (c.fields.flatMap (·.annotations))
    + Marker.count (c.methods.flatMap (·.annotations))

end ClassFile

end JvmFold
