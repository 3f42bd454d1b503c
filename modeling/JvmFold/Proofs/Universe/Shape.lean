import Mathlib
import JvmFold.Machine.Call
import JvmFold.Natives.Table
import JvmFold.Proofs.Universe.Searches

/-!
# What the Machine Sees of a Universe

The machine asks a universe for the hierarchy of its classes, for their fields
with the constants these start with, and for the flags and signatures of their
methods. It sees nothing of the bytes, the pools, the annotations and the
attributes in this way; bodies and call sites come to it by the methods that
are made ready.

The shape of a class is what is left when all that goes unseen is dropped.
Universes whose classes have the same shapes answer every question in the same
way, so it is the shapes that have to be compared and not the questions.

## Main definitions

* `ClassFile.shape`: What the machine sees of a class.
* `Universe.Alike`: Universes whose classes have the same shapes.
* `Env.Alike`: Environments that tell an operation the same.

## Theorems

* `Universe.Alike.isSubtype`, `Universe.Alike.fieldOwner?`, `Universe.Alike.methodOwner?` and their
  companions: The questions to a universe are answered by the shapes.
* `Env.Alike.directTarget`, `Env.Alike.virtualTarget`: What a call runs is found by the shapes.
-/

namespace JvmFold

/-- What the machine sees of a field. -/
def Field.shape (f : Field) : Field :=
  { f with annotations := [], attributes := [] }

/-- What the machine sees of a method before it runs it. -/
def Method.shape (m : Method) : Method :=
  { m with body := none, raw := none, annotations := [], attributes := [] }

/-- What the machine sees of a class. -/
def ClassFile.shape (c : ClassFile) : ClassFile where
  access := c.access
  name := c.name
  superName := c.superName
  interfaces := c.interfaces
  fields := c.fields.map Field.shape
  methods := c.methods.map Method.shape

namespace ClassFile

variable {c d : ClassFile}

/-- A field is found in the shape where it is found in the class. -/
theorem field?_shape (c : ClassFile) (s : Signature) :
    c.shape.field? s = (c.field? s).map Field.shape := by
  unfold field? shape
  rw [List.find?_map]
  rfl

/-- A method is found in the shape as it is in the class. -/
theorem method?_shape (c : ClassFile) (s : Signature) :
    c.shape.method? s = (c.method? s).map Method.shape := by
  unfold method? shape
  rw [List.find?_map]
  rfl

theorem name_eq_of_shape (h : c.shape = d.shape) : c.name = d.name := by
  change c.shape.name = d.shape.name
  rw [h]

theorem superName_eq_of_shape (h : c.shape = d.shape) : c.superName = d.superName := by
  change c.shape.superName = d.shape.superName
  rw [h]

theorem interfaces_eq_of_shape (h : c.shape = d.shape) : c.interfaces = d.interfaces := by
  change c.shape.interfaces = d.shape.interfaces
  rw [h]

theorem isInterface_eq_of_shape (h : c.shape = d.shape) : c.isInterface = d.isInterface := by
  change c.shape.isInterface = d.shape.isInterface
  rw [h]

/-- Classes of one shape declare the same fields. -/
theorem isSome_field?_of_shape (h : c.shape = d.shape) (s : Signature) :
    (c.field? s).isSome = (d.field? s).isSome := by
  have hfield := congrArg (fun c => (field? c s).isSome) h
  simpa only [field?_shape, Option.isSome_map] using hfield

-- And the same methods.
theorem isSome_method?_of_shape (h : c.shape = d.shape) (s : Signature) :
    (c.method? s).isSome = (d.method? s).isSome := by
  have hmethod := congrArg (fun c => (method? c s).isSome) h
  simpa only [method?_shape, Option.isSome_map] using hmethod

/-- Whether a method can be called on an object shows in the shape. -/
theorem implements_shape (c : ClassFile) (s : Signature) :
    Universe.implements s c.shape = Universe.implements s c := by
  unfold Universe.implements
  rw [method?_shape, Option.any_map]
  rfl

/-- Of which the same are implemented. -/
theorem implements_eq_of_shape (h : c.shape = d.shape) (s : Signature) :
    Universe.implements s c = Universe.implements s d := by
  rw [← implements_shape c, ← implements_shape d, h]

/-- The static field of a constant shows in the shape. -/
theorem enumConstant?_shape (c : ClassFile) (name : String) :
    Natives.enumConstant? c.shape name = (Natives.enumConstant? c name).map Field.shape := by
  unfold Natives.enumConstant? shape
  rw [List.find?_map]
  rfl

/-- Classes of one shape have the same constants if they are enums. -/
theorem enumConstant?_eq_of_shape (h : c.shape = d.shape) (name : String) :
    (Natives.enumConstant? c name).map c.fieldMember =
      (Natives.enumConstant? d name).map d.fieldMember := by
  have hmember (c : ClassFile) : (Natives.enumConstant? c name).map c.fieldMember =
      (Natives.enumConstant? c.shape name).map c.shape.fieldMember := by
    rw [enumConstant?_shape, Option.map_map]
    rfl
  rw [hmember c, hmember d, h]

/-- A class is brought to life by what its shape shows. -/
theorem startClass_shape (c : ClassFile) (name : String) :
    Emu.startClass c.shape name = Emu.startClass c name := by
  have hstatics : Emu.startStatics c.shape = Emu.startStatics c := by
    unfold Emu.startStatics shape
    rw [List.filter_map]
    exact List.forM_map
  have hinitializer : Emu.runInitializer c.shape name = Emu.runInitializer c name := by
    unfold Emu.runInitializer
    rw [method?_shape, Option.isSome_map]
  unfold Emu.startClass
  rw [hstatics, hinitializer]
  rfl

/-- They start alike. -/
theorem startClass_eq_of_shape (h : c.shape = d.shape) (name : String) :
    Emu.startClass c name = Emu.startClass d name := by
  rw [← startClass_shape c, ← startClass_shape d, h]

end ClassFile

/-- Universes whose classes have the same shapes. -/
structure Universe.Alike (u v : Universe) : Prop where
  shapes : ∀ name, (u.class? name).map ClassFile.shape = (v.class? name).map ClassFile.shape

namespace Universe

variable {u v : Universe}

theorem contains_eq (u : Universe) (name : String) : u.contains name = (u.class? name).isSome := by
  unfold contains class? entry?
  rw [Option.isSome_map]
  exact Std.TreeMap.contains_eq_isSome_getElem?

theorem alike_refl (u : Universe) : u.Alike u :=
  ⟨fun _ => rfl⟩

/-- Being alike goes both ways. -/
theorem Alike.symm (h : u.Alike v) : v.Alike u :=
  ⟨fun name => (h.shapes name).symm⟩

namespace Alike

/-- A class is in both universes, with one shape, or in none of them. -/
theorem class?_cases (h : u.Alike v) (name : String) :
    (u.class? name = none ∧ v.class? name = none) ∨
      ∃ c d, u.class? name = some c ∧ v.class? name = some d ∧ c.shape = d.shape := by
  have hshape := h.shapes name
  -- Both universes have the class, or neither has it.
  cases hu : u.class? name with
  | none =>
      cases hv : v.class? name with
      | none => exact .inl ⟨rfl, rfl⟩
      | some d =>
          rw [hu, hv] at hshape
          cases hshape
  | some c =>
      cases hv : v.class? name with
      | none =>
          rw [hu, hv] at hshape
          cases hshape
      | some d =>
          rw [hu, hv] at hshape
          exact .inr ⟨c, d, rfl, rfl, Option.some.inj hshape⟩

/-- A test that looks at the shape answers alike. -/
theorem any_class? (h : u.Alike v) {test : ClassFile → Bool}
    (htest : ∀ c d : ClassFile, c.shape = d.shape → test c = test d) (name : String) :
    (u.class? name).any test = (v.class? name).any test := by
  rcases h.class?_cases name with ⟨hu, hv⟩ | ⟨c, d, hu, hv, hcd⟩
  · rw [hu, hv]
  · rw [hu, hv, Option.any_some, Option.any_some, htest c d hcd]

theorem contains (h : u.Alike v) (name : String) : u.contains name = v.contains name := by
  rw [contains_eq, contains_eq]
  simpa only [Option.isSome_map] using congrArg Option.isSome (h.shapes name)

theorem superclass? (h : u.Alike v) (name : String) : u.superclass? name = v.superclass? name := by
  unfold Universe.superclass?
  rcases h.class?_cases name with ⟨hu, hv⟩ | ⟨c, d, hu, hv, hcd⟩
  · rw [hu, hv]
  · rw [hu, hv]
    dsimp only
    rw [ClassFile.superName_eq_of_shape hcd]

theorem interfaces (h : u.Alike v) (name : String) : u.interfaces name = v.interfaces name := by
  unfold Universe.interfaces
  rcases h.class?_cases name with ⟨hu, hv⟩ | ⟨c, d, hu, hv, hcd⟩
  · rw [hu, hv]
  · rw [hu, hv]
    dsimp only
    rw [ClassFile.interfaces_eq_of_shape hcd]

theorem supertypes (h : u.Alike v) : u.supertypes = v.supertypes := by
  funext name
  unfold Universe.supertypes
  rw [h.superclass?, h.interfaces]

/-- Subtypes are the same, as far as the search goes. -/
theorem isSubtypeWithin (h : u.Alike v) (bound : Nat) (sub sup : String) :
    u.isSubtypeWithin bound sub sup = v.isSubtypeWithin bound sub sup := by
  induction bound generalizing sub sup with
  | zero => rfl
  | succ bound ih =>
      unfold Universe.isSubtypeWithin Universe.reaches
      simp only [ih, h.supertypes]

-- So they are without a bound.
theorem isSubtype (h : u.Alike v) (sub sup : String) : u.isSubtype sub sup = v.isSubtype sub sup :=
  h.isSubtypeWithin _ sub sup

-- A search that ends in one universe ends in the same way in the other.
theorem superChain?_eq_some (h : u.Alike v) {name : String} {chain : List String} :
    u.superChain? name = some chain → v.superChain? name = some chain := by
  have hsearch := Universe.superChain?.partial_correctness u
    (fun name chain => v.superChain? name = some chain)
  refine hsearch (fun search ih name chain hchain => ?_) name chain
  rw [h.superclass?] at hchain
  unfold Universe.superChain?
  split at hchain
  · exact hchain
  · rcases Option.bind_eq_some_iff.mp hchain with ⟨above, habove, hchain⟩
    exact Option.bind_eq_some_iff.mpr ⟨above, ih _ _ habove, hchain⟩

theorem superChain? (h : u.Alike v) (name : String) : u.superChain? name = v.superChain? name :=
  Option.ext fun _ => ⟨h.superChain?_eq_some, h.symm.superChain?_eq_some⟩

theorem ancestors? (h : u.Alike v) (name : String) : u.ancestors? name = v.ancestors? name := by
  have hinterfaces : u.interfaces = v.interfaces := funext h.interfaces
  unfold Universe.ancestors?
  rw [h.superChain?, hinterfaces]

theorem ancestors (h : u.Alike v) (name : String) : u.ancestors name = v.ancestors name :=
  congrArg (·.getD []) (h.ancestors? name)

/-- What one search finds the other one finds. -/
theorem fieldSearch_eq_some (h : u.Alike v) {s : Signature} {name : String}
    {answer : Option String} :
    u.fieldSearch name s = some answer → v.fieldSearch name s = some answer := by
  have hsearch := Universe.fieldSearch.partial_correctness u s
    (fun name answer => v.fieldSearch name s = some answer)
  refine hsearch (fun search ih name answer hanswer => ?_) name answer
  unfold Universe.fieldSearch
  rcases h.class?_cases name with ⟨hu, hv⟩ | ⟨c, d, hu, hv, hcd⟩
  · rw [hu] at hanswer
    rw [hv]
    exact hanswer
  · rw [hu] at hanswer
    rw [hv]
    dsimp only at hanswer ⊢
    rw [ClassFile.isSome_field?_of_shape hcd, ClassFile.superName_eq_of_shape hcd,
      ClassFile.interfaces_eq_of_shape hcd] at hanswer
    -- The class declares the field in both, or the search goes on in both.
    by_cases hfield : (d.field? s).isSome
    · rw [if_pos hfield] at hanswer ⊢
      exact hanswer
    · rw [if_neg hfield] at hanswer ⊢
      exact findSomeM?_mono ih hanswer

theorem fieldSearch (h : u.Alike v) (name : String) (s : Signature) :
    u.fieldSearch name s = v.fieldSearch name s :=
  Option.ext fun _ => ⟨h.fieldSearch_eq_some, h.symm.fieldSearch_eq_some⟩

theorem fieldOwner? (h : u.Alike v) (f : Member) : u.fieldOwner? f = v.fieldOwner? f :=
  congrArg Option.join (h.fieldSearch f.owner f.signature)

section Tests

variable {test : ClassFile → Bool}

/-- Climbs come to the same end. -/
theorem climb (h : u.Alike v) (htest : ∀ c d : ClassFile, c.shape = d.shape → test c = test d)
    (name : String) : u.climb test name = v.climb test name := by
  have hon : u.climbOn test = v.climbOn test := by
    funext name
    unfold Universe.climbOn
    rcases h.class?_cases name with ⟨hu, hv⟩ | ⟨c, d, hu, hv, hcd⟩
    · rw [hu, hv]
    · rw [hu, hv]
      dsimp only
      rw [htest c d hcd, ClassFile.superName_eq_of_shape hcd]
  unfold Universe.climb
  rw [hon]

/-- Interfaces are searched alike. -/
theorem interfaceSearch (h : u.Alike v)
    (htest : ∀ c d : ClassFile, c.shape = d.shape → test c = test d) (name : String) :
    u.interfaceSearch test name = v.interfaceSearch test name := by
  unfold Universe.interfaceSearch
  rw [h.ancestors?]
  have hany (i : String) : ((u.class? i).any fun c => c.isInterface && test c)
      = (v.class? i).any fun c => c.isInterface && test c := by
    refine h.any_class? (fun c d hcd => ?_) i
    rw [ClassFile.isInterface_eq_of_shape hcd, htest c d hcd]
  simp only [hany]

end Tests

theorem methodOwner? (h : u.Alike v) (m : Member) : u.methodOwner? m = v.methodOwner? m := by
  have hdeclares (c d : ClassFile) (hcd : c.shape = d.shape) :
      Universe.declares m.signature c = Universe.declares m.signature d :=
    ClassFile.isSome_method?_of_shape hcd m.signature
  unfold Universe.methodOwner? Universe.methodSearch
  rw [h.climb hdeclares, h.interfaceSearch hdeclares]

theorem defaultSearch (h : u.Alike v) (m : Member) : u.defaultSearch m = v.defaultSearch m :=
  h.interfaceSearch (fun _ _ hcd => ClassFile.implements_eq_of_shape hcd m.signature) m.owner

-- And so is the line.
theorem upwards (h : u.Alike v) (test : String → Option Target) (name : String) :
    u.upwards test name = v.upwards test name := by
  have hon : u.upwardsOn test = v.upwardsOn test := by
    funext name
    unfold Universe.upwardsOn
    rw [h.superclass?]
  unfold Universe.upwards
  rw [hon]

/-- New objects start with the same fields. -/
theorem startFields (h : u.Alike v) (name : String) :
    Emu.startFields u name = Emu.startFields v name := by
  -- The fields of a class are put in by what their shapes show.
  let put (fields : Fields) (c : ClassFile) : Fields :=
    if c.isInterface then fields
    else (c.fields.filter (!·.isStatic)).foldl
      (fun fields f => fields.set (c.fieldMember f) (Value.defaultFor f.descriptor)) fields
  have hput (fields : Fields) (c : ClassFile) : put fields c.shape = put fields c := by
    change (if c.isInterface then fields else
      ((c.fields.map Field.shape).filter (!·.isStatic)).foldl
        (fun fields f => fields.set (f.signature.on c.name) (Value.defaultFor f.descriptor))
        fields) = _
    rw [List.filter_map, List.foldl_map]
    rfl
  have hshapes (w : Universe) : ((w.ancestors name).filterMap w.class?).foldl put [] =
      ((w.ancestors name).filterMap fun n => (w.class? n).map ClassFile.shape).foldl put [] := by
    rw [← List.map_filterMap, List.foldl_map]
    simp only [hput]
  change ((u.ancestors name).filterMap u.class?).foldl put [] =
    ((v.ancestors name).filterMap v.class?).foldl put []
  rw [hshapes, hshapes, h.ancestors]
  simp only [h.shapes]

/-- Classes are used alike. -/
theorem useClass (h : u.Alike v) (name : String) :
    (match u.class? name with
      | none => return
      | some c => Emu.startClass c name : Emu Unit) =
    match v.class? name with
      | none => return
      | some c => Emu.startClass c name := by
  rcases h.class?_cases name with ⟨hu, hv⟩ | ⟨c, d, hu, hv, hcd⟩
  · rw [hu, hv]
  · rw [hu, hv]
    exact ClassFile.startClass_eq_of_shape hcd name

theorem enumOf (h : u.Alike v) (name : String) : Natives.enumOf u name = Natives.enumOf v name := by
  unfold Natives.enumOf
  rw [h.superclass?]

theorem firstMisfit? (h : u.Alike v) (heap : Heap) (name : String) (values : List Value) :
    Natives.firstMisfit? u heap name values = Natives.firstMisfit? v heap name values := by
  unfold Natives.firstMisfit?
  simp only [h.isSubtype]

end Alike

end Universe

/-- Environments that tell an operation the same, apart from how parts of the program are run and
    how long. -/
structure Env.Alike (e e' : Env) : Prop where
  classes : e.program.classes.Alike e'.program.classes
  isNative : e.isNative = e'.isNative
  depth : e.depth = e'.depth

namespace Env

variable {e e' : Env}

theorem alike_refl (e : Env) : e.Alike e :=
  ⟨Universe.alike_refl _, rfl, rfl⟩

namespace Alike

theorem nativeTarget? (h : e.Alike e') (m : Member) : e.nativeTarget? m = e'.nativeTarget? m := by
  unfold Env.nativeTarget?
  rw [h.classes.upwards, h.isNative]

/-- Calls lead to the same targets. -/
theorem directTarget (h : e.Alike e') (m : Member) : e.directTarget m = e'.directTarget m := by
  unfold Env.directTarget
  dsimp only
  rw [h.classes.methodOwner?, h.nativeTarget?, h.classes.contains]

-- Whichever class the receiver has.
theorem virtualTarget (h : e.Alike e') (name : String) (m : Member) :
    e.virtualTarget name m = e'.virtualTarget name m := by
  -- What a class is asked on the way up shows in its shape.
  have himplementation : e.implementation? m = e'.implementation? m := by
    funext name
    unfold Env.implementation?
    rw [h.isNative]
    rcases h.classes.class?_cases name with ⟨hu, hv⟩ | ⟨c, d, hu, hv, hcd⟩
    · rw [hu, hv]
    · rw [hu, hv]
      dsimp only
      rw [ClassFile.implements_eq_of_shape hcd]
  unfold Env.virtualTarget Env.virtualSearch
  dsimp only
  rw [himplementation, h.classes.upwards]
  simp only [h.classes.defaultSearch]

end Alike

end Env

end JvmFold
