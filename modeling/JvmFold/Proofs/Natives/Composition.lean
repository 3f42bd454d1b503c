import JvmFold.Proofs.Machine.Composition

/-!
# How Built-In Methods Are Put Together

Every built-in method is composed, and none of them writes a static field or
notes how far the initialization of a class is.

The engine runs built-in methods and methods of the program on top of each
other. So all that it runs is framed, and so is the engine.

## Main definitions

* `Natives.Composed`: A list of methods that are composed.

## Theorems

* `Natives.composed_find?`: A method of the table is composed.
* `Engine.evolves_run`: Every task leaves a state that has evolved.
* `Engine.framed_env`: Whatever the engine runs is framed.
-/

namespace JvmFold

namespace Natives

variable {writes : Bool}

/-- A list of methods that are composed. -/
class Composed (writes : Bool) (l : List Builtin) : Prop where
  composed : ∀ b ∈ l, ∀ args, Emu.Composed writes (b.run args)

instance : Composed writes [] :=
  ⟨fun _ hb => absurd hb List.not_mem_nil⟩

theorem Composed.cons {name descriptor : String} {run : Native} {l : List Builtin}
    (hrun : ∀ args, Emu.Composed writes (run args)) (hl : Composed writes l) :
    Composed writes (method name descriptor run :: l) := by
  refine ⟨fun b hb => ?_⟩
  rcases List.mem_cons.mp hb with rfl | hb
  · exact hrun
  · exact hl.composed b hb

instance (name descriptor : String) (run : Native) (l : List Builtin)
    [∀ args, Emu.Composed writes (run args)] [Composed writes l] :
    Composed writes (method name descriptor run :: l) :=
  .cons inferInstance inferInstance

instance (l l' : List Builtin) [hl : Composed writes l] [hl' : Composed writes l'] :
    Composed writes (l ++ l') :=
  ⟨fun b hb => (List.mem_append.mp hb).elim (hl.composed b) (hl'.composed b)⟩

section Values

variable (args : List Value) (i : Nat)

instance : Emu.Composed writes (arg args i) := by
  unfold arg
  split <;> infer_instance

instance : Emu.Composed writes (argInt args i) := by
  unfold argInt
  infer_instance

instance : Emu.Composed writes (argLong args i) := by
  unfold argLong
  infer_instance

instance : Emu.Composed writes (argFloat args i) := by
  unfold argFloat
  infer_instance

instance : Emu.Composed writes (argDouble args i) := by
  unfold argDouble
  infer_instance

instance (default : Int32) : Emu.Composed writes (argIntOr args i default) := by
  unfold argIntOr
  split <;> infer_instance

instance : Emu.Composed writes (argObject args i) := by
  refine Emu.Composed.bind inferInstance fun v => Emu.Composed.bind inferInstance fun r => ?_
  split <;> infer_instance

instance : Emu.Composed writes (receiver args) :=
  inferInstanceAs (Emu.Composed writes (argObject args 0))

instance : Emu.Composed writes void :=
  inferInstanceAs (Emu.Composed writes (pure none))

instance (b : Bool) : Emu.Composed writes (bool b) :=
  inferInstanceAs (Emu.Composed writes (pure _))

instance (v : Int32) : Emu.Composed writes (int v) :=
  inferInstanceAs (Emu.Composed writes (pure _))

instance (v : Int64) : Emu.Composed writes (long v) :=
  inferInstanceAs (Emu.Composed writes (pure _))

instance (b : Bits32) : Emu.Composed writes (float b) :=
  inferInstanceAs (Emu.Composed writes (pure _))

instance (b : Bits64) : Emu.Composed writes (double b) :=
  inferInstanceAs (Emu.Composed writes (pure _))

instance (u : List UInt16) : Emu.Composed writes (units u) := by
  unfold units
  infer_instance

instance (s : String) : Emu.Composed writes (text s) := by
  unfold text
  infer_instance

instance : Emu.Composed writes (answerArg args i) := by
  unfold answerArg
  infer_instance

instance {α : Type} (actual wanted : String) :
    Emu.Composed writes (raiseCast actual wanted : Emu α) :=
  inferInstanceAs (Emu.Composed writes (Emu.raise _ _))

end Values

section Objects

variable (args : List Value)

instance (v : Value) : Emu.Composed writes (hashCode v) := by
  unfold hashCode
  split
  · infer_instance
  · refine Emu.Composed.bind inferInstance fun answer => ?_
    split <;> infer_instance

instance : Emu.Composed writes (sameValues args) := by
  unfold sameValues
  infer_instance

instance : Emu.Composed writes (identityHash args) := by
  unfold identityHash
  infer_instance

instance : Emu.Composed writes (describeObject args) := by
  unfold describeObject
  infer_instance

instance : Emu.Composed writes (classOf args) := by
  unfold classOf
  infer_instance

instance : Emu.Composed writes (clone args) := by
  refine Emu.Composed.bind inferInstance fun r => Emu.Composed.bind inferInstance fun o => ?_
  dsimp only
  split
  · infer_instance
  · exact Emu.composed_classes (fun _ => inferInstance) fun _ _ h => by rw [h.isSubtype]
  · infer_instance

instance {α : Type} (message : String) : Emu.Composed writes (raiseStore message : Emu α) :=
  inferInstanceAs (Emu.Composed writes (Emu.raise _ _))

instance (r : HeapRef) (role : String) : Emu.Composed writes (arrayParts r role) := by
  refine Emu.Composed.bind inferInstance fun o => ?_
  split <;> infer_instance

instance : Emu.Composed writes (copyElements args) := by
  refine Emu.Composed.bind inferInstance fun v => Emu.Composed.bind inferInstance fun source => ?_
  refine Emu.Composed.bind inferInstance fun w => Emu.Composed.bind inferInstance fun target => ?_
  split
  next source target =>
    have hput (f : HeapObject → HeapObject) (hf : ∀ o : HeapObject, o.Becomes (f o)) :
        Emu.Composed writes (Emu.modifyObject target f >>= fun _ => void) :=
      (Emu.composed_modifyObject target hf).bind fun _ => inferInstance
    -- Every check in front of the change throws or goes on to the next one.
    repeat' first
      | exact hput _ fun o => by cases o <;> exact .inl rfl
      | refine Emu.composed_classes (fun _ => ?_) fun _ _ h => by simp only [h.firstMisfit?]
      | refine Emu.Composed.bind inferInstance fun _ => ?_
      | split
  · infer_instance

instance : Emu.Composed writes (equalObjects args) := by
  unfold equalObjects
  infer_instance

instance : Emu.Composed writes (hashList args) := by
  refine Emu.Composed.bind inferInstance fun v => ?_
  split
  · infer_instance
  · refine Emu.Composed.bind inferInstance fun o => ?_
    split
    · exact (Emu.composed_foldlM (fun _ _ => inferInstance) _).bind fun _ => inferInstance
    · infer_instance

instance : Emu.Composed writes (objectText args) := by
  unfold objectText
  infer_instance

instance : Emu.Composed writes (required args) := by
  unfold required
  infer_instance

instance : Emu.Composed writes (requiredElse args) := by
  unfold requiredElse
  infer_instance

instance : Composed writes objectMethods := by
  unfold objectMethods
  infer_instance

instance : Composed writes systemMethods := by
  unfold systemMethods
  infer_instance

instance : Composed writes objectsMethods := by
  unfold objectsMethods
  infer_instance

end Objects

section Numbers

variable (args : List Value)

instance (v : Value) : Emu.Composed writes (unbox v) := by
  refine Emu.Composed.bind inferInstance fun r => ?_
  split
  · infer_instance
  · refine Emu.Composed.bind inferInstance fun o => ?_
    split <;> infer_instance

instance : Emu.Composed writes (unboxThis args) := by
  unfold unboxThis
  infer_instance

instance : Emu.Composed writes (boxInit args) := by
  refine Emu.Composed.bind inferInstance fun this => Emu.Composed.bind inferInstance fun v => ?_
  dsimp only
  refine Emu.Composed.bind inferInstance fun r => ?_
  split
  · refine Emu.Composed.bind (Emu.composed_modifyObject _ fun o => ?_) fun _ => inferInstance
    cases o <;> exact .inl rfl
  · infer_instance

instance : Emu.Composed writes (boxEquals args) := by
  refine Emu.Composed.bind inferInstance fun this => Emu.Composed.bind inferInstance fun box => ?_
  dsimp only
  refine Emu.Composed.bind inferInstance fun other => ?_
  split
  · infer_instance
  · refine Emu.Composed.bind inferInstance fun o => ?_
    split <;> infer_instance

instance : Emu.Composed writes (boxCompare args) := by
  unfold boxCompare
  infer_instance

instance (w : Wrapper) (v : Value) : Emu.Composed writes (boxedText w v) := by
  unfold boxedText
  infer_instance

instance (w : Wrapper) : Composed writes (boxMethods w) := by
  unfold boxMethods
  infer_instance

instance : Composed writes numberMethods := by
  unfold numberMethods
  infer_instance

instance {α : Type} (message : String) : Emu.Composed writes (raiseFormat message : Emu α) :=
  inferInstanceAs (Emu.Composed writes (Emu.raise _ _))

instance {α : Type} (text : String) (radix : Int) :
    Emu.Composed writes (raiseInput text radix : Emu α) :=
  inferInstanceAs (Emu.Composed writes (raiseFormat _))

instance (v : Value) (radix low high : Int) :
    Emu.Composed writes (parseIntegral v radix low high) := by
  unfold parseIntegral
  split
  · infer_instance
  · split
    · infer_instance
    · split
      · infer_instance
      · refine Emu.Composed.bind inferInstance fun text => ?_
        dsimp only
        split <;> infer_instance

instance (v : Value) (radix low high : Int) :
    Emu.Composed writes (parseNarrow v radix low high) := by
  unfold parseNarrow
  infer_instance

instance (v : Value) (f : FloatFormat) : Emu.Composed writes (parseFloating v f) := by
  unfold parseFloating
  split
  · infer_instance
  · refine Emu.Composed.bind inferInstance fun text => ?_
    dsimp only
    split
    · infer_instance
    · infer_instance
    · split <;> infer_instance

instance (w : Wrapper) : Emu.Composed writes (parseValue w args) := by
  refine Emu.Composed.bind inferInstance fun v => ?_
  cases w <;> infer_instance

instance (w : Wrapper) : Emu.Composed writes (boxValue w args) := by
  unfold boxValue
  infer_instance

instance (w : Wrapper) : Emu.Composed writes (parse w args) := by
  unfold parse
  infer_instance

instance (w : Wrapper) : Emu.Composed writes (parseBoxed w args) := by
  unfold parseBoxed
  infer_instance

instance (w : Wrapper) : Composed writes (valueMethods w) := by
  unfold valueMethods
  infer_instance

instance (w : Wrapper) (name : String) : Composed writes (parseMethods w name) := by
  unfold parseMethods
  infer_instance

instance (w : Wrapper) (name : String) (l : List Builtin) [Composed writes l] :
    Composed writes (radixMethod w name :: l) := by
  unfold radixMethod
  infer_instance

instance (radix n : Nat) : Emu.Composed writes (wordText radix n) :=
  inferInstanceAs (Emu.Composed writes (text _))

instance (n : Nat) : Emu.Composed writes (count n) :=
  inferInstanceAs (Emu.Composed writes (int _))

instance (f : Nat → Emu (Option Value)) [∀ n, Emu.Composed writes (f n)] :
    Emu.Composed writes (onWord32 f args) := by
  unfold onWord32
  infer_instance

instance (f : Nat → Emu (Option Value)) [∀ n, Emu.Composed writes (f n)] :
    Emu.Composed writes (onWord64 f args) := by
  unfold onWord64
  infer_instance

instance (f : Int32 → Int32 → Int32) : Emu.Composed writes (onInts f args) := by
  unfold onInts
  infer_instance

instance (f : Int64 → Int64 → Int64) : Emu.Composed writes (onLongs f args) := by
  unfold onLongs
  infer_instance

instance : Emu.Composed writes (textInRadix args) := by
  unfold textInRadix
  infer_instance

instance : Composed writes integerMethods := by
  unfold integerMethods
  infer_instance

instance : Composed writes longMethods := by
  unfold longMethods
  infer_instance

instance : Composed writes shortMethods := by
  unfold shortMethods
  infer_instance

instance : Composed writes byteMethods := by
  unfold byteMethods
  infer_instance

instance (test : FloatFormat → Nat → Bool) : Emu.Composed writes (floatTest test args) := by
  unfold floatTest
  infer_instance

instance (test : FloatFormat → Nat → Bool) : Emu.Composed writes (doubleTest test args) := by
  unfold doubleTest
  infer_instance

instance : Composed writes floatMethods := by
  unfold floatMethods
  infer_instance

instance : Composed writes doubleMethods := by
  unfold doubleMethods
  infer_instance

instance : Composed writes booleanMethods := by
  unfold booleanMethods
  infer_instance

instance (test : UInt16 → Bool) : Emu.Composed writes (unitTest test args) := by
  unfold unitTest
  infer_instance

instance (f : UInt16 → UInt16) : Emu.Composed writes (unitMap f args) := by
  unfold unitMap
  infer_instance

instance (found : Option Nat) : Emu.Composed writes (position found) :=
  inferInstanceAs (Emu.Composed writes (int _))

instance : Emu.Composed writes (digitValue args) := by
  unfold digitValue
  infer_instance

instance : Composed writes characterMethods := by
  unfold characterMethods
  infer_instance

instance (w : Wrapper) : Composed writes (wrapperMethods w) := by
  unfold wrapperMethods
  cases w <;> infer_instance

instance (op : FloatFormat → Nat → Nat) : Emu.Composed writes (onFloat op args) := by
  unfold onFloat
  infer_instance

instance (op : FloatFormat → Nat → Nat) : Emu.Composed writes (onDouble op args) := by
  unfold onDouble
  infer_instance

instance (op : FloatFormat → Nat → Nat → Nat) : Emu.Composed writes (onFloats op args) := by
  unfold onFloats
  infer_instance

instance (op : FloatFormat → Nat → Nat → Nat) : Emu.Composed writes (onDoubles op args) := by
  unfold onDoubles
  infer_instance

instance (v : Int) : Emu.Composed writes (exactInt v) := by
  unfold exactInt
  infer_instance

instance (v : Int) : Emu.Composed writes (exactLong v) := by
  unfold exactLong
  infer_instance

instance (op : Int → Int) : Emu.Composed writes (exactInt₁ op args) := by
  unfold exactInt₁
  infer_instance

instance (op : Int → Int) : Emu.Composed writes (exactLong₁ op args) := by
  unfold exactLong₁
  infer_instance

instance (op : Int → Int → Int) : Emu.Composed writes (exactInt₂ op args) := by
  unfold exactInt₂
  infer_instance

instance (op : Int → Int → Int) : Emu.Composed writes (exactLong₂ op args) := by
  unfold exactLong₂
  infer_instance

instance (op : Int32 → Int32 → Int32) : Emu.Composed writes (divideInts op args) := by
  unfold divideInts
  infer_instance

instance (op : Int64 → Int64 → Int64) : Emu.Composed writes (divideLongs op args) := by
  unfold divideLongs
  infer_instance

instance (a b : Int32) : Emu.Composed writes (strictRemainder a b) := by
  unfold strictRemainder
  infer_instance

instance : Emu.Composed writes (floorDivInts args) := by
  unfold floorDivInts
  infer_instance

instance : Emu.Composed writes (floorDivLongs args) := by
  unfold floorDivLongs
  infer_instance

instance : Emu.Composed writes (floorModInts args) := by
  unfold floorModInts
  infer_instance

instance : Emu.Composed writes (floorModLongs args) := by
  unfold floorModLongs
  infer_instance

instance : Composed writes mathMethods := by
  unfold mathMethods
  infer_instance

end Numbers

section Strings

variable (args : List Value)

instance : Emu.Composed writes (thisUnits args) := by
  unfold thisUnits
  infer_instance

instance : Emu.Composed writes (thisText args) := by
  unfold thisText
  infer_instance

instance (i : Nat) : Emu.Composed writes (argText args i) := by
  unfold argText
  infer_instance

instance (i : Nat) : Emu.Composed writes (argSequence args i) := by
  unfold argSequence
  infer_instance

instance {α : Type} (message : String) : Emu.Composed writes (raiseIndex message : Emu α) :=
  inferInstanceAs (Emu.Composed writes (Emu.raise _ _))

instance (index : Int32) (length : Nat) : Emu.Composed writes (checkIndex index length) := by
  unfold checkIndex
  infer_instance

instance (first last : Int32) (length : Nat) :
    Emu.Composed writes (checkRange first last length) := by
  unfold checkRange
  infer_instance

instance (v : Value) : Emu.Composed writes (charArray v) := by
  refine Emu.Composed.bind inferInstance fun r => ?_
  split
  · infer_instance
  · refine Emu.Composed.bind inferInstance fun o => ?_
    split <;> infer_instance

instance (units : List UInt16) : Emu.Composed writes (becomeString args units) := by
  refine Emu.Composed.bind inferInstance fun this => Emu.Composed.bind inferInstance fun r => ?_
  dsimp only
  split
  · exact Emu.Composed.bind (Emu.composed_modifyObject _ fun _ => .inr rfl) fun _ => inferInstance
  · infer_instance

instance : Emu.Composed writes (stringInitSequence args) := by
  unfold stringInitSequence
  infer_instance

instance : Emu.Composed writes (stringInitRange args) := by
  unfold stringInitRange
  infer_instance

instance (units : Units) (index : Int32) : Emu.Composed writes (unitAt units index) := by
  unfold unitAt
  infer_instance

instance : Emu.Composed writes (codePointAt args) := by
  unfold codePointAt
  infer_instance

instance : Emu.Composed writes (stringEquals args) := by
  refine Emu.Composed.bind inferInstance fun units => ?_
  refine Emu.Composed.bind inferInstance fun other => ?_
  split
  · infer_instance
  · refine Emu.Composed.bind inferInstance fun o => ?_
    split <;> infer_instance

instance : Emu.Composed writes (stringEqualsIgnoringCase args) := by
  unfold stringEqualsIgnoringCase
  infer_instance

instance : Emu.Composed writes (stringCompare args) := by
  unfold stringCompare
  infer_instance

instance : Emu.Composed writes (stringCompareIgnoringCase args) := by
  unfold stringCompareIgnoringCase
  infer_instance

instance (i : Nat) : Emu.Composed writes (startIndex args i) := by
  unfold startIndex
  infer_instance

instance : Emu.Composed writes (indexOfPoint args) := by
  unfold indexOfPoint
  infer_instance

instance : Emu.Composed writes (indexOfText args) := by
  unfold indexOfText
  infer_instance

instance : Emu.Composed writes (lastIndexOfPoint args) := by
  unfold lastIndexOfPoint
  infer_instance

instance : Emu.Composed writes (lastIndexOfText args) := by
  unfold lastIndexOfText
  infer_instance

instance : Emu.Composed writes (startsWith args) := by
  unfold startsWith
  infer_instance

instance : Emu.Composed writes (substring args) := by
  unfold substring
  infer_instance

instance : Emu.Composed writes (concat args) := by
  unfold concat
  infer_instance

instance : Emu.Composed writes (repeatText args) := by
  unfold repeatText
  infer_instance

instance : Emu.Composed writes (replaceUnit args) := by
  unfold replaceUnit
  infer_instance

instance : Emu.Composed writes (replaceText args) := by
  unfold replaceText
  infer_instance

instance (test : UInt16 → Bool) : Emu.Composed writes (trimmed test args) := by
  unfold trimmed
  infer_instance

instance : Emu.Composed writes (toCharArray args) := by
  unfold toCharArray
  infer_instance

instance : Emu.Composed writes (internString args) := by
  refine Emu.Composed.bind inferInstance fun _ => Emu.Composed.bind inferInstance fun this => ?_
  split
  · refine Emu.Composed.bind (Emu.composed_onHeap fun h => ?_) fun _ => inferInstance
    exact h.evolves_internExisting _
  · infer_instance

instance (declared : FieldType) : Emu.Composed writes (valueOf declared args) := by
  unfold valueOf
  infer_instance

instance : Emu.Composed writes (valueOfObject args) := by
  refine Emu.Composed.bind inferInstance fun v => ?_
  dsimp only
  split
  · refine Emu.Composed.bind inferInstance fun o => ?_
    split <;> infer_instance
  · infer_instance

instance : Emu.Composed writes (join args) := by
  refine Emu.Composed.bind inferInstance fun separator => ?_
  refine Emu.Composed.bind inferInstance fun r => ?_
  refine Emu.Composed.bind inferInstance fun o => ?_
  split
  · exact (Emu.composed_mapM fun _ => inferInstance).bind fun _ => inferInstance
  · infer_instance

instance : Composed writes stringMethods := by
  unfold stringMethods
  -- One method after the other, since the instance of the whole list is large.
  repeat refine .cons inferInstance ?_
  infer_instance

instance : Emu.Composed writes (thisBuilder args) := by
  refine Emu.Composed.bind inferInstance fun this => Emu.Composed.bind inferInstance fun r => ?_
  split
  · infer_instance
  · refine Emu.Composed.bind inferInstance fun o => ?_
    split <;> infer_instance

instance : Emu.Composed writes (builderLength args) := by
  unfold builderLength
  infer_instance

instance (f : Units → Units) : Emu.Composed writes (changeBuilder args f) := by
  refine Emu.Composed.bind inferInstance fun this => Emu.composed_modifyObject _ fun o => ?_
  cases o <;> exact .inl rfl

instance (more : Units) : Emu.Composed writes (appendUnits args more) := by
  unfold appendUnits
  infer_instance

instance (declared : FieldType) : Emu.Composed writes (appendValue declared args) := by
  unfold appendValue
  infer_instance

instance : Emu.Composed writes (appendSequence args) := by
  unfold appendSequence
  infer_instance

instance (more : Units) : Emu.Composed writes (insertUnits args more) := by
  unfold insertUnits
  infer_instance

instance : Emu.Composed writes (setCharAt args) := by
  unfold setCharAt
  infer_instance

instance : Emu.Composed writes (setLength args) := by
  unfold setLength
  infer_instance

instance : Emu.Composed writes (deleteCharAt args) := by
  unfold deleteCharAt
  infer_instance

instance : Emu.Composed writes (deleteRange args) := by
  unfold deleteRange
  infer_instance

instance : Emu.Composed writes (builderInitSequence args) := by
  unfold builderInitSequence
  infer_instance

instance : Composed writes builderMethods := by
  unfold builderMethods
  infer_instance

end Strings

section Classes

variable (args : List Value)

instance (v : Value) : Emu.Composed writes (classNameOf v) := by
  refine Emu.Composed.bind inferInstance fun r => ?_
  split
  · infer_instance
  · refine Emu.Composed.bind inferInstance fun o => ?_
    split <;> infer_instance

instance (name : String) : Emu.Composed writes (declaredInterface name) :=
  Emu.composed_classes (fun _ => inferInstance) fun _ _ h => by
    rw [h.any_class? fun _ _ hcd => ClassFile.isInterface_eq_of_shape hcd]

instance : Emu.Composed writes (describeClass args) := by
  unfold describeClass
  infer_instance

instance : Composed writes classMethods := by
  have hassignable (name other : String) :
      Emu.Composed writes (Emu.classes >>= fun u => bool (u.isSubtype other name)) :=
    Emu.composed_classes (fun _ => inferInstance) fun _ _ h => by rw [h.isSubtype]
  unfold classMethods
  repeat refine .cons inferInstance ?_
  infer_instance

instance (r : HeapRef) : Emu.Composed writes (enumOfObject r) := by
  exact Emu.composed_classes (fun _ => inferInstance) fun u v h => by simp only [h.enumOf]

instance (r : HeapRef) : Emu.Composed writes (ordinalOf r) := by
  refine Emu.Composed.bind inferInstance fun ordinal => ?_
  split <;> infer_instance

instance : Emu.Composed writes (enumInit args) := by
  unfold enumInit
  infer_instance

instance : Emu.Composed writes (enumName args) := by
  unfold enumName
  infer_instance

instance : Emu.Composed writes (enumCompare args) := by
  unfold enumCompare
  infer_instance

instance : Emu.Composed writes (enumValueOf args) := by
  refine Emu.Composed.bind inferInstance fun v => Emu.Composed.bind inferInstance fun owner => ?_
  refine Emu.Composed.bind inferInstance fun name => ?_
  dsimp only
  split
  on_goal 1 => refine Emu.Composed.bind inferInstance fun _ => ?_
  all_goals
    refine Emu.Composed.bind inferInstance fun text => Emu.composed_classes (fun u => ?_) ?_
    · split
      · infer_instance
      · split <;> infer_instance
    · intro u v h
      rcases h.class?_cases owner with ⟨hu, hv⟩ | ⟨c, d, hu, hv, hcd⟩
      · rw [hu, hv]
      · have hconstant := ClassFile.enumConstant?_eq_of_shape hcd text.toStringLossy
        rw [hu, hv]
        dsimp only
        -- The constants of two classes of one shape are found together, and they have one name.
        revert hconstant
        cases enumConstant? c text.toStringLossy with
        | none =>
            cases enumConstant? d text.toStringLossy with
            | none => exact fun _ => rfl
            | some g => exact nofun
        | some f =>
            cases enumConstant? d text.toStringLossy with
            | none => exact nofun
            | some g =>
                intro hfg
                have hmember : c.fieldMember f = d.fieldMember g := Option.some.inj hfg
                dsimp only
                rw [hmember]

instance : Composed writes enumMethods := by
  unfold enumMethods
  infer_instance

instance : Emu.Composed writes (throwableInit args) := by
  refine Emu.Composed.bind inferInstance fun this => ?_
  dsimp only
  split <;> split <;> infer_instance

instance : Emu.Composed writes (throwableInitCause args) := by
  unfold throwableInitCause
  infer_instance

instance (m : Member) : Emu.Composed writes (readField m args) := by
  unfold readField
  infer_instance

instance : Emu.Composed writes (setCause args) := by
  unfold setCause
  infer_instance

instance : Emu.Composed writes (throwableText args) := by
  unfold throwableText
  infer_instance

instance : Composed writes throwableMethods := by
  unfold throwableMethods
  infer_instance

instance : Emu.Composed writes (assertionInit args) := by
  unfold assertionInit
  infer_instance

instance : Composed writes assertionMethods := by
  unfold assertionMethods
  infer_instance

end Classes

/-- All methods are composed. -/
theorem composed_all {owner : String} {l : List Builtin} (h : (owner, l) ∈ all) :
    Composed writes l := by
  simp only [all, List.mem_append, List.mem_cons, List.not_mem_nil, or_false, Prod.mk.injEq,
    List.mem_map] at h
  rcases h with h | ⟨w, -, -, rfl⟩
  · rcases h with h | h | h | h | h | h | h | h | h | h
    all_goals
      rcases h with ⟨-, rfl⟩
      infer_instance
  · infer_instance

/-- What is found in a map was there or is in the list that was put in. -/
theorem mem_of_getElem?_insertMany {l : List (Member × Native)}
    {methods : Std.HashMap Member Native} {m : Member} {native : Native}
    (h : (methods.insertMany l)[m]? = some native) :
    methods[m]? = some native ∨ (m, native) ∈ l := by
  induction l generalizing methods with
  | nil => exact .inl h
  | cons a rest ih =>
      rw [Std.HashMap.insertMany_cons] at h
      -- h | The method was inserted later, or by the first insertion, or it was there before.
      rcases ih h with h | h
      · rw [Std.HashMap.getElem?_insert] at h
        split at h
        next heq =>
          cases h
          rw [← eq_of_beq heq]
          exact .inr List.mem_cons_self
        next => exact .inl h
      · exact .inr (List.mem_cons_of_mem a h)

/-- A method of the table is composed. -/
theorem composed_find? {m : Member} {native : Native} (h : find? m = some native)
    (args : List Value) : Emu.Composed writes (native args) := by
  rw [find?, table, Std.HashMap.ofList_eq_insertMany_empty] at h
  rcases mem_of_getElem?_insertMany h with h | h
  · rw [Std.HashMap.getElem?_empty] at h
    cases h
  · rcases List.mem_flatMap.mp h with ⟨⟨owner, l⟩, hl, h⟩
    rcases List.mem_map.mp h with ⟨b, hb, h⟩
    cases h
    exact (composed_all hl).composed b hb args

end Natives

namespace Engine

/-- A native method is refused at the same depth as any other. -/
theorem run_native {p : Program} {limits : Limits} {levels depth : Nat} (m : Member)
    (values : List Value) (s : Machine) :
    run p limits (levels + 1) depth (.call (.native m) values) s =
      if limits.depth ≤ depth then
        Emu.raise "java/lang/StackOverflowError" none (inside p limits levels depth) s
      else
        match Natives.find? m with
        | some native => native values (inside p limits levels (depth + 1)) s
        | none => .error (.missingNative m) s := by
  change (if limits.depth ≤ depth then _ else _) = _
  by_cases h : limits.depth ≤ depth
  · exact (if_pos h).trans (if_pos h).symm
  · refine (if_neg h).trans (.trans ?_ (if_neg h).symm)
    cases Natives.find? m with
    | some native => dsimp only [inside]
    | none => rfl

/-- The task of a class leaves what its use leaves. -/
theorem state_run_initClass {p : Program} {limits : Limits} {levels depth : Nat} (name : String)
    (s : Machine) :
    Emu.Outcome.state (run p limits (levels + 1) depth (.initClass name) s) =
      Emu.Outcome.state (Emu.useClass name (inside p limits levels depth) s) := by
  rw [run_initClass]
  cases Emu.useClass name (inside p limits levels depth) s <;> rfl

/-- Every task leaves a state that has evolved, whatever its allowance of levels. -/
theorem evolves_run (p : Program) (limits : Limits) (levels depth : Nat) (task : Task)
    (s : Machine) : s.Evolves (Emu.Outcome.state (run p limits levels depth task s)) := by
  induction levels generalizing depth task s with
  | zero => exact .refl s
  | succ levels ih =>
      -- What runs inside has fewer levels, so the induction is on these.
      have henv (depth : Nat) : (inside p limits levels depth).Framed := ih
      cases task with
      | initClass name =>
          have huse : Emu.Framed (Emu.useClass name) := inferInstance
          rw [state_run_initClass]
          exact huse.evolves (henv depth) s
      | call target values =>
          have hoverflow : Emu.Framed (Emu.raise "java/lang/StackOverflowError" none
            : Emu (Option Value)) := inferInstance
          cases target with
          | native m =>
              rw [run_native]
              split
              · exact hoverflow.evolves (henv depth) s
              · split
                next native hnative =>
                  have hcomposed : Emu.Composed true (native values) :=
                    Natives.composed_find? hnative values
                  exact (Emu.framed_of_composed (native values)).evolves (henv (depth + 1)) s
                · exact .refl s
          | bytecode m =>
              rw [run_call]
              split
              · exact hoverflow.evolves (henv depth) s
              · split
                · exact .refl s
                · exact (Emu.framed_execute _ _ _ _).evolves (henv (depth + 1)) s

/-- Without a limit every task comes to the same whatever has been counted. -/
theorem agree_run {p : Program} {limits : Limits} (hlimit : limits.instructions = none)
    (levels depth : Nat) (task : Task) {s t : Machine} (hst : s.Alike t) :
    Agree Machine.Alike (run p limits levels depth task s) (run p limits levels depth task t) := by
  induction levels generalizing depth task s t with
  | zero => exact .error hst
  | succ levels ih =>
      -- What runs inside has fewer levels, so the induction is on these.
      have henv (depth : Nat) : (inside p limits levels depth).Uncounted :=
        fun depth task s t hst => ih depth task hst
      cases task with
      | initClass name =>
          have huse : Emu.Composed true (Emu.useClass name) := inferInstance
          have hagree := huse.uncounted (henv depth) hst
          rw [run_initClass, run_initClass]
          generalize Emu.useClass name (inside p limits levels depth) s = r,
            Emu.useClass name (inside p limits levels depth) t = r' at hagree
          cases hagree with
          | ok hst => exact .ok hst
          | error hst => exact .error hst
      | call target values =>
          have hoverflow : Emu.Composed true (Emu.raise "java/lang/StackOverflowError" none
            : Emu (Option Value)) := inferInstance
          cases target with
          | native m =>
              rw [run_native, run_native]
              split
              · exact hoverflow.uncounted (henv depth) hst
              · split
                next native hnative =>
                  have hcomposed : Emu.Composed true (native values) :=
                    Natives.composed_find? hnative values
                  exact hcomposed.uncounted (henv (depth + 1)) hst
                · exact .error hst
          | bytecode m =>
              rw [run_call, run_call]
              split
              · exact hoverflow.uncounted (henv depth) hst
              · split
                · exact .error hst
                · exact Emu.agree_execute hlimit (henv (depth + 1)) _ _ _ _ hst

/-- What runs inside the engine comes to the same whatever has been counted. -/
theorem uncounted_inside (p : Program) {limits : Limits} (hlimit : limits.instructions = none)
    (levels depth : Nat) : (inside p limits levels depth).Uncounted :=
  fun depth task _ _ hst => agree_run hlimit levels depth task hst

/-- The engine is framed. -/
theorem framed_env (p : Program) (limits : Limits) : (env p limits).Framed :=
  evolves_run p limits allowance

end Engine

end JvmFold
