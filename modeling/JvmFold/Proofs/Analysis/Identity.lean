import JvmFold.Proofs.Machine.Calls
import JvmFold.Proofs.Rebuild.Plan
import JvmFold.Proofs.Run.Following
import JvmFold.Proofs.Text.Units

/-!
# The Identity of Loaded Values

A value that is only read from fields is written back by an instruction that
loads it, if there is one. What the program can tell of a number or of `null`
is the same either way. An object is the same object only if the instruction
finds it: loading a string gives the interned one, and loading a class the
object that the heap keeps for the class. So a read is the same as the load
that takes its place exactly if its object is canonical, and a string that was
made at run time is not.

## Main definitions

* `Heap.IsCanonical`: Whether the object of a value is the one that stands for its contents.
* `Env.HasPlatformTypes`: No class of the program hides the classes of the primitive types.

## Theorems

* `Emu.pushes_load_iff`: An instruction that loads a value gives back canonical objects only.
* `Analysis.writeBack_literal`, `Analysis.writeBack_object`: What becomes of a value.
* `Analysis.writeBack_read_identical_iff`: A read that is written back keeps canonical objects only.
* `Analysis.string_field_not_identical`: A string that was made at run time.
-/

namespace JvmFold

namespace Heap

/-- Whether the object of a value is the one that stands for its contents. The class `void` has an
    object of its own, but no field of the machine holds it. -/
def IsCanonical (h : Heap) : Value → Prop
  | .ref r =>
    match h.get? r with
    | some (.string units) => h.interned[units]? = some r
    | some (.classObject name) => h.classes[name]? = some r ∧ name ≠ "void"
    | _ => False
  | _ => True

variable {h : Heap} {r : HeapRef} {o : HeapObject}

theorem get_of_get? (hr : h.get? r = some o) : h.get r = o := by
  rw [get, hr]
  rfl

theorem index_lt_of_get? (hr : h.get? r = some o) : r.index < h.objects.size := by
  rw [get?, Array.getElem?_eq_some_iff] at hr
  exact hr.1

/-- An object is not the one that is allocated next. -/
theorem ne_alloc (hr : h.get? r = some o) (p : HeapObject) : (h.alloc p).1 ≠ r := by
  rintro rfl
  exact Nat.lt_irrefl _ (index_lt_of_get? hr)

/-- Interning finds an object only if that is the interned one already. -/
theorem intern_eq_iff (hr : h.get? r = some o) (units : Units) :
    (h.intern units).1 = r ↔ h.interned[units]? = some r := by
  unfold intern
  cases hinterned : h.interned[units]? with
  | some canonical => simp
  | none => simpa using ne_alloc hr _

/-- The object of a class is an object that was there only if the heap keeps it for the class. -/
theorem classObject_eq_iff (hr : h.get? r = some o) (name : String) :
    (h.classObject name).1 = r ↔ h.classes[name]? = some r := by
  unfold classObject
  cases hclasses : h.classes[name]? with
  | some canonical => simp
  | none => simpa using ne_alloc hr _

end Heap

/-- No class of the program hides the fields that hold the classes of the primitive types. -/
def Env.HasPlatformTypes (env : Env) : Prop :=
  ∀ keyword holder, primitiveHolder? keyword = some holder →
    env.program.classes.fieldOwner? ⟨holder, "TYPE", "Ljava/lang/Class;"⟩ = none

/-- The class that holds a primitive type is that of `void` or of a wrapper. -/
theorem primitiveHolder?_eq_some {keyword holder : String}
    (h : primitiveHolder? keyword = some holder) :
    (keyword = "void" ∧ holder = "java/lang/Void") ∨
      ∃ w : Wrapper, w.keyword = keyword ∧ w.className = holder := by
  unfold primitiveHolder? at h
  split at h
  next hvoid =>
    cases h
    exact .inl ⟨hvoid, rfl⟩
  next =>
    rcases Option.map_eq_some_iff.mp h with ⟨w, hw, rfl⟩
    exact .inr ⟨w, by simpa using List.find?_some hw, rfl⟩

namespace Emu

variable {c : ClassFile} {a : Activation} {env : Env} {s : Machine} {v : Value}

/-- An instruction pushes a value in a context. -/
def Pushes (c : ClassFile) (i : Instruction) (a : Activation) (env : Env) (s : Machine)
    (v : Value) : Prop :=
  ∃ t, step c i a env s = .ok (.next (v :: a.stack)) t

/-- An instruction that does an operation and pushes the result pushes what the operation gives. -/
theorem pushes_iff {i : Instruction} {x : Emu Value}
    (hi : step c i a = x >>= fun v => pure (.next (v :: a.stack))) :
    Pushes c i a env s v ↔ ∃ t, x env s = .ok v t := by
  unfold Pushes
  rw [hi]
  simp only [bind_apply]
  cases x env s with
  | error e t => simp
  | ok w t =>
      change (∃ u, EStateM.Result.ok (Flow.next (w :: a.stack)) t = _) ↔ _
      simp

/-- A literal pushes its constant. -/
theorem pushes_literal_iff (k : Constant) :
    Pushes c (.literal k) a env s v ↔ ∃ t, constant k env s = .ok v t :=
  pushes_iff (step_literal k)

/-- A read of a static field pushes what the field holds. -/
theorem pushes_getstatic_iff (f : Member) :
    Pushes c (.field .getstatic f) a env s v ↔ ∃ t, getStatic f env s = .ok v t := by
  refine pushes_iff ?_
  change ((getStatic f >>= fun v => pure (v :: a.stack)) >>= fun stack => pure (Flow.next stack))
    = _
  rw [bind_assoc]
  rfl

/-- A static field that no class of the program declares is one of the platform, if any. -/
theorem getStatic_builtin {f : Member} (howner : env.program.classes.fieldOwner? f = none)
    {b : BuiltinField} (hb : BuiltinField.ofMember? f = some b) :
    getStatic f env s = b.read env s := by
  have hclasses : classes env s = .ok env.program.classes s := rfl
  unfold getStatic
  simp only [bind_apply, hclasses, howner, hb]

/-- A field that neither a class nor the platform has cannot be read. -/
theorem getStatic_ne_ok {f : Member} (howner : env.program.classes.fieldOwner? f = none)
    (hb : BuiltinField.ofMember? f = none) (t : Machine) : getStatic f env s ≠ .ok v t := by
  have hclasses : classes env s = .ok env.program.classes s := rfl
  unfold getStatic
  simp only [bind_apply, hclasses, howner, hb]
  split
  all_goals
    intro h
    cases h

/-- A string literal pushes an object exactly if that is the interned one of its text. -/
theorem pushes_string_iff {r : HeapRef} {o : HeapObject} (hr : s.heap.get? r = some o)
    (text : String) :
    Pushes c (.literal (.string text)) a env s (.ref r) ↔
      s.heap.interned[Units.ofString text]? = some r := by
  rw [pushes_literal_iff, ← Heap.intern_eq_iff hr]
  change (∃ t, EStateM.Result.ok (Value.ref (s.heap.intern (.ofString text)).1)
    { s with heap := (s.heap.intern (.ofString text)).2 } = _) ↔ _
  simp

/-- A class object that exists is answered exactly if it is the one of the name. -/
theorem classObject_ok_iff {r : HeapRef} {o : HeapObject} (hr : s.heap.get? r = some o)
    (name : String) :
    (∃ t, classObject name env s = .ok (.ref r) t) ↔ s.heap.classes[name]? = some r := by
  rw [← Heap.classObject_eq_iff hr]
  change (∃ t, EStateM.Result.ok (Value.ref (s.heap.classObject name).1)
    { s with heap := (s.heap.classObject name).2 } = _) ↔ _
  simp

/-- A class literal pushes an object exactly if that is the one of the class. There is none for
    `void`, whose object is held by a field that is no constant. -/
theorem pushes_class_iff {r : HeapRef} {o : HeapObject} (hr : s.heap.get? r = some o)
    (henv : env.HasPlatformTypes) (name : String) :
    Pushes c (loadClass name) a env s (.ref r) ↔
      s.heap.classes[name]? = some r ∧ name ≠ "void" := by
  unfold loadClass
  cases hname : primitiveHolder? name with
  | none =>
      have hvoid : name ≠ "void" := by
        rintro rfl
        simp [primitiveHolder?] at hname
      rw [and_iff_left hvoid]
      exact (pushes_literal_iff (.classRef name)).trans (classObject_ok_iff hr name)
  | some holder =>
      have howner := henv name holder hname
      rw [pushes_getstatic_iff]
      rcases primitiveHolder?_eq_some hname with ⟨rfl, rfl⟩ | ⟨w, rfl, rfl⟩
      · -- The class object of `void` is in no field that the machine can read.
        have hnone := getStatic_ne_ok (s := s) (v := .ref r) howner (by decide)
        simp [hnone]
      · have hvoid : w.keyword ≠ "void" := by cases w <;> decide
        have hread : BuiltinField.ofMember? ⟨w.className, "TYPE", "Ljava/lang/Class;"⟩
            = some (.typeOf w) := by
          cases w <;> decide
        rw [getStatic_builtin howner hread, and_iff_left hvoid]
        exact classObject_ok_iff hr w.keyword

/-- An instruction that loads a value pushes it if and only if its object is canonical. -/
theorem pushes_load_iff {load : Instruction} (hload : s.heap.encoding v = .literal load)
    (hobject : ∀ r, v = .ref r → ∃ o, s.heap.get? r = some o) (henv : env.HasPlatformTypes) :
    Pushes c load a env s v ↔ s.heap.IsCanonical v := by
  cases v with
  | ref r =>
      rcases hobject r rfl with ⟨o, hr⟩
      rw [Heap.encoding, Heap.encodingOf, Heap.get_of_get? hr] at hload
      rw [Heap.IsCanonical, hr]
      cases o with
      | string units =>
          dsimp only at hload ⊢
          split at hload
          · cases hload
          split at hload
          next text htext =>
            cases hload
            -- The text is that of the units, so the string that is loaded is the interned one for
            -- them.
            rw [pushes_string_iff hr, Units.ofString, Utf16.ofString_of_toString? htext]
          next => cases hload
      | classObject name =>
          cases hload
          exact pushes_class_iff hr henv name
      | _ => cases hload
  | null =>
      cases hload
      exact iff_of_true ⟨s, rfl⟩ trivial
  | _ =>
      cases hload
      rw [pushes_literal_iff]
      exact iff_of_true ⟨s, rfl⟩ trivial

end Emu

namespace Analysis

section WriteBack

variable {f : Fold} {s : Subject} {t : Tracker} {env : Env} {m : Machine}

/-- A value that an instruction loads is written back. -/
theorem writeBack_literal {load : Instruction} (hload : m.heap.encoding f.value = .literal load) :
    ∃ log, writeBack f s t env m = ((true, { t with
      passLog := log
      replacements := if s.realSpan f.start f.stop = [load] then t.replacements
        else t.replacements.push ⟨f.start, f.stop, [load], f.value.slots⟩ }), m) := by
  have hreplaces : ∃ log, replace f [load] .constantFolded none s t env m = _ :=
    replace_apply [load] .constantFolded none
  rcases hreplaces with ⟨log, hreplace⟩
  refine ⟨log, ?_⟩
  unfold writeBack
  rw [bind_at, read_apply, bind_at, heap_apply]
  dsimp only
  -- A value with a literal is replaced by that, wherever it came from.
  rw [hload]
  dsimp only
  rw [bind_at, hreplace]
  rfl

/-- A value that is only read and that no instruction loads keeps its read. -/
theorem writeBack_object {r : HeapRef} (hread : f.isRead = true)
    (hobject : m.heap.encoding f.value = .object r) :
    writeBack f s t env m = ((true, t), m) := by
  unfold writeBack
  rw [bind_at, read_apply, bind_at, heap_apply]
  dsimp only
  rw [hobject]
  dsimp only
  rw [if_pos hread]
  rfl

/-- A read is written back as an instruction that pushes the value that was read if and only if the
    object of the value is canonical. -/
theorem writeBack_read_identical_iff (c : ClassFile) (a : Activation) (hread : f.isRead = true)
    (hobject : ∀ r, f.value = .ref r → ∃ o, m.heap.get? r = some o) (henv : env.HasPlatformTypes)
    {r : Replacement}
    (hwritten : (writeBack f s t env m).1.2.replacements = t.replacements.push r) :
    ∃ load, r = ⟨f.start, f.stop, [load], f.value.slots⟩ ∧
      (Emu.Pushes c load a env (writeBack f s t env m).2 f.value ↔ m.heap.IsCanonical f.value) := by
  -- A read is replaced by a literal or keeps to itself, so there is something to show only for a
  -- literal.
  cases hencoding : m.heap.encoding f.value with
  | object r =>
      rw [writeBack_object hread hencoding] at hwritten
      simp at hwritten
  | literal load =>
      have hwrites : ∃ log, writeBack f s t env m = _ := writeBack_literal hencoding
      rcases hwrites with ⟨log, hwrite⟩
      rw [hwrite] at hwritten ⊢
      refine ⟨load, ?_, Emu.pushes_load_iff hencoding hobject henv⟩
      dsimp only at hwritten
      split at hwritten
      · simp at hwritten
      · exact (Array.push_eq_push.mp hwritten).1.symm

end WriteBack

section Demo

/-- A static final field for a string. -/
def nameField : Member :=
  ⟨"demo/Lib", "NAME", "Ljava/lang/String;"⟩

/-- A program in which one class declares the field. -/
def libUniverse : Universe :=
  Universe.place {}
    { input := ⟨"demo/Lib.class", [], none⟩
      primary := false
      outline :=
        { name := "demo/Lib", fields := [⟨⟨24⟩, "NAME", "Ljava/lang/String;", none, [], []⟩] }
      decoded := .mk fun _ => .ok { name := "demo/Lib" } }

/-- A body that returns what the field holds, which is constant. -/
def nameReader : Subject where
  config := { Config.plain libUniverse with fields := (∅ : Std.TreeSet Member).insert nameField }
  owner := { name := "demo/Use" }
  method := ⟨"demo/Use", "read", "()Ljava/lang/String;"⟩
  code := #[.field .getstatic nameField, .simple .areturn]
  referenced := ∅
  order := {}
  pass := 1

/-- An analysis at its start. -/
def nameTracker : Tracker :=
  ⟨⟨∅, ∅⟩, #[], #[], [], #[]⟩

abbrev libEnv : Env :=
  Engine.env ⟨libUniverse, ∅⟩ {}

/-- The class is initialized and its field holds a string, which is interned or not. -/
def libMachine (interned : Std.HashMap Units HeapRef) : Machine where
  heap := { objects := #[.string (.ofString "x")], interned }
  statics := (∅ : Std.HashMap Member Value).insert nameField (.ref ⟨0⟩)
  initialized := (∅ : Std.HashMap String InitState).insert "demo/Lib" .done

/-- What the analysis knows of the field. -/
def nameFold : Fold where
  origin := .staticField
  start := 0
  stop := 0
  value := .ref ⟨0⟩
  type := .object "java/lang/String"
  member := some nameField

variable (interned : Std.HashMap Units HeapRef)

theorem fieldOwner?_name : libUniverse.fieldOwner? nameField = some "demo/Lib" :=
  Universe.fieldOwner?_of_field?
    (c := { name := "demo/Lib", fields := [⟨⟨24⟩, "NAME", "Ljava/lang/String;", none, [], []⟩] })
    rfl rfl

theorem declaredField_name : nameReader.config.classes.declaredField nameField = nameField := by
  change libUniverse.declaredField nameField = nameField
  unfold Universe.declaredField
  rw [fieldOwner?_name]
  rfl

/-- The field holds its string, and reading it changes nothing. -/
theorem getStatic_name :
    Emu.getStatic nameField libEnv (libMachine interned)
      = .ok (.ref ⟨0⟩) (libMachine interned) := by
  have hallowance : Engine.allowance = Engine.allowance - 1 + 1 := by decide
  rw [libEnv, Engine.env_eq, hallowance]
  exact Emu.getStatic_of_done fieldOwner?_name Std.HashMap.getElem?_insert_self
    Std.HashMap.getElem?_insert_self

/-- The analysis knows what the field holds behind its read. -/
theorem step_name :
    step 0 (.field .getstatic nameField) nameReader nameTracker libEnv (libMachine interned)
      = ((⟨⟩, { nameTracker with stack := [.known nameFold] }), libMachine interned) := by
  have hparse : FieldType.parse nameField.descriptor = .ok (.object "java/lang/String") := by cbv
  have hconstant : nameReader.config.isConstantField nameField = true := by
    simp [nameReader, Config.isConstantField]
  have hread := getStatic_of_ok (s := nameReader) (p := 0) (t := nameTracker)
    (m := libMachine interned) hparse (by rw [declaredField_name, hconstant, Bool.true_or]) rfl rfl
    (getStatic_name interned)
  rw [declaredField_name] at hread
  exact hread

/-- The string has a literal, as every string has. -/
theorem encoding_name :
    (libMachine interned).heap.encoding nameFold.value = .literal (.ldc (.string "x")) :=
  rfl

/-- The fold is written back as an instruction that loads the string. -/
theorem writeBack_name :
    ∃ log, writeBack nameFold nameReader nameTracker libEnv (libMachine interned)
      = ((true, { nameTracker with
          passLog := log, replacements := #[⟨0, 0, [.ldc (.string "x")], 1⟩] }),
        libMachine interned) := by
  have hwrites : ∃ log, writeBack nameFold nameReader nameTracker libEnv
      (libMachine interned) = _ := writeBack_literal (encoding_name interned)
  rcases hwrites with ⟨log, hwrite⟩
  refine ⟨log, hwrite.trans ?_⟩
  rw [if_neg (by decide)]
  rfl

theorem libEnv_hasPlatformTypes : libEnv.HasPlatformTypes := by
  intro keyword holder h
  rcases primitiveHolder?_eq_some h with ⟨rfl, rfl⟩ | ⟨w, rfl, rfl⟩
  · exact Universe.fieldOwner?_of_class?_eq_none rfl
  · cases w <;> exact Universe.fieldOwner?_of_class?_eq_none rfl

/-- The field holds an object that exists. -/
theorem object_of_name (r : HeapRef) (h : nameFold.value = .ref r) :
    ∃ o, (libMachine interned).heap.get? r = some o := by
  cases h
  exact ⟨_, rfl⟩

/-- A field that holds the interned string is loaded as what it holds. -/
theorem interned_string_identical :
    Emu.Pushes nameReader.owner (.ldc (.string "x")) {} libEnv
      (libMachine ((∅ : Std.HashMap Units HeapRef).insert (.ofString "x") ⟨0⟩)) (.ref ⟨0⟩) := by
  rcases writeBack_name ((∅ : Std.HashMap Units HeapRef).insert (.ofString "x") ⟨0⟩) with
    ⟨log, hwrite⟩
  rcases writeBack_read_identical_iff (f := nameFold) nameReader.owner {} rfl (object_of_name _)
    libEnv_hasPlatformTypes (congrArg (·.1.2.replacements) hwrite) with ⟨load, hload, hiff⟩
  cases hload
  rw [hwrite] at hiff
  exact hiff.mpr Std.HashMap.getElem?_insert_self

/-- A field that holds another string with the same contents is not: its read gives the string, and
    the instruction that takes the place of the read does not. -/
theorem string_field_not_identical :
    step 0 (.field .getstatic nameField) nameReader nameTracker libEnv (libMachine ∅)
        = ((⟨⟩, { nameTracker with stack := [.known nameFold] }), libMachine ∅) ∧
      Emu.getStatic nameField libEnv (libMachine ∅) = .ok nameFold.value (libMachine ∅) ∧
      nameFold.isRead = true ∧
      (writeBack nameFold nameReader nameTracker libEnv (libMachine ∅)).1.2.replacements
        = #[⟨0, 0, [.ldc (.string "x")], 1⟩] ∧
      ¬Emu.Pushes nameReader.owner (.ldc (.string "x")) {} libEnv
        (writeBack nameFold nameReader nameTracker libEnv (libMachine ∅)).2 nameFold.value := by
  rcases writeBack_name ∅ with ⟨log, hwrite⟩
  rw [hwrite]
  refine ⟨step_name ∅, getStatic_name ∅, rfl, rfl, fun h => ?_⟩
  -- The literal pushes the interned string, and none is interned.
  have hcanonical := (Emu.pushes_load_iff (encoding_name ∅) (object_of_name ∅)
    libEnv_hasPlatformTypes).mp h
  change (∅ : Std.HashMap Units HeapRef)[Units.ofString "x"]? = some ⟨0⟩ at hcanonical
  rw [Std.HashMap.getElem?_empty] at hcanonical
  cases hcanonical

end Demo

end Analysis

end JvmFold
