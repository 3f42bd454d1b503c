import Mathlib
import JvmFold.Config.Scan
import JvmFold.Proofs.Body.Emission
import JvmFold.Proofs.Text.Descriptor
import JvmFold.Proofs.Universe.Precedence

/-!
# How Arguments Are Read Back

A recipe makes an object from arguments, and the arguments are read back from
an object by getters. A getter answers a value of the type of its parameter and
is named like it, with or without `get` in front and in any case of the
letters.

The getters are looked for on the class of the object and above it. One that is
declared again further down is the same getter, found where it is declared
first. Two getters of different spelling are a choice that nobody made, so a
recipe with such a parameter is refused, and so is one with a parameter that no
getter is found for.

Static methods, methods with parameters and those with another result are no
getters, whatever their names are. A class that declares only such a method is
passed by on the way up.

## Main definitions

* `Method.Yields`: Instance methods without parameters that answer a type.
* `ClassFile.HasGetter`: The getters that a class declares.
* `Accessor.Reads`: A getter that reads back what a parameter was given.
* `Accessor.ReadBack`: One getter for each parameter, in order.

## Theorems

* `Method.length_of_parameterNames`: There are as many names as parameters.
* `Accessor.reads_of_resolveOne`: The getter found for a parameter.
* `Accessor.readBack_of_resolve`: The getters found for a constructor or static method.
-/

namespace JvmFold

namespace Method

variable {m : Method} {names : List String}

/-- There is a name for each parameter. -/
theorem length_of_namesBySlot {locals : List (UInt16 × String)} {slot : Nat}
    {types : List FieldType} (h : namesBySlot locals slot types = some names) :
    names.length = types.length := by
  induction types generalizing slot names with
  | nil => cases h; rfl
  | cons t rest ih =>
      rcases Option.bind_eq_some_iff.1 h with ⟨found, -, h⟩
      rcases Option.bind_eq_some_iff.1 h with ⟨more, hmore, h⟩
      cases h
      exact congrArg (· + 1) (ih hmore)

/-- Where names are recorded, there is one for each parameter: the attribute is passed by if its
    length is another one. -/
theorem length_of_parameterNames {pool : Pool} {type : MethodType}
    (htype : MethodType.parse m.descriptor = .ok type)
    (h : m.parameterNames pool = .ok (some names)) :
    names.length = type.parameters.length := by
  rcases except_bind_ok h with ⟨type', htype', h⟩
  cases htype.symm.trans htype'
  extract_lets fromLocals at h
  -- The names of local variables are gathered for the parameters, one for each.
  have hlocals : fromLocals = .ok (some names) → names.length = type.parameters.length := by
    intro h
    unfold fromLocals at h
    split at h
    · cases h
    · rcases except_bind_ok h with ⟨locals, -, h⟩
      exact length_of_namesBySlot (Except.ok.inj h)
  cases hfound : m.attributes.find? (·.name == "MethodParameters") with
  | none =>
      rw [hfound] at h
      exact hlocals h
  | some found =>
      rw [hfound] at h
      rcases except_bind_ok h with ⟨recorded, -, h⟩
      cases recorded with
      | none => cases h
      | some recorded =>
          dsimp only at h
          split at h
          · cases h
            assumption
          · exact hlocals h

/-- An instance method without parameters that answers a value of the type. -/
structure Yields (m : Method) (type : FieldType) : Prop where
  isInstance : m.isStatic = false
  parse : MethodType.parse m.descriptor = .ok ⟨[], some type⟩
  /-- It is no initializer. -/
  ordinary : m.name.toList.head? ≠ some '<'

end Method

/-- Whether a class declares an instance method of this name that has no parameters and answers a
    value of the type. -/
def ClassFile.HasGetter (c : ClassFile) (name : String) (type : FieldType) : Prop :=
  ∃ m ∈ c.methods, m.name = name ∧ m.Yields type

namespace Accessor

variable {u : Universe} {valueType parameter executable : String} {type : FieldType} {a : Accessor}

/-- Whether a getter of this name is for the parameter: it is named like it, or that with `get` in
    front, in any case of the letters. -/
def NamedFor (name parameter : String) : Prop :=
  sameIgnoringCase name parameter ∨ sameIgnoringCase name ("get" ++ parameter)

/-- A getter is a method that yields the type and is named for the parameter. -/
theorem isGetter_iff (htype : type.WellNamed) {m : Method} :
    isGetter parameter type m ↔ m.Yields type ∧ NamedFor m.name parameter := by
  -- The descriptor that yields the type is spelled in one way.
  have hparse : MethodType.parse m.descriptor = .ok ⟨[], some type⟩ ↔
      m.descriptor = "()" ++ type.descriptor := by
    have hwellNamed : MethodType.WellNamed ⟨[], some type⟩ :=
      ⟨fun p hp => (List.not_mem_nil hp).elim, fun r hr => by cases hr; exact htype⟩
    rw [MethodType.parse_eq_ok_iff, and_iff_right hwellNamed, eq_comm]
    rfl
  unfold isGetter NamedFor
  simp only [Bool.and_eq_true, Bool.or_eq_true, Bool.not_eq_true', beq_iff_eq, bne_iff_ne]
  constructor
  · rintro ⟨⟨⟨hinstance, hdescriptor⟩, hordinary⟩, hname⟩
    exact ⟨⟨hinstance, hparse.2 hdescriptor, hordinary⟩, hname⟩
  · rintro ⟨⟨hinstance, hdescriptor, hordinary⟩, hname⟩
    exact ⟨⟨⟨hinstance, hparse.1 hdescriptor⟩, hordinary⟩, hname⟩

/-- The accessor calls a getter of a class that reads back what a parameter was given. -/
structure Reads (u : Universe) (valueType parameter : String) (type : FieldType) (a : Accessor) :
    Prop where
  kind : a.kind = .getter
  type_eq : a.type = type
  descriptor : a.member.descriptor = "()" ++ type.descriptor
  named : NamedFor a.member.name parameter
  /-- The getter is named on the first class on the way up that declares it. -/
  first : ∃ before after c, u.ancestors valueType = before ++ a.member.owner :: after ∧
    u.class? a.member.owner = some c ∧ c.HasGetter a.member.name type ∧
    ∀ o ∈ before, ∀ d, u.class? o = some d → ¬d.HasGetter a.member.name type
  /-- No getter for the parameter is spelled otherwise. -/
  only : ∀ o ∈ u.ancestors valueType, ∀ c, u.class? o = some c →
    ∀ name, NamedFor name parameter → c.HasGetter name type → name = a.member.name

/-- The getters of a class for a parameter. -/
def gettersOf (parameter : String) (type : FieldType) (c : ClassFile) : List Member :=
  (c.methods.filter (isGetter parameter type)).map c.methodMember

/-- The getters of one class. -/
theorem mem_gettersOf (htype : type.WellNamed) {c : ClassFile} {g : Member} :
    g ∈ gettersOf parameter type c ↔
      ∃ m ∈ c.methods, m.Yields type ∧ NamedFor m.name parameter ∧ c.methodMember m = g := by
  unfold gettersOf
  simp only [List.mem_map, List.mem_filter, isGetter_iff htype, and_assoc]

/-- The first getter is that of the nearest class that has one. -/
theorem head?_getters : (getters u valueType parameter type).head? =
    (u.ancestors valueType).findSome? fun o =>
      (u.class? o).bind fun c => (gettersOf parameter type c).head? := by
  change (((u.ancestors valueType).filterMap u.class?).flatMap (gettersOf parameter type)).head? = _
  rw [List.head?_flatMap]
  induction u.ancestors valueType with
  | nil => rfl
  | cons o rest ih =>
      rw [List.filterMap_cons, List.findSome?_cons, ← ih]
      cases u.class? o with
      | none => rfl
      | some c => rw [List.findSome?_cons]; rfl

/-- The getters of a type are those of the type and its supertypes. -/
theorem mem_getters {g : Member} : g ∈ getters u valueType parameter type ↔
    ∃ o ∈ u.ancestors valueType, ∃ c, u.class? o = some c ∧ g ∈ gettersOf parameter type c := by
  change g ∈ ((u.ancestors valueType).filterMap u.class?).flatMap (gettersOf parameter type) ↔ _
  simp only [List.mem_flatMap, List.mem_filterMap]
  constructor
  · rintro ⟨c, ⟨o, ho, hc⟩, hg⟩
    exact ⟨o, ho, c, hc, hg⟩
  · rintro ⟨o, ho, c, hc, hg⟩
    exact ⟨c, ⟨o, ho, hc⟩, hg⟩

/-- What is left of a list when repetitions are erased is a single element only if all elements
    repeat the first one. -/
theorem eraseDupsBy_eq_singleton {α : Type} {r : α → α → Bool} {l : List α} {g : α}
    (h : l.eraseDupsBy r = [g]) : l.head? = some g ∧ ∀ b ∈ l, b = g ∨ r b g := by
  cases l with
  | nil => cases h
  | cons b rest =>
      rw [List.eraseDupsBy_cons] at h
      rcases List.cons.inj h with ⟨rfl, hnone⟩
      -- Whatever is left besides the first would still be there.
      have hrest : rest.filter (fun x => decide (r x b = false)) = [] := by
        cases hfilter : rest.filter (fun x => decide (r x b = false)) with
        | nil => rfl
        | cons x more => rw [hfilter, List.eraseDupsBy_cons] at hnone; cases hnone
      refine ⟨rfl, fun x hx => ?_⟩
      rcases List.mem_cons.1 hx with rfl | hx
      · exact .inl rfl
      · exact .inr (by simpa using List.filter_eq_nil_iff.1 hrest x hx)

/-- A parameter is resolved only if there is exactly one candidate. -/
theorem resolveOne_eq_ok {index : Nat}
    (h : resolveOne u valueType executable index (parameter, type) = .ok a) :
    ∃ g, candidates u valueType parameter type = [g] ∧ a = .ofGetter g.owner g.name type := by
  unfold resolveOne at h
  dsimp only at h
  split at h
  · cases h
  · next g hg =>
      cases h
      exact ⟨g, hg, rfl⟩
  · cases h

/-- The getter that is found for a parameter is declared first where it is found, and no getter for
    the parameter is spelled otherwise. -/
theorem reads_of_resolveOne (hu : u.Named) (htype : type.WellNamed) {index : Nat}
    (h : resolveOne u valueType executable index (parameter, type) = .ok a) :
    Reads u valueType parameter type a := by
  rcases resolveOne_eq_ok h with ⟨g, hcandidates, rfl⟩
  rcases eraseDupsBy_eq_singleton hcandidates with ⟨hhead, hsame⟩
  rw [head?_getters, List.findSome?_eq_some_iff] at hhead
  rcases hhead with ⟨before, o, after, hancestors, hfound, hbefore⟩
  rcases Option.bind_eq_some_iff.1 hfound with ⟨c, hc, hg⟩
  rcases (mem_gettersOf htype).1 (List.mem_of_mem_head? hg) with ⟨m, hm, hyields, hnamed, rfl⟩
  -- The class stands under its own name, so that is what the getter is named on.
  have howner : o = c.name := by
    rcases Option.map_eq_some_iff.1 hc with ⟨e, he, rfl⟩
    exact (hu o e he).symm
  subst howner
  refine ⟨rfl, rfl, rfl, hnamed, ⟨before, after, c, hancestors, hc, ⟨m, hm, rfl, hyields⟩, ?_⟩, ?_⟩
  · -- A getter of the name further down would have been found before.
    rintro o ho d hd ⟨n, hn, hname, hyields⟩
    have hnone := hbefore o ho
    rw [hd, Option.bind_some, List.head?_eq_none_iff] at hnone
    have hmem : d.methodMember n ∈ gettersOf parameter type d :=
      (mem_gettersOf htype).2 ⟨n, hn, hyields, hname ▸ hnamed, rfl⟩
    rw [hnone] at hmem
    cases hmem
  · rintro o ho d hd name hname ⟨n, hn, rfl, hyields⟩
    have hmem := mem_getters.2 ⟨o, ho, d, hd, (mem_gettersOf htype).2 ⟨n, hn, hyields, hname, rfl⟩⟩
    rcases hsame _ hmem with heq | heq
    · exact congrArg Member.name heq
    · exact beq_iff_eq.1 heq

/-- The accessors read back what the parameters of a constructor or static method were given: there
    is one for each parameter, in order. -/
def ReadBack (u : Universe) (c : ClassFile) (m : Method) (valueType : String)
    (accessors : List Accessor) : Prop :=
  ∃ (type : MethodType) (named : List (String × FieldType)),
    MethodType.parse m.descriptor = .ok type ∧ named.map Prod.snd = type.parameters ∧
      (named ≠ [] → m.parameterNames c.pool = .ok (some (named.map Prod.fst))) ∧
      List.Forall₂ (fun p a => Reads u valueType p.1 p.2 a) named accessors

/-- Accessors that are resolved read back each parameter. -/
theorem readBack_of_resolve (hu : u.Named) {c : ClassFile} {m : Method} {accessors : List Accessor}
    (h : resolve u c m valueType = .ok accessors) : ReadBack u c m valueType accessors := by
  rcases except_bind_ok h with ⟨type, htype, h⟩
  have hparameters := (MethodType.parse_eq_ok_iff.1 htype).1.parameters
  split at h
  · next hnone =>
      cases h
      exact ⟨type, [], htype, hnone.symm, fun hne => (hne rfl).elim, .nil⟩
  · rcases except_bind_ok h with ⟨recorded, hrecorded, h⟩
    cases recorded with
    | none => cases h
    | some names =>
        have hlength := Method.length_of_parameterNames htype hrecorded
        have hfst := List.map_fst_zip hlength.le
        have hsnd := List.map_snd_zip hlength.ge
        refine ⟨type, names.zip type.parameters, htype, hsnd, fun _ => hfst.symm ▸ hrecorded, ?_⟩
        -- The type of a parameter has a proper descriptor, since it was read from one.
        have htypes : ∀ p ∈ (names.zip type.parameters).zipIdx, p.1.2.WellNamed := fun p hp =>
          hparameters _ (List.of_mem_zip (List.fst_mem_of_mem_zipIdx hp)).2
        rw [← List.zipIdx_map_fst 0 (names.zip type.parameters), List.forall₂_map_left_iff]
        exact ((List.forall₂_and_left _ _).2 ⟨htypes, forall₂_of_mapM h⟩).imp
          fun p a hp => reads_of_resolveOne hu hp.1 hp.2

end Accessor

end JvmFold
