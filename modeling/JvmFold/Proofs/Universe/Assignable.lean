import JvmFold.Proofs.Text.Descriptor
import JvmFold.Proofs.Universe.Ways

/-!
# Assignability

Whether the values of one type can stand where another type is wanted is asked of
names, and a name may be that of an array. Between names of classes it is the walk
along supertypes that decides. Between names of arrays the question is passed on to
the components, and these are named by less of the text, so it is passed on only
as often as there are characters. An array goes beside its own kind only with the
root of the hierarchy and the two interfaces of all arrays.

## Main definitions

* `Universe.Inherits`: The steps from a type to its direct supertypes.
* `Universe.isComponentSubtype`: The question between two components.

## Theorems

* `Universe.isSubtypeWithin_eq`: How often a question is passed on does not matter.
* `Universe.reaches_iff_inherits`: Between names of classes supertypes decide.
* `Universe.isSubtype_preorder`: Every question has an answer, and the answers are a preorder.
-/

namespace JvmFold

/-- A way leads to a name exactly if steps do from one of the names to start from. -/
theorem exists_way_iff {next : String → List String} {start : List String} {name : String} :
    (∃ way, Way next start way name) ↔
      ∃ first ∈ start, Relation.ReflTransGen (fun a b => b ∈ next a) first name := by
  constructor
  · rintro ⟨way, hway⟩
    -- Each turn of a way is a step, and each step is some turn.
    induction hway with
    | first h => exact ⟨_, List.mem_of_getElem? h, .refl⟩
    | further _ h ih =>
        rcases ih with ⟨first, hfirst, hsteps⟩
        exact ⟨first, hfirst, hsteps.tail (List.mem_of_getElem? h)⟩
  · rintro ⟨first, hfirst, hsteps⟩
    induction hsteps with
    | refl =>
        rcases List.getElem?_of_mem hfirst with ⟨k, hk⟩
        exact ⟨[k], .first hk⟩
    | tail _ hstep ih =>
        rcases ih with ⟨way, hway⟩
        rcases List.getElem?_of_mem hstep with ⟨k, hk⟩
        exact ⟨way ++ [k], hway.further hk⟩

namespace FieldType

variable {t : FieldType}

/-- The class of a type is named by no more than the text of the type. -/
theorem length_className?_le {name : String} (h : t.className? = some name) :
    name.length ≤ t.chars.length := by
  cases t with
  | object n =>
      cases h
      rw [chars, List.length_cons, List.length_append, String.length_toList]
      omega
  | array component =>
      cases h
      simp [descriptor]
  | _ => cases h

end FieldType

namespace Universe

variable {u : Universe} {sub sup mid name a b : String}

/-- Whether values of one component can stand where the other is wanted, if `ask` decides between
    classes. -/
def componentsBy (ask : String → String → Bool) (a b : String) : Bool :=
  match FieldType.parse a, FieldType.parse b with
  | .ok a, .ok b =>
    match a.className?, b.className? with
    | some a, some b => ask a b
    | _, _ => a = b
  | _, _ => false

/-- Two components are related as their classes are, or they are one type that has no class. -/
theorem componentsBy_iff {ask : String → String → Bool} : componentsBy ask a b = true ↔
    ∃ s t, FieldType.parse a = .ok s ∧ FieldType.parse b = .ok t ∧
      ((∃ c d, s.className? = some c ∧ t.className? = some d ∧ ask c d = true) ∨
        s.className? = none ∧ s = t) := by
  unfold componentsBy
  cases FieldType.parse a with
  | error e => simp
  | ok s =>
      cases FieldType.parse b with
      | error e => simp
      | ok t =>
          -- Components are classes, which are asked for, or must be the same.
          cases hs : s.className? with
          | none => simp [hs]
          | some c =>
              cases ht : t.className? with
              | none =>
                  have hne : s ≠ t := by
                    rintro rfl
                    rw [hs] at ht
                    cases ht
                  simp [hs, ht, hne]
              | some d => simp [hs, ht]

/-- Only the classes of components are asked for. -/
theorem componentsBy_congr {ask ask' : String → String → Bool}
    (h : ∀ t c d, FieldType.parse a = .ok t → t.className? = some c → ask c d = ask' c d) :
    componentsBy ask a b = componentsBy ask' a b := by
  rw [Bool.eq_iff_iff, componentsBy_iff, componentsBy_iff]
  refine exists_congr fun s => exists_congr fun t => and_congr_right fun hs =>
    and_congr_right fun _ => or_congr_left (exists_congr fun c => exists_congr fun d =>
      and_congr_right fun hc => and_congr_right fun _ => ?_)
  rw [h s c d hs hc]

/-- Components are related transitively if the classes of the first of them are. -/
theorem componentsBy_trans {ask : String → String → Bool} {x : String}
    (h : ∀ t c d e, FieldType.parse a = .ok t → t.className? = some c → ask c d = true →
      ask d e = true → ask c e = true)
    (hab : componentsBy ask a b = true) (hbx : componentsBy ask b x = true) :
    componentsBy ask a x = true := by
  rw [componentsBy_iff] at hab hbx ⊢
  rcases hab with ⟨r, s, hr, hs, hrs⟩
  rcases hbx with ⟨s', t, hs', ht, hst⟩
  cases hs.symm.trans hs'
  refine ⟨r, t, hr, ht, ?_⟩
  -- Two classes with one between them, or twice the same primitive type.
  rcases hrs with ⟨c, d, hc, hd, hcd⟩ | ⟨hnone, rfl⟩
  · rcases hst with ⟨d', e, hd', he, hde⟩ | ⟨hnone, -⟩
    · cases hd.symm.trans hd'
      exact .inl ⟨c, e, hc, he, h r c d e hr hc hcd hde⟩
    · rw [hd] at hnone
      cases hnone
  · rcases hst with ⟨d, e, hd, -, -⟩ | hst
    · rw [hnone] at hd
      cases hd
    · exact .inr hst

/-- A component has a shorter name than its array. -/
theorem length_arrayComponent? (h : arrayComponent? name = some a) :
    a.length + 1 = name.length := by
  unfold arrayComponent? at h
  split at h
  next component hname =>
    cases h
    rw [← String.length_toList (s := name), hname]
    simp
  · cases h

/-- The class of a component has a shorter name than the array. -/
theorem length_className?_lt {t : FieldType} (hcomponent : arrayComponent? name = some a)
    (ht : FieldType.parse a = .ok t) (hb : t.className? = some b) : b.length < name.length := by
  have hlength := FieldType.length_className?_le hb
  rw [FieldType.chars_of_parse ht, String.length_toList] at hlength
  have hname := length_arrayComponent? hcomponent
  omega

/-- How often a question may be passed on does not matter, as long as it may be passed on once for
    every character. -/
theorem isSubtypeWithin_eq {m n : Nat} (hm : sub.length < m) (hn : sub.length < n) :
    u.isSubtypeWithin m sub sup = u.isSubtypeWithin n sub sup := by
  induction m generalizing n sub sup with
  | zero => omega
  | succ m ih =>
      have hsucc : ∃ k, n = k + 1 := ⟨n - 1, by omega⟩
      rcases hsucc with ⟨n, rfl⟩
      unfold isSubtypeWithin
      split
      · rfl
      · split
        next a b ha hb =>
          refine componentsBy_congr fun t c d ht hc => ?_
          -- A component has a shorter name, so what is left is enough.
          have hlength := length_className?_lt ha ht hc
          exact ih (by omega) (by omega)
        all_goals rfl

theorem isSubtype_self (u : Universe) (name : String) : u.isSubtype name name = true := by
  unfold isSubtype isSubtypeWithin
  simp

theorem isSubtype_objectClass (u : Universe) (name : String) :
    u.isSubtype name objectClass = true := by
  unfold isSubtype isSubtypeWithin
  simp

section Unequal

variable (hne : sub ≠ sup) (hroot : sup ≠ objectClass)

include hne hroot

/-- Between two arrays the components decide. -/
theorem isSubtype_of_arrays (ha : arrayComponent? sub = some a)
    (hb : arrayComponent? sup = some b) :
    u.isSubtype sub sup = componentsBy u.isSubtype a b := by
  unfold isSubtype
  rw [isSubtypeWithin, if_neg (by simp [hne, hroot]), ha, hb]
  refine componentsBy_congr fun t c d ht hc => ?_
  exact isSubtypeWithin_eq (length_className?_lt ha ht hc) (Nat.lt_succ_self c.length)

/-- An array is below the interfaces of all arrays. -/
theorem isSubtype_of_array (ha : arrayComponent? sub = some a) (hb : arrayComponent? sup = none) :
    u.isSubtype sub sup = arrayInterfaces.contains sup := by
  unfold isSubtype isSubtypeWithin
  rw [if_neg (by simp [hne, hroot]), ha, hb]

/-- A class is not below an array. -/
theorem isSubtype_to_array (ha : arrayComponent? sub = none) (hb : arrayComponent? sup = some b) :
    u.isSubtype sub sup = false := by
  unfold isSubtype isSubtypeWithin
  rw [if_neg (by simp [hne, hroot]), ha, hb]

end Unequal

/-- One type is a direct supertype of another. -/
def Inherits (u : Universe) (name link : String) : Prop :=
  link ∈ u.supertypes name

/-- Between names of classes it is the supertypes that decide. -/
theorem reaches_iff_inherits :
    u.reaches sub sup = true ↔ Relation.ReflTransGen u.Inherits sub sup := by
  rw [reaches_iff, exists_way_iff]
  simp only [List.mem_singleton, exists_eq_left]
  exact Iff.rfl

/-- Between classes, a subtype is one from which the links lead there. -/
theorem isSubtype_iff_inherits (hsub : arrayComponent? sub = none)
    (hsup : arrayComponent? sup = none) (hroot : sup ≠ objectClass) :
    u.isSubtype sub sup = true ↔ Relation.ReflTransGen u.Inherits sub sup := by
  by_cases hne : sub = sup
  · rw [hne]
    exact iff_of_true (isSubtype_self u sup) .refl
  · rw [← reaches_iff_inherits]
    unfold isSubtype isSubtypeWithin
    rw [if_neg (by simp [hne, hroot]), hsub, hsup]

/-- A type that is nowhere defined is right below the root, and so nothing but the root and itself
    is above it. -/
theorem inherits_plain (hclass : u.class? name = none) (hplatform : PlatformType.find? name = none)
    (harray : arrayComponent? name = none) (hobject : u.class? objectClass = none)
    (h : Relation.ReflTransGen u.Inherits name sup) : sup = name ∨ sup = objectClass := by
  have hroot : u.supertypes objectClass = [] := by
    unfold supertypes superclass? interfaces
    rw [hobject]
    rfl
  -- A class that nothing is known of extends the root.
  have hnext {link : String} (hlink : u.Inherits name link) : link = objectClass := by
    unfold Inherits supertypes superclass? interfaces at hlink
    rw [hclass, hplatform, harray] at hlink
    split at hlink
    · cases hlink
    · simpa using hlink
  induction h with
  | refl => exact .inl rfl
  | @tail mid sup _ hstep ih =>
      rcases ih with rfl | rfl
      · exact .inr (hnext hstep)
      · unfold Inherits at hstep
        rw [hroot] at hstep
        cases hstep

/-- The universe leaves the root and the interfaces of arrays to the platform. -/
structure LeavesRoots (u : Universe) : Prop where
  object : u.class? objectClass = none
  arrays : ∀ i ∈ arrayInterfaces, u.class? i = none

namespace LeavesRoots

variable (h : u.LeavesRoots)

include h

/-- Above the root there is nothing else. -/
theorem eq_of_isSubtype_object (hsup : u.isSubtype objectClass sup = true) : sup = objectClass := by
  by_contra hroot
  cases harray : arrayComponent? sup with
  | some b =>
      rw [isSubtype_to_array (Ne.symm hroot) hroot rfl harray] at hsup
      cases hsup
  | none =>
      rw [isSubtype_iff_inherits rfl harray hroot] at hsup
      exact hroot ((inherits_plain h.object rfl rfl h.object hsup).elim id id)

/-- Above an interface of arrays there is nothing else but the root. -/
theorem eq_of_isSubtype_array (hmid : mid ∈ arrayInterfaces) (hroot : sup ≠ objectClass)
    (hsup : u.isSubtype mid sup = true) : sup = mid := by
  -- The interfaces of arrays are classes that nothing is known of.
  have hplain : arrayComponent? mid = none ∧ PlatformType.find? mid = none := by
    simp only [arrayInterfaces, List.mem_cons, List.not_mem_nil, or_false] at hmid
    rcases hmid with rfl | rfl <;> exact ⟨rfl, rfl⟩
  by_contra hne
  cases harray : arrayComponent? sup with
  | some b =>
      rw [isSubtype_to_array (Ne.symm hne) hroot hplain.1 harray] at hsup
      cases hsup
  | none =>
      rw [isSubtype_iff_inherits hplain.1 harray hroot] at hsup
      rcases inherits_plain (h.arrays mid hmid) hplain.2 hplain.1 h.object hsup with hs | hs
      · exact hne hs
      · exact hroot hs

/-- Subtypes of subtypes are subtypes. -/
theorem trans (hsub : u.isSubtype sub mid = true) (hsup : u.isSubtype mid sup = true) :
    u.isSubtype sub sup = true := by
  -- The classes of components have shorter names.
  induction hn : sub.length using Nat.strong_induction_on generalizing sub mid sup with
  | _ n ih =>
      by_cases hfirst : sub = mid
      · rwa [hfirst]
      by_cases hsecond : mid = sup
      · rwa [← hsecond]
      by_cases hroot : sup = objectClass
      · rw [hroot]
        exact isSubtype_objectClass u sub
      have hmid : mid ≠ objectClass := by
        rintro rfl
        exact hroot (h.eq_of_isSubtype_object hsup)
      by_cases hends : sub = sup
      · rw [hends]
        exact isSubtype_self u sup
      cases hb : arrayComponent? mid with
      | some b =>
          cases ha : arrayComponent? sub with
          | none =>
              rw [isSubtype_to_array hfirst hmid ha hb] at hsub
              cases hsub
          | some a =>
              rw [isSubtype_of_arrays hfirst hmid ha hb] at hsub
              cases hc : arrayComponent? sup with
              | none =>
                  rw [isSubtype_of_array hsecond hroot hb hc] at hsup
                  rwa [isSubtype_of_array hends hroot ha hc]
              | some c =>
                  rw [isSubtype_of_arrays hsecond hroot hb hc] at hsup
                  rw [isSubtype_of_arrays hends hroot ha hc]
                  refine componentsBy_trans (fun t x y z ht hx hxy hyz => ?_) hsub hsup
                  exact ih _ (hn ▸ length_className?_lt ha ht hx) hxy hyz rfl
      | none =>
          cases hc : arrayComponent? sup with
          | some c =>
              rw [isSubtype_to_array hsecond hroot hb hc] at hsup
              cases hsup
          | none =>
              cases ha : arrayComponent? sub with
              | none =>
                  rw [isSubtype_iff_inherits ha hb hmid] at hsub
                  rw [isSubtype_iff_inherits hb hc hroot] at hsup
                  rw [isSubtype_iff_inherits ha hc hroot]
                  exact hsub.trans hsup
              | some a =>
                  rw [isSubtype_of_array hfirst hmid ha hb, List.contains_iff_mem] at hsub
                  exact absurd (h.eq_of_isSubtype_array hsub hroot hsup).symm hsecond

end LeavesRoots

/-- A walk along supertypes ends. -/
theorem walk_supertypes_isSome (u : Universe) (name : String) :
    (walk u.supertypes [] [name]).isSome = true := by
  have hnext (a b : String) (hlink : b ∈ u.supertypes a) : b ∈ name :: u.named :=
    List.mem_cons_of_mem name (mem_named_of_supertypes hlink)
  exact walk_isSome hnext (by simp)

/-- Assignability in a universe that leaves the root and the interfaces of arrays to the platform,
    whatever its classes name as supertypes. A question is passed on at most once for every
    character of the first name, and every walk ends; so every question has an answer. Every type
    is a subtype of itself, and a subtype of a subtype is one. -/
theorem isSubtype_preorder (hroots : u.LeavesRoots) :
    (∀ name, (walk u.supertypes [] [name]).isSome = true) ∧
      (∀ bound sub sup, sub.length < bound →
        u.isSubtypeWithin bound sub sup = u.isSubtype sub sup) ∧
      (∀ name, u.isSubtype name name = true) ∧
      ∀ sub mid sup, u.isSubtype sub mid = true → u.isSubtype mid sup = true →
        u.isSubtype sub sup = true :=
  ⟨u.walk_supertypes_isSome,
    fun _ sub _ hbound => isSubtypeWithin_eq hbound (Nat.lt_succ_self sub.length),
    u.isSubtype_self, fun _ _ _ => hroots.trans⟩

/-- The class that extends itself is none of those of the platform. -/
theorem leavesRoots_looped : Looped.classes.LeavesRoots :=
  ⟨rfl, by simp only [arrayInterfaces, List.forall_mem_cons]; exact ⟨rfl, rfl, by simp⟩⟩

/-- The only class of the universe extends itself. -/
theorem isSubtype_preorder_looped :
    Looped.classes.LeavesRoots ∧
      (∀ name, (walk Looped.classes.supertypes [] [name]).isSome = true) ∧
      (∀ bound sub sup, sub.length < bound →
        Looped.classes.isSubtypeWithin bound sub sup = Looped.classes.isSubtype sub sup) ∧
      (∀ name, Looped.classes.isSubtype name name = true) ∧
      ∀ sub mid sup, Looped.classes.isSubtype sub mid = true →
        Looped.classes.isSubtype mid sup = true → Looped.classes.isSubtype sub sup = true :=
  ⟨leavesRoots_looped, isSubtype_preorder leavesRoots_looped⟩

section Ancestors

/-- An interface that a type names. -/
theorem inherits_of_interface {i : String} (h : i ∈ u.interfaces name) : u.Inherits name i :=
  List.mem_append_right _ h

/-- A superclass is a link. -/
theorem inherits_of_extends {parent : String} (h : u.Extends name parent) :
    u.Inherits name parent :=
  List.mem_append_left _ (Option.mem_toList.mpr h)

-- And so is an interface.
theorem inherits_iff {link : String} :
    u.Inherits name link ↔ u.Extends name link ∨ link ∈ u.interfaces name := by
  rw [Inherits, supertypes, List.mem_append, Option.mem_toList]
  exact Iff.rfl

/-- The superclasses come to an end if the supertypes do. -/
theorem not_comesRound_extends (h : ¬ComesRound u.Inherits name) :
    ¬ComesRound u.Extends name := by
  rintro ⟨x, hx, hcircle⟩
  exact h ⟨x, Relation.ReflTransGen.mono (fun _ _ => inherits_of_extends) name x hx,
    Relation.TransGen.mono (fun _ _ => inherits_of_extends) x x hcircle⟩

/-- The line of a class is what superclasses lead to. -/
theorem mem_line_iff (hends : ¬ComesRound u.Extends name) {x : String} :
    x ∈ u.line name ↔ Relation.ReflTransGen u.Extends name x := by
  rcases Option.isSome_iff_exists.mp (superChain?_isSome_iff.mpr hends) with ⟨chain, hchain⟩
  rw [line, hchain, Option.getD_some, List.mem_cons]
  clear hends
  constructor
  · rintro (rfl | hx)
    · exact .refl
    · exact (extends_of_mem_superChain? hchain hx).to_reflTransGen
  · intro hx
    -- The line is unfolded from its start, one superclass at a time.
    induction hx using Relation.ReflTransGen.head_induction_on generalizing chain with
    | refl => exact .inl rfl
    | @head a b hab _ ih =>
        rw [superChain?, hab] at hchain
        rcases Option.bind_eq_some_iff.mp hchain with ⟨above, habove, hchain⟩
        cases hchain
        exact .inr (List.mem_cons.mpr (ih above habove))

/-- The ancestors of a class are what interfaces lead to from its line. -/
theorem mem_ancestors_iff (hends : ¬ComesRound u.Extends name) {x : String} :
    x ∈ u.ancestors name ↔ ∃ c, Relation.ReflTransGen u.Extends name c ∧
      Relation.ReflTransGen (fun a b => b ∈ u.interfaces a) c x := by
  rcases Option.isSome_iff_exists.mp (ancestors?_isSome_iff.mpr hends) with ⟨names, hnames⟩
  rw [ancestors, hnames, Option.getD_some, (ancestors?_nearer hnames).2, exists_way_iff]
  simp only [mem_line_iff hends]

/-- No type is twice among the ancestors of a class. -/
theorem nodup_ancestors (hends : ¬ComesRound u.Extends name) : (u.ancestors name).Nodup := by
  rcases Option.isSome_iff_exists.mp (ancestors?_isSome_iff.mpr hends) with ⟨names, hnames⟩
  rw [ancestors, hnames, Option.getD_some]
  refine (ancestors?_nearer hnames).1.imp fun {a b} hab => ?_
  rintro rfl
  exact hab.asymm hab

/-- Supertypes lead to every ancestor. -/
theorem inherits_of_mem_ancestors (hends : ¬ComesRound u.Extends name) {x : String}
    (h : x ∈ u.ancestors name) : Relation.ReflTransGen u.Inherits name x := by
  rcases (mem_ancestors_iff hends).mp h with ⟨c, hc, hx⟩
  exact (Relation.ReflTransGen.mono (fun _ _ => inherits_of_extends) name c hc).trans
    (Relation.ReflTransGen.mono (fun _ _ => inherits_of_interface) c x hx)

/-- No class extends or implements an array. -/
def NamesNoArrays (u : Universe) : Prop :=
  ∀ name link, arrayComponent? name = none → u.Inherits name link → arrayComponent? link = none

/-- Every type that a class names as an interface is right below the root or has no superclass. -/
def InterfacesFlat (u : Universe) : Prop :=
  ∀ name i, arrayComponent? name = none → i ∈ u.interfaces name →
    ∀ parent, u.Extends i parent → parent = objectClass

/-- Links lead to classes only. -/
theorem NamesNoArrays.of_inherits (h : u.NamesNoArrays) (hsub : arrayComponent? sub = none)
    (hsup : Relation.ReflTransGen u.Inherits sub sup) : arrayComponent? sup = none := by
  induction hsup with
  | refl => exact hsub
  | tail _ hstep ih => exact h _ _ ih hstep

/-- What supertypes lead to is an ancestor or the root, if the interfaces of the root are ancestors
    where supertypes lead to it. -/
theorem mem_ancestors_of_inherits (hends : ¬ComesRound u.Extends sub) (hflat : u.InterfacesFlat)
    (harrays : u.NamesNoArrays) (hsub : arrayComponent? sub = none)
    (hroot : Relation.ReflTransGen u.Inherits sub objectClass →
      ∀ i ∈ u.interfaces objectClass, i ∈ u.ancestors sub)
    (h : Relation.ReflTransGen u.Inherits sub sup) :
    sup ∈ u.ancestors sub ∨ sup = objectClass := by
  have hclosed {x i : String} (hx : x ∈ u.ancestors sub) (hi : i ∈ u.interfaces x) :
      i ∈ u.ancestors sub := by
    rcases (mem_ancestors_iff hends).mp hx with ⟨c, hc, hx⟩
    exact (mem_ancestors_iff hends).mpr ⟨c, hc, hx.tail hi⟩
  induction h with
  | refl => exact .inl ((mem_ancestors_iff hends).mpr ⟨sub, .refl, .refl⟩)
  | @tail x y hx hstep ih =>
      rcases ih with hmem | rfl
      · rcases inherits_iff.mp hstep with hparent | hi
        · rcases (mem_ancestors_iff hends).mp hmem with ⟨c, hc, hcx⟩
          -- Superclasses go on from the line only; an interface has the root above it at most.
          rcases Relation.ReflTransGen.cases_tail hcx with rfl | ⟨z, hcz, hzx⟩
          · exact .inl ((mem_ancestors_iff hends).mpr ⟨y, hc.tail hparent, .refl⟩)
          · have hz := inherits_of_mem_ancestors hends
              ((mem_ancestors_iff hends).mpr ⟨c, hc, hcz⟩)
            exact .inr (hflat z x (harrays.of_inherits hsub hz) hzx y hparent)
        · exact .inl (hclosed hmem hi)
      · rcases inherits_iff.mp hstep with hparent | hi
        · cases hparent
        · exact .inl (hroot hx y hi)

/-- The two views of the hierarchy above a class. Its ancestors are all different. They are exactly
    the types that its values can stand for, apart from the root and arrays, if and only if the
    interfaces of the root are among them should supertypes lead to the root. They are if the line
    of the class arrives at the root, and if the root has no interfaces. -/
theorem isSubtype_iff_mem_ancestors (hends : ¬ComesRound u.Inherits sub)
    (harrays : u.NamesNoArrays) (hflat : u.InterfacesFlat) (hsub : arrayComponent? sub = none) :
    (u.ancestors sub).Nodup ∧
      ((∀ sup, arrayComponent? sup = none → sup ≠ objectClass →
          (u.isSubtype sub sup = true ↔ sup ∈ u.ancestors sub)) ↔
        (Relation.ReflTransGen u.Inherits sub objectClass →
          ∀ i ∈ u.interfaces objectClass, i ∈ u.ancestors sub)) ∧
      (objectClass ∈ u.line sub ∨ u.interfaces objectClass = [] →
        ∀ i ∈ u.interfaces objectClass, i ∈ u.ancestors sub) := by
  have hextends := not_comesRound_extends hends
  refine ⟨nodup_ancestors hextends, ⟨fun hagree hroot i hi => ?_, fun hroot sup hsup hne => ?_⟩,
    fun hline i hi => ?_⟩
  · -- The interfaces of the root are supertypes of whatever comes to the root.
    have hinherits := hroot.tail (inherits_of_interface hi)
    have hne : i ≠ objectClass := by
      rintro rfl
      exact hends ⟨objectClass, hroot, .single (inherits_of_interface hi)⟩
    have hplain := harrays.of_inherits hsub hinherits
    exact (hagree i hplain hne).mp ((isSubtype_iff_inherits hsub hplain hne).mpr hinherits)
  · rw [isSubtype_iff_inherits hsub hsup hne]
    constructor
    · intro h
      exact (mem_ancestors_of_inherits hextends hflat harrays hsub hroot h).resolve_right hne
    · exact inherits_of_mem_ancestors hextends
  · rcases hline with hline | hnone
    · rw [mem_line_iff hextends] at hline
      exact (mem_ancestors_iff hextends).mpr ⟨objectClass, hline, .single hi⟩
    · rw [hnone] at hi
      cases hi

end Ancestors

namespace Rootless

/-- The class has no superclass and names an interface that the universe does not have. -/
def classFile : ClassFile where
  name := "demo/X"
  superName := none
  interfaces := ["demo/I"]

/-- The root, with an interface of its own. -/
def root : ClassFile where
  name := objectClass
  superName := none
  interfaces := ["demo/J"]

/-- An interface of the root. -/
def interface : ClassFile where
  access := ⟨1537⟩
  name := "demo/J"
  superName := none

/-- The universe of the three. -/
def classes : Universe :=
  .ofClasses [classFile, root, interface]

/-- It has no other class. -/
theorem class?_cases {name : String} {c : ClassFile} (h : classes.class? name = some c) :
    c = classFile ∨ c = root ∨ c = interface := by
  rcases Option.map_eq_some_iff.mp h with ⟨e, he, rfl⟩
  -- The three classes were placed one after the other.
  have hget : classes.entry? name = if "demo/J" = name then some (.ofClass interface)
      else if objectClass = name then some (.ofClass root)
      else if "demo/X" = name then some (.ofClass classFile) else none := by
    simp [classes, Universe.entry?, Universe.place, Universe.ofClasses,
      ClassEntry.ofClass, classFile, root, interface,
      Std.TreeMap.getElem?_insert]
  rw [hget] at he
  split at he
  · cases he
    exact .inr (.inr rfl)
  split at he
  · cases he
    exact .inr (.inl rfl)
  split at he
  · cases he
    exact .inl rfl
  · cases he

/-- The types that classes name as interfaces. -/
def interfaceNames : List String :=
  ["demo/I", "demo/J", "java/io/Serializable", "java/lang/Comparable", "java/lang/CharSequence",
    "java/lang/Appendable"]

/-- The classes of the example have no other interface. -/
theorem mem_interfaceNames {name i : String} (hname : arrayComponent? name = none)
    (h : i ∈ classes.interfaces name) : i ∈ interfaceNames := by
  -- There are three classes, and behind them the types of the platform.
  have hplatform : ∀ t ∈ PlatformType.all, ∀ i ∈ t.interfaces, i ∈ interfaceNames := by
    decide +kernel
  unfold interfaces at h
  rw [hname] at h
  cases hc : classes.class? name with
  | some c =>
      rw [hc] at h
      rcases class?_cases hc with rfl | rfl | rfl
      · exact (by decide : ∀ i ∈ classFile.interfaces, i ∈ interfaceNames) i h
      · exact (by decide : ∀ i ∈ root.interfaces, i ∈ interfaceNames) i h
      · cases h
  | none =>
      rw [hc] at h
      cases ht : PlatformType.find? name with
      | none =>
          rw [ht] at h
          cases h
      | some t =>
          rw [ht] at h
          exact hplatform t (List.mem_of_find?_eq_some ht) i h

theorem namesNoArrays : classes.NamesNoArrays := by
  -- Superclasses are looked up one by one, interfaces in the list of all.
  have hplatform : ∀ t ∈ PlatformType.all, arrayComponent? t.superName = none := by
    decide +kernel
  intro name link hname hlink
  rcases inherits_iff.mp hlink with hparent | hi
  · unfold Extends superclass? at hparent
    split at hparent
    · cases hparent
    cases hc : classes.class? name with
    | some c =>
        rw [hc] at hparent
        rcases class?_cases hc with rfl | rfl | rfl <;> cases hparent
    | none =>
        rw [hc] at hparent
        cases ht : PlatformType.find? name with
        | none =>
            rw [ht] at hparent
            cases hparent
            rfl
        | some t =>
            rw [ht] at hparent
            cases hparent
            exact hplatform t (List.mem_of_find?_eq_some ht)
  · exact (by decide : ∀ i ∈ interfaceNames, arrayComponent? i = none) link
      (mem_interfaceNames hname hi)

theorem interfacesFlat : classes.InterfacesFlat := by
  intro name i hname hi parent hparent
  have hsuper : ∀ i ∈ interfaceNames, classes.superclass? i = none ∨
      classes.superclass? i = some objectClass := by
    simp only [interfaceNames, List.forall_mem_cons]
    exact ⟨.inr rfl, .inl rfl, .inr rfl, .inr rfl, .inr rfl, .inr rfl, by simp⟩
  rcases hsuper i (mem_interfaceNames hname hi) with hnone | hroot
  · exact absurd (hparent.symm.trans hnone) (by simp)
  · exact Option.some.inj (hparent.symm.trans hroot)

/-- The links of the class come to an end. -/
theorem not_comesRound : ¬ComesRound classes.Inherits "demo/X" := by
  have hends (name : String) (links : List String) (h : classes.supertypes name = links)
      (hlinks : ∀ link ∈ links, Acc (flip classes.Inherits) link) :
      Acc (flip classes.Inherits) name :=
    ⟨_, fun link hlink => hlinks link (h ▸ hlink)⟩
  have hsecond := hends "demo/J" [] rfl (by simp)
  have hroot := hends objectClass ["demo/J"] rfl (by simpa using hsecond)
  have hfirst := hends "demo/I" [objectClass] rfl (by simpa using hroot)
  have hclass := hends "demo/X" ["demo/I"] rfl (by simpa using hfirst)
  exact (acc_iff_not_comesRound classes.named.finite_toSet
    fun _ _ => mem_named_of_supertypes).mp hclass

/-- They lead to the root. -/
theorem inherits_root : Relation.ReflTransGen classes.Inherits "demo/X" objectClass :=
  .tail (.single (inherits_of_interface (i := "demo/I") List.mem_cons_self))
    (inherits_of_extends rfl)

/-- The interface of the root is no ancestor of the class. -/
theorem not_mem_ancestors : "demo/J" ∉ classes.ancestors "demo/X" := by
  rw [mem_ancestors_iff (not_comesRound_extends not_comesRound)]
  rintro ⟨c, hc, hx⟩
  have hline : c = "demo/X" := by
    rcases Relation.ReflTransGen.cases_head hc with rfl | ⟨parent, hparent, -⟩
    · rfl
    · cases hparent
  subst hline
  -- What the class names has no interfaces.
  have hall {i : String} (hi : Relation.ReflTransGen (fun a b => b ∈ classes.interfaces a)
      "demo/X" i) : i = "demo/X" ∨ i = "demo/I" := by
    induction hi with
    | refl => exact .inl rfl
    | tail _ hstep ih =>
        rcases ih with rfl | rfl
        · exact .inr (List.mem_singleton.mp hstep)
        · cases hstep
  exact absurd (hall hx) (by decide)

end Rootless

/-- The hypotheses hold of the class, and supertypes lead to the root. -/
theorem ancestors_of_rootless :
    ¬ComesRound Rootless.classes.Inherits "demo/X" ∧ Rootless.classes.NamesNoArrays ∧
      Rootless.classes.InterfacesFlat ∧ arrayComponent? "demo/X" = none ∧
      (Rootless.classes.ancestors "demo/X").Nodup ∧
      ((∀ sup, arrayComponent? sup = none → sup ≠ objectClass →
          (Rootless.classes.isSubtype "demo/X" sup = true ↔
            sup ∈ Rootless.classes.ancestors "demo/X")) ↔
        (Relation.ReflTransGen Rootless.classes.Inherits "demo/X" objectClass →
          ∀ i ∈ Rootless.classes.interfaces objectClass,
            i ∈ Rootless.classes.ancestors "demo/X")) ∧
      (objectClass ∈ Rootless.classes.line "demo/X" ∨
          Rootless.classes.interfaces objectClass = [] →
        ∀ i ∈ Rootless.classes.interfaces objectClass,
          i ∈ Rootless.classes.ancestors "demo/X") :=
  ⟨Rootless.not_comesRound, Rootless.namesNoArrays, Rootless.interfacesFlat, rfl,
    isSubtype_iff_mem_ancestors Rootless.not_comesRound Rootless.namesNoArrays
      Rootless.interfacesFlat rfl⟩

/-- Values of the class can stand for the interface of the root, and it is no ancestor. -/
theorem subtype_not_ancestor :
    ¬ComesRound Rootless.classes.Inherits "demo/X" ∧ Rootless.classes.NamesNoArrays ∧
      Rootless.classes.InterfacesFlat ∧ arrayComponent? "demo/X" = none ∧
      arrayComponent? "demo/J" = none ∧ "demo/J" ≠ objectClass ∧
      Rootless.classes.isSubtype "demo/X" "demo/J" = true ∧
      "demo/J" ∉ Rootless.classes.ancestors "demo/X" := by
  refine ⟨Rootless.not_comesRound, Rootless.namesNoArrays, Rootless.interfacesFlat, rfl, rfl,
    by decide, ?_, Rootless.not_mem_ancestors⟩
  rw [isSubtype_iff_inherits rfl rfl (by decide)]
  exact Rootless.inherits_root.tail (inherits_of_interface List.mem_cons_self)

end Universe

end JvmFold
