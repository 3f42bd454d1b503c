import Mathlib
import JvmFold.Machine.Call
import JvmFold.Proofs.ClassFile.Emission

/-!
# Searches in the Hierarchy

A search goes from name to name, and what it comes to next is decided at every
name alone. So it is the steps that say whether it ends. There are only so many
names that a step can lead to, the ones that the classes of the universe and the
platform name. A search that never ends comes to one of them twice, and then it
goes round in a circle.

The walks that pass over the names they have seen end always. The other ones do
not pass over anything, so they end exactly if no circle lies ahead of them.

## Main definitions

* `Universe.ofClasses`: A universe of classes that are there already.
* `ComesRound`: Whether steps lead to a circle.
* `Universe.Extends`, `Universe.Climbs`, `Universe.Passes`, `Universe.Descends`: The steps of the
  searches.

## Theorems

* `findSomeM?_eq_none`, `findSomeM?_eq_some`: A search among several.
* `acc_iff_not_comesRound`: Among finitely many names there is an end or a circle.
* `walk_isSome`: A walk always ends.
* `Universe.searches_end_iff`: Each search ends exactly if no circle lies ahead.
* `Universe.searches_looped`: A class at which no search ends.
-/

namespace JvmFold

/-- The entry of a class that is there already and need not be read. -/
def ClassEntry.ofClass (c : ClassFile) : ClassEntry where
  input := { key := ClassInput.keyOf c.name, bytes := [] }
  primary := true
  outline := c
  decoded := .mk fun _ => .ok c

namespace Universe

/-- A universe of classes that are there already. -/
def ofClasses (l : List ClassFile) : Universe :=
  l.foldl (fun u c => u.place (.ofClass c)) {}

section Place

variable {u : Universe} {e : ClassEntry} {c : ClassFile} {name : String}

theorem entry?_empty (name : String) : Universe.entry? {} name = none :=
  Std.TreeMap.getElem?_emptyc

/-- A class that is placed is found under its name. -/
theorem entry?_place : Universe.entry? (u.place e) name =
    if e.outline.name = name then some e else u.entry? name := by
  change (u.classes.insert e.outline.name e)[name]? = _
  rw [Std.TreeMap.getElem?_insert]
  simp only [Std.compare_eq_iff_eq]
  rfl

theorem class?_empty (name : String) : class? {} name = none := by
  rw [class?, entry?_empty]
  rfl

/-- Placing a class is all that it takes to find it. -/
theorem class?_place : (u.place (.ofClass c)).class? name =
    if c.name = name then some c else u.class? name := by
  rw [class?, entry?_place, class?]
  change Option.map _ (if c.name = name then _ else _) = _
  split <;> rfl

/-- The only class is found by its name. -/
theorem class?_ofClasses (h : c.name = name) : (ofClasses [c]).class? name = some c :=
  class?_place.trans (if_pos h)

/-- Where there is one class, no other name is found. -/
theorem class?_ofClasses_of_ne (h : c.name ≠ name) : (ofClasses [c]).class? name = none :=
  class?_place.trans ((if_neg h).trans (class?_empty name))

end Place

end Universe

section FindSome

variable {α β : Type} {f g : α → Option (Option β)} {l : List α}

/-- A search among several ends without an answer if each of them does. -/
theorem findSomeM?_eq_none : l.findSomeM? f = some none ↔ ∀ a ∈ l, f a = some none := by
  induction l with
  | nil => simp
  | cons a l ih =>
      rw [List.findSomeM?_cons, List.forall_mem_cons, ← ih]
      rcases f a with - | - | b
      · simp
      · simp
      · simp

/-- A search among several finds what the first of them finds that finds anything. -/
theorem findSomeM?_eq_some {b : β} : l.findSomeM? f = some (some b) ↔
    ∃ before a after, l = before ++ a :: after ∧ (∀ x ∈ before, f x = some none) ∧
      f a = some (some b) := by
  induction l with
  | nil => simp
  | cons a l ih =>
      rw [List.findSomeM?_cons]
      constructor
      · intro h
        -- The first one has no answer, finds nothing, or is the one that finds something.
        rcases ha : f a with - | - | c
        · rw [ha] at h
          cases h
        · rw [ha] at h
          rcases ih.mp h with ⟨before, x, after, rfl, hbefore, hx⟩
          exact ⟨a :: before, x, after, rfl, List.forall_mem_cons.mpr ⟨ha, hbefore⟩, hx⟩
        · rw [ha] at h
          cases h
          exact ⟨[], a, l, rfl, by simp, ha⟩
      · rintro ⟨before, x, after, hl, hbefore, hx⟩
        cases before with
        | nil =>
            cases hl
            rw [hx]
            rfl
        | cons y before =>
            cases hl
            rcases List.forall_mem_cons.mp hbefore with ⟨ha, hbefore⟩
            rw [ha]
            exact ih.mpr ⟨before, x, after, rfl, hbefore, hx⟩

/-- A search among several that ends, ends in the same way where every single search does. -/
theorem findSomeM?_mono {answer : Option β} (hfg : ∀ a r, f a = some r → g a = some r)
    (h : l.findSomeM? f = some answer) : l.findSomeM? g = some answer := by
  cases answer with
  | none => exact findSomeM?_eq_none.mpr fun a ha => hfg a _ (findSomeM?_eq_none.mp h a ha)
  | some b =>
      rcases findSomeM?_eq_some.mp h with ⟨before, a, after, hl, hbefore, ha⟩
      exact findSomeM?_eq_some.mpr
        ⟨before, a, after, hl, fun x hx => hfg x _ (hbefore x hx), hfg a _ ha⟩

/-- A search among several ends if every single one does that comes after others without an
    answer. -/
theorem isSome_findSomeM? (h : ∀ before a after, l = before ++ a :: after →
    (∀ x ∈ before, f x = some none) → (f a).isSome = true) : (l.findSomeM? f).isSome = true := by
  induction l with
  | nil => rfl
  | cons a l ih =>
      rw [List.findSomeM?_cons]
      have ha := h [] a l rfl (by simp)
      rcases hfa : f a with - | - | b
      · rw [hfa] at ha
        cases ha
      · refine ih fun before x after hl hbefore => ?_
        exact h (a :: before) x after (congrArg (a :: ·) hl)
          (List.forall_mem_cons.mpr ⟨hfa, hbefore⟩)
      · rfl

/-- The single searches that one among several makes have an end if it does. -/
theorem exists_of_findSomeM? {answer : Option β} {before after : List α} {a : α}
    (hfg : ∀ x r, f x = some r → g x = some r)
    (h : (before ++ a :: after).findSomeM? f = some answer)
    (hbefore : ∀ x ∈ before, g x = some none) : ∃ r, f a = some r := by
  induction before with
  | nil =>
      rw [List.nil_append, List.findSomeM?_cons] at h
      rcases Option.bind_eq_some_iff.mp h with ⟨r, hr, -⟩
      exact ⟨r, hr⟩
  | cons b before ih =>
      rcases List.forall_mem_cons.mp hbefore with ⟨hb, hbefore⟩
      rw [List.cons_append, List.findSomeM?_cons] at h
      rcases Option.bind_eq_some_iff.mp h with ⟨r, hr, h⟩
      cases Option.some.inj ((hfg b r hr).symm.trans hb)
      exact ih h hbefore

end FindSome

section Circles

variable {α : Type} {step : α → α → Prop} {a b : α}

/-- Steps lead to a circle. -/
def ComesRound (step : α → α → Prop) (a : α) : Prop :=
  ∃ b, Relation.ReflTransGen step a b ∧ Relation.TransGen step b b

/-- From where all ways end, none comes round. -/
theorem not_transGen_self_of_acc (h : Acc (flip step) a) : ¬Relation.TransGen step a a := by
  intro hcircle
  -- A circle through a name is one through each name on it.
  induction h with
  | intro a _ ih =>
      rcases Relation.TransGen.head'_iff.mp hcircle with ⟨b, hab, hba⟩
      exact ih b hab (.tail' hba hab)

/-- If steps lead to finitely many places only, they come to an end or lead to a circle. -/
theorem acc_iff_not_comesRound {places : Set α} (hfinite : places.Finite)
    (hstep : ∀ a b, step a b → b ∈ places) : Acc (flip step) a ↔ ¬ComesRound step a := by
  constructor
  · rintro h ⟨b, hab, hcircle⟩
    have hb : Acc (flip step) b := by
      clear hcircle
      induction hab with
      | refl => exact h
      | tail _ hstep ih => exact ih.inv hstep
    exact not_transGen_self_of_acc hb hcircle
  · intro hround
    -- What can be reached is finite, and no step in it belongs to a circle.
    let Ahead := {b // Relation.ReflTransGen step a b}
    have hahead : {b | Relation.ReflTransGen step a b} ⊆ insert a places := by
      intro b hb
      rcases Relation.ReflTransGen.cases_tail hb with rfl | ⟨c, -, hcb⟩
      · exact Set.mem_insert b places
      · exact Set.mem_insert_of_mem a (hstep c b hcb)
    have : Finite Ahead := (hfinite.insert a).subset hahead
    let Behind (x y : Ahead) : Prop := Relation.TransGen step y.1 x.1
    have : IsTrans Ahead Behind := ⟨fun _ _ _ hxy hyz => hyz.trans hxy⟩
    have : Std.Irrefl Behind := ⟨fun x hx => hround ⟨x.1, x.2, hx⟩⟩
    have hwf : WellFounded Behind := Finite.wellFounded_of_trans_of_irrefl Behind
    have hacc (x : Ahead) : Acc (flip step) x.1 := by
      induction x using hwf.induction with
      | _ x ih =>
          refine ⟨_, fun b hb => ?_⟩
          exact ih ⟨b, x.2.tail hb⟩ (.single hb)
    exact hacc ⟨a, .refl⟩

/-- Steps that lead back to where they start lead to a circle. -/
theorem comesRound_of_step (h : step a a) : ComesRound step a :=
  ⟨a, .refl, .single h⟩

end Circles

section Ascend

variable {α : Type} {look : String → α ⊕ String} {name : String}

/-- A way up ends exactly if its steps do. -/
theorem ascend_isSome_iff :
    (ascend name look).isSome = true ↔ Acc (flip fun a b => look a = .inr b) name := by
  constructor
  · intro h
    rcases Option.isSome_iff_exists.mp h with ⟨answer, h⟩
    -- An answer is reached by steps that end; the search is their induction.
    refine ascend.partial_correctness look
      (fun name _ => Acc (flip fun a b => look a = .inr b) name)
      (fun search ih name answer h => ⟨_, fun b (hb : look name = .inr b) => ?_⟩) name answer h
    rw [hb] at h
    exact ih b answer h
  · intro h
    induction h with
    | intro name _ ih =>
        unfold ascend
        cases hlook : look name with
        | inl answer => rfl
        | inr parent => exact ih parent hlook

end Ascend

namespace Trail

variable {next : String → List String} {seen : Std.HashSet String} {level : List String}

/-- The names of a level that are new, each once. -/
def fresh (seen : Std.HashSet String) : List String → List String
  | [] => []
  | name :: rest =>
    if seen.contains name then fresh seen rest else name :: fresh (seen.insert name) rest

/-- The trail with some more names. -/
def add (t : Trail) (names : List String) : Trail where
  names := names.reverse ++ t.names
  seen := t.seen.insertMany names

/-- What is fresh on a level has not been seen before. -/
theorem mem_fresh {name : String} :
    name ∈ fresh seen level ↔ name ∈ level ∧ seen.contains name = false := by
  induction level generalizing seen with
  | nil => simp [fresh]
  | cons first rest ih =>
      unfold fresh
      -- A name that was seen is left out here and further on.
      by_cases hfirst : seen.contains first
      · rw [if_pos hfirst, ih, List.mem_cons]
        refine and_congr_left fun hname => ⟨.inr, fun h => h.resolve_left ?_⟩
        rintro rfl
        rw [hname] at hfirst
        cases hfirst
      · rw [if_neg hfirst, List.mem_cons, List.mem_cons, ih, Std.HashSet.contains_insert]
        by_cases hname : name = first
        · simp [hname, hfirst]
        · simp [hname, Ne.symm hname]

/-- What is added has been seen from then on. -/
theorem contains_add (t : Trail) (names : List String) (name : String) :
    (t.add names).seen.contains name = (t.seen.contains name || names.contains name) := by
  unfold add
  exact Std.HashSet.contains_insertMany_list

/-- Going through a level adds what is new in it, and what this leads to stands behind what was
    there. -/
theorem foldl_visit (t : Trail) (following : List String) :
    level.foldl (visit next) (t, following)
      = (t.add (fresh t.seen level), ((fresh t.seen level).flatMap next).reverse ++ following) := by
  induction level generalizing t following with
  | nil => rfl
  | cons name rest ih =>
      rw [List.foldl_cons]
      -- Only a name that is new adds what follows from it.
      by_cases hname : t.seen.contains name
      · have hvisit : visit next (t, following) name = (t, following) := if_pos hname
        rw [hvisit, ih, fresh, if_pos hname]
      · have hvisit : visit next (t, following) name
            = (⟨name :: t.names, t.seen.insert name⟩, (next name).reverse ++ following) := by
          dsimp only [visit]
          rw [if_neg hname, List.reverseAux_eq]
        rw [hvisit, ih, fresh, if_neg hname]
        simp [add, Std.HashSet.insertMany_cons]

/-- A walk goes on with what the new names of a level lead to. -/
theorem extend_of_ne_nil (t : Trail) (h : level ≠ []) :
    t.extend next level = (t.add (fresh t.seen level)).extend next
      ((fresh t.seen level).flatMap next) := by
  rw [extend, if_neg (by simpa using h), foldl_visit]
  simp

@[simp]
theorem extend_nil (t : Trail) : t.extend next [] = some t := by
  rw [extend]
  rfl

/-- A walk among finitely many names ends. -/
theorem extend_isSome {places : List String} (hnext : ∀ a, ∀ b ∈ next a, b ∈ places) (t : Trail)
    (hlevel : ∀ a ∈ level, a ∈ places) : (t.extend next level).isSome = true := by
  -- Every level but the last one leaves fewer names that are new.
  induction hn : (places.filter fun a => !t.seen.contains a).length using Nat.strong_induction_on
    generalizing t level with
  | _ n ih =>
      by_cases hempty : level = []
      · rw [hempty, extend_nil]
        rfl
      rw [extend_of_ne_nil t hempty]
      have hfollowing : ∀ a ∈ (fresh t.seen level).flatMap next, a ∈ places := by
        intro b hb
        rcases List.mem_flatMap.mp hb with ⟨a, -, hab⟩
        exact hnext a b hab
      cases hfresh : fresh t.seen level with
      | nil =>
          rw [List.flatMap_nil, extend_nil]
          rfl
      | cons name rest =>
          rw [← hfresh]
          refine ih _ ?_ _ hfollowing rfl
          have hname := mem_fresh.mp (hfresh ▸ List.mem_cons_self : name ∈ fresh t.seen level)
          have hkept : (places.filter fun a => !(t.add (fresh t.seen level)).seen.contains a)
              = (places.filter fun a => !t.seen.contains a).filter
                  fun a => !(t.add (fresh t.seen level)).seen.contains a := by
            rw [List.filter_filter]
            refine List.filter_congr fun a _ => ?_
            rw [contains_add]
            cases t.seen.contains a <;> simp
          rw [← hn, hkept, List.length_filter_lt_length_iff_exists]
          refine ⟨name, List.mem_filter.mpr ⟨hlevel name hname.1, by simp [hname.2]⟩, ?_⟩
          simp [contains_add, hfresh]

end Trail

/-- A walk among finitely many names comes to an end. -/
theorem walk_isSome {next : String → List String} {seen level places : List String}
    (hnext : ∀ a, ∀ b ∈ next a, b ∈ places) (hlevel : ∀ a ∈ level, a ∈ places) :
    (walk next seen level).isSome = true := by
  unfold walk
  rw [Option.isSome_map]
  exact Trail.extend_isSome hnext _ hlevel

namespace Universe

variable {u : Universe}

/-- A class that can be added takes its place, or another one keeps it. -/
theorem eq_of_insertEntry {e : ClassEntry} {v : Universe} (h : u.insertEntry e = .ok v) :
    v = u.place e ∨ v = u := by
  unfold insertEntry at h
  split at h
  · cases h
    exact .inl rfl
  · split at h
    · cases h
    · split at h
      · cases h
        exact .inl rfl
      · cases h
        exact .inr rfl

/-- The names that the classes of the universe and of the platform name as supertypes. -/
def named (u : Universe) : List String :=
  (u.entries.flatMap fun e => e.outline.interfaces ++ e.outline.superName.toList) ++
    (PlatformType.all.flatMap fun t => t.superName :: t.interfaces) ++
      objectClass :: arrayInterfaces

section Named

variable {name link : String} {c : ClassFile}

/-- Every link of a class is named in the universe. -/
theorem mem_named_of_class? (hc : u.class? name = some c)
    (hlink : link ∈ c.interfaces ++ c.superName.toList) : link ∈ u.named := by
  rcases Option.map_eq_some_iff.mp hc with ⟨e, he, rfl⟩
  have hmem : e ∈ u.entries :=
    List.mem_map.mpr ⟨(name, e), Std.TreeMap.mem_toList_iff_getElem?_eq_some.mpr he, rfl⟩
  exact List.mem_append_left _ (List.mem_append_left _ (List.mem_flatMap.mpr ⟨e, hmem, hlink⟩))

-- And so is every link of a platform type.
theorem mem_named_of_find? {t : PlatformType} (ht : PlatformType.find? name = some t)
    (hlink : link ∈ t.superName :: t.interfaces) : link ∈ u.named :=
  List.mem_append_left _ (List.mem_append_right _
    (List.mem_flatMap.mpr ⟨t, List.mem_of_find?_eq_some ht, hlink⟩))

theorem mem_named_of_superclass? (h : u.superclass? name = some link) : link ∈ u.named := by
  unfold superclass? at h
  split at h
  · cases h
  · split at h
    · exact mem_named_of_class? ‹_› (by simp [h])
    · split at h
      · cases h
        exact mem_named_of_find? ‹_› List.mem_cons_self
      · cases h
        exact List.mem_append_right _ List.mem_cons_self

theorem mem_named_of_interfaces (h : link ∈ u.interfaces name) : link ∈ u.named := by
  unfold interfaces at h
  split at h
  · exact List.mem_append_right _ (List.mem_cons_of_mem _ h)
  · split at h
    · exact mem_named_of_class? ‹_› (List.mem_append_left _ h)
    · cases ht : PlatformType.find? name with
      | none =>
          rw [ht] at h
          cases h
      | some t =>
          rw [ht] at h
          exact mem_named_of_find? ht (List.mem_cons_of_mem _ h)

theorem mem_named_of_supertypes (h : link ∈ u.supertypes name) : link ∈ u.named := by
  rcases List.mem_append.mp h with h | h
  · exact mem_named_of_superclass? (Option.mem_toList.mp h)
  · exact mem_named_of_interfaces h

end Named

/-- One class is the superclass of another. -/
def Extends (u : Universe) (name parent : String) : Prop :=
  u.superclass? name = some parent

/-- A line ends if that of the superclass does. -/
theorem superChain?_isSome_of_forall {name : String}
    (h : ∀ parent, u.superclass? name = some parent → (u.superChain? parent).isSome = true) :
    (u.superChain? name).isSome = true := by
  unfold superChain?
  cases hparent : u.superclass? name with
  | none => rfl
  | some parent =>
      rcases Option.isSome_iff_exists.mp (h parent hparent) with ⟨above, habove⟩
      dsimp only
      rw [habove]
      rfl

/-- The superclasses come to an end exactly if none of them comes twice. -/
theorem superChain?_isSome_iff {name : String} :
    (u.superChain? name).isSome = true ↔ ¬ComesRound u.Extends name := by
  have hacc : Acc (flip u.Extends) name ↔ ¬ComesRound u.Extends name :=
    acc_iff_not_comesRound u.named.finite_toSet fun _ _ => mem_named_of_superclass?
  rw [← hacc]
  constructor
  · intro h
    rcases Option.isSome_iff_exists.mp h with ⟨chain, h⟩
    -- A line that was found ends, by the way in which it was found.
    refine superChain?.partial_correctness u (fun name _ => Acc (flip u.Extends) name)
      (fun search ih name chain h => ⟨_, fun b (hb : u.superclass? name = some b) => ?_⟩)
      name chain h
    rw [hb] at h
    rcases Option.bind_eq_some_iff.mp h with ⟨above, habove, -⟩
    exact ih b above habove
  · intro h
    clear hacc
    induction h with
    | intro name _ ih => exact superChain?_isSome_of_forall ih

/-- A search for a class that passes a test goes on from one class to another. -/
def Climbs (u : Universe) (test : ClassFile → Bool) (name parent : String) : Prop :=
  ∃ c, u.class? name = some c ∧ test c = false ∧ c.superName = some parent

/-- A search for a target goes on from one class to another. -/
def Passes (u : Universe) (test : String → Option Target) (name parent : String) : Prop :=
  test name = none ∧ u.superclass? name = some parent

section Upwards

variable {test : ClassFile → Bool} {look : String → Option Target} {name parent : String}

theorem climbOn_eq_inr : u.climbOn test name = .inr parent ↔ u.Climbs test name parent := by
  unfold climbOn Climbs
  cases u.class? name with
  | none => simp
  | some c =>
      dsimp only
      cases htest : test c with
      | true => simp [htest]
      | false => cases hsuper : c.superName <;> simp [htest, hsuper]

theorem upwardsOn_eq_inr : u.upwardsOn look name = .inr parent ↔ u.Passes look name parent := by
  unfold upwardsOn Passes
  cases look name with
  | some t => simp
  | none => cases u.superclass? name <;> simp

/-- A climb comes to an end unless it comes round. -/
theorem climb_isSome_iff :
    (u.climb test name).isSome = true ↔ ¬ComesRound (u.Climbs test) name := by
  have hacc : _ → (Acc (flip (u.Climbs test)) name ↔ ¬ComesRound (u.Climbs test) name) :=
    acc_iff_not_comesRound u.named.finite_toSet
  have hstep : (fun a b => u.climbOn test a = .inr b) = u.Climbs test := by
    funext a b
    exact propext climbOn_eq_inr
  rw [← hacc, ← hstep]
  · exact ascend_isSome_iff
  · rintro a b ⟨c, hc, -, hb⟩
    exact mem_named_of_class? hc (by simp [hb])

-- And so does a search upwards.
theorem upwards_isSome_iff :
    (u.upwards look name).isSome = true ↔ ¬ComesRound (u.Passes look) name := by
  have hacc : Acc (flip (u.Passes look)) name ↔ ¬ComesRound (u.Passes look) name :=
    acc_iff_not_comesRound u.named.finite_toSet fun _ _ h => mem_named_of_superclass? h.2
  have hstep : (fun a b => u.upwardsOn look a = .inr b) = u.Passes look := by
    funext a b
    exact propext upwardsOn_eq_inr
  rw [← hacc, ← hstep]
  exact ascend_isSome_iff

/-- The superclass of a class of the universe is the one that it names. -/
theorem superName_eq_of_superclass? {c : ClassFile} (hc : u.class? name = some c)
    (h : u.superclass? name = some parent) : c.superName = some parent := by
  unfold superclass? at h
  split at h
  · cases h
  · rwa [hc] at h

/-- Where a search comes to a class without a superclass, the way up has an end. -/
theorem superChain?_isSome_of_climb (h : u.climb test name = some .top) :
    (u.superChain? name).isSome = true := by
  refine ascend.partial_correctness (u.climbOn test)
    (fun name stop => stop = .top → (u.superChain? name).isSome = true) ?_ name .top h rfl
  rintro search ih name - h rfl
  refine superChain?_isSome_of_forall fun parent hparent => ?_
  unfold climbOn at h
  cases hc : u.class? name with
  | none =>
      rw [hc] at h
      cases h
  | some c =>
      rw [hc] at h
      dsimp only at h
      rw [superName_eq_of_superclass? hc hparent] at h
      -- A class that passes the test would be the end, and the end is said to be the top.
      cases htest : test c with
      | true =>
          rw [htest] at h
          cases h
      | false =>
          rw [htest] at h
          exact ih parent .top h rfl

/-- Where a search for a target finds nothing, the way up has an end. -/
theorem superChain?_isSome_of_upwards (h : u.upwards look name = some none) :
    (u.superChain? name).isSome = true := by
  refine ascend.partial_correctness (u.upwardsOn look)
    (fun name answer => answer = none → (u.superChain? name).isSome = true) ?_ name none h rfl
  -- The search has come to the end of the line and found nothing.
  rintro search ih name - h rfl
  refine superChain?_isSome_of_forall fun parent hparent => ?_
  unfold upwardsOn at h
  rw [hparent] at h
  cases hlook : look name with
  | some t =>
      rw [hlook] at h
      cases h
  | none =>
      rw [hlook] at h
      exact ih parent none h rfl

end Upwards

/-- A search for a field goes on from one class to another: the class does not declare the field,
    and what it names in front of the other one does not lead to it. -/
def Descends (u : Universe) (s : Signature) (name link : String) : Prop :=
  ∃ c before after, u.class? name = some c ∧ c.field? s = none ∧
    c.interfaces ++ c.superName.toList = before ++ link :: after ∧
      ∀ earlier ∈ before, u.fieldSearch earlier s = some none

/-- A search for a field that answers has seen all of its ways end. -/
theorem acc_descends_of_fieldSearch {s : Signature} {name : String} {answer : Option String}
    (h : u.fieldSearch name s = some answer) : Acc (flip (u.Descends s)) name := by
  have hsearch := fieldSearch.partial_correctness u s
    fun name answer => u.fieldSearch name s = some answer ∧ Acc (flip (u.Descends s)) name
  -- That the search has this answer is shown along with it, as the links in front have to be
  -- passed.
  refine (hsearch (fun search ih name answer hanswer => ⟨?_, _, ?_⟩) name answer h).2
  · unfold fieldSearch
    cases hc : u.class? name with
    | none =>
        rw [hc] at hanswer
        exact hanswer
    | some c =>
        rw [hc] at hanswer
        dsimp only at hanswer ⊢
        by_cases hfield : (c.field? s).isSome
        · rw [if_pos hfield] at hanswer ⊢
          exact hanswer
        · rw [if_neg hfield] at hanswer ⊢
          exact findSomeM?_mono (fun a r ha => (ih a r ha).1) hanswer
  · rintro link ⟨c, before, after, hc, hfield, hlinks, hbefore⟩
    rw [hc] at hanswer
    dsimp only at hanswer
    rw [hfield, hlinks] at hanswer
    rcases exists_of_findSomeM? (fun a r ha => (ih a r ha).1) hanswer hbefore with ⟨r, hr⟩
    exact (ih link r hr).2

-- So it comes to an end unless one comes round.
theorem fieldSearch_isSome_iff {s : Signature} {name : String} :
    (u.fieldSearch name s).isSome = true ↔ ¬ComesRound (u.Descends s) name := by
  have hacc : _ → (Acc (flip (u.Descends s)) name ↔ ¬ComesRound (u.Descends s) name) :=
    acc_iff_not_comesRound u.named.finite_toSet
  rw [← hacc]
  · constructor
    · intro h
      rcases Option.isSome_iff_exists.mp h with ⟨answer, h⟩
      exact acc_descends_of_fieldSearch h
    · intro h
      -- The induction is on the names that are searched later, which come to an end.
      clear hacc
      induction h with
      | intro name _ ih =>
          unfold fieldSearch
          cases hc : u.class? name with
          | none => rfl
          | some c =>
              dsimp only
              cases hfield : c.field? s with
              | some f => rfl
              | none =>
                  rw [if_neg (by simp)]
                  refine isSome_findSomeM? fun before link after hlinks hbefore => ?_
                  exact ih link ⟨c, before, after, hc, hfield, hlinks, hbefore⟩
  · rintro a link ⟨c, before, after, hc, -, hlinks, -⟩
    exact mem_named_of_class? hc (by simp [hlinks])

/-- The ancestors are the line and the interfaces reached from it. -/
theorem ancestors?_of_superChain? {name : String} {chain : List String}
    (hchain : u.superChain? name = some chain) :
    u.ancestors? name = (walk u.interfaces (name :: chain)
      ((name :: chain).flatMap u.interfaces)).map (name :: chain ++ ·) := by
  unfold ancestors?
  rw [hchain, Option.map_eq_bind]
  rfl

/-- They can be listed unless the line comes round. -/
theorem ancestors?_isSome_iff {name : String} :
    (u.ancestors? name).isSome = true ↔ ¬ComesRound u.Extends name := by
  rw [← superChain?_isSome_iff]
  cases hchain : u.superChain? name with
  | none =>
      unfold ancestors?
      rw [hchain]
      rfl
  | some chain =>
      rw [ancestors?_of_superChain? hchain, Option.isSome_map]
      refine iff_of_true (walk_isSome (fun _ _ => mem_named_of_interfaces) fun b hb => ?_) rfl
      rcases List.mem_flatMap.mp hb with ⟨a, -, hab⟩
      exact mem_named_of_interfaces hab

/-- Interfaces can be searched as far as the line ends. -/
theorem interfaceSearch_isSome {test : ClassFile → Bool} {name : String}
    (h : (u.superChain? name).isSome = true) : (u.interfaceSearch test name).isSome = true := by
  rw [superChain?_isSome_iff, ← ancestors?_isSome_iff] at h
  rcases Option.isSome_iff_exists.mp h with ⟨names, hnames⟩
  unfold interfaceSearch
  rw [hnames]
  rfl

-- So the search for a method ends unless the climb comes round.
theorem methodSearch_isSome_iff {m : Member} : (u.methodSearch m).isSome = true ↔
    ¬ComesRound (u.Climbs (declares m.signature)) m.owner := by
  rw [← climb_isSome_iff]
  unfold methodSearch
  cases hclimb : u.climb (declares m.signature) m.owner with
  | none => rfl
  | some stop =>
      cases stop with
      | found name => rfl
      | left => rfl
      | top => exact iff_of_true (interfaceSearch_isSome (superChain?_isSome_of_climb hclimb)) rfl

-- And so does the search for an implementation.
theorem virtualSearch_isSome_iff {m : Member} : (u.virtualSearch m).isSome = true ↔
    ¬ComesRound (u.Climbs (implements m.signature)) m.owner := by
  rw [← climb_isSome_iff]
  unfold virtualSearch
  cases hclimb : u.climb (implements m.signature) m.owner with
  | none => rfl
  | some stop => cases stop <;> rfl

end Universe

-- Which the machine makes in the same way.
theorem Env.virtualSearch_isSome_iff {e : Env} {name : String} {m : Member} :
    (e.virtualSearch name m).isSome = true ↔
      ¬ComesRound (e.program.classes.Passes (e.implementation? m)) name := by
  rw [← Universe.upwards_isSome_iff]
  unfold Env.virtualSearch
  dsimp only
  cases hupwards : e.program.classes.upwards (e.implementation? m) name with
  | none => rfl
  | some answer =>
      cases answer with
      | some t => rfl
      | none =>
          -- Where the line has ended the interfaces can be searched as well.
          have hdefault : (e.program.classes.defaultSearch (m.withOwner name)).isSome = true :=
            Universe.interfaceSearch_isSome (Universe.superChain?_isSome_of_upwards hupwards)
          rcases Option.isSome_iff_exists.mp hdefault with ⟨owner, howner⟩
          dsimp only [Option.bind_eq_bind, Option.bind_some]
          rw [howner]
          cases owner <;> rfl

namespace Universe

/-- When the searches in a hierarchy end. A search ends exactly if its steps, each of which is
    decided at one class, do not come round; the walk along interfaces that is part of some of them
    always ends. -/
theorem searches_end_iff (u : Universe) :
    (∀ name, (u.ancestors? name).isSome = true ↔ ¬ComesRound u.Extends name) ∧
    (∀ s name, (u.fieldSearch name s).isSome = true ↔ ¬ComesRound (u.Descends s) name) ∧
    (∀ m, (u.methodSearch m).isSome = true ↔
      ¬ComesRound (u.Climbs (declares m.signature)) m.owner) ∧
    (∀ m, (u.virtualSearch m).isSome = true ↔
      ¬ComesRound (u.Climbs (implements m.signature)) m.owner) ∧
    ∀ (e : Env) name m, (e.virtualSearch name m).isSome = true ↔
      ¬ComesRound (e.program.classes.Passes (e.implementation? m)) name :=
  ⟨fun _ => ancestors?_isSome_iff, fun _ _ => fieldSearch_isSome_iff,
    fun _ => methodSearch_isSome_iff, fun _ => virtualSearch_isSome_iff,
    fun _ _ _ => Env.virtualSearch_isSome_iff⟩

namespace Looped

open ClassFile

/-- The pool of a class that extends itself. -/
def pool : Pool :=
  .appendAll .empty [.utf8 "A" [65], .classRef 1]

/-- The class has no members and names itself as its superclass. -/
def classFile : ClassFile where
  pool := pool
  name := "A"
  superName := some "A"

/-- Its bytes. -/
def bytes : Bytes :=
  Bytes.ofU32 magic ++ (Bytes.ofU16 0 ++ (Bytes.ofU16 52 ++ (pool.bytes ++ (Bytes.ofU16 0x21 ++
    (Bytes.ofU16 2 ++ (Bytes.ofU16 2 ++ (Bytes.ofCount 0 ++ (Bytes.ofCount 0 ++
    (Bytes.ofCount 0 ++ Bytes.ofCount 0)))))))))

/-- As an input. -/
def input : ClassInput :=
  ⟨"A.class", bytes, none⟩

/-- The universe with the class alone. -/
def classes : Universe :=
  Universe.place {}
    { input, primary := true, outline := classFile,
      decoded := .mk fun _ => ClassFile.parse bytes .full }

/-- The class is read from it. -/
theorem parse_bytes (mode : ReadMode) : ClassFile.parse bytes mode = .ok classFile := by
  -- The pool has two entries, both of which can be read.
  have hlegible : pool.Legible := by
    refine ⟨_, ?_, rfl⟩
    simp only [List.forall_mem_cons]
    exact ⟨⟨by decide, rfl⟩, trivial, fun e he => absurd he List.not_mem_nil⟩
  have hpool : Read.Takes Pool.read pool.bytes pool := hlegible.takes_read (by decide)
  have hsuper : SuperAt pool 2 (some "A") := ⟨by decide, rfl⟩
  have hattributes : Read.Takes (readAttributes pool bootstrapsOf?) (Bytes.ofCount 0)
      { own := none, annotations := [].toArray } := (Read.takes_u16 0).bind (Read.takes_pure _)
  have hparse : ClassFile.parse bytes mode = (ClassFile.read mode).parse bytes :=
    if_neg (by exact Bool.false_ne_true)
  rw [hparse]
  exact (read_ends hpool (show pool.className 2 = .ok "A" from rfl) hsuper .nil (Nat.zero_le _) .nil
    (Nat.zero_le _) .nil (Nat.zero_le _) rfl hattributes).parse

-- And goes into the universe.
theorem insert_input : ({} : Universe).insert input true = .ok classes := by
  have hentry : ClassEntry.ofInput input true = .ok
      { input, primary := true, outline := classFile,
        decoded := .mk fun _ => ClassFile.parse bytes .full } :=
    congrArg (· >>= _) (parse_bytes .outline)
  unfold Universe.insert
  rw [hentry]
  rfl

theorem class?_looped : classes.class? "A" = some classFile :=
  rfl

end Looped

/-- A class that extends itself can be added to a universe, and then none of the searches that start
    at it ends. -/
theorem searches_looped :
    ∃ u, ({} : Universe).insert Looped.input true = .ok u ∧ u.ancestors? "A" = none ∧
      (∀ s, u.fieldSearch "A" s = none) ∧ (∀ s : Signature, u.methodSearch (s.on "A") = none) ∧
      (∀ s : Signature, u.virtualSearch (s.on "A") = none) ∧
      ∀ e : Env, e.program.classes = u → ∀ m, e.virtualSearch "A" m = none := by
  have hnone {α : Type} {answer : Option α} {step : String → String → Prop}
      (hends : answer.isSome = true ↔ ¬ComesRound step "A") (hstep : step "A" "A") :
      answer = none :=
    Option.not_isSome_iff_eq_none.mp fun h => hends.mp h (comesRound_of_step hstep)
  refine ⟨Looped.classes, Looped.insert_input, hnone ancestors?_isSome_iff rfl,
    fun s => hnone fieldSearch_isSome_iff ?_, fun s => hnone methodSearch_isSome_iff ?_,
    fun s => hnone virtualSearch_isSome_iff ?_,
    fun e he m => hnone Env.virtualSearch_isSome_iff ?_⟩
  · exact ⟨Looped.classFile, [], [], Looped.class?_looped, rfl, rfl, by simp⟩
  · exact ⟨Looped.classFile, Looped.class?_looped, rfl, rfl⟩
  · exact ⟨Looped.classFile, Looped.class?_looped, rfl, rfl⟩
  · -- The class has no methods, so nothing stops the search at it.
    have himplementation : e.implementation? m "A" = none := by
      unfold Env.implementation?
      rw [he, Looped.class?_looped]
      rfl
    rw [he]
    exact ⟨himplementation, rfl⟩

end Universe

end JvmFold
