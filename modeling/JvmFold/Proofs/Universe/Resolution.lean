import Mathlib
import JvmFold.Proofs.Universe.Ways

/-!
# The Resolution of Methods

A method that a call names is looked for on the way up first, through the classes
that the universe has. The nearest of them that declares it is the answer. If none
does, what matters is how the way up ends. If the last class has no superclass, the
interfaces of all ancestors are asked next, in the order of the ways to them. If
the last class names a superclass that the universe does not have, the search is
over at once, and no interface is asked.

The root of the hierarchy belongs to the platform, so nearly every way up ends in
the second manner. The method of an interface is then not found on a class that
implements the interface.

## Main definitions

* `Universe.Ascends`: The steps from class to class on a way up.
* `Universe.Nearest`: The first class on a way up that passes a test.
* `Universe.Exhausts`: A way up that ends inside the universe without such a class.
* `Universe.Declared`: A class above or an interface declares the method.

## Theorems

* `ascend_eq_some_iff`: What a way up comes to.
* `Universe.nearest_iff`: There is a nearest class if any class on the way passes the test.
* `Universe.methodSearch_covers_iff`: What a method resolves to, and when it resolves at all.
* `Universe.interface_not_asked`: A method that an interface declares and that does not resolve.
-/

namespace JvmFold

/-- A way up comes to what is found at the first name that has an answer. -/
theorem ascend_eq_some_iff {α : Type} {look : String → α ⊕ String} {name : String} {answer : α} :
    ascend name look = some answer ↔
      ∃ x, Relation.ReflTransGen (fun a b => look a = .inr b) name x ∧ look x = .inl answer := by
  constructor
  · intro h
    -- The search is a fixed point, so what it answers is shown for every stage of it.
    refine ascend.partial_correctness look (fun name answer => ∃ x,
      Relation.ReflTransGen (fun a b => look a = .inr b) name x ∧ look x = .inl answer)
      (fun search ih name answer h => ?_) name answer h
    cases hlook : look name with
    | inl found =>
        rw [hlook] at h
        cases h
        exact ⟨name, .refl, hlook⟩
    | inr parent =>
        rw [hlook] at h
        rcases ih parent answer h with ⟨x, hx, hfound⟩
        exact ⟨x, hx.head hlook, hfound⟩
  · rintro ⟨x, hx, hfound⟩
    induction hx using Relation.ReflTransGen.head_induction_on with
    | refl =>
        unfold ascend
        rw [hfound]
    | head hstep _ ih =>
        unfold ascend
        rw [hstep]
        exact ih

namespace Universe

variable {u : Universe} {test : ClassFile → Bool} {name x : String}

/-- A class of the universe names another class as its superclass. -/
def Ascends (u : Universe) (name parent : String) : Prop :=
  ∃ c, u.class? name = some c ∧ c.superName = some parent

/-- The name of a class of the universe that passes a test. -/
def Passing (u : Universe) (test : ClassFile → Bool) (x : String) : Prop :=
  ∃ c, u.class? x = some c ∧ test c = true

/-- The first class on the way up that passes a test. -/
def Nearest (u : Universe) (test : ClassFile → Bool) (name x : String) : Prop :=
  Relation.ReflTransGen (u.Climbs test) name x ∧ u.Passing test x

/-- The way up ends at a class of the universe without a superclass, and no class on it passes the
    test. -/
def Exhausts (u : Universe) (test : ClassFile → Bool) (name : String) : Prop :=
  ∃ x c, Relation.ReflTransGen (u.Climbs test) name x ∧ u.class? x = some c ∧ test c = false ∧
    c.superName = none

theorem Climbs.ascends {parent : String} (h : u.Climbs test name parent) :
    u.Ascends name parent := by
  rcases h with ⟨c, hc, -, hparent⟩
  exact ⟨c, hc, hparent⟩

/-- A climb is an ascent. -/
theorem ascends_of_climbs (h : Relation.ReflTransGen (u.Climbs test) name x) :
    Relation.ReflTransGen u.Ascends name x :=
  Relation.ReflTransGen.mono (fun _ _ => Climbs.ascends) name x h

/-- A climb ends where a class stops it. -/
theorem climb_eq_some_iff {stop : Climb} : u.climb test name = some stop ↔
    ∃ x, Relation.ReflTransGen (u.Climbs test) name x ∧ u.climbOn test x = .inl stop := by
  have hstep : (fun a b => u.climbOn test a = .inr b) = u.Climbs test := by
    funext a b
    exact propext climbOn_eq_inr
  rw [climb, ascend_eq_some_iff, hstep]

/-- It stops at a class that passes the test. -/
theorem climbOn_eq_found_iff {stop : String} :
    u.climbOn test name = .inl (.found stop) ↔ name = stop ∧ u.Passing test name := by
  unfold climbOn Passing
  cases u.class? name with
  | none => simp
  | some c =>
      cases htest : test c with
      | true => simp [htest]
      | false => cases hsuper : c.superName <;> simp [htest, hsuper]

-- Or at a class without a superclass.
theorem climbOn_eq_top_iff : u.climbOn test name = .inl .top ↔
    ∃ c, u.class? name = some c ∧ test c = false ∧ c.superName = none := by
  unfold climbOn
  cases u.class? name with
  | none => simp
  | some c =>
      cases htest : test c with
      | true => simp [htest]
      | false => cases hsuper : c.superName <;> simp [htest, hsuper]

-- So what it finds is the nearest class that passes.
theorem climb_eq_found_iff : u.climb test name = some (.found x) ↔ u.Nearest test name x := by
  rw [climb_eq_some_iff, Nearest]
  constructor
  · rintro ⟨y, hy, hfound⟩
    rcases climbOn_eq_found_iff.mp hfound with ⟨rfl, hpassing⟩
    exact ⟨hy, hpassing⟩
  · rintro ⟨hx, hpassing⟩
    exact ⟨x, hx, climbOn_eq_found_iff.mpr ⟨rfl, hpassing⟩⟩

-- And it comes to the top if none does.
theorem climb_eq_top_iff : u.climb test name = some .top ↔ u.Exhausts test name := by
  simp only [climb_eq_some_iff, climbOn_eq_top_iff, Exhausts, exists_and_left]

/-- There is a nearest class if any class on the way up passes the test. -/
theorem nearest_iff : (∃ x, u.Nearest test name x) ↔
    ∃ x, Relation.ReflTransGen u.Ascends name x ∧ u.Passing test x := by
  constructor
  · rintro ⟨x, hx, hpassing⟩
    exact ⟨x, ascends_of_climbs hx, hpassing⟩
  · rintro ⟨x, hx, hpassing⟩
    induction hx using Relation.ReflTransGen.head_induction_on with
    | refl => exact ⟨x, .refl, hpassing⟩
    | @head a b hab _ ih =>
        rcases ih with ⟨y, hy, hnearest⟩
        rcases hab with ⟨c, hc, hparent⟩
        -- Where the class itself passes the test, what lies above it does not matter.
        cases htest : test c with
        | true => exact ⟨a, .refl, c, hc, htest⟩
        | false => exact ⟨y, hy.head ⟨c, hc, htest, hparent⟩, hnearest⟩

/-- The way up ends inside the universe, at a class that has no superclass. -/
def EndsInside (u : Universe) (name : String) : Prop :=
  ∃ x c, Relation.ReflTransGen u.Ascends name x ∧ u.class? x = some c ∧ c.superName = none

/-- A way up goes through all its classes exactly if it ends inside the universe and none of them
    passes the test. -/
theorem exhausts_iff :
    u.Exhausts test name ↔ u.EndsInside name ∧ ∀ x, ¬u.Nearest test name x := by
  constructor
  · intro h
    have htop := climb_eq_top_iff.mpr h
    rcases h with ⟨x, c, hx, hc, -, hsuper⟩
    refine ⟨⟨x, c, ascends_of_climbs hx, hc, hsuper⟩, fun y hy => ?_⟩
    rw [climb_eq_found_iff.mpr hy] at htop
    cases htop
  · rintro ⟨⟨x, c, hx, hc, hsuper⟩, hnone⟩
    -- From the end of the way back down: no class on it passes the test.
    induction hx using Relation.ReflTransGen.head_induction_on with
    | refl =>
        cases htest : test c with
        | true => exact absurd ⟨.refl, c, hc, htest⟩ (hnone x)
        | false => exact ⟨x, c, .refl, hc, htest, hsuper⟩
    | @head a b hab _ ih =>
        rcases hab with ⟨d, hd, hparent⟩
        cases htest : test d with
        | true => exact absurd ⟨.refl, d, hd, htest⟩ (hnone a)
        | false =>
            have hstep : u.Climbs test a b := ⟨d, hd, htest, hparent⟩
            rcases ih fun y hy => hnone y ⟨hy.1.head hstep, hy.2⟩ with ⟨y, e, hy, hend⟩
            exact ⟨y, e, hy.head hstep, hend⟩

/-- The steps of a search come round only if the way up does. -/
theorem not_comesRound_climbs (h : ¬ComesRound u.Ascends name) :
    ¬ComesRound (u.Climbs test) name := by
  rintro ⟨x, hx, hcircle⟩
  exact h ⟨x, ascends_of_climbs hx, Relation.TransGen.mono (fun _ _ => Climbs.ascends) x x hcircle⟩

section Methods

variable {m : Member}

/-- A class on the way up declares the method, or an interface among the ancestors does. -/
def Declared (u : Universe) (m : Member) : Prop :=
  (∃ x, Relation.ReflTransGen u.Ascends m.owner x ∧ u.Passing (declares m.signature) x) ∨
    ∃ i, u.HasInterface (declares m.signature) m.owner i

/-- The first interface among the ancestors that passes a test. -/
def FirstInterface (u : Universe) (test : ClassFile → Bool) (name i : String) : Prop :=
  u.HasInterface test name i ∧
    ∀ j, u.HasInterface test name j → j ≠ i → Nearer u.interfaces (u.line name) i j

/-- A search among the interfaces ends with the first that passes the test, if any does. -/
theorem interfaceSearch_cases (h : (u.superChain? name).isSome = true) :
    ∃ answer, u.interfaceSearch test name = some answer ∧
      (∀ i, answer = some i ↔ u.FirstInterface test name i) ∧
      (answer = none ↔ ∀ i, ¬u.HasInterface test name i) := by
  rcases Option.isSome_iff_exists.mp (ancestors?_isSome_iff.mpr (superChain?_isSome_iff.mp h)) with
    ⟨names, hnames⟩
  exact ⟨_, interfaceSearch_of_ancestors? hnames, fun i => find?_interface_eq_some_iff hnames,
    find?_interface_eq_none_iff hnames⟩

/-- A method is searched for among the superclasses first. -/
theorem methodSearch_of_nearest (h : u.Nearest (declares m.signature) m.owner x) :
    u.methodSearch m = some (some x) := by
  unfold methodSearch
  rw [climb_eq_found_iff.mpr h]
  rfl

-- And among the interfaces if none of them declares it.
theorem methodSearch_of_exhausts (h : u.Exhausts (declares m.signature) m.owner) :
    u.methodSearch m = u.interfaceSearch (declares m.signature) m.owner := by
  unfold methodSearch
  rw [climb_eq_top_iff.mpr h]
  rfl

/-- Where the way up leaves the universe, nothing is found that was not found on it. -/
theorem methodSearch_of_leaves (hends : ¬ComesRound u.Ascends m.owner)
    (hinside : ¬u.EndsInside m.owner)
    (hnone : ∀ x, ¬u.Nearest (declares m.signature) m.owner x) :
    u.methodSearch m = some none := by
  have hclimbs : ¬ComesRound (u.Climbs (declares m.signature)) m.owner :=
    not_comesRound_climbs hends
  rcases Option.isSome_iff_exists.mp (climb_isSome_iff.mpr hclimbs) with ⟨stop, hstop⟩
  unfold methodSearch
  rw [hstop]
  cases stop with
  | found x => exact absurd (climb_eq_found_iff.mp hstop) (hnone x)
  | left => rfl
  | top => exact absurd (exhausts_iff.mp (climb_eq_top_iff.mp hstop)).1 hinside

/-- What a method resolves to if the classes above its owner do not come round. The nearest class
    on the way up that declares it goes before every interface. If there is none, it is the first
    interface that declares it, provided that the way up ends inside the universe, and nothing if
    it leaves the universe. So every method that a class or an interface above the owner declares
    resolves exactly if a class declares it, the way up ends inside the universe, or no interface
    declares it. -/
theorem methodSearch_covers_iff (hends : ¬ComesRound u.Ascends m.owner) :
    ∃ answer, u.methodSearch m = some answer ∧
      (∀ x, u.Nearest (declares m.signature) m.owner x → answer = some x) ∧
      ((∀ x, ¬u.Nearest (declares m.signature) m.owner x) →
        (u.EndsInside m.owner →
          (∀ i, answer = some i ↔ u.FirstInterface (declares m.signature) m.owner i) ∧
          (answer = none ↔ ∀ i, ¬u.HasInterface (declares m.signature) m.owner i)) ∧
        (¬u.EndsInside m.owner → answer = none)) ∧
      ((u.Declared m → answer ≠ none) ↔
        (∃ x, u.Nearest (declares m.signature) m.owner x) ∨ u.EndsInside m.owner ∨
          ∀ i, ¬u.HasInterface (declares m.signature) m.owner i) := by
  by_cases hnearest : ∃ x, u.Nearest (declares m.signature) m.owner x
  · rcases hnearest with ⟨x, hx⟩
    have hfound := methodSearch_of_nearest hx
    refine ⟨some x, hfound, fun y hy => ?_, fun hnone => absurd hx (hnone x), ?_⟩
    · exact Option.some.inj (hfound.symm.trans (methodSearch_of_nearest hy))
    · exact iff_of_true (fun _ => Option.some_ne_none x) (.inl ⟨x, hx⟩)
  have hnone : ∀ x, ¬u.Nearest (declares m.signature) m.owner x := not_exists.mp hnearest
  -- As no class declares the method, only an interface can.
  have hdeclared : u.Declared m ↔ ∃ i, u.HasInterface (declares m.signature) m.owner i :=
    or_iff_right (mt nearest_iff.mpr hnearest)
  by_cases hinside : u.EndsInside m.owner
  · have hexhausts := exhausts_iff.mpr ⟨hinside, hnone⟩
    have hchain := superChain?_isSome_of_climb (climb_eq_top_iff.mpr hexhausts)
    rcases @interfaceSearch_cases u (declares m.signature) m.owner hchain with
      ⟨answer, hanswer, hfirst, hempty⟩
    refine ⟨answer, (methodSearch_of_exhausts hexhausts).trans hanswer,
      fun x hx => absurd hx (hnone x),
      fun _ => ⟨fun _ => ⟨hfirst, hempty⟩, fun hout => absurd hinside hout⟩,
      iff_of_true (fun h => ?_) (.inr (.inl hinside))⟩
    rw [Ne, hempty, not_forall_not]
    exact hdeclared.mp h
  · refine ⟨none, methodSearch_of_leaves hends hinside hnone, fun x hx => absurd hx (hnone x),
      fun _ => ⟨fun h => absurd h hinside, fun _ => rfl⟩, ?_⟩
    rw [or_iff_right hnearest, or_iff_right hinside, hdeclared]
    simp

end Methods

namespace Diamond

/-- The class itself is the only one of its way up that the universe has. -/
theorem ascends_eq {x : String} (h : Relation.ReflTransGen classes.Ascends "demo/C" x) :
    x = "demo/C" ∨ x = objectClass := by
  induction h with
  | refl => exact .inl rfl
  | tail _ hstep ih =>
      rcases hstep with ⟨c, hc, hparent⟩
      rcases ih with rfl | rfl
      · cases hc
        cases hparent
        exact .inr rfl
      · cases hc

/-- The ascent of the example comes to an end. -/
theorem not_comesRound_ascends : ¬ComesRound classes.Ascends "demo/C" := by
  rintro ⟨x, hx, hcircle⟩
  rcases Relation.TransGen.head'_iff.mp hcircle with ⟨y, ⟨c, hc, hparent⟩, hyx⟩
  rcases ascends_eq hx with rfl | rfl
  · cases hc
    cases hparent
    rcases Relation.ReflTransGen.cases_head hyx with hroot | ⟨z, ⟨d, hd, -⟩, -⟩
    · exact absurd hroot (by decide)
    · cases hd
  · cases hc

/-- At a class that is not in the universe. -/
theorem not_nearest (x : String) : ¬classes.Nearest (declares member.signature) "demo/C" x := by
  rintro ⟨hx, c, hc, hdeclares⟩
  rcases ascends_eq (ascends_of_climbs hx) with rfl | rfl
  · cases hc
    cases hdeclares
  · cases hc

-- So the line leaves the universe.
theorem not_endsInside : ¬classes.EndsInside "demo/C" := by
  rintro ⟨x, c, hx, hc, hsuper⟩
  rcases ascends_eq hx with rfl | rfl
  · cases hc
    cases hsuper
  · cases hc

-- While an interface declares the method.
theorem declares_first : classes.HasInterface (declares member.signature) "demo/C" "demo/I" :=
  ⟨(offers_of_names (k := 0) rfl ⟨_, rfl, rfl, rfl⟩ : classes.Offers member "demo/I").1,
    _, rfl, rfl, rfl⟩

end Diamond

/-- The class declares nothing and the universe does not have its superclass. -/
theorem covers_of_diamond :
    ¬ComesRound Diamond.classes.Ascends Diamond.member.owner ∧
      ∃ answer, Diamond.classes.methodSearch Diamond.member = some answer ∧
        (∀ x, Diamond.classes.Nearest (declares Diamond.member.signature) Diamond.member.owner x →
          answer = some x) ∧
        ((∀ x, ¬Diamond.classes.Nearest (declares Diamond.member.signature)
            Diamond.member.owner x) →
          (Diamond.classes.EndsInside Diamond.member.owner →
            (∀ i, answer = some i ↔ Diamond.classes.FirstInterface
              (declares Diamond.member.signature) Diamond.member.owner i) ∧
            (answer = none ↔ ∀ i, ¬Diamond.classes.HasInterface
              (declares Diamond.member.signature) Diamond.member.owner i)) ∧
          (¬Diamond.classes.EndsInside Diamond.member.owner → answer = none)) ∧
        ((Diamond.classes.Declared Diamond.member → answer ≠ none) ↔
          (∃ x, Diamond.classes.Nearest (declares Diamond.member.signature)
              Diamond.member.owner x) ∨
            Diamond.classes.EndsInside Diamond.member.owner ∨
              ∀ i, ¬Diamond.classes.HasInterface (declares Diamond.member.signature)
                Diamond.member.owner i) :=
  ⟨Diamond.not_comesRound_ascends, methodSearch_covers_iff Diamond.not_comesRound_ascends⟩

/-- A method that both interfaces of a class declare does not resolve on the class, because the
    superclass of the class is not in the universe. -/
theorem interface_not_asked :
    ¬ComesRound (fun name link => link ∈ Diamond.classes.supertypes name) "demo/C" ∧
      (Diamond.classes.class? Diamond.member.owner).isSome = true ∧
      Diamond.classes.HasInterface (declares Diamond.member.signature) "demo/C" "demo/I" ∧
      Diamond.classes.methodSearch Diamond.member = some none :=
  ⟨Diamond.not_comesRound_supertypes, rfl, Diamond.declares_first,
    methodSearch_of_leaves Diamond.not_comesRound_ascends Diamond.not_endsInside
      Diamond.not_nearest⟩

end Universe

end JvmFold
