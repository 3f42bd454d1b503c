import Mathlib
import JvmFold.Config.Basic
import JvmFold.Proofs.Config.Accessors
import JvmFold.Proofs.Universe.Outline

/-!
# What a Scan Finds

The recipes of a scan come from two places. A marked constructor or static
method is a recipe for the objects that it makes, and an enumeration that can
find its enumerators by their names has a recipe without a marker. The two are
not treated alike. A second marked method for the same objects is an error,
while the recipe of an enumeration waits for the end of the scan and is dropped
if the enumeration has a marked one.

So at the end no class has more than one executable recipe. All classes of a
universe add to the same recipes, since a static method can make objects of any
class, so this is a property of the whole scan. What one part of a scan adds is
said once, for every part, and the parts are put together one after the other.

## Main definitions

* `Scan.recipes`: The executable recipes for a class.
* `Scan.Makes`: The recipe that a marker on a method stands for.
* `Scan.enumFactory?`, `Scan.factoriesOf`: The recipes of enumerations.
* `Scan.Tidy`: The recipes that have been found so far are those of marked methods.
* `Scan.Adds`, `Scan.Finds`: What a part of a scan adds.

## Theorems

* `Scan.finds_scanMethod`, `Scan.finds_scanClass`: What a method and a class add.
* `Setup.named_of_readClasses`: Where a configuration is read, classes stand under their own names.
* `Scan.ofUniverse_eq_ok`: What a whole scan adds, with the enumerations at its end.
* `Scan.recipes_ofUniverse`: Each class has at most one recipe, and marked methods have theirs.
-/

namespace JvmFold

namespace Scan

variable {u : Universe} {c : ClassFile} {m : Method} {name : String} {recipe : Recipe}
  {r r' s : Scan}

/-- The executable recipes for a class in the order of discovery. -/
def recipes (r : Scan) (name : String) : List Recipe :=
  ((r.alternatives.get? name).getD []).filterMap Alternative.executable?

/-- The recipe calls a marked constructor or static method. It stands for the objects of the class
    that the constructor is declared in, or that the static method answers, and it reads back all
    arguments. -/
structure Makes (u : Universe) (c : ClassFile) (m : Method) (name : String) (recipe : Recipe) :
    Prop where
  member : recipe.member = c.methodMember m
  way : (recipe.kind = .constructor ∧ m.name = "<init>" ∧ name = c.name) ∨
    (recipe.kind = .factory ∧ m.isStatic ∧ ∃ type,
      MethodType.parse m.descriptor = .ok type ∧ type.result = some (.object name))
  readBack : Accessor.ReadBack u c m name recipe.accessors

/-- A recipe that a method makes can be executed. -/
theorem Makes.isExecutable (h : Makes u c m name recipe) : recipe.isExecutable := by
  unfold Recipe.isExecutable
  rcases h.way with ⟨hkind, -⟩ | ⟨hkind, -⟩
  · rw [hkind]; rfl
  · rw [hkind]; rfl

/-- The marked methods of a class. -/
def markedMethods (c : ClassFile) : List (ClassFile × Method) :=
  c.methods.flatMap fun m =>
    if m.isMarked Marker.reconstructor.descriptor then [(c, m)] else []

/-- The marked methods are found with their class. -/
theorem mem_markedMethods {p : ClassFile × Method} : p ∈ markedMethods c ↔
    ∃ m ∈ c.methods, m.isMarked Marker.reconstructor.descriptor ∧ p = (c, m) := by
  unfold markedMethods
  simp only [List.mem_flatMap, List.mem_ite_nil_right, List.mem_singleton]

/-- The recipe of an enumeration that can find its enumerators by their names. -/
def enumFactory? (c : ClassFile) : Option (String × Recipe) :=
  if c.isEnum && (c.method? (valueOf c)).any (·.isStatic) then
    some (c.name, .ofFactory ((valueOf c).on c.name) [enumName])
  else none

/-- Each class has the recipe that it was registered with and no other, and that is the recipe of a
    marked method of the universe. -/
structure Tidy (u : Universe) (r : Scan) : Prop where
  recipes : ∀ name, r.recipes name = (r.executables.get? name).toList
  marked : ∀ name recipe, r.executables.get? name = some recipe →
    ∃ e ∈ u.entries, ∃ p ∈ markedMethods e.outline, Makes u p.1 p.2 name recipe

/-- A part of a scan adds the recipes of some marked methods and sets those of some enumerations
    aside. -/
structure Adds (u : Universe) (factories : List (String × Recipe))
    (marked : List (ClassFile × Method)) (r r' : Scan) : Prop where
  enumFactories : r'.enumFactories = r.enumFactories ++ factories
  keeps : ∀ name recipe, r.executables.get? name = some recipe →
    r'.executables.get? name = some recipe
  made : ∀ p ∈ marked, ∃ name recipe, Makes u p.1 p.2 name recipe ∧
    r'.executables.get? name = some recipe
  tidy : r.Tidy u → r'.Tidy u

/-- A step that leaves all recipes alone adds nothing. -/
theorem adds_of_eq (hrecipes : ∀ name, r'.recipes name = r.recipes name)
    (hexecutables : r'.executables = r.executables)
    (hfactories : r'.enumFactories = r.enumFactories) : Adds u [] [] r r' where
  enumFactories := by rw [hfactories, List.append_nil]
  keeps name recipe h := by rwa [hexecutables]
  made p hp := (List.not_mem_nil hp).elim
  tidy h := ⟨fun name => by rw [hrecipes, hexecutables]; exact h.recipes name,
    by rw [hexecutables]; exact h.marked⟩

section Adds

variable {factories factories' : List (String × Recipe)}
variable {marked marked' : List (ClassFile × Method)}

/-- Two parts of a scan add what both of them do. -/
theorem Adds.trans (h : Adds u factories marked r s) (h' : Adds u factories' marked' s r') :
    Adds u (factories ++ factories') (marked ++ marked') r r' where
  enumFactories := by rw [h'.enumFactories, h.enumFactories, List.append_assoc]
  keeps name recipe hget := h'.keeps name recipe (h.keeps name recipe hget)
  made p hp := by
    rcases List.mem_append.1 hp with hp | hp
    · rcases h.made p hp with ⟨name, recipe, hmakes, hget⟩
      exact ⟨name, recipe, hmakes, h'.keeps name recipe hget⟩
    · exact h'.made p hp
  tidy ht := h'.tidy (h.tidy ht)

/-- The state behind the addition of an alternative. -/
def withAlternative (r : Scan) (name : String) (a : Alternative) : Scan :=
  { r with alternatives := r.alternatives.alter name fun l => some (l.getD [] ++ [a]) }

/-- An alternative adds a recipe to its own type only. -/
theorem recipes_withAlternative (a : Alternative) (name' : String) :
    (r.withAlternative name a).recipes name' =
      r.recipes name' ++ if name = name' then a.executable?.toList else [] := by
  change (((r.alternatives.alter name _)[name']?).getD []).filterMap _ = _
  rw [Std.TreeMap.getElem?_alter]
  simp only [Std.compare_eq_iff_eq]
  by_cases hname : name = name'
  · subst hname
    rw [if_pos rfl, if_pos rfl, Option.getD_some, List.filterMap_append]
    change _ = ((r.alternatives[name]?).getD []).filterMap _ ++ _
    cases ha : a.executable? <;> simp [ha]
  · rw [if_neg hname, if_neg hname, List.append_nil]
    rfl

/-- The state behind the addition of a recipe. -/
def withRecipe (r : Scan) (name : String) (recipe : Recipe) : Scan :=
  { r with executables := r.executables.insert name recipe }.withAlternative name (.recipe recipe)

/-- A recipe is the one of its type. -/
theorem executables_withRecipe (name' : String) :
    (r.withRecipe name recipe).executables.get? name' =
      if name = name' then some recipe else r.executables.get? name' := by
  change (r.executables.insert name recipe)[name']? = _
  rw [Std.TreeMap.getElem?_insert]
  simp only [Std.compare_eq_iff_eq]
  rfl

-- And is added behind the others.
theorem recipes_withRecipe (h : recipe.isExecutable) (name' : String) :
    (r.withRecipe name recipe).recipes name' =
      r.recipes name' ++ if name = name' then [recipe] else [] := by
  have hexecutable : Alternative.executable? (.recipe recipe) = some recipe := if_pos h
  rw [withRecipe, recipes_withAlternative, hexecutable]
  rfl

/-- A recipe that is added where there is none is the only one for its class, and no other class
    gets one. -/
theorem Tidy.withRecipe (ht : r.Tidy u) (hnone : r.executables.get? name = none) {e : ClassEntry}
    (he : e ∈ u.entries) {p : ClassFile × Method} (hp : p ∈ markedMethods e.outline)
    (hmakes : Makes u p.1 p.2 name recipe) : (r.withRecipe name recipe).Tidy u := by
  refine ⟨fun name' => ?_, fun name' recipe' h => ?_⟩
  · rw [executables_withRecipe, recipes_withRecipe hmakes.isExecutable, ht.recipes]
    -- The recipe is one of its own type only.
    by_cases hname : name = name'
    · subst hname
      rw [if_pos rfl, if_pos rfl, hnone]
      rfl
    · rw [if_neg hname, if_neg hname, List.append_nil]
  · rw [executables_withRecipe] at h
    split at h
    · next heq =>
        cases h
        exact ⟨e, he, p, hp, heq ▸ hmakes⟩
    · exact ht.marked name' recipe' h

/-- A scan that succeeds has succeeded in both of its parts. -/
theorem bind_ok {α β : Type} {x : Scanning α} {k : α → Scanning β} {b : β}
    (h : (x >>= k) r = .ok (b, r')) : ∃ a t, x r = .ok (a, t) ∧ k a t = .ok (b, r') := by
  rcases except_bind_ok (f := fun p : α × Scan => k p.1 p.2) h with ⟨p, hp, h⟩
  exact ⟨p.1, p.2, hp, h⟩

theorem lift_bind_ok {α β : Type} {x : Except Error α} {k : α → Scanning β} {b : β × Scan}
    (h : ((liftM x : Scanning α) >>= k) r = .ok b) : ∃ a, x = .ok a ∧ k a r = .ok b := by
  cases x with
  | error e => cases h
  | ok a => exact ⟨a, rfl, h⟩

/-- The recipe of a marked method reads back the arguments of the method that it calls. -/
theorem recipeOf_eq_ok (hu : u.Named) {p : String × Recipe}
    (h : recipeOf u c m r = .ok (p, r')) : r' = r ∧ Makes u c m p.1 p.2 := by
  unfold recipeOf at h
  by_cases hinit : (c.methodMember m).isConstructor = true
  · rw [if_pos hinit] at h
    rcases lift_bind_ok h with ⟨accessors, haccessors, h⟩
    cases h
    have hname : m.name = "<init>" := beq_iff_eq.1 hinit
    have hmember : (Recipe.ofConstructor c.name m.descriptor accessors).member =
        c.methodMember m := congrArg (Member.mk c.name · m.descriptor) hname.symm
    exact ⟨rfl, hmember, .inl ⟨rfl, hname, rfl⟩, Accessor.readBack_of_resolve hu haccessors⟩
  · rw [if_neg hinit] at h
    by_cases hstatic : m.isStatic = true
    · rw [if_pos hstatic] at h
      rcases lift_bind_ok h with ⟨type, htype, h⟩
      -- Only a method that returns an object makes one.
      rcases hresult : type.result with _ | (_ | name | _)
      all_goals rw [hresult] at h
      case object =>
        rcases lift_bind_ok h with ⟨accessors, haccessors, h⟩
        cases h
        exact ⟨rfl, rfl, .inr ⟨rfl, hstatic, type, htype, hresult⟩,
          Accessor.readBack_of_resolve hu haccessors⟩
      all_goals cases h
    · rw [if_neg hstatic] at h
      cases h

/-- A recipe is only added for a class that has none. -/
theorem addRecipe_eq_ok (h : addRecipe name recipe r = .ok ((), r')) :
    r.executables.get? name = none ∧
      r' = r.withRecipe name recipe := by
  rcases bind_ok h with ⟨t, t', ht, h⟩
  cases ht
  cases hget : r.executables.get? name with
  | some existing =>
      rw [hget] at h
      cases h
  | none =>
      rw [hget] at h
      cases h
      exact ⟨rfl, rfl⟩

/-- A recipe that is added is that of the marked method. -/
theorem adds_of_addRecipe {e : ClassEntry} (he : e ∈ u.entries) {p : ClassFile × Method}
    (hp : p ∈ markedMethods e.outline) (hmakes : Makes u p.1 p.2 name recipe)
    (h : addRecipe name recipe r = .ok ((), r')) : Adds u [] [p] r r' := by
  rcases addRecipe_eq_ok h with ⟨hnone, rfl⟩
  refine ⟨(List.append_nil _).symm, fun name' recipe' h' => ?_, fun q hq => ?_,
    fun ht => ht.withRecipe hnone he hp hmakes⟩
  · rw [executables_withRecipe, if_neg fun heq => ?_]
    · exact h'
    · rw [← heq, hnone] at h'
      cases h'
  · rw [List.mem_singleton.1 hq]
    exact ⟨name, recipe, hmakes, by rw [executables_withRecipe, if_pos rfl]⟩

/-- What a part of a scan adds if it succeeds. -/
def Finds {α : Type} (u : Universe) (factories : List (String × Recipe))
    (marked : List (ClassFile × Method)) (x : Scanning α) : Prop :=
  ∀ r r' a, x r = .ok (a, r') → Adds u factories marked r r'

variable {α β : Type}

theorem finds_pure (a : α) : Finds u [] [] (pure a : Scanning α) := by
  intro r r' b h
  cases h
  exact adds_of_eq (fun _ => rfl) rfl rfl

/-- A scan that fails finds anything. -/
theorem finds_invalid (member : Member) (reason : String) :
    Finds u factories marked (invalid member reason : Scanning α) := by
  intro r r' b h
  cases h

/-- What is computed on the side finds nothing itself. -/
theorem finds_lift_bind {x : Except Error α} {k : α → Scanning β}
    (hk : ∀ a, x = .ok a → Finds u factories marked (k a)) :
    Finds u factories marked ((liftM x : Scanning α) >>= k) := by
  intro r r' b h
  rcases lift_bind_ok h with ⟨a, ha, h⟩
  exact hk a ha r r' b h

/-- A change of what is no recipe. -/
theorem finds_modify {f : Scan → Scan} (halternatives : ∀ r, (f r).alternatives = r.alternatives)
    (hexecutables : ∀ r, (f r).executables = r.executables)
    (hfactories : ∀ r, (f r).enumFactories = r.enumFactories) :
    Finds u [] [] (modify f : Scanning PUnit) := by
  intro r r' b h
  cases h
  refine adds_of_eq (fun name => ?_) (hexecutables r) (hfactories r)
  exact congrArg (fun l : Std.TreeMap String (List Alternative) =>
    ((l.get? name).getD []).filterMap Alternative.executable?) (halternatives r)

/-- Static fields to be used again are no executable recipes. -/
theorem finds_reuse (fields : List Member) :
    Finds u [] [] (addAlternative name (.reuse fields)) := by
  intro r r' b h
  cases h
  refine adds_of_eq (fun name' => ?_) rfl rfl
  change (r.withAlternative name _).recipes name' = _
  have hnone : (Alternative.reuse fields).executable?.toList = [] := rfl
  rw [recipes_withAlternative, hnone, ite_self, List.append_nil]

/-- Two parts find what both of them do. -/
theorem Finds.bind {x : Scanning α} {k : α → Scanning β} (hx : Finds u factories marked x)
    (hk : ∀ a, Finds u factories' marked' (k a)) :
    Finds u (factories ++ factories') (marked ++ marked') (x >>= k) := by
  intro r r' b h
  rcases bind_ok h with ⟨a, t, ha, hb⟩
  exact (hx _ _ _ ha).trans (hk a _ _ _ hb)

/-- A step that adds nothing, and the rest behind it. -/
theorem Finds.after {x : Scanning α} {k : α → Scanning β} (hx : Finds u [] [] x)
    (hk : ∀ a, Finds u factories marked (k a)) : Finds u factories marked (x >>= k) :=
  hx.bind hk

theorem finds_ite {b : Prop} [Decidable b] {x y : Scanning α} (hx : b → Finds u factories marked x)
    (hy : ¬b → Finds u factories marked y) : Finds u factories marked (if b then x else y) := by
  split
  · exact hx ‹_›
  · exact hy ‹_›

/-- A step that adds nothing and that is only taken sometimes, and the rest behind it. -/
theorem finds_when {b : Prop} [Decidable b] {x : Scanning α} {k : Scanning β}
    (hx : Finds u [] [] x) (hk : Finds u factories marked k) :
    Finds u factories marked (if b then x >>= fun _ => k else k) :=
  finds_ite (fun _ => hx.after fun _ => hk) fun _ => hk

/-- What the elements of a list add is added in order. -/
theorem finds_forM {f : α → Scanning PUnit} {l : List α} {g : α → List (String × Recipe)}
    {n : α → List (ClassFile × Method)} (h : ∀ a ∈ l, Finds u (g a) (n a) (f a)) :
    Finds u (l.flatMap g) (l.flatMap n) (l.forM f) := by
  induction l with
  | nil => exact finds_pure PUnit.unit
  | cons a rest ih =>
      rcases List.forall_mem_cons.1 h with ⟨ha, hrest⟩
      exact ha.bind fun _ => ih hrest

/-- A reusable field adds no recipe. -/
theorem finds_scanReusable (c : ClassFile) (f : Field) : Finds u [] [] (scanReusable c f) := by
  unfold scanReusable
  refine finds_when (finds_invalid _ _) (finds_lift_bind fun type _ => ?_)
  cases type with
  | object name =>
      refine finds_ite (fun _ => ?_) fun _ => finds_reuse _
      exact finds_modify (fun _ => rfl) (fun _ => rfl) fun _ => rfl
  | _ => exact finds_invalid _ _

-- Neither does any field.
theorem finds_scanField (c : ClassFile) (f : Field) : Finds u [] [] (scanField c f) := by
  unfold scanField
  refine finds_when (finds_modify (fun _ => rfl) (fun _ => rfl) fun _ => rfl) ?_
  exact finds_ite (fun _ => finds_scanReusable c f) fun _ => finds_pure ()

/-- A marked method adds its recipe, and another one adds none. -/
theorem finds_scanMethod (hu : u.Named) {e : ClassEntry} (he : e ∈ u.entries)
    (hm : m ∈ e.outline.methods) :
    Finds u [] (if m.isMarked Marker.reconstructor.descriptor then [(e.outline, m)] else [])
      (scanMethod u e.outline m) := by
  unfold scanMethod
  dsimp only
  refine finds_when (finds_invalid _ _) ?_
  refine finds_when (finds_modify (fun _ => rfl) (fun _ => rfl) fun _ => rfl) ?_
  -- The constant marker changes no recipe, so only the other marker counts.
  by_cases hmarked : m.isMarked Marker.reconstructor.descriptor = true
  · rw [if_pos hmarked, if_pos hmarked]
    intro r r' b h
    rcases bind_ok h with ⟨p, t, hp, hadd⟩
    rcases recipeOf_eq_ok hu hp with ⟨rfl, hmakes⟩
    have hmem : (e.outline, m) ∈ markedMethods e.outline :=
      mem_markedMethods.2 ⟨m, hm, hmarked, rfl⟩
    exact adds_of_addRecipe he hmem hmakes hadd
  · rw [if_neg hmarked, if_neg hmarked]
    exact finds_pure ()

/-- An enumeration sets its recipe aside. -/
theorem finds_scanEnum (henum : c.isEnum) : Finds u (enumFactory? c).toList [] (scanEnum c) := by
  unfold scanEnum
  refine Finds.after (finds_modify (fun _ => rfl) (fun _ => rfl) fun _ => rfl) fun _ => ?_
  refine finds_when (finds_reuse _) ?_
  unfold enumFactory?
  rw [henum, Bool.true_and]
  cases (c.method? (valueOf c)).any (·.isStatic) with
  | false => exact finds_modify (fun _ => rfl) (fun _ => rfl) fun _ => rfl
  | true =>
      intro r r' a h
      cases h
      exact ⟨rfl, fun _ _ h => h, fun p hp => (List.not_mem_nil hp).elim,
        fun ht => ⟨ht.recipes, ht.marked⟩⟩

/-- A class is found with its marked methods, and as a factory if it is an enum. -/
theorem finds_scanClass (hu : u.Named) {e : ClassEntry} (he : e ∈ u.entries) :
    Finds u (enumFactory? e.outline).toList (markedMethods e.outline)
      (scanClass u e.outline) := by
  have hmembers : Finds u [] (markedMethods e.outline) (do
      e.outline.fields.forM (scanField e.outline)
      e.outline.methods.forM (scanMethod u e.outline)) := by
    have hnone {α β : Type} (l : List α) : (l.flatMap fun _ => ([] : List β)) = [] :=
      List.flatMap_eq_nil_iff.2 fun _ _ => rfl
    -- Fields add no recipes, so what a class adds is what its methods do.
    have hfields := finds_forM (u := u) (l := e.outline.fields) fun f _ =>
      finds_scanField e.outline f
    have hmethods := finds_forM (l := e.outline.methods) fun m hm => finds_scanMethod hu he hm
    rw [hnone, hnone] at hfields
    rw [hnone] at hmethods
    exact hfields.after fun _ => hmethods
  unfold scanClass
  refine finds_when (finds_modify (fun _ => rfl) (fun _ => rfl) fun _ => rfl) ?_
  by_cases henum : e.outline.isEnum = true
  · rw [if_pos henum, ← List.append_nil (enumFactory? e.outline).toList]
    exact (finds_scanEnum henum).bind fun _ => hmembers
  · have hnone : enumFactory? e.outline = none := by
      rw [enumFactory?, Bool.eq_false_iff.2 henum]
      rfl
    rw [if_neg henum, hnone]
    exact hmembers

end Adds

end Scan

/-- Classes that all go in go in one after the other. -/
theorem Universe.foldlM_insert_eq {u v : Universe} {primary : Bool} {l : List ClassInput}
    (h : l.foldlM (fun u i => u.insert i primary) u = .ok v) :
    v = (l.map (Insertion.mk · primary)).foldl attempt u := by
  induction l generalizing u with
  | nil => cases h; rfl
  | cons i rest ih =>
      rw [List.foldlM_cons] at h
      rcases except_bind_ok h with ⟨t, ht, h⟩
      rw [ih h, List.map_cons, List.foldl_cons]
      exact congrArg (List.foldl attempt · _) (by rw [attempt, ht])

/-- Where classes stand under their own names, no two have the same name. -/
theorem Universe.Named.nodup_names {u : Universe} (hu : u.Named) :
    (u.entries.map fun e => e.outline.name).Nodup := by
  have hnames : u.entries.map (fun e => e.outline.name) = u.classes.keys := by
    rw [← Std.TreeMap.map_fst_toList_eq_keys, entries, List.map_map]
    exact List.map_congr_left fun p hp =>
      hu p.1 p.2 (Std.TreeMap.mem_toList_iff_getElem?_eq_some.1 hp)
  rw [hnames]
  exact Std.TreeMap.nodup_keys

/-- In a universe that is read for a configuration every class stands under its own name. -/
theorem Setup.named_of_readClasses {setup : Setup} {u : Universe}
    (h : setup.readClasses = .ok u) : u.Named := by
  rcases except_bind_ok h with ⟨t, ht, h⟩
  have hloaded : u = Universe.loaded (setup.primary.map (Universe.Insertion.mk · true) ++
      setup.classPath.map (Universe.Insertion.mk · false)) := by
    rw [Universe.foldlM_insert_eq h, Universe.foldlM_insert_eq ht, Universe.loaded,
      List.foldl_append]
  rw [hloaded]
  exact Universe.named_loaded _

namespace Scan

variable {u : Universe} {c : ClassFile} {name : String} {r s : Scan}

/-- The recipes of the enumerations of a universe. -/
def factoriesOf (u : Universe) : List (String × Recipe) :=
  u.entries.filterMap fun e => enumFactory? e.outline

/-- The state behind the addition of several recipes. -/
def withFactories (r : Scan) (l : List (String × Recipe)) : Scan :=
  l.foldl (fun r f => r.withAlternative f.1 (.recipe f.2)) r

/-- Factories add to their own types. -/
theorem recipes_withFactories {l : List (String × Recipe)} (hl : ∀ f ∈ l, f.2.isExecutable) :
    (r.withFactories l).recipes name =
      r.recipes name ++ (l.filter fun f => f.1 == name).map Prod.snd := by
  induction l generalizing r with
  | nil => exact (List.append_nil _).symm
  | cons f rest ih =>
      rcases List.forall_mem_cons.1 hl with ⟨hf, hrest⟩
      have hexecutable : Alternative.executable? (.recipe f.2) = some f.2 := if_pos hf
      change ((r.withAlternative f.1 _).withFactories rest).recipes name = _
      rw [ih hrest, recipes_withAlternative, hexecutable, List.append_assoc, List.filter_cons]
      by_cases hname : f.1 = name
      · rw [if_pos hname, if_pos (beq_iff_eq.2 hname)]
        rfl
      · rw [if_neg hname, if_neg (by simpa using hname)]
        rfl

/-- The factories that are added are those without a recipe of their own. -/
theorem addEnumFactories_eq (r : Scan) : addEnumFactories r = .ok ((),
    r.withFactories (r.enumFactories.filter fun f => !r.executables.contains f.1)) := by
  have hforM (l : List (String × Recipe)) (r : Scan) :
      (l.forM fun f => addAlternative f.1 (.recipe f.2)) r = .ok ((), r.withFactories l) := by
    induction l generalizing r with
    | nil => rfl
    | cons f rest ih => exact ih (r.withAlternative f.1 (.recipe f.2))
  exact hforM _ r

/-- A scan goes over all classes and then adds the recipes of those enumerations that have no
    other. -/
theorem ofUniverse_eq_ok (hu : u.Named) (h : ofUniverse u = .ok s) :
    ∃ r, Adds u (factoriesOf u) (u.entries.flatMap fun e => markedMethods e.outline) {} r ∧
      s = r.withFactories ((factoriesOf u).filter fun f => !r.executables.contains f.1) := by
  rcases except_bind_ok h with ⟨⟨⟨⟩, t⟩, hscan, h⟩
  cases h
  -- The enumerations come after all classes, when every marked method has had its turn.
  rcases bind_ok hscan with ⟨⟨⟩, r, hclasses, hend⟩
  have hadds := finds_forM (fun e he => finds_scanClass hu he) _ _ _ hclasses
  have hfactories : (u.entries.flatMap fun e => (enumFactory? e.outline).toList) = factoriesOf u :=
    (List.filterMap_eq_flatMap_toList _ _).symm
  rw [hfactories] at hadds
  refine ⟨r, hadds, ?_⟩
  rw [addEnumFactories_eq, hadds.enumFactories] at hend
  cases hend
  rfl

theorem tidy_empty : Tidy u {} := by
  refine ⟨fun name => ?_, fun name recipe h => ?_⟩
  · change (((∅ : Std.TreeMap String (List Alternative))[name]?).getD []).filterMap _ =
      ((∅ : Std.TreeMap String Recipe)[name]?).toList
    rw [Std.TreeMap.getElem?_emptyc, Std.TreeMap.getElem?_emptyc]
    rfl
  · change (∅ : Std.TreeMap String Recipe)[name]? = some recipe at h
    rw [Std.TreeMap.getElem?_emptyc] at h
    cases h

/-- A factory is a recipe of the enum itself. -/
theorem enumFactory?_eq_some {f : String × Recipe} (h : enumFactory? c = some f) :
    f.1 = c.name ∧ f.2.isExecutable := by
  unfold enumFactory? at h
  split at h
  · cases h
    exact ⟨rfl, rfl⟩
  · cases h

/-- The enums are classes of the universe, in its order. -/
theorem map_fst_factoriesOf_sublist (u : Universe) :
    ((factoriesOf u).map Prod.fst).Sublist (u.entries.map fun e => e.outline.name) := by
  unfold factoriesOf
  induction u.entries with
  | nil => exact .slnil
  | cons e rest ih =>
      cases he : enumFactory? e.outline with
      | none =>
          rw [List.filterMap_cons, he]
          exact ih.cons _
      | some f =>
          rw [List.filterMap_cons, he, List.map_cons, (enumFactory?_eq_some he).1]
          exact ih.cons_cons _

/-- There is at most one enumeration of a name. -/
theorem length_factoriesOf (hu : u.Named) (name : String) :
    ((factoriesOf u).filter fun f => f.1 == name).length ≤ 1 := by
  have hnodup := (map_fst_factoriesOf_sublist u).nodup hu.nodup_names
  have hcount := List.nodup_iff_count_le_one.1 hnodup name
  rwa [List.count, List.countP_map, List.countP_eq_length_filter] at hcount

/-- A class has the recipe of a marked method, and if there is none, that of an enumeration. -/
theorem recipes_of_tidy (ht : r.Tidy u) (name : String) :
    (r.withFactories ((factoriesOf u).filter fun f => !r.executables.contains f.1)).recipes name =
      match r.executables.get? name with
      | some recipe => [recipe]
      | none => ((factoriesOf u).filter fun f => f.1 == name).map Prod.snd := by
  have hexecutable : ∀ f ∈ (factoriesOf u).filter fun f => !r.executables.contains f.1,
      f.2.isExecutable := by
    intro f hf
    rcases List.mem_filterMap.1 (List.mem_of_mem_filter hf) with ⟨e, -, he⟩
    exact (enumFactory?_eq_some he).2
  have hcontains : r.executables.contains name = (r.executables.get? name).isSome :=
    Std.TreeMap.contains_eq_isSome_getElem?
  rw [recipes_withFactories hexecutable, ht.recipes, List.filter_filter]
  -- What an enumeration sets aside is dropped exactly where a marked method has made a recipe.
  cases hget : r.executables.get? name with
  | some recipe =>
      have hnone : ((factoriesOf u).filter fun f =>
          f.1 == name && !r.executables.contains f.1) = [] := by
        refine List.filter_eq_nil_iff.2 fun f _ hf => ?_
        rw [Bool.and_eq_true, beq_iff_eq] at hf
        rw [hf.1, hcontains, hget] at hf
        cases hf.2
      rw [hnone]
      rfl
  | none =>
      refine congrArg (List.map Prod.snd) (List.filter_congr fun f _ => ?_)
      by_cases hf : f.1 = name
      · rw [hf, hcontains, hget]
        simp
      · rw [beq_eq_false_iff_ne.2 hf, Bool.false_and]

/-- Each class has at most one recipe at the end of a scan, and each marked method has its recipe.
    A recipe comes from a marked method or from an enumeration, and one of a marked method reads
    back the argument for each parameter in order, by a getter that is found as `Accessor.Reads`
    says. That classes stand under their own names is so in every universe that classes are added
    to, by `Universe.named_loaded`. -/
theorem recipes_ofUniverse (hu : u.Named) (h : ofUniverse u = .ok s) :
    (∀ name, (s.recipes name).length ≤ 1) ∧
      (∀ name, ∀ recipe ∈ s.recipes name,
        (∃ e ∈ u.entries, ∃ m ∈ e.outline.methods,
          m.isMarked Marker.reconstructor.descriptor ∧ Makes u e.outline m name recipe) ∨
        ∃ e ∈ u.entries, enumFactory? e.outline = some (name, recipe)) ∧
      ∀ e ∈ u.entries, ∀ m ∈ e.outline.methods, m.isMarked Marker.reconstructor.descriptor →
        ∃ name recipe, Makes u e.outline m name recipe ∧ s.recipes name = [recipe] := by
  rcases ofUniverse_eq_ok hu h with ⟨r, hadds, rfl⟩
  have htidy := hadds.tidy tidy_empty
  refine ⟨fun name => ?_, fun name recipe hrecipe => ?_, fun e he m hm hmarked => ?_⟩
  · rw [recipes_of_tidy htidy]
    cases r.executables.get? name with
    | some recipe => exact le_rfl
    | none => rw [List.length_map]; exact length_factoriesOf hu name
  · rw [recipes_of_tidy htidy] at hrecipe
    cases hget : r.executables.get? name with
    | some found =>
        rw [hget] at hrecipe
        rcases List.mem_singleton.1 hrecipe with rfl
        rcases htidy.marked name _ hget with ⟨e, he, p, hp, hmakes⟩
        rcases mem_markedMethods.1 hp with ⟨m, hm, hmarked, rfl⟩
        exact .inl ⟨e, he, m, hm, hmarked, hmakes⟩
    | none =>
        rw [hget] at hrecipe
        rcases List.mem_map.1 hrecipe with ⟨f, hf, rfl⟩
        rcases List.mem_filter.1 hf with ⟨hf, hname⟩
        rcases List.mem_filterMap.1 hf with ⟨e, he, hfactory⟩
        exact .inr ⟨e, he, by rw [hfactory, ← beq_iff_eq.1 hname]⟩
  · have hp : (e.outline, m) ∈ u.entries.flatMap fun e => markedMethods e.outline :=
      List.mem_flatMap.2 ⟨e, he, mem_markedMethods.2 ⟨m, hm, hmarked, rfl⟩⟩
    -- A marked method is never passed over: a second recipe for its class would be an error.
    rcases hadds.made _ hp with ⟨name, recipe, hmakes, hget⟩
    exact ⟨name, recipe, hmakes, by rw [recipes_of_tidy htidy, hget]⟩

namespace Point

/-- The name of its only parameter is in the attribute for it. -/
def constructor : Method where
  access := ⟨1⟩
  name := "<init>"
  descriptor := "(I)V"
  annotations := [⟨Marker.reconstructor.descriptor, false, []⟩]
  attributes := [⟨"MethodParameters", 1 :: (Bytes.ofU16 1 ++ Bytes.ofU16 0)⟩]

/-- A getter of the property. -/
def getter : Method where
  access := ⟨1⟩
  name := "getX"
  descriptor := "()I"

/-- A class with a constructor and the getter of its parameter. -/
def classFile : ClassFile where
  pool := ⟨#[.unusable, .utf8 "x" [120]], ∅⟩
  name := "demo/Point"
  methods := [constructor, getter]

def entry : ClassEntry :=
  .ofClass classFile

def classes : Universe :=
  .ofClasses [classFile]

/-- The recipe that is found. -/
def recipe : Recipe :=
  .ofConstructor "demo/Point" "(I)V" [.ofGetter "demo/Point" "getX" .int]

theorem named_classes : classes.Named := by
  intro name e h
  change Universe.entry? (Universe.place {} entry) name = some e at h
  rw [Universe.entry?_place, Universe.entry?_empty] at h
  split at h
  · cases h
    assumption
  · cases h

/-- The parameter is resolved to the getter. -/
theorem resolve_constructor :
    Accessor.resolve classes classFile constructor "demo/Point" = .ok recipe.accessors := by
  -- The ancestors do not reduce by themselves, and neither does what looks them up.
  have hancestors : classes.ancestors "demo/Point" = ["demo/Point", objectClass] :=
    Universe.ancestors_of_objectClass rfl rfl rfl
  have hcandidates : Accessor.candidates classes "demo/Point" "x" .int =
      [⟨"demo/Point", "getX", "()I"⟩] := by
    unfold Accessor.candidates Accessor.getters
    rw [hancestors]
    cbv
  have hparse : MethodType.parse constructor.descriptor = .ok ⟨[.int], none⟩ := by cbv
  have hnames : constructor.parameterNames classFile.pool = .ok (some ["x"]) := by cbv
  unfold Accessor.resolve
  rw [hparse]
  dsimp only [bind, Except.bind]
  rw [hnames]
  have hone : Accessor.resolveOne classes "demo/Point" (classFile.methodMember constructor).display
      0 ("x", .int) = .ok (.ofGetter "demo/Point" "getX" .int) := by
    unfold Accessor.resolveOne
    rw [hcandidates]
  change (do return [← Accessor.resolveOne classes "demo/Point" _ 0 ("x", .int)]) = _
  rw [hone]
  rfl

/-- What is found. -/
def found : Scan :=
  withRecipe {} "demo/Point" recipe

/-- The scan of the constructor finds the recipe. -/
theorem scanMethod_constructor : scanMethod classes classFile constructor {} = .ok ((), found) := by
  -- The accessors are resolved and make up the recipe.
  have hrecipe : recipeOf classes classFile constructor {} = .ok (("demo/Point", recipe), {}) := by
    change ((liftM (Accessor.resolve classes classFile constructor "demo/Point") : Scanning _) >>=
      fun a => pure ("demo/Point", Recipe.ofConstructor "demo/Point" "(I)V" a)) {} = _
    rw [resolve_constructor]
    rfl
  have hmarked : constructor.isMarked Marker.reconstructor.descriptor = true := by cbv
  have hconstant : constructor.isMarked Marker.constant.descriptor = false := by cbv
  unfold scanMethod
  dsimp only
  rw [hmarked, hconstant]
  change (recipeOf classes classFile constructor >>= fun p => addRecipe p.1 p.2) {} = _
  change (recipeOf classes classFile constructor {} >>= fun p => addRecipe p.1.1 p.1.2 p.2) = _
  rw [hrecipe]
  rfl

-- And so does the scan of the universe.
theorem ofUniverse_classes : ofUniverse classes = .ok found := by
  -- The getter has no marker, so the constructor alone adds to the scan.
  have hclass : scanClass classes classFile {} = .ok ((), found) := by
    change (scanMethod classes classFile constructor {} >>= fun p =>
      [getter].forM (scanMethod classes classFile) p.2) = _
    rw [scanMethod_constructor]
    rfl
  have hall : ([entry].forM fun e => scanClass classes e.outline) {} = .ok ((), found) := by
    change (scanClass classes classFile {} >>= fun p => .ok ((), p.2)) = _
    rw [hclass]
    rfl
  change ((([entry].forM fun e => scanClass classes e.outline) {} >>= fun p =>
    addEnumFactories p.2) >>= fun p => .ok p.2) = _
  rw [hall]
  change (addEnumFactories found >>= fun p => .ok p.2) = _
  rw [addEnumFactories_eq]
  rfl

theorem recipes_found : found.recipes "demo/Point" = [recipe] := by
  rw [found, recipes_withRecipe rfl]
  rfl

end Point

/-- The marked constructor of a point is the only recipe for points, and it reads back its argument
    by the getter. -/
theorem recipes_ofUniverse_point :
    Point.classes.Named ∧ ofUniverse Point.classes = .ok Point.found ∧
      Point.found.recipes "demo/Point" = [Point.recipe] ∧
      Makes Point.classes Point.classFile Point.constructor "demo/Point" Point.recipe := by
  rcases recipes_ofUniverse Point.named_classes Point.ofUniverse_classes with ⟨-, -, hmarked⟩
  rcases hmarked Point.entry (List.mem_singleton_self _) Point.constructor List.mem_cons_self
    (by cbv) with ⟨name, recipe, hmakes, hrecipes⟩
  -- The method is a constructor, so it makes its own class.
  have hname : name = "demo/Point" := by
    rcases hmakes.way with ⟨-, -, hname⟩ | ⟨-, hstatic, -⟩
    · exact hname
    · cases hstatic
  subst hname
  have heq : Point.recipe = recipe := by
    rw [Point.recipes_found] at hrecipes
    exact (List.cons.inj hrecipes).1
  subst heq
  exact ⟨Point.named_classes, Point.ofUniverse_classes, hrecipes, hmakes⟩

end Scan

end JvmFold
