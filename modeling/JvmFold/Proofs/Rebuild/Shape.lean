import Mathlib.Logic.Relation
import JvmFold.Proofs.Analysis.Balance
import JvmFold.Proofs.Rebuild.Fidelity

/-!
# The Shape of Code That Makes an Object

Code that makes an object is put together from code that loads values, reads of
static fields, casts, and calls of recipes around the code for their arguments.
Followed by the effects of its instructions it takes nothing from the stack that
it starts on, and leaves the object.

That hangs on the values that accessors fetch along the way: each has to be as
wide as the parameter that it is passed for. What is fetched depends on the
state that the search has come to by then, so the parts of a search are written
down with their states, and the condition is about those that the search does
come to.

It also hangs on the descriptors of the recipes. The machine takes what a
constructor returns for nothing, and hands on what a method returns whatever its
descriptor says, but the effect of a call is read off the descriptor, and its
slots are counted modulo 65536.

## Main definitions

* `Rebuild.Part`, `Rebuild.Step`: The parts of a search, and how one comes to the next.
* `Rebuild.Fits`: What accessors fetch is as wide as the parameters.
* `Recipe.MakesOne`: A call that leaves one slot by its descriptor.

## Theorems

* `Rebuild.belongs_of_comesTo`: A search has to do with the recipes of its site only.
* `Rebuild.within_balanced`: The code for an object, with any room.
* `Rebuild.run_balanced`: The code for an object.
* `Rebuild.run_not_balanced`: A factory without a result leaves nothing by its descriptor.
-/

namespace JvmFold

/-- The alternative can be tried for the objects of some class. -/
def RebuildSite.Has (site : RebuildSite) (a : Alternative) : Prop :=
  ∃ name selector, site.config.selector? name = some selector ∧ a ∈ selector.alternatives

/-- The call of a recipe has fewer than 65536 slots of arguments, and its code leaves one slot: the
    object in front of a constructor, which has no result, or the result of a method. -/
structure Recipe.MakesOne (r : Recipe) (type : MethodType) : Prop where
  arguments : (type.parameters.map FieldType.slots).sum + (if r.kind = .constructor then 1 else 0)
    < 65536
  leaves : (if r.kind = .constructor then 1 else 0) + type.resultSlots = 1

/-- All recipes of the site make one object. -/
def RebuildSite.MakesOne (site : RebuildSite) : Prop :=
  ∀ a recipe type, site.Has a → a.executable? = some recipe →
    MethodType.parse recipe.member.descriptor = .ok type → recipe.MakesOne type

namespace Rebuild

/-- A part of a search, with the room that it has and the objects that it is made for. -/
inductive Part where
  /-- Code for an object is looked for. -/
  | object (room : Nat) (visiting : List HeapRef) (r : HeapRef)
  /-- Alternatives are left to try for an object. -/
  | choice (room : Nat) (visiting : List HeapRef) (r : HeapRef) (left : List Alternative)
  /-- The arguments of a recipe from an index on are left to fetch from an object. -/
  | arguments (room : Nat) (visiting : List HeapRef) (r : HeapRef) (recipe : Recipe) (index : Nat)

/-- A part of a search comes to the next one. -/
inductive Step (site : RebuildSite) (env : Env) : Part × Machine → Part × Machine → Prop where
  | select {room : Nat} {visiting : List HeapRef} {r : HeapRef} {selector : Selector} {s : Machine}
      (hnew : visiting.contains r = false)
      (hselector : site.config.selector? (s.heap.get r).className = some selector) :
      Step site env (.object (room + 1) visiting r, s)
        (.choice room (r :: visiting) r selector.alternatives, s)
  | next {room : Nat} {visiting : List HeapRef} {r : HeapRef} {a : Alternative}
      {rest : List Alternative} {o : Obstacle} {s t : Machine}
      (hfail : attempt site (within site room visiting) (.ref r) a env s = (.error o, t)) :
      Step site env (.choice room visiting r (a :: rest), s) (.choice room visiting r rest, t)
  | recipe {room : Nat} {visiting : List HeapRef} {r : HeapRef} {recipe : Recipe}
      {rest : List Alternative} {s : Machine} (hexecutable : recipe.isExecutable = true) :
      Step site env (.choice room visiting r (.recipe recipe :: rest), s)
        (.arguments room visiting r recipe 0, s)
  | loaded {room : Nat} {visiting : List HeapRef} {r : HeapRef} {recipe : Recipe} {k : Nat}
      {a : Accessor} {v : Value} {load : Instruction} {s t : Machine}
      (ha : recipe.accessors[k]? = some a) (hextract : extract (.ref r) a env s = (.ok v, t))
      (hload : t.heap.encoding v = .literal load) :
      Step site env (.arguments room visiting r recipe k, s)
        (.arguments room visiting r recipe (k + 1), t)
  | nested {room : Nat} {visiting : List HeapRef} {r r' : HeapRef} {recipe : Recipe} {k : Nat}
      {a : Accessor} {v : Value} {s t : Machine}
      (ha : recipe.accessors[k]? = some a) (hextract : extract (.ref r) a env s = (.ok v, t))
      (hobject : t.heap.encoding v = .object r') :
      Step site env (.arguments room visiting r recipe k, s) (.object room visiting r', t)
  | remade {room : Nat} {visiting : List HeapRef} {r r' : HeapRef} {recipe : Recipe} {k : Nat}
      {a : Accessor} {v : Value} {found : Reconstruction} {s t u : Machine}
      (ha : recipe.accessors[k]? = some a) (hextract : extract (.ref r) a env s = (.ok v, t))
      (hobject : t.heap.encoding v = .object r')
      (hfound : within site room visiting r' env t = (.ok found, u)) :
      Step site env (.arguments room visiting r recipe k, s)
        (.arguments room visiting r recipe (k + 1), u)

/-- A search comes to a part of it. -/
def ComesTo (site : RebuildSite) (env : Env) : Part × Machine → Part × Machine → Prop :=
  Relation.ReflTransGen (Step site env)

/-- The alternatives and recipes of a part of a search are those of the site. -/
def Part.Belongs (site : RebuildSite) : Part → Prop
  | .object _ _ _ => True
  | .choice _ _ _ left => ∀ a ∈ left, site.Has a
  | .arguments _ _ _ recipe _ => site.Has (.recipe recipe) ∧ recipe.isExecutable = true

/-- The recipes of a site have an accessor for each parameter, its fields hold references, and
    whatever the accessors fetch in a search is as wide as the parameter. -/
structure Fits (site : RebuildSite) (env : Env) (start : Part × Machine) : Prop where
  parameters : ∀ a recipe, site.Has a → a.executable? = some recipe →
    ∃ type, MethodType.parse recipe.member.descriptor = .ok type ∧
      type.parameters.length = recipe.accessors.length
  fields : ∀ a f, site.Has a → f ∈ a.fields →
    ∃ type, FieldType.parse f.descriptor = .ok type ∧ type.isReference = true
  values : ∀ {room visiting r recipe k s a v t},
    ComesTo site env start (.arguments room visiting r recipe k, s) →
      recipe.accessors[k]? = some a → extract (.ref r) a env s = (.ok v, t) →
        ∀ type p, MethodType.parse recipe.member.descriptor = .ok type →
          type.parameters[k]? = some p → v.slots = p.slots

section Parts

variable {site : RebuildSite} {env : Env} {x y : Part × Machine}

/-- The steps of a search stay within its site. -/
theorem Step.belongs (h : Step site env x y) (hx : x.1.Belongs site) : y.1.Belongs site := by
  cases h with
  | select hnew hselector => exact fun a ha => ⟨_, _, hselector, ha⟩
  | next hfail => exact (List.forall_mem_cons.1 hx).2
  | recipe hexecutable => exact ⟨(List.forall_mem_cons.1 hx).1, hexecutable⟩
  | loaded | remade => exact hx
  | nested => trivial

/-- A search has to do with the alternatives and recipes of its site only. -/
theorem belongs_of_comesTo (h : ComesTo site env x y) (hx : x.1.Belongs site) :
    y.1.Belongs site := by
  induction h with
  | refl => exact hx
  | tail _ hstep ih => exact hstep.belongs ih

end Parts

end Rebuild

/-- A literal brings the slots of its constant. -/
theorem Instruction.effect_literal (c : Constant) :
    (Instruction.literal c).stackEffect? = some (0, c.slots) := by
  unfold Instruction.literal Instruction.int
  repeat' split
  all_goals rfl

/-- What loads a value leaves the value. -/
theorem Heap.balanced_encoding {h : Heap} {v : Value} {load : Instruction}
    (hload : h.encoding v = .literal load) : Balanced [load] v.slots := by
  rcases h.exists_loads hload {} with ⟨plan, hloads, hcode⟩
  refine balanced_singleton ?_
  cases hloads with
  | null =>
      cases hcode
      rfl
  | primitive =>
      cases hcode
      cbv
  | _ =>
      cases hcode
      exact Instruction.effect_literal _

/-- A reference takes one slot. -/
theorem FieldType.slots_of_isReference {type : FieldType} (h : type.isReference = true) :
    type.slots = 1 := by
  cases type <;> first | rfl | cases h

/-- A cast takes the object and leaves it. -/
theorem Reconstruction.balanced_codeFor {found : Reconstruction} (h : Balanced found.code 1)
    (u : Universe) (expected : FieldType) : Balanced (found.codeFor u expected) 1 := by
  unfold codeFor
  cases castNeeded? u found.produces expected with
  | none => exact (List.append_nil found.code).symm ▸ h
  | some name => exact h.snoc (i := .typed .checkcast name) rfl (Nat.le_refl 1)

namespace Rebuild

/-- A field of a reference type is read. -/
theorem balanced_ofField {f : Member} {type : FieldType}
    (hd : FieldType.parse f.descriptor = .ok type) (href : type.isReference = true) :
    Balanced (ofField f).code 1 := by
  have heffect : (Instruction.field .getstatic f).stackEffect? = some (0, 1) := by
    rw [Instruction.stackEffect?, hd, ← FieldType.slots_of_isReference href]
    rfl
  exact balanced_singleton heffect

/-- A recipe that makes one object takes its arguments and leaves the object. -/
theorem balanced_ofRecipe {recipe : Recipe} {type : MethodType} {code : List Instruction}
    (hd : MethodType.parse recipe.member.descriptor = .ok type) (hone : recipe.MakesOne type)
    (hcode : Balanced code (type.parameters.map FieldType.slots).sum) (u : Universe) :
    Balanced (ofRecipe u recipe code).code 1 := by
  have hslots := hone.arguments
  have hleaves := hone.leaves
  unfold ofRecipe
  dsimp only
  generalize (u.class? recipe.member.owner).any (·.isInterface) = isInterface
  cases hkind : recipe.kind with
  | constructor =>
      rw [hkind, if_pos rfl] at hslots hleaves
      have hcall : (Instruction.invoke .invokespecial recipe.member isInterface).stackEffect? =
          some ((type.parameters.map FieldType.slots).sum + 1, type.resultSlots) :=
        Instruction.effect_invoke hd hslots
      have hnew : Balanced [.typed .new recipe.member.owner] 1 := balanced_singleton rfl
      -- The object lies on the stack twice while its constructor is given the arguments.
      have hpair := hnew.snoc (i := .simple .dup) rfl (Nat.le_refl 1)
      have hall := (hpair.append hcode).snoc hcall (by omega)
      rwa [show 1 - 1 + 2 + (type.parameters.map FieldType.slots).sum
        - ((type.parameters.map FieldType.slots).sum + 1) + type.resultSlots = 1 by omega] at hall
  | factory | staticField =>
      rw [hkind, if_neg (by decide)] at hslots hleaves
      have hcall : (Instruction.invoke .invokestatic recipe.member isInterface).stackEffect? =
          some ((type.parameters.map FieldType.slots).sum, type.resultSlots) :=
        Instruction.effect_invoke hd hslots
      have hall := hcode.snoc hcall (Nat.le_refl _)
      rwa [Nat.sub_self, hleaves] at hall

section Search

variable {site : RebuildSite} {env : Env} {start : Part × Machine} {room : Nat}
variable {visiting : List HeapRef} {r : HeapRef} {s t : Machine}

/-- What is found for the objects that a search comes to with some room leaves one slot. -/
def BalancedBelow (site : RebuildSite) (env : Env) (start : Part × Machine) (room : Nat)
    (visiting : List HeapRef) : Prop :=
  ∀ {r s found t}, ComesTo site env start (.object room visiting r, s) →
    within site room visiting r env s = (.ok found, t) → Balanced found.code 1

/-- The code for the arguments of a recipe leaves them, each as wide as its parameter. -/
theorem balanced_encodeArguments (hfits : Fits site env start)
    (hnested : BalancedBelow site env start room visiting) {recipe : Recipe} {type : MethodType}
    (hd : MethodType.parse recipe.member.descriptor = .ok type)
    (hlength : type.parameters.length = recipe.accessors.length) {k : Nat}
    (hcomes : ComesTo site env start (.arguments room visiting r recipe k, s))
    {values : List Value} {code : List Instruction}
    (h : encodeArguments site (within site room visiting) (.ref r) (recipe.accessors.drop k) env s
      = (.ok (values, code), t)) :
    Balanced code ((type.parameters.drop k).map FieldType.slots).sum := by
  -- The induction is on the accessors that are left. The state is general, as every accessor reads
  -- in the one that the search for the argument before it has left.
  induction hleft : recipe.accessors.drop k generalizing k s values code with
  | nil =>
      have hk := List.drop_eq_nil_iff.1 hleft
      rw [hleft] at h
      rw [List.drop_eq_nil_iff.2 (by omega)]
      cases h
      exact balanced_nil
  | cons a rest ih =>
      have hk : k < recipe.accessors.length := by
        by_contra hle
        rw [List.drop_eq_nil_iff.2 (by omega)] at hleft
        cases hleft
      have hkt : k < type.parameters.length := hlength ▸ hk
      have ha : recipe.accessors[k]? = some a := by
        rw [← List.head?_drop, hleft, List.head?_cons]
      have hrest : recipe.accessors.drop (k + 1) = rest := by
        rw [← List.tail_drop, hleft, List.tail_cons]
      have hwide {v u} (hextract : extract (.ref r) a env s = (.ok v, u)) :
          v.slots = type.parameters[k].slots :=
        hfits.values hcomes ha hextract type _ hd (List.getElem?_eq_getElem hkt)
      rw [List.drop_eq_getElem_cons hkt, List.map_cons, List.sum_cons]
      rw [hleft] at h
      rcases encodeArguments_cons h with
        ⟨v, u, load, w, vs, following, hextract, hload, hfollowing, rfl, rfl⟩
      rw [← hrest] at hfollowing
      cases hload with
      | @literal load hencoding =>
          have hfirst : Balanced [load] type.parameters[k].slots :=
            hwide hextract ▸ Heap.balanced_encoding hencoding
          exact hfirst.append (ih (hcomes.tail (.loaded ha hextract hencoding)) hfollowing hrest)
      | object hencoding hfound =>
          -- An argument that is made anew is an object, so its parameter takes one slot.
          have hone : type.parameters[k].slots = 1 := by
            rw [← hwide hextract, Heap.eq_ref_of_encoding hencoding]
            rfl
          have hobject := hnested (hcomes.tail (.nested ha hextract hencoding)) hfound
          rw [hone]
          exact (Reconstruction.balanced_codeFor hobject _ _).append
            (ih (hcomes.tail (.remade ha hextract hencoding hfound)) hfollowing hrest)

/-- What is found with an alternative leaves one slot. -/
theorem balanced_attempt (hfits : Fits site env start) (hone : site.MakesOne)
    (hnested : BalancedBelow site env start room visiting) {a : Alternative} (ha : site.Has a)
    {rest : List Alternative}
    (hcomes : ComesTo site env start (.choice room visiting r (a :: rest), s))
    {found : Reconstruction}
    (h : attempt site (within site room visiting) (.ref r) a env s = (.ok found, t)) :
    Balanced found.code 1 := by
  rcases attempt_ok h with ⟨recipe, rfl, hexecutable, h⟩ | h
  · have hrecipe : (Alternative.recipe recipe).executable? = some recipe := if_pos hexecutable
    rcases hfits.parameters _ recipe ha hrecipe with ⟨type, hd, hlength⟩
    rcases execute_ok h with ⟨values, code, made, u, w, harguments, -, -, rfl⟩
    have hcode := balanced_encodeArguments hfits hnested hd hlength
      (hcomes.tail (.recipe hexecutable)) harguments
    exact balanced_ofRecipe hd (hone _ recipe type ha hrecipe hd) hcode _
  · rcases reuse_found h with ⟨f, hf, rfl, -⟩
    rcases hfits.fields a f ha hf with ⟨type, hd, href⟩
    exact balanced_ofField hd href

/-- What is found with the alternatives that are left leaves one slot. -/
theorem balanced_firstOf (hfits : Fits site env start) (hone : site.MakesOne)
    (hstart : start.1.Belongs site) (hnested : BalancedBelow site env start room visiting)
    {left : List Alternative}
    (hcomes : ComesTo site env start (.choice room visiting r left, s)) {name : String}
    {reasons : List Obstacle} {found : Reconstruction}
    (h : firstOf site (within site room visiting) name (.ref r) reasons left env s
      = (.ok found, t)) : Balanced found.code 1 := by
  -- What a failed alternative has done to the context stays, so the context is general.
  induction left generalizing s reasons with
  | nil => cases h
  | cons a rest ih =>
      have ha : site.Has a := belongs_of_comesTo hcomes hstart a List.mem_cons_self
      rcases tryCatch_ok h with h | ⟨_, _, hfail, h⟩
      · exact balanced_attempt hfits hone hnested ha hcomes h
      · exact ih (hcomes.tail (.next hfail)) h

/-- The code that is found for an object with any room leaves one slot. -/
theorem within_balanced (hfits : Fits site env start) (hone : site.MakesOne)
    (hstart : start.1.Belongs site) (room : Nat) (visiting : List HeapRef) :
    BalancedBelow site env start room visiting := by
  -- Code for an argument is searched for with less room.
  induction room generalizing visiting with
  | zero =>
      intro r s found t _ h
      cases h
  | succ room ih =>
      intro r s found t hcomes h
      rcases within_ok h with ⟨hnew, selector, hselector, h⟩
      exact balanced_firstOf hfits hone hstart (ih (r :: visiting))
        (hcomes.tail (.select hnew hselector)) h

end Search

/-- The code for an object takes nothing from the stack and leaves one slot on it, if the recipes
    make one object each and are given what their parameters take. -/
theorem run_balanced {site : RebuildSite} {env : Env} {r : HeapRef} {s t : Machine}
    {found : Reconstruction}
    (hfits : Fits site env (.object maxRebuildDepth [] r, { s with executed := 0 }))
    (hone : site.MakesOne) (hrun : run site r env s = (.ok found, t)) :
    Balanced found.code 1 :=
  within_balanced hfits hone trivial maxRebuildDepth [] .refl hrun

/-- The parts that the search for the object comes to. -/
inductive SolePart : Part × Machine → Prop where
  | object : SolePart (.object 32 [] ⟨1⟩, soleStart)
  | choice : SolePart (.choice 31 [⟨1⟩] ⟨1⟩ [.recipe SoleKey.number.recipe], soleStart)
  | exhausted {s : Machine} : SolePart (.choice 31 [⟨1⟩] ⟨1⟩ [], s)
  | arguments {k : Nat} : SolePart (.arguments 31 [⟨1⟩] ⟨1⟩ SoleKey.number.recipe k, soleStart)

/-- The recipe fetches the number and nothing else. -/
theorem extract_number {k : Nat} {a : Accessor} {v : Value} {t : Machine}
    (ha : SoleKey.number.recipe.accessors[k]? = some a)
    (hextract : extract (.ref ⟨1⟩) a soleEnv soleStart = (.ok v, t)) :
    k = 0 ∧ v = .int 7 ∧ t = soleStart := by
  rcases List.getElem?_eq_some_iff.1 ha with ⟨hk, ha⟩
  have heq : k = 0 := Nat.lt_one_iff.1 hk
  subst heq
  cases ha
  have hheld := (extract_sole .number).symm.trans hextract
  cases hheld
  exact ⟨rfl, rfl, rfl⟩

/-- The parts of the example lead only to each other. -/
theorem SolePart.next {x y : Part × Machine} (hx : SolePart x)
    (h : Step (soleSite .number) soleEnv x y) : SolePart y := by
  cases hx with
  | object =>
      cases h with
      | select hnew hselector =>
          rw [show (soleStart.heap.get ⟨1⟩).className = "demo/Sole" from rfl,
            selector?_sole .number] at hselector
          cases hselector
          exact .choice
  | choice =>
      cases h with
      | next hfail => exact .exhausted
      | recipe hexecutable => exact .arguments
  | exhausted => cases h
  | arguments =>
      cases h with
      | loaded ha hextract hload =>
          rcases extract_number ha hextract with ⟨-, -, rfl⟩
          exact .arguments
      | nested ha hextract hobject | remade ha hextract hobject hfound =>
          -- The number is loaded by itself, so no object is searched for.
          rcases extract_number ha hextract with ⟨-, rfl, -⟩
          cases hobject

-- So the search comes to no other parts.
theorem solePart_of_comesTo {y : Part × Machine}
    (h : ComesTo (soleSite .number) soleEnv (.object maxRebuildDepth [] ⟨1⟩, soleStart) y) :
    SolePart y := by
  induction h with
  | refl => exact .object
  | tail _ hstep ih => exact ih.next hstep

/-- The descriptor of the recipe takes a number. -/
theorem parse_number : MethodType.parse SoleKey.number.recipe.member.descriptor =
    .ok ⟨[.int], some (.object "demo/Sole")⟩ := by
  cbv

-- So the arguments fit the recipe.
theorem fits_sole :
    Fits (soleSite .number) soleEnv (.object maxRebuildDepth [] ⟨1⟩, soleStart) where
  parameters := by
    rintro a recipe ⟨name, selector, hselector, ha⟩ hrecipe
    cases eq_of_mem_soleSite hselector ha
    cases hrecipe
    exact ⟨_, parse_number, rfl⟩
  fields := by
    rintro a f ⟨name, selector, hselector, ha⟩ hf
    cases eq_of_mem_soleSite hselector ha
    cases hf
  values := by
    intro room visiting r recipe k s a v t hcomes ha hextract type p hd hp
    cases solePart_of_comesTo hcomes
    -- The only argument is the number, read from the field.
    rcases extract_number ha hextract with ⟨rfl, rfl, -⟩
    rw [parse_number] at hd
    cases hd
    cases hp
    rfl

-- And the recipe makes one value.
theorem makesOne_sole : (soleSite .number).MakesOne := by
  rintro a recipe type ⟨name, selector, hselector, ha⟩ hrecipe hd
  cases eq_of_mem_soleSite hselector ha
  cases hrecipe
  rw [parse_number] at hd
  cases hd
  exact ⟨by decide, rfl⟩

/-- The code that looks the object up by its number leaves one slot. -/
theorem run_balanced_number :
    ∃ found t, run (soleSite .number) ⟨1⟩ soleEnv soleStart = (.ok found, t) ∧
      Fits (soleSite .number) soleEnv (.object maxRebuildDepth [] ⟨1⟩, soleStart) ∧
      found.code = [.push .bipush 7, .invoke .invokestatic SoleKey.number.method false] ∧
      Balanced found.code 1 := by
  have hrun := run_soleSite .number (.push .bipush 7) rfl ⟨_, rfl, rfl⟩
  exact ⟨_, _, hrun, fits_sole, rfl, run_balanced fits_sole makesOne_sole hrun⟩

/-- The static field that keeps the only object of the class `demo/One`. -/
def oneIt : Member := ⟨"demo/One", "it", "Ldemo/One;"⟩

/-- The method that hands the object on. Its descriptor declares no result. -/
def oneOf : Member := ⟨"demo/One", "of", "()V"⟩

def oneBody : Body where
  maxStack := 1
  maxLocals := 0
  instructions := [.field .getstatic oneIt, .simple .areturn]

/-- The class. -/
def oneClass : ClassFile where
  name := "demo/One"
  fields := [⟨⟨8⟩, "it", "Ldemo/One;", none, [], []⟩]
  methods := [{ access := ⟨8⟩, name := "of", descriptor := "()V", body := some oneBody }]

/-- The universe with that class alone. -/
def oneUniverse : Universe :=
  .ofClasses [oneClass]

def oneProgram : Program :=
  Program.ofUniverse oneUniverse

/-- A place in no initializer, where the object is made by the method. -/
def oneSite : RebuildSite where
  config :=
    { types := ∅
      fields := ∅
      methods := ∅
      selectors := (∅ : Std.TreeMap String Selector).insert "demo/One"
        (.only (.recipe (.ofFactory oneOf [])))
      foldsConcat := false
      output := none
      limits := {}
      classes := oneUniverse }
  order := {}
  position := 0

/-- The context in which the class is initialized and keeps the object. -/
def oneStart : Machine where
  heap := { objects := #[.instance "demo/One" []] }
  statics := (∅ : Std.HashMap Member Value).insert oneIt (.ref ⟨0⟩)
  initialized := (∅ : Std.HashMap String InitState).insert "demo/One" .done

/-- The method made ready. -/
def onePrepared : Prepared :=
  .unguarded oneClass oneOf oneBody

/-- A call of the method gives the object. -/
theorem invoke_oneOf :
    Emu.invoke .static oneOf [] (Engine.env oneProgram {}) oneStart
      = .ok (some (.ref ⟨0⟩)) oneStart.ticked.ticked := by
  have hclass : oneProgram.classes.class? "demo/One" = some oneClass := rfl
  have htarget : (Engine.env oneProgram {}).directTarget oneOf = .ok (.bytecode oneOf) :=
    Env.directTarget_of_method? hclass rfl
  have hdone {s : Machine} (h : s.initialized = oneStart.initialized) :
      s.initialized["demo/One"]? = some .done :=
    h ▸ Std.HashMap.getElem?_insert_self
  have hprepare : oneProgram.prepare oneOf = .ok onePrepared := by
    unfold oneProgram
    rw [Program.prepare_ofUniverse]
    rfl
  have hit {levels depth : Nat} :
      Emu.getStatic oneIt (Engine.inside oneProgram {} (levels + 1) depth) oneStart.ticked
        = .ok (.ref ⟨0⟩) oneStart.ticked :=
    Emu.getStatic_of_done (Universe.fieldOwner?_of_field? hclass rfl) (hdone rfl)
      Std.HashMap.getElem?_insert_self
  -- Two instructions, of which the first finds the class done.
  have hrun {levels depth : Nat} :
      Emu.run? onePrepared (Engine.inside oneProgram {} (levels + 1) depth) 2 (.start 0 []) 0
        oneStart = some (.ok (some (.ref ⟨0⟩)) oneStart.ticked.ticked) := by
    rw [Emu.run?_next (m := .field .getstatic oneIt) rfl rfl rfl (Emu.step_getstatic hit)]
    exact Emu.run?_finish (m := .simple .areturn) rfl rfl rfl rfl
  rw [Engine.env_eq_inside] at htarget ⊢
  exact Emu.invoke_static htarget (hdone rfl) (by decide) hprepare (by decide) hrun

/-- Its site has one recipe only. -/
theorem eq_of_mem_oneSite {name : String} {selector : Selector} {a : Alternative}
    (hselector : oneSite.config.selector? name = some selector) (ha : a ∈ selector.alternatives) :
    a = .recipe (.ofFactory oneOf []) :=
  eq_of_mem_only rfl hselector ha

/-- The method has no parameters, so there is nothing to fetch. -/
theorem fits_one {start : Part × Machine} (hstart : start.1.Belongs oneSite) :
    Fits oneSite (Engine.env oneProgram {}) start where
  parameters := by
    rintro a recipe ⟨name, selector, hselector, ha⟩ hrecipe
    cases eq_of_mem_oneSite hselector ha
    cases hrecipe
    exact ⟨⟨[], none⟩, by cbv, rfl⟩
  fields := by
    rintro a f ⟨name, selector, hselector, ha⟩ hf
    cases eq_of_mem_oneSite hselector ha
    cases hf
  values := by
    intro room visiting r recipe k s a v t hcomes ha
    rcases belongs_of_comesTo hcomes hstart with ⟨⟨name, selector, hselector, hhas⟩, -⟩
    cases eq_of_mem_oneSite hselector hhas
    -- The factory takes no arguments, so none is extracted.
    cases ha

/-- The method gives the object, and that is what the search takes it for. By the descriptor its
    call leaves nothing. -/
theorem run_not_balanced :
    Fits oneSite (Engine.env oneProgram {})
        (.object maxRebuildDepth [] ⟨0⟩, { oneStart with executed := 0 }) ∧
      ∃ found t, run oneSite ⟨0⟩ (Engine.env oneProgram {}) oneStart = (.ok found, t) ∧
        found.code = [.invoke .invokestatic oneOf false] ∧
        depthAfter? 0 0 found.code = some 0 ∧ ¬Balanced found.code 1 := by
  have hselector : oneSite.config.selector? "demo/One"
      = some (.only (.recipe (.ofFactory oneOf []))) := by
    unfold Config.selector?
    rw [Universe.ancestors_of_objectClass rfl rfl rfl]
    rfl
  have hperform : perform (.ofFactory oneOf []) [] (Engine.env oneProgram {}) oneStart
      = (.ok (.ref ⟨0⟩), oneStart.ticked.ticked) := by
    change (guarded _ (Emu.invoke .static oneOf []) >>= _) _ _ = _
    rw [bind_of_ok (guarded_of_ok invoke_oneOf)]
    rfl
  have hexecute : execute oneSite (within oneSite 31 [⟨0⟩]) (.ofFactory oneOf []) (.ref ⟨0⟩)
      (Engine.env oneProgram {}) oneStart
      = (.ok (ofRecipe oneUniverse (.ofFactory oneOf []) []), oneStart.ticked.ticked) := by
    have harguments : encodeArguments oneSite (within oneSite 31 [⟨0⟩]) (.ref ⟨0⟩)
        (Recipe.ofFactory oneOf []).accessors (Engine.env oneProgram {}) oneStart
        = (.ok ([], []), oneStart) := rfl
    unfold execute
    rw [bind_of_ok harguments]
    change (perform _ [] >>= _) _ _ = _
    rw [bind_of_ok hperform]
    rfl
  have hrun : run oneSite ⟨0⟩ (Engine.env oneProgram {}) oneStart
      = (.ok (ofRecipe oneUniverse (.ofFactory oneOf []) []), oneStart.ticked.ticked) := by
    change within oneSite maxRebuildDepth [] ⟨0⟩ _ oneStart = _
    unfold maxRebuildDepth
    rw [within_of_selector rfl hselector]
    exact tryCatch_of_ok hexecute
  -- The descriptor says that nothing is returned, so nothing is counted.
  have hdepth : depthAfter? 0 0 [.invoke .invokestatic oneOf false] = some 0 := by
    cbv
  refine ⟨fits_one trivial, _, _, hrun, rfl, hdepth, fun h => ?_⟩
  have hone := (h 0).symm.trans hdepth
  cases hone

end Rebuild

end JvmFold
