import JvmFold.Proofs.Machine.Calls
import JvmFold.Proofs.Rebuild.Plan
import JvmFold.Proofs.Universe.Searches

/-!
# What a Search Has Checked

A search for code for an object ends with a plan: the recipes and fields that
worked, each with plans for its arguments. Along the way everything in the plan
has been tried out. A field was read and what it held was compared; a recipe
was run and what it made was compared.

But a recipe was run on the values that its accessors had fetched from the
object, and its code runs it on what the code of the arguments leaves. A number
is the same in both. A string is loaded as the canonical one, and an object is
another object that was made in its place; these are equal to what was fetched,
and a recipe is free to tell them apart. It is also run once more, in the
context that the search has left. So that the code leaves an equal object does
not follow from the search. It holds exactly if carrying out the plan, which
makes the arguments first, gives an equal object.

The recipe by name at the end shows the difference. It looks for the object by
the identity of a string, finds it when it is tried, and has no chance in the
code.

## Main definitions

* `Heap.Loads`: The plans that load a value.
* `Rebuild.Checked`, `Rebuild.Fetched`: What a search has found out about a plan.
* `Rebuild.ArgumentCode`: Where the code for one argument comes from.

## Theorems

* `Rebuild.within_finds`: A search finds the code of a plan that it has checked.
* `Rebuild.Checked.make_eq`: Numbers are passed to a recipe as they were fetched.
* `Rebuild.reproduces_iff_remakes`: When the code that was found reproduces the object.
-/

namespace JvmFold

/-- The plans that load a value with one instruction. -/
inductive Heap.Loads (h : Heap) : Value → Plan → Prop where
  | int (v : Int32) : h.Loads (.int v) (.constant (.int v))
  | long (v : Int64) : h.Loads (.long v) (.constant (.long v))
  | float (b : Bits32) : h.Loads (.float b) (.constant (.float b))
  | double (b : Bits64) : h.Loads (.double b) (.constant (.double b))
  | null : h.Loads .null .null
  | string {r : HeapRef} {text : String} (hr : h.string? r = some text) :
      h.Loads (.ref r) (.constant (.string text))
  | classObject {r : HeapRef} {name : String} (hr : h.get r = .classObject name) :
      h.Loads (.ref r) (.constant (.classRef name))
  | primitive {r : HeapRef} {name holder : String} (hr : h.get r = .classObject name)
      (hname : primitiveHolder? name = some holder) :
      h.Loads (.ref r) (.field ⟨holder, "TYPE", "Ljava/lang/Class;"⟩)

/-- An instruction that loads a value is the code of a plan. -/
theorem Heap.exists_loads {h : Heap} {v : Value} {load : Instruction}
    (hv : h.encoding v = .literal load) (u : Universe) :
    ∃ plan, h.Loads v plan ∧ plan.code u = [load] := by
  cases v with
  | int v => cases hv; exact ⟨_, .int v, rfl⟩
  | long v => cases hv; exact ⟨_, .long v, rfl⟩
  | float b => cases hv; exact ⟨_, .float b, rfl⟩
  | double b => cases hv; exact ⟨_, .double b, rfl⟩
  | null => cases hv; exact ⟨_, .null, rfl⟩
  | ref r =>
      change h.encodingOf r = _ at hv
      unfold Heap.encodingOf at hv
      cases hr : h.get r with
      | string units =>
          simp only [hr] at hv
          split at hv
          · cases hv
          · -- A string with a lone surrogate has no text, and a constant of the pool is text.
            cases htext : Utf16.toString? units.toList with
            | none => simp only [htext] at hv; cases hv
            | some text =>
                simp only [htext] at hv
                cases hv
                have hstring : h.string? r = some text := by
                  simp [Heap.string?, Heap.stringUnits?, hr, htext]
                exact ⟨_, .string hstring, rfl⟩
      | classObject name =>
          simp only [hr] at hv
          cases hv
          unfold loadClass
          cases hname : primitiveHolder? name with
          | none => exact ⟨_, .classObject hr, rfl⟩
          | some holder => exact ⟨_, .primitive hr hname, rfl⟩
      | _ => simp only [hr] at hv; cases hv

/-- Only an object is looked for among the selectors. -/
theorem Heap.eq_ref_of_encoding {h : Heap} {v : Value} {r : HeapRef}
    (hv : h.encoding v = .object r) : v = .ref r := by
  cases v with
  | ref r' =>
      change h.encodingOf r' = _ at hv
      unfold Heap.encodingOf at hv
      -- What is not loaded by an instruction is the object itself.
      split at hv
      · split at hv
        · cases hv; rfl
        · split at hv
          · cases hv
          · cases hv; rfl
      · cases hv
      · cases hv; rfl
  | _ => cases hv

/-- The class that the code of a plan promises, for one that is found for an object. -/
def Plan.produces (u : Universe) : Plan → String
  | .field f => (Rebuild.ofField f).produces
  | .call r _ => (Rebuild.ofRecipe u r []).produces
  | _ => objectClass

/-- A plan with the cast that is needed, if one is. -/
def Plan.castTo (plan : Plan) : Option String → Plan
  | none => plan
  | some name => .cast name plan

/-- A cast comes behind the code of the value. -/
theorem Plan.code_castTo {u : Universe} (plan : Plan) (name : Option String) :
    (plan.castTo name).code u = plan.code u ++ name.toList.map (.typed .checkcast) := by
  cases name with
  | none => exact (List.append_nil _).symm
  | some name => rfl

/-- It leaves the calls of the plan as they are. -/
theorem Plan.regular_castTo {env : Env} {plan : Plan} (h : plan.Regular env)
    (name : Option String) : (plan.castTo name).Regular env := by
  cases name with
  | none => exact h
  | some name => exact h

/-- A value that is loaded makes no call. -/
theorem Heap.Loads.regular {h : Heap} {v : Value} {plan : Plan} {env : Env}
    (hloads : h.Loads v plan) : plan.Regular env := by
  cases hloads <;> exact trivial

-- And is one instruction.
theorem Heap.Loads.make_eq {h : Heap} {v : Value} {plan : Plan} (hloads : h.Loads v plan)
    (hv : v.reference? = none) : plan.make = (do Emu.tick; return v) := by
  cases hloads with
  | string | classObject | primitive => cases hv
  | _ => rfl

namespace Rebuild

mutual
/-- A plan has been checked for a value: a field held an equal object, or a recipe made one from
    what the accessors had fetched. The check has ended in the given context. -/
inductive Checked (site : RebuildSite) (env : Env) : Value → Plan → Machine → Prop where
  | field {value candidate : Value} {f : Member} {s u t : Machine}
      (hreusable : site.order.isReusable site.config.classes f site.position = true)
      (hread : Emu.getStatic f env s = .ok candidate u)
      (hequal : Emu.areEqual candidate value env u = .ok true t) :
      Checked site env value (.field f) t
  | call {value made : Value} {recipe : Recipe} {plans : List Plan} {values : List Value}
      {s u w t : Machine}
      (hfetched : Fetched site env value recipe.accessors plans values s u)
      (hperform : perform recipe values env u = (.ok made, w))
      (hequal : Emu.areEqual made value env w = .ok true t) :
      Checked site env value (.call recipe plans) t

/-- The accessors of a recipe have fetched values from an object, and there are plans for them. -/
inductive Fetched (site : RebuildSite) (env : Env) :
    Value → List Accessor → List Plan → List Value → Machine → Machine → Prop where
  | nil {value : Value} {s : Machine} : Fetched site env value [] [] [] s s
  | loaded {value v : Value} {a : Accessor} {rest : List Accessor} {plan : Plan}
      {plans : List Plan} {values : List Value} {s u t : Machine}
      (hextract : extract value a env s = (.ok v, u)) (hload : u.heap.Loads v plan)
      (hrest : Fetched site env value rest plans values u t) :
      Fetched site env value (a :: rest) (plan :: plans) (v :: values) s t
  | remade {value : Value} {r : HeapRef} {a : Accessor} {rest : List Accessor} {plan : Plan}
      {plans : List Plan} {values : List Value} {s u w t : Machine}
      (hextract : extract value a env s = (.ok (.ref r), u))
      (hplan : Checked site env (.ref r) plan w)
      (hrest : Fetched site env value rest plans values w t) :
      Fetched site env value (a :: rest)
        (plan.castTo (castNeeded? site.config.classes (plan.produces site.config.classes) a.type)
          :: plans) (.ref r :: values) s t
end

section Search

variable {α β : Type} {env : Env} {s t : Machine} {site : RebuildSite} {value : Value}

/-- A rebuild that succeeds has succeeded in both of its parts. -/
theorem bind_ok {x : Rebuild α} {f : α → Rebuild β} {b : β}
    (h : (x >>= f) env s = (.ok b, t)) :
    ∃ a u, x env s = (.ok a, u) ∧ f a env u = (.ok b, t) := by
  change ExceptT.bindCont f (x env s).1 env (x env s).2 = _ at h
  rcases hx : x env s with ⟨_ | a, u⟩
  · rw [hx] at h
    cases h
  · rw [hx] at h
    exact ⟨a, u, rfl, h⟩

/-- A second part goes on from what the first one found. -/
theorem bind_of_ok {x : Rebuild α} {f : α → Rebuild β} {a : α}
    (h : x env s = (.ok a, t)) : (x >>= f) env s = f a env t := by
  change ExceptT.bindCont f (x env s).1 env (x env s).2 = _
  rw [h]
  rfl

theorem tryCatch_of_ok {x : Rebuild α} {f : Obstacle → Rebuild α} {a : α}
    (h : x env s = (.ok a, t)) : (tryCatch x f) env s = (.ok a, t) := by
  simp only [tryCatch, tryCatchThe, MonadExceptOf.tryCatch, ExceptT.tryCatch, ExceptT.mk, bind,
    ReaderT.bind, StateT.bind, h]
  rfl

/-- What succeeds did so at once or behind an obstacle. -/
theorem tryCatch_ok {x : Rebuild α} {f : Obstacle → Rebuild α} {a : α}
    (h : (tryCatch x f) env s = (.ok a, t)) :
    x env s = (.ok a, t) ∨ ∃ e u, x env s = (.error e, u) ∧ f e env u = (.ok a, t) := by
  simp only [tryCatch, tryCatchThe, MonadExceptOf.tryCatch, ExceptT.tryCatch, ExceptT.mk, bind,
    ReaderT.bind, StateT.bind] at h
  rcases hx : x env s with ⟨e | b, u⟩
  · rw [hx] at h
    exact Or.inr ⟨e, u, rfl, h⟩
  · rw [hx] at h
    exact Or.inl h

/-- An attempt goes on whatever has come of it. -/
theorem bind_attempt {operation : Emu α} {f : Except Fault α → Rebuild β} :
    ((liftM (Probe.attempt operation) : Rebuild (Except Fault α)) >>= f) env s =
      match operation env s with
      | .ok a u => f (.ok a) env u
      | .error e u => f (.error e) env u := by
  change f (Probe.attempt operation env s).1 env (Probe.attempt operation env s).2 = _
  unfold Probe.attempt
  cases operation env s <;> rfl

/-- What is guarded succeeds only with what it guards. -/
theorem guarded_ok {obstacle : String → Obstacle} {operation : Emu α} {a : α}
    (h : guarded obstacle operation env s = (.ok a, t)) : operation env s = .ok a t := by
  unfold guarded at h
  rw [bind_attempt] at h
  cases hop : operation env s with
  | ok b u =>
      rw [hop] at h
      cases h
      rfl
  | error e u =>
      rw [hop] at h
      cases h

theorem guarded_of_ok {obstacle : String → Obstacle} {operation : Emu α} {a : α}
    (h : operation env s = .ok a t) : guarded obstacle operation env s = (.ok a, t) := by
  unfold guarded
  rw [bind_attempt, h]
  rfl

/-- Values that are found equal are so in the machine. -/
theorem equalOrFalse_true {a b : Value} (h : equalOrFalse a b env s = (.ok true, t)) :
    Emu.areEqual a b env s = .ok true t := by
  unfold equalOrFalse at h
  rw [bind_attempt] at h
  cases hequal : Emu.areEqual a b env s with
  | ok answer u =>
      rw [hequal] at h
      cases h
      rfl
  | error e u =>
      rw [hequal] at h
      cases h

/-- A field that is chosen is one of those given, and was compared. -/
theorem firstEqual?_checked {fields : List Member} {f : Member}
    (h : firstEqual? site value fields env s = (.ok (some f), t)) :
    f ∈ fields ∧ Checked site env value (.field f) t := by
  induction fields generalizing s with
  | nil => cases h
  | cons g rest ih =>
      -- A field that is not to be used, cannot be read or is not equal is passed over.
      have hlater {u} (h : firstEqual? site value rest env u = (.ok (some f), t)) :
          f ∈ g :: rest ∧ Checked site env value (.field f) t :=
        (ih h).imp_left (List.mem_cons_of_mem g)
      unfold firstEqual? at h
      split at h
      next hreusable =>
        rw [bind_attempt] at h
        cases hread : Emu.getStatic g env s with
        | error e u =>
            rw [hread] at h
            exact hlater h
        | ok candidate u =>
            rw [hread] at h
            rcases bind_ok h with ⟨equal, w, hequal, h⟩
            cases equal with
            | true =>
                cases h
                exact ⟨List.mem_cons_self,
                  Checked.field hreusable hread (equalOrFalse_true hequal)⟩
            | false => exact hlater h
      · exact hlater h

-- So a field that is reused holds an equal value.
theorem reuse_found {fields : List Member} {found : Reconstruction}
    (h : reuse site fields value env s = (.ok found, t)) :
    ∃ f ∈ fields, found = ofField f ∧ Checked site env value (.field f) t := by
  unfold reuse at h
  rcases bind_ok h with ⟨answer, u, hanswer, h⟩
  cases answer with
  | none => cases h
  | some f =>
      cases h
      rcases firstEqual?_checked hanswer with ⟨hmem, hchecked⟩
      exact ⟨f, hmem, rfl, hchecked⟩

/-- The code for one argument is a literal, or it is that of an object that was searched for. -/
inductive ArgumentCode (site : RebuildSite) (nested : HeapRef → Rebuild Reconstruction) (env : Env)
    (a : Accessor) (v : Value) (s : Machine) : List Instruction → Machine → Prop where
  | literal {load : Instruction} (h : s.heap.encoding v = .literal load) :
      ArgumentCode site nested env a v s [load] s
  | object {r : HeapRef} {found : Reconstruction} {t : Machine} (h : s.heap.encoding v = .object r)
      (hfound : nested r env s = (.ok found, t)) :
      ArgumentCode site nested env a v s (found.codeFor site.config.classes a.type) t

/-- The code of the arguments is that of the first one with the others behind it. -/
theorem encodeArguments_cons {nested : HeapRef → Rebuild Reconstruction} {a : Accessor}
    {rest : List Accessor} {values : List Value} {code : List Instruction}
    (h : encodeArguments site nested value (a :: rest) env s = (.ok (values, code), t)) :
    ∃ v u load w vs following, extract value a env s = (.ok v, u) ∧
      ArgumentCode site nested env a v u load w ∧
      encodeArguments site nested value rest env w = (.ok (vs, following), t) ∧
      values = v :: vs ∧ code = load ++ following := by
  unfold encodeArguments at h
  rcases bind_ok h with ⟨v, u, hextract, h⟩
  rcases bind_ok h with ⟨heap, _, hheap, h⟩
  cases hheap
  -- The argument is loaded by a literal, or rebuilt as an object.
  cases hencoding : u.heap.encoding v with
  | literal load =>
      simp only [hencoding] at h
      rcases bind_ok h with ⟨_, _, hload, h⟩
      cases hload
      rcases bind_ok h with ⟨⟨vs, following⟩, _, hrest, h⟩
      cases h
      exact ⟨v, u, _, _, vs, following, hextract, .literal hencoding, hrest, rfl, rfl⟩
  | object r =>
      simp only [hencoding] at h
      rcases bind_ok h with ⟨found, _, hfound, h⟩
      rcases bind_ok h with ⟨_, _, hcodeFor, h⟩
      cases hcodeFor
      rcases bind_ok h with ⟨⟨vs, following⟩, _, hrest, h⟩
      cases h
      exact ⟨v, u, _, _, vs, following, hextract, .object hencoding hfound, hrest, rfl, rfl⟩

/-- A recipe that succeeds has made a value and found it equal. -/
theorem execute_ok {nested : HeapRef → Rebuild Reconstruction} {recipe : Recipe}
    {found : Reconstruction} (h : execute site nested recipe value env s = (.ok found, t)) :
    ∃ values code made u w,
      encodeArguments site nested value recipe.accessors env s = (.ok (values, code), u) ∧
      perform recipe values env u = (.ok made, w) ∧ Emu.areEqual made value env w = .ok true t ∧
      found = ofRecipe site.config.classes recipe code := by
  unfold execute at h
  rcases bind_ok h with ⟨⟨values, code⟩, u, harguments, h⟩
  rcases bind_ok h with ⟨made, w, hperform, h⟩
  rcases bind_ok h with ⟨equal, _, hequal, h⟩
  cases equal with
  | false => cases h
  | true =>
      cases h
      exact ⟨values, code, made, u, w, harguments, hperform, guarded_ok hequal, rfl⟩

/-- An alternative succeeds as a recipe or as a field. -/
theorem attempt_ok {nested : HeapRef → Rebuild Reconstruction} {a : Alternative}
    {found : Reconstruction} (h : attempt site nested value a env s = (.ok found, t)) :
    (∃ recipe, a = .recipe recipe ∧ recipe.isExecutable = true ∧
        execute site nested recipe value env s = (.ok found, t)) ∨
      reuse site a.fields value env s = (.ok found, t) := by
  cases a with
  | reuse fields => exact .inr h
  | recipe recipe =>
      by_cases hexecutable : recipe.isExecutable = true
      · rw [attempt, if_pos hexecutable] at h
        exact .inl ⟨recipe, rfl, hexecutable, h⟩
      · rw [attempt, if_neg hexecutable] at h
        rw [Alternative.fields, if_neg hexecutable]
        exact .inr h

/-- A search within a search does not come back to an object on its path. -/
theorem within_ok {room : Nat} {visiting : List HeapRef} {r : HeapRef} {found : Reconstruction}
    (h : within site (room + 1) visiting r env s = (.ok found, t)) :
    visiting.contains r = false ∧ ∃ selector,
      site.config.selector? (s.heap.get r).className = some selector ∧
      firstOf site (within site room (r :: visiting)) (s.heap.get r).className (.ref r) []
        selector.alternatives env s = (.ok found, t) := by
  unfold within at h
  split at h
  next hcyclic =>
    rcases bind_ok h with ⟨_, _, h, _⟩
    cases h
  next hnew =>
    rcases bind_ok h with ⟨heap, _, hheap, h⟩
    cases hheap
    -- Without a selector for the class nothing is found.
    cases hselector : site.config.selector? (s.heap.get r).className with
    | none =>
        simp only [hselector] at h
        cases h
    | some selector =>
        simp only [hselector] at h
        exact ⟨Bool.eq_false_of_not_eq_true hnew, selector, rfl, h⟩

/-- What a search for code for a value has found, with the plan behind it. -/
structure Found (site : RebuildSite) (env : Env) (value : Value) (found : Reconstruction)
    (plan : Plan) (t : Machine) : Prop where
  code : found.code = plan.code site.config.classes
  produces : found.produces = plan.produces site.config.classes
  checked : Checked site env value plan t
  regular : plan.Regular env

/-- Whether what is found for objects has plans behind it. -/
def Finds (site : RebuildSite) (env : Env) (search : HeapRef → Rebuild Reconstruction) : Prop :=
  ∀ {r s found t}, search r env s = (.ok found, t) → ∃ plan, Found site env (.ref r) found plan t

/-- The arguments were read from the value by their accessors. -/
theorem encodeArguments_fetched {nested : HeapRef → Rebuild Reconstruction}
    (hnested : Finds site env nested) {accessors : List Accessor} {values : List Value}
    {code : List Instruction}
    (h : encodeArguments site nested value accessors env s = (.ok (values, code), t)) :
    ∃ plans, code = Plan.codes site.config.classes plans ∧
      Fetched site env value accessors plans values s t ∧ Plan.AllRegular env plans ∧
      plans.length = accessors.length := by
  -- Every accessor reads in the context that the search for the one before it has left.
  induction accessors generalizing s values code with
  | nil =>
      cases h
      exact ⟨[], rfl, Fetched.nil, trivial, rfl⟩
  | cons a rest ih =>
      rcases encodeArguments_cons h with
        ⟨v, u, load, w, vs, following, hextract, hload, hrest, rfl, rfl⟩
      rcases ih hrest with ⟨plans, rfl, hfetched, hregular, hlength⟩
      have hlengths : (plans.length + 1) = (a :: rest).length := by
        rw [List.length_cons, hlength]
      cases hload with
      | literal hencoding =>
          rcases Heap.exists_loads hencoding site.config.classes with ⟨plan, hloads, hcode⟩
          refine ⟨plan :: plans, ?_, Fetched.loaded hextract hloads hfetched,
            ⟨hloads.regular, hregular⟩, hlengths⟩
          rw [Plan.codes, hcode]
      | object hencoding hfound =>
          rcases hnested hfound with ⟨plan, hcode, hproduces, hchecked, hplan⟩
          rw [Heap.eq_ref_of_encoding hencoding] at hextract ⊢
          refine ⟨_ :: plans, ?_, Fetched.remade hextract hchecked hfetched,
            ⟨Plan.regular_castTo hplan _, hregular⟩, hlengths⟩
          rw [Plan.codes, Plan.code_castTo, ← hcode, ← hproduces]
          rfl

/-- What a recipe produces does not depend on its arguments. -/
theorem ofRecipe_produces {u : Universe} {recipe : Recipe} (code code' : List Instruction) :
    (ofRecipe u recipe code).produces = (ofRecipe u recipe code').produces := by
  unfold ofRecipe
  cases recipe.kind <;> rfl

/-- What a recipe has found follows a plan. -/
theorem execute_found {nested : HeapRef → Rebuild Reconstruction}
    (hnested : Finds site env nested) {recipe : Recipe} (hrecipe : recipe.Regular env)
    {found : Reconstruction} (h : execute site nested recipe value env s = (.ok found, t)) :
    ∃ plan, Found site env value found plan t := by
  rcases execute_ok h with ⟨values, code, made, u, w, harguments, hperform, hequal, rfl⟩
  rcases encodeArguments_fetched hnested harguments with ⟨plans, rfl, hfetched, hregular, hlength⟩
  exact ⟨.call recipe plans, rfl, ofRecipe_produces _ _, Checked.call hfetched hperform hequal,
    hrecipe, hlength, hregular⟩

-- So does what an alternative has found.
theorem attempt_found {nested : HeapRef → Rebuild Reconstruction}
    (hnested : Finds site env nested) {a : Alternative}
    (ha : ∀ recipe, a = .recipe recipe → recipe.isExecutable = true → recipe.Regular env)
    {found : Reconstruction} (h : attempt site nested value a env s = (.ok found, t)) :
    ∃ plan, Found site env value found plan t := by
  rcases attempt_ok h with ⟨recipe, rfl, hexecutable, h⟩ | h
  · exact execute_found hnested (ha recipe rfl hexecutable) h
  · rcases reuse_found h with ⟨f, -, rfl, hchecked⟩
    exact ⟨.field f, rfl, rfl, hchecked, trivial⟩

-- And the first alternative that succeeds.
theorem firstOf_found {nested : HeapRef → Rebuild Reconstruction}
    (hnested : Finds site env nested) {name : String} {alternatives : List Alternative}
    (ha : ∀ recipe, .recipe recipe ∈ alternatives → recipe.isExecutable = true →
      recipe.Regular env)
    {reasons : List Obstacle} {found : Reconstruction}
    (h : firstOf site nested name value reasons alternatives env s = (.ok found, t)) :
    ∃ plan, Found site env value found plan t := by
  -- What a failed alternative has done to the context stays, so the context is general.
  induction alternatives generalizing s reasons with
  | nil => cases h
  | cons a rest ih =>
      rcases tryCatch_ok h with h | ⟨_, _, _, h⟩
      · exact attempt_found hnested (fun recipe hrecipe => ha recipe (by
          rw [hrecipe]
          exact List.mem_cons_self)) h
      · exact ih (fun recipe hrecipe => ha recipe (List.mem_cons_of_mem _ hrecipe)) h

/-- A search for an object that it is not at already tries the alternatives for the class. -/
theorem within_of_selector {room : Nat} {visiting : List HeapRef} {r : HeapRef}
    {selector : Selector} (hnew : visiting.contains r = false)
    (hselector : site.config.selector? (s.heap.get r).className = some selector) :
    within site (room + 1) visiting r env s
      = firstOf site (within site room (r :: visiting)) (s.heap.get r).className (.ref r) []
          selector.alternatives env s := by
  have hheap : (Probe.heap : Rebuild Heap) env s = (.ok s.heap, s) := rfl
  have hfree : ¬visiting.contains r = true := by
    rw [hnew]
    exact Bool.false_ne_true
  unfold within
  rw [if_neg hfree]
  refine (bind_of_ok hheap).trans ?_
  simp only [hselector]

/-- A search finds the code of a plan that it has checked. -/
theorem within_finds
    (hrecipes : ∀ name selector recipe, site.config.selector? name = some selector →
      .recipe recipe ∈ selector.alternatives → recipe.isExecutable = true → recipe.Regular env)
    (room : Nat) (visiting : List HeapRef) : Finds site env (within site room visiting) := by
  -- Code for an argument is searched for with less room.
  induction room generalizing visiting with
  | zero =>
      intro r s found t h
      cases h
  | succ room ih =>
      intro r s found t h
      rcases within_ok h with ⟨-, selector, hselector, h⟩
      exact firstOf_found (ih (r :: visiting))
        (fun recipe hrecipe => hrecipes _ _ recipe hselector hrecipe) h

/-- Where the accessors have fetched numbers and `null` only, their plans make the same. -/
theorem Fetched.makeAll_eq {accessors : List Accessor} {plans : List Plan} {values : List Value}
    {s t : Machine} (h : Fetched site env value accessors plans values s t)
    (hvalues : ∀ v ∈ values, v.reference? = none) :
    Plan.makeAll plans = (do values.forM fun _ => Emu.tick; return values) := by
  match h with
  | .nil => rfl
  | .loaded hextract hload hrest =>
      have hfirst := hload.make_eq (hvalues _ List.mem_cons_self)
      have hrest := hrest.makeAll_eq fun v hv => hvalues v (List.mem_cons_of_mem _ hv)
      rw [Plan.makeAll, hfirst, hrest]
      simp only [List.forM, bind_assoc, pure_bind]
  | .remade hextract _ _ => cases hvalues _ List.mem_cons_self

/-- A recipe that was checked on numbers and `null` is run on the same values by its code. -/
theorem Checked.make_eq {recipe : Recipe} {plans : List Plan}
    (h : Checked site env value (.call recipe plans) t) :
    ∃ values made u w, perform recipe values env u = (.ok made, w) ∧
      Emu.areEqual made value env w = .ok true t ∧
      ((∀ v ∈ values, v.reference? = none) →
        (Plan.call recipe plans).make =
          recipe.make (do values.forM fun _ => Emu.tick; return values)) := by
  cases h with
  | call hfetched hperform hequal =>
      refine ⟨_, _, _, _, hperform, hequal, fun hvalues => ?_⟩
      rw [Plan.make, hfetched.makeAll_eq hvalues]

end Search

/-- Code that a search has found reproduces the object if and only if the plan behind it remakes
    the object. The plan was checked, but each recipe on what was fetched from an object and not on
    what the plans of its arguments make. -/
theorem reproduces_iff_remakes {site : RebuildSite} {env : Env} {r : HeapRef} {s t : Machine}
    {found : Reconstruction} (c : ClassFile)
    (hrecipes : ∀ name selector recipe, site.config.selector? name = some selector →
      .recipe recipe ∈ selector.alternatives → recipe.isExecutable = true → recipe.Regular env)
    (hrun : run site r env s = (.ok found, t)) :
    ∃ plan, found.code = plan.code site.config.classes ∧ Checked site env (.ref r) plan t ∧
      (Emu.Reproduces c env t found.code (.ref r) ↔ plan.Remakes env t (.ref r)) := by
  change within site maxRebuildDepth [] r env { s with executed := 0 } = _ at hrun
  rcases within_finds hrecipes _ _ hrun with ⟨plan, hcode, _, hchecked, hregular⟩
  refine ⟨plan, hcode, hchecked, ?_⟩
  rw [hcode]
  exact Plan.reproduces_iff hregular

section Demo

/-- The class `demo/Sole` has one object, which can be looked up in two ways. -/
inductive SoleKey where
  /-- By the identity of its name. -/
  | name
  | number

/-- A member of the class. -/
def soleMember (name descriptor : String) : Member :=
  ⟨"demo/Sole", name, descriptor⟩

/-- The static field that keeps the object. -/
def soleIt : Member := soleMember "it" "Ldemo/Sole;"

namespace SoleKey

/-- The types of the two keys. -/
def type : SoleKey → FieldType
  | .name => .object "java/lang/String"
  | .number => .int

/-- The field of the object. -/
def field : SoleKey → Member
  | .name => soleMember "name" "Ljava/lang/String;"
  | .number => soleMember "number" "I"

/-- What the field holds. The string is not the canonical one. -/
def held : SoleKey → Value
  | .name => .ref ⟨0⟩
  | .number => .int 7

/-- The opcode that loads an argument. -/
def load : SoleKey → Opcode
  | .name => .aload
  | .number => .iload

/-- The opcode that branches if two values differ. -/
def differs : SoleKey → Opcode
  | .name => .ifAcmpne
  | .number => .ifIcmpne

/-- The method that looks the object up. -/
def method : SoleKey → Member
  | .name => soleMember "of" "(Ljava/lang/String;)Ldemo/Sole;"
  | .number => soleMember "of" "(I)Ldemo/Sole;"

/-- The method gives the object if its argument is what the field holds, and `null` otherwise. -/
def body (k : SoleKey) : Body where
  maxStack := 2
  maxLocals := 1
  instructions := [.var k.load 0, .field .getstatic soleIt, .field .getfield k.field,
    .jump k.differs ⟨0⟩, .field .getstatic soleIt, .simple .areturn, .label ⟨0⟩,
    .simple .aconstNull, .simple .areturn]

/-- The recipe that reads the field and looks the object up. -/
def recipe (k : SoleKey) : Recipe :=
  .ofFactory k.method [.ofField "demo/Sole" k.field.name k.type]

end SoleKey

/-- The class. -/
def soleClass : ClassFile where
  name := "demo/Sole"
  fields := ⟨⟨8⟩, "it", "Ldemo/Sole;", none, [], []⟩ ::
    [SoleKey.name, .number].map fun k => ⟨⟨0⟩, k.field.name, k.field.descriptor, none, [], []⟩
  methods := [SoleKey.name, .number].map fun k =>
    { access := ⟨8⟩, name := k.method.name, descriptor := k.method.descriptor
      body := some k.body }

/-- The universe with that class alone. -/
def soleUniverse : Universe :=
  .ofClasses [soleClass]

def soleProgram : Program :=
  Program.ofUniverse soleUniverse

/-- A place in no initializer, where objects of the class are made by one of the recipes. -/
def soleSite (k : SoleKey) : RebuildSite where
  config :=
    { types := ∅
      fields := ∅
      methods := ∅
      selectors := (∅ : Std.TreeMap String Selector).insert "demo/Sole" (.only (.recipe k.recipe))
      foldsConcat := false
      output := none
      limits := {}
      classes := soleUniverse }
  order := {}
  position := 0

/-- What the machine is given for the program. -/
abbrev soleEnv : Env :=
  Engine.env soleProgram {}

def soleFields : Fields :=
  [SoleKey.name, .number].map fun k => (k.field, k.held)

/-- The context in which the class is initialized and keeps the object. -/
def soleStart : Machine where
  heap := { objects := #[.string (.ofString "x"), .instance "demo/Sole" soleFields] }
  statics := (∅ : Std.HashMap Member Value).insert soleIt (.ref ⟨1⟩)
  initialized := (∅ : Std.HashMap String InitState).insert "demo/Sole" .done

/-- What all contexts of the runs below have in common. -/
structure SoleReady (s : Machine) : Prop where
  done : s.initialized["demo/Sole"]? = some .done
  it : s.statics[soleIt]? = some (.ref ⟨1⟩)
  object : s.heap.get ⟨1⟩ = .instance "demo/Sole" soleFields

theorem soleReady_start : SoleReady soleStart :=
  ⟨Std.HashMap.getElem?_insert_self, Std.HashMap.getElem?_insert_self, rfl⟩

/-- Counting an instruction changes nothing of it. -/
theorem SoleReady.ticked {s : Machine} (h : SoleReady s) : SoleReady s.ticked :=
  ⟨h.done, h.it, h.object⟩

/-- The method made ready. -/
def solePrepared (k : SoleKey) : Prepared :=
  .unguarded soleClass k.method k.body

/-- The body of the lookup can be run. -/
theorem prepare_sole (k : SoleKey) : soleProgram.prepare k.method = .ok (solePrepared k) := by
  unfold soleProgram
  rw [Program.prepare_ofUniverse]
  cases k <;> rfl

/-- Where it jumps to. -/
theorem target_sole (k : SoleKey) : (solePrepared k).target ⟨0⟩ = .ok 6 := by
  simp [solePrepared, Prepared.unguarded, SoleKey.body, Prepared.target, Prepared.position,
    Prepared.labelPositions]

/-- The class is found by name. -/
theorem class?_sole : soleProgram.classes.class? "demo/Sole" = some soleClass :=
  rfl

/-- The lookup is a method of its own class. -/
theorem directTarget_sole (k : SoleKey) :
    soleEnv.directTarget k.method = .ok (.bytecode k.method) := by
  cases k <;> exact Env.directTarget_of_method? class?_sole rfl

-- And so are the fields.
theorem fieldOwner?_sole (k : SoleKey) :
    soleProgram.classes.fieldOwner? k.field = some "demo/Sole" := by
  cases k <;> exact Universe.fieldOwner?_of_field? class?_sole rfl

/-- Whether an argument differs from what the field holds, as the branch of the method sees it. -/
def SoleKey.Tells (k : SoleKey) (v : Value) (taken : Bool) : Prop :=
  ∃ test, Stack.branch? k.differs = some test ∧ test [k.held, v] = .ok (taken, [])

section Lookup

variable {k : SoleKey} {s : Machine} {v : Value} {taken : Bool} {levels depth : Nat}

/-- The argument is loaded first. -/
theorem step_load (t : Machine) :
    Emu.step soleClass (.var k.load 0) (.start 1 [v]) (Engine.inside soleProgram {} levels depth) t
      = .ok (.next [v]) t := by
  have hlocal : (Activation.start 1 [v]).load 0 = .ok v := by
    cases v <;> rfl
  cases k <;>
  · change (Emu.lift ((Activation.start 1 [v]).load 0) >>= fun v => pure (.next [v]) : Emu Flow)
      _ t = _
    rw [hlocal]
    rfl

/-- Then the object. -/
theorem getStatic_it (h : SoleReady s) :
    Emu.getStatic soleIt (Engine.inside soleProgram {} (levels + 1) depth) s
      = .ok (.ref ⟨1⟩) s := by
  have howner : soleProgram.classes.fieldOwner? soleIt = some "demo/Sole" :=
    Universe.fieldOwner?_of_field? class?_sole rfl
  exact Emu.getStatic_of_done howner h.done h.it

-- And the key that it holds.
theorem getField_held (h : SoleReady s) :
    Emu.getField (.ref ⟨1⟩) k.field (Engine.inside soleProgram {} levels depth) s
      = .ok k.held s := by
  have hheld : soleFields.get? (k.field.withOwner "demo/Sole") = some k.held := by
    cases k <;> rfl
  exact Emu.getField_of_instance (fieldOwner?_sole k) h.object hheld

/-- The jump is taken exactly if the keys differ. -/
theorem step_differs (ht : k.Tells v taken) (a : Activation) (t : Machine) :
    Emu.step soleClass (.jump k.differs ⟨0⟩) (a.withStack [k.held, v])
      (Engine.inside soleProgram {} levels depth) t
      = .ok (if taken then .jump ⟨0⟩ [] else .next []) t := by
  rcases ht with ⟨test, hdiffers, htest⟩
  unfold Emu.step
  simp only [hdiffers, Activation.withStack, htest]
  rfl

/-- The context after a look-up. -/
def afterLookup (s : Machine) : Machine :=
  { s with executed := s.executed + 6 }

-- So the lookup gives the object for its own key, and null for any other.
theorem run_lookup (h : SoleReady s) (ht : k.Tells v taken) :
    Emu.run? (solePrepared k) (Engine.inside soleProgram {} (levels + 1) depth) 7 (.start 1 [v]) 0 s
      = some (.ok (some (if taken then .null else .ref ⟨1⟩)) (afterLookup s)) := by
  have h₂ := h.ticked.ticked
  have h₃ := h₂.ticked
  have h₅ := h₃.ticked.ticked
  rw [Emu.run?_next (m := .var k.load 0) rfl rfl rfl (step_load s.ticked)]
  rw [Emu.run?_next (m := .field .getstatic soleIt) rfl rfl rfl
    (Emu.step_getstatic (getStatic_it h₂))]
  rw [Emu.run?_next (m := .field .getfield k.field) rfl rfl rfl
    (Emu.step_getfield (getField_held h₃))]
  change Emu.run? _ _ 4 (Activation.withStack (.start 1 [v]) [k.held, v]) 3 _ = _
  -- Up to the branch both runs are the same.
  cases taken with
  | true =>
      rw [Emu.run?_jump (m := .jump k.differs ⟨0⟩) rfl rfl rfl (step_differs ht _ _)
        (target_sole k)]
      rw [Emu.run?_mark (m := .label ⟨0⟩) rfl rfl]
      rw [Emu.run?_next (m := .simple .aconstNull) rfl rfl rfl rfl]
      exact Emu.run?_finish (m := .simple .areturn) rfl rfl rfl rfl
  | false =>
      rw [Emu.run?_next (m := .jump k.differs ⟨0⟩) rfl rfl rfl (step_differs ht _ _)]
      rw [Emu.run?_next (m := .field .getstatic soleIt) rfl rfl rfl
        (Emu.step_getstatic (getStatic_it h₅))]
      exact Emu.run?_finish (m := .simple .areturn) rfl rfl rfl rfl

/-- A call of the method gives the object unless its argument differs from what the field holds. -/
theorem invoke_lookup (h : SoleReady s) (ht : k.Tells v taken) :
    Emu.invoke .static k.method [v] soleEnv s
      = .ok (some (if taken then .null else .ref ⟨1⟩)) (afterLookup s) := by
  have htarget := directTarget_sole k
  have hdone : s.initialized[k.method.owner]? = some .done := by
    cases k <;> exact h.done
  rw [soleEnv, Engine.env_eq_inside] at htarget ⊢
  exact Emu.invoke_static htarget hdone (by decide) (prepare_sole k) (by decide) (run_lookup h ht)

/-- The method returns something whatever it is given. -/
theorem recipe_regular (k : SoleKey) : k.recipe.Regular soleEnv where
  parameters := by
    cases k with
    | name =>
        exact ⟨⟨[.object "java/lang/String"], some (.object "demo/Sole")⟩, by cbv, rfl⟩
    | number => exact ⟨⟨[.int], some (.object "demo/Sole")⟩, by cbv, rfl⟩
  result := by
    intro values s x t h
    -- The body returns a value on every way out.
    have hx : x ≠ none := by
      rintro rfl
      have htarget := directTarget_sole k
      rw [soleEnv, Engine.env_eq] at htarget h
      rcases Emu.execute_of_invoke_static htarget h with ⟨q, u, hq, hexecute⟩
      rw [prepare_sole k] at hq
      cases hq
      have hreturn := Emu.execute_none hexecute
      simp [solePrepared, Prepared.unguarded, SoleKey.body] at hreturn
    exact ⟨fun h => absurd h hx, fun h => by cases h⟩

/-- A configuration with one selector that has one alternative has no other alternative. -/
theorem eq_of_mem_only {config : Config} {owner name : String} {a b : Alternative}
    {selector : Selector}
    (hselectors : config.selectors = (∅ : Std.TreeMap String Selector).insert owner (.only a))
    (hselector : config.selector? name = some selector) (hb : b ∈ selector.alternatives) :
    b = a := by
  rcases List.exists_of_findSome?_eq_some hselector with ⟨ancestor, _, hancestor⟩
  change config.selectors[ancestor]? = some selector at hancestor
  rw [hselectors, Std.TreeMap.getElem?_insert] at hancestor
  split at hancestor
  · cases hancestor
    exact List.mem_singleton.mp hb
  · simp at hancestor

/-- The site has no other alternative. -/
theorem eq_of_mem_soleSite {k : SoleKey} {name : String} {selector : Selector} {a : Alternative}
    (hselector : (soleSite k).config.selector? name = some selector)
    (ha : a ∈ selector.alternatives) : a = .recipe k.recipe :=
  eq_of_mem_only rfl hselector ha

/-- The recipes of the site make plain calls. -/
theorem site_regular (k : SoleKey) (name : String) (selector : Selector) (recipe : Recipe)
    (hselector : (soleSite k).config.selector? name = some selector)
    (hrecipe : .recipe recipe ∈ selector.alternatives) (_ : recipe.isExecutable = true) :
    recipe.Regular soleEnv := by
  cases eq_of_mem_soleSite hselector hrecipe
  exact recipe_regular k

/-- A constant argument is loaded. -/
theorem encodeArguments_literal {nested : HeapRef → Rebuild Reconstruction} {value v : Value}
    {a : Accessor} {load : Instruction} {env : Env} {s t : Machine}
    (hextract : extract value a env s = (.ok v, t)) (hload : t.heap.encoding v = .literal load) :
    encodeArguments (soleSite k) nested value [a] env s = (.ok ([v], [load]), t) := by
  have hheap : (Probe.heap : Rebuild Heap) env t = (.ok t.heap, t) := rfl
  refine (bind_of_ok hextract).trans ((bind_of_ok hheap).trans ?_)
  dsimp only
  rw [hload]
  rfl

/-- The accessor fetches what the field holds. -/
theorem extract_sole (k : SoleKey) :
    extract (.ref ⟨1⟩) (.ofField "demo/Sole" k.field.name k.type) soleEnv soleStart
      = (.ok k.held, soleStart) := by
  refine guarded_of_ok ?_
  rw [soleEnv, Engine.env_eq]
  cases k <;> exact getField_held soleReady_start

/-- The selector of the class has the recipe alone. -/
theorem selector?_sole (k : SoleKey) :
    (soleSite k).config.selector? "demo/Sole" = some (.only (.recipe k.recipe)) := by
  unfold Config.selector?
  rw [Universe.ancestors_of_objectClass rfl rfl rfl]
  rfl

/-- A search tries the recipe on what the field holds, and the object is found. -/
theorem run_soleSite (k : SoleKey) (load : Instruction)
    (hload : soleStart.heap.encoding k.held = .literal load) (ht : k.Tells k.held false) :
    run (soleSite k) ⟨1⟩ soleEnv soleStart
      = (.ok (ofRecipe soleUniverse k.recipe [load]), afterLookup soleStart) := by
  -- From the inside out: the argument, the call, the recipe, the search.
  have harguments : encodeArguments (soleSite k) (within (soleSite k) 31 [⟨1⟩]) (.ref ⟨1⟩)
      k.recipe.accessors soleEnv soleStart = (.ok ([k.held], [load]), soleStart) :=
    encodeArguments_literal (extract_sole k) hload
  have hperform : perform k.recipe [k.held] soleEnv soleStart
      = (.ok (.ref ⟨1⟩), afterLookup soleStart) := by
    change (guarded _ (Emu.invoke .static k.method [k.held]) >>= _) _ _ = _
    rw [bind_of_ok (guarded_of_ok (invoke_lookup soleReady_start ht))]
    rfl
  have hexecute : execute (soleSite k) (within (soleSite k) 31 [⟨1⟩]) k.recipe (.ref ⟨1⟩) soleEnv
      soleStart = (.ok (ofRecipe soleUniverse k.recipe [load]), afterLookup soleStart) := by
    unfold execute
    rw [bind_of_ok harguments]
    change (perform _ [k.held] >>= _) _ _ = _
    rw [bind_of_ok hperform]
    rfl
  have hwithin : within (soleSite k) maxRebuildDepth [] ⟨1⟩ soleEnv soleStart
      = (.ok (ofRecipe soleUniverse k.recipe [load]), afterLookup soleStart) := by
    unfold maxRebuildDepth
    rw [within_of_selector rfl (selector?_sole k)]
    exact tryCatch_of_ok hexecute
  exact hwithin

/-- What the code of the recipe does, if the plan for the argument makes a value. -/
theorem make_lookup {plan : Plan} {u : Machine} (hplan : plan.make soleEnv s = .ok v u)
    (h : SoleReady u) (ht : k.Tells v taken) :
    (Plan.call k.recipe [plan]).make soleEnv s
      = .ok (if taken then .null else .ref ⟨1⟩) (afterLookup u.ticked) := by
  have hvalues : Plan.makeAll [plan] soleEnv s = .ok [v] u := by
    rw [Plan.makeAll, Emu.bind_apply, hplan]
    rfl
  change (Plan.makeAll [plan] >>= fun values => _ : Emu Value) _ _ = _
  rw [Emu.bind_apply, hvalues]
  change (Emu.tick >>= fun _ => _ : Emu Value) _ _ = _
  rw [Emu.bind_apply, Emu.tick_of_no_limit rfl]
  change (Emu.invoke .static k.method [v] >>= fun _ => _ : Emu Value) _ _ = _
  rw [Emu.bind_apply, invoke_lookup h.ticked ht]
  rfl

end Lookup

/-- The recipe by number: its argument is loaded as it was fetched, and the object is found
    again. -/
theorem reproduces_iff_remakes_number :
    ∃ found t, run (soleSite .number) ⟨1⟩ soleEnv soleStart = (.ok found, t) ∧
      Emu.Reproduces soleClass soleEnv t found.code (.ref ⟨1⟩) ∧
      ∃ plan, found.code = plan.code soleUniverse ∧
        Checked (soleSite .number) soleEnv (.ref ⟨1⟩) plan t ∧
        (Emu.Reproduces soleClass soleEnv t found.code (.ref ⟨1⟩) ↔
          plan.Remakes soleEnv t (.ref ⟨1⟩)) := by
  have ht : SoleKey.number.Tells (.int 7) false := ⟨_, rfl, rfl⟩
  have hrun := run_soleSite .number (.push .bipush 7) rfl ht
  refine ⟨_, _, hrun, ?_, reproduces_iff_remakes soleClass (site_regular .number) hrun⟩
  have hregular : (Plan.call SoleKey.number.recipe [.constant (.int 7)]).Regular soleEnv :=
    ⟨recipe_regular .number, rfl, trivial, trivial⟩
  have hload : (Plan.constant (.int 7)).make soleEnv (afterLookup soleStart)
      = .ok (.int 7) (afterLookup soleStart).ticked := rfl
  have hready : SoleReady (afterLookup soleStart).ticked :=
    ⟨soleReady_start.done, soleReady_start.it, rfl⟩
  exact (Plan.reproduces_iff (u := soleUniverse) hregular).mpr
    ⟨_, _, _, make_lookup hload hready ht, rfl⟩

/-- The context with the canonical string for the name. -/
def withName (s : Machine) : Machine :=
  { s with heap := { s.heap with
      objects := s.heap.objects.push (.string (.ofString "x"))
      interned := s.heap.interned.insert (.ofString "x") ⟨2⟩ } }

/-- The recipe by name: the string is loaded as the canonical one, by which the object is not
    found. -/
theorem name_not_reproduced :
    ∃ found t, run (soleSite .name) ⟨1⟩ soleEnv soleStart = (.ok found, t) ∧
      ¬Emu.Reproduces soleClass soleEnv t found.code (.ref ⟨1⟩) := by
  have hrun := run_soleSite .name (.ldc (.string "x")) rfl ⟨_, rfl, rfl⟩
  have hregular : (Plan.call SoleKey.name.recipe [.constant (.string "x")]).Regular soleEnv :=
    ⟨recipe_regular .name, rfl, trivial, trivial⟩
  have hload : (Plan.constant (.string "x")).make soleEnv (afterLookup soleStart)
      = .ok (.ref ⟨2⟩) (withName (afterLookup soleStart).ticked) := by
    change (Emu.tick >>= fun _ => Emu.intern "x") _ _ = _
    rw [Emu.bind_apply, Emu.tick_of_no_limit rfl]
    change EStateM.Result.ok (Value.ref (soleStart.heap.intern (.ofString "x")).1)
      { (afterLookup soleStart).ticked with
        heap := (soleStart.heap.intern (.ofString "x")).2 } = _
    have hnew : soleStart.heap.interned[Units.ofString "x"]? = none := Std.HashMap.getElem?_empty
    unfold Heap.intern
    rw [hnew]
    rfl
  have hready : SoleReady (withName (afterLookup soleStart).ticked) :=
    ⟨soleReady_start.done, soleReady_start.it, rfl⟩
  have ht : SoleKey.name.Tells (.ref ⟨2⟩) true := ⟨_, rfl, rfl⟩
  have hmake := make_lookup hload hready ht
  refine ⟨_, _, hrun, fun hreproduces => ?_⟩
  -- What the code leaves is `null`, and that is equal to no object.
  rcases (Plan.reproduces_iff (u := soleUniverse) hregular).mp hreproduces with
    ⟨v, u, w, hv, hequal⟩
  rw [hmake] at hv
  cases hv
  cases hequal

end Demo

end Rebuild

end JvmFold
