import JvmFold.Proofs.Rebuild.Fidelity

/-!
# The Search for Code Ends

A search for code for an object goes on to the objects that accessors fetch
from it. They may be shared, they may lead back, and an accessor that is called
may answer a new object every time. So the objects that have been seen are no
bound. What bounds the search is how deep it nests.

Here it is written down without any bound on how far it may recurse: a search
that did not come to an end would have no result. The objects that it is looking
for code for are on a path that it pushes to and pops from, and the depth is
handed on. Wherever either of them is about to matter they are noted down.

The induction is on how much deeper a search may nest. It shows at once that a
search has a result, that it is the one of the search that counts down, that the
path is back as it was, and what has been noted.

## Main definitions

* `Descent`: The path of a search, and what was noted.
* `Rebuild.search`: The search without a bound on its recursion.
* `Walk.Follows`: A part of a search has a result and keeps the path.

## Theorems

* `Rebuild.follows_search`: A search from any depth.
* `Rebuild.reconstruct_ends`: The search for code for an object.
-/

namespace JvmFold

/-- How deep a search is nested, and the path at that point. -/
structure Stage where
  depth : Nat
  /-- The objects that code is looked for, the last one first. -/
  visiting : List HeapRef
deriving DecidableEq, Repr

/-- The path of a search. -/
structure Descent where
  /-- The objects that code is looked for, the last one first. -/
  visiting : List HeapRef := []
  /-- What was noted so far, the last one first. -/
  stages : List Stage := []

/-- A part of a search. It has no result if it does not come to an end. -/
abbrev Walk := StateT Descent (ReaderT Env (StateT Machine Option))

namespace Walk

/-- A part of a search that has no share in its path. -/
def plain {α : Type} (x : Rebuild α) : Walk (Except Obstacle α) := fun d env s =>
  some (((x env s).1, d), (x env s).2)

/-- The heap. -/
def heap : Walk Heap := fun d _ s =>
  some ((s.heap, d), s)

/-- Notes how deep the search is nested. -/
def note (depth : Nat) : Walk Unit :=
  modify fun d => { d with stages := ⟨depth, d.visiting⟩ :: d.stages }

/-- Puts an object on the path. -/
def push (r : HeapRef) : Walk Unit :=
  modify fun d => { d with visiting := r :: d.visiting }

/-- Takes an object from the path. -/
def pop : Walk Unit :=
  modify fun d => { d with visiting := d.visiting.tail }

end Walk

namespace Rebuild

/-- Runs a recipe on its arguments and compares what it makes. -/
def performChecked (site : RebuildSite) (recipe : Recipe) (value : Value)
    (arguments : List Value) (code : List Instruction) : Rebuild Reconstruction := do
  let made ← perform recipe arguments
  if ← guarded (.comparisonFailed recipe) (Emu.areEqual made value) then
    return ofRecipe site.config.classes recipe code
  else throw (.unequal recipe)

mutual
/-- Looks for code for an object. -/
def search (site : RebuildSite) (depth : Nat) (r : HeapRef) :
    Walk (Except Obstacle Reconstruction) := do
  Walk.note depth
  if maxRebuildDepth ≤ depth then return .error .tooDeep
  else if (← get).visiting.contains r then return .error .cyclic
  else
    let name := ((← Walk.heap).get r).className
    match site.config.selector? name with
    | none => return .error (.noSelector name)
    | some s => do
      Walk.push r
      Walk.note (depth + 1)
      let found ← (searchFirst (v := .ref r)) site depth name [] s.alternatives
      Walk.pop
      return found
partial_fixpoint

/-- Tries alternatives in turn; `reasons` are the obstacles so far. -/
def searchFirst (site : RebuildSite) (depth : Nat) (name : String) (v : Value)
    (reasons : List Obstacle) : List Alternative → Walk (Except Obstacle Reconstruction)
  | [] => return .error (.exhausted name reasons)
  | a :: rest => do
    match ← (searchAlternative (v := v)) site depth a with
    | .ok found => return .ok found
    | .error o => (searchFirst (v := v)) site depth name (reasons ++ [o]) rest
partial_fixpoint

/-- Tries an alternative. -/
def searchAlternative (site : RebuildSite) (depth : Nat) (v : Value) :
    Alternative → Walk (Except Obstacle Reconstruction)
  | .reuse fields => Walk.plain (reuse site fields v)
  | .recipe r =>
    if r.isExecutable then (searchRecipe (v := v)) site depth r
    else Walk.plain (reuse site [r.member] v)
partial_fixpoint

/-- Tries a recipe. -/
def searchRecipe (site : RebuildSite) (depth : Nat) (v : Value) (recipe : Recipe) :
    Walk (Except Obstacle Reconstruction) := do
  match ← (searchArguments (v := v)) site depth recipe.accessors with
  | .error o => return .error o
  | .ok (arguments, code) => Walk.plain (performChecked site recipe v arguments code)
partial_fixpoint

/-- Fetches the arguments of a recipe and looks for code for each. -/
def searchArguments (site : RebuildSite) (depth : Nat) (v : Value) :
    List Accessor → Walk (Except Obstacle (List Value × List Instruction))
  | [] => return .ok ([], [])
  | a :: rest => do
    match ← Walk.plain (extract v a) with
    | .error o => return .error o
    | .ok part =>
      match ← (searchCode (v := part)) site depth a.type with
      | .error o => return .error o
      | .ok code =>
        match ← (searchArguments (v := v)) site depth rest with
        | .error o => return .error o
        | .ok (values, following) => return .ok (part :: values, code ++ following)
partial_fixpoint

/-- Looks for code for an argument, one level deeper if it is an object. -/
def searchCode (site : RebuildSite) (depth : Nat) (type : FieldType) (v : Value) :
    Walk (Except Obstacle (List Instruction)) := do
  match (← Walk.heap).encoding v with
  | .literal load => return .ok [load]
  | .object r =>
    match ← (search (r := r)) site (depth + 1) with
    | .error o => return .error o
    | .ok found => return .ok (found.codeFor site.config.classes type)
partial_fixpoint
end

/-- Looks for code for an object, when none is on the path. -/
def reconstruct (site : RebuildSite) (r : HeapRef) : Walk (Except Obstacle Reconstruction) :=
  fun d env s => search site 0 r d env { s with executed := 0 }

section Results

variable {α β : Type} {env : Env} {s t : Machine}

/-- An obstacle ends the rebuild. -/
theorem bind_of_error {x : Rebuild α} {f : α → Rebuild β} {o : Obstacle}
    (h : x env s = (.error o, t)) : (x >>= f) env s = (.error o, t) := by
  change ExceptT.bindCont f (x env s).1 env (x env s).2 = _
  rw [h]
  rfl

-- Or is passed to the handler.
theorem tryCatch_of_error {x : Rebuild α} {f : Obstacle → Rebuild α} {o : Obstacle}
    (h : x env s = (.error o, t)) : (tryCatch x f) env s = f o env t := by
  simp only [tryCatch, tryCatchThe, MonadExceptOf.tryCatch, ExceptT.tryCatch, ExceptT.mk, bind,
    ReaderT.bind, StateT.bind, h]

end Results

end Rebuild

/-- A note further along a path. The search is deeper by as much as the path is longer, and no
    object is on the path twice if none was before. -/
structure Stage.Extends (depth : Nat) (visiting : List HeapRef) (stage : Stage) : Prop where
  above : visiting <:+ stage.visiting
  depth_eq : stage.depth + visiting.length = depth + stage.visiting.length
  depth_le : stage.depth ≤ max depth maxRebuildDepth
  nodup : visiting.Nodup → stage.visiting.Nodup

/-- A part of a search from a path has a result, and it is that of the search that counts down. The
    path is back as it was, and what was noted lies further along it. -/
def Walk.Follows {α : Type} (depth : Nat) (visiting : List HeapRef)
    (x : Walk (Except Obstacle α)) (y : Rebuild α) : Prop :=
  ∀ (stages : List Stage) (env : Env) (s : Machine),
    ∃ new : List Stage, (∀ stage ∈ new, stage.Extends depth visiting) ∧
      x ⟨visiting, stages⟩ env s
        = some (((y env s).1, ⟨visiting, new ++ stages⟩), (y env s).2)

section Follows

variable {α β : Type} {depth : Nat} {visiting : List HeapRef} {r : HeapRef}

theorem Stage.extends_self : (Stage.mk depth visiting).Extends depth visiting :=
  ⟨List.suffix_rfl, rfl, Nat.le_max_left .., id⟩

/-- What lies further along from an object that was put on the path. -/
theorem Stage.Extends.ofDeeper {stage : Stage} (h : stage.Extends (depth + 1) (r :: visiting))
    (hdepth : ¬maxRebuildDepth ≤ depth) (hr : r ∉ visiting) : stage.Extends depth visiting := by
  have heq := h.depth_eq
  have hle := h.depth_le
  rw [List.length_cons] at heq
  exact ⟨(List.suffix_cons r visiting).trans h.above, by omega, by omega,
    fun hnodup => h.nodup (List.nodup_cons.2 ⟨hr, hnodup⟩)⟩

/-- The second part of a walk goes on with what the first one noted. -/
theorem Walk.bind_apply {x : Walk α} {f : α → Walk β} {d : Descent} {env : Env} {s : Machine} :
    (x >>= f) d env s = (x d env s).bind fun result =>
      f result.1.1 result.1.2 env result.2 :=
  rfl

/-- A part that descends nowhere follows itself. -/
theorem Walk.follows_plain (x : Rebuild α) : (Walk.plain x).Follows depth visiting x :=
  fun _ _ _ => ⟨[], nofun, rfl⟩

theorem Walk.follows_ok (a : α) :
    Walk.Follows depth visiting (pure (.ok a)) (pure a) :=
  fun _ _ _ => ⟨[], nofun, rfl⟩

theorem Walk.follows_error (o : Obstacle) :
    Walk.Follows depth visiting (pure (.error o)) (throw o : Rebuild α) :=
  fun _ _ _ => ⟨[], nofun, rfl⟩

/-- The heap is the same in both. -/
theorem Walk.follows_heap {f : Heap → Walk (Except Obstacle α)} {g : Heap → Rebuild α}
    (h : ∀ heap, (f heap).Follows depth visiting (g heap)) :
    (Walk.heap >>= f).Follows depth visiting (liftM Probe.heap >>= g) :=
  fun stages env s => h s.heap stages env s

/-- The path is the one that the search is on. -/
theorem Walk.follows_get {f : Descent → Walk (Except Obstacle α)} {y : Rebuild α}
    (h : ∀ d, d.visiting = visiting → (f d).Follows depth visiting y) :
    (get >>= f).Follows depth visiting y :=
  fun stages env s => h ⟨visiting, stages⟩ rfl stages env s

/-- Noting the depth changes nothing of what is found. -/
theorem Walk.Follows.note {x : Walk (Except Obstacle α)} {y : Rebuild α}
    (h : x.Follows depth visiting y) :
    (Walk.note depth >>= fun _ => x).Follows depth visiting y := by
  intro stages env s
  rcases h (⟨depth, visiting⟩ :: stages) env s with ⟨new, hnew, heq⟩
  refine ⟨new ++ [⟨depth, visiting⟩],
    List.forall_mem_append.2 ⟨hnew, List.forall_mem_singleton.2 Stage.extends_self⟩, ?_⟩
  rw [List.append_assoc]
  exact heq

/-- What is done with an object on the path, which is taken from it again. -/
theorem Walk.Follows.pushed {x : Walk (Except Obstacle α)} {y : Rebuild α}
    (h : x.Follows (depth + 1) (r :: visiting) y) (hdepth : ¬maxRebuildDepth ≤ depth)
    (hr : r ∉ visiting) :
    (do
      Walk.push r
      let found ← x
      Walk.pop
      return found).Follows depth visiting y := by
  intro stages env s
  rcases h stages env s with ⟨new, hnew, heq⟩
  refine ⟨new, fun stage hstage => (hnew stage hstage).ofDeeper hdepth hr, ?_⟩
  have hpush : Walk.push r ⟨visiting, stages⟩ env s
      = some (((), ⟨r :: visiting, stages⟩), s) := rfl
  rw [Walk.bind_apply, hpush, Option.bind_some, Walk.bind_apply, heq]
  rfl

/-- What goes on from an answer. An obstacle is handed on. -/
theorem Walk.Follows.bind {x : Walk (Except Obstacle α)} {y : Rebuild α}
    {f : Except Obstacle α → Walk (Except Obstacle β)} {g : α → Rebuild β}
    (hx : x.Follows depth visiting y) (herror : ∀ o, f (.error o) = pure (.error o))
    (hf : ∀ a, (f (.ok a)).Follows depth visiting (g a)) :
    (x >>= f).Follows depth visiting (y >>= g) := by
  intro stages env s
  rcases hx stages env s with ⟨new, hnew, heq⟩
  rw [Walk.bind_apply, heq, Option.bind_some]
  cases hy : y env s with
  | mk answer t =>
      cases answer with
      | error o =>
          refine ⟨new, hnew, ?_⟩
          rw [Rebuild.bind_of_error hy, herror]
          rfl
      | ok a =>
          -- The second part starts with what the first one noted.
          rcases hf a (new ++ stages) env t with ⟨more, hmore, hrest⟩
          refine ⟨more ++ new, List.forall_mem_append.2 ⟨hmore, hnew⟩, ?_⟩
          rw [Rebuild.bind_of_ok hy, List.append_assoc]
          exact hrest

/-- What goes on from an obstacle. An answer is handed on. -/
theorem Walk.Follows.tryCatch {x : Walk (Except Obstacle α)} {y : Rebuild α}
    {f : Except Obstacle α → Walk (Except Obstacle α)} {g : Obstacle → Rebuild α}
    (hx : x.Follows depth visiting y) (hok : ∀ a, f (.ok a) = pure (.ok a))
    (hf : ∀ o, (f (.error o)).Follows depth visiting (g o)) :
    (x >>= f).Follows depth visiting (MonadExcept.tryCatch y g) := by
  intro stages env s
  rcases hx stages env s with ⟨new, hnew, heq⟩
  rw [Walk.bind_apply, heq, Option.bind_some]
  cases hy : y env s with
  | mk answer t =>
      cases answer with
      | ok a =>
          refine ⟨new, hnew, ?_⟩
          rw [Rebuild.tryCatch_of_ok hy, hok]
          rfl
      | error o =>
          -- The handler goes on with what was noted on the way to the obstacle.
          rcases hf o (new ++ stages) env t with ⟨more, hmore, hrest⟩
          refine ⟨more ++ new, List.forall_mem_append.2 ⟨hmore, hnew⟩, ?_⟩
          rw [Rebuild.tryCatch_of_error hy, List.append_assoc]
          exact hrest

end Follows

namespace Rebuild

section Parts

variable {site : RebuildSite} {depth : Nat} {visiting : List HeapRef}
variable {nested : HeapRef → Rebuild Reconstruction}

/-- The code for an argument, and what goes on from it. -/
theorem follows_searchCode
    (hnested : ∀ r, (search site (depth + 1) r).Follows (depth + 1) visiting (nested r))
    (type : FieldType) (v : Value) {α : Type}
    {f : Except Obstacle (List Instruction) → Walk (Except Obstacle α)}
    {g : List Instruction → Rebuild α} (herror : ∀ o, f (.error o) = pure (.error o))
    (hf : ∀ code, (f (.ok code)).Follows (depth + 1) visiting (g code)) :
    (searchCode site depth type v >>= f).Follows (depth + 1) visiting (do
      let code ← match (← Probe.heap).encoding v with
        | .literal load => pure [load]
        | .object r => do pure ((← nested r).codeFor site.config.classes type)
      g code) := by
  rw [searchCode, bind_assoc]
  refine Walk.follows_heap fun h => ?_
  -- Only an object is searched for one level down.
  cases h.encoding v with
  | literal load => exact (Walk.follows_ok [load]).bind herror hf
  | object r =>
      dsimp only
      rw [bind_assoc]
      refine (hnested r).bind (fun o => ?_) fun found => ?_
      · dsimp only
        rw [pure_bind, herror]
      · dsimp only
        rw [pure_bind]
        exact (Walk.follows_ok _).bind herror hf

/-- The search of the arguments follows their encoding. -/
theorem follows_searchArguments
    (hnested : ∀ r, (search site (depth + 1) r).Follows (depth + 1) visiting (nested r))
    (value : Value) (accessors : List Accessor) :
    (searchArguments site depth value accessors).Follows (depth + 1) visiting
      (encodeArguments site nested value accessors) := by
  induction accessors with
  | nil =>
      rw [searchArguments, encodeArguments]
      exact Walk.follows_ok _
  | cons a rest ih =>
      rw [searchArguments, encodeArguments]
      refine (Walk.follows_plain _).bind (fun _ => rfl) fun v => ?_
      exact follows_searchCode hnested a.type v (fun _ => rfl) fun _ =>
        ih.bind (fun _ => rfl) fun _ => Walk.follows_ok _

/-- That of a recipe follows its execution. -/
theorem follows_searchRecipe
    (hnested : ∀ r, (search site (depth + 1) r).Follows (depth + 1) visiting (nested r))
    (value : Value) (recipe : Recipe) :
    (searchRecipe site depth value recipe).Follows (depth + 1) visiting
      (execute site nested recipe value) := by
  rw [searchRecipe, execute]
  exact (follows_searchArguments hnested value recipe.accessors).bind (fun _ => rfl)
    fun _ => Walk.follows_plain _

/-- That of an alternative the attempt. -/
theorem follows_searchAlternative
    (hnested : ∀ r, (search site (depth + 1) r).Follows (depth + 1) visiting (nested r))
    (value : Value) (a : Alternative) :
    (searchAlternative site depth value a).Follows (depth + 1) visiting
      (attempt site nested value a) := by
  cases a with
  | reuse fields =>
      rw [searchAlternative, attempt]
      exact Walk.follows_plain _
  | recipe r =>
      rw [searchAlternative, attempt]
      by_cases hr : r.isExecutable = true
      · rw [if_pos hr, if_pos hr]
        exact follows_searchRecipe hnested value r
      · rw [if_neg hr, if_neg hr]
        exact Walk.follows_plain _

-- And that of all alternatives the first that succeeds.
theorem follows_searchFirst
    (hnested : ∀ r, (search site (depth + 1) r).Follows (depth + 1) visiting (nested r))
    (name : String) (value : Value) (reasons : List Obstacle) (alternatives : List Alternative) :
    (searchFirst site depth name value reasons alternatives).Follows (depth + 1) visiting
      (firstOf site nested name value reasons alternatives) := by
  induction alternatives generalizing reasons with
  | nil =>
      rw [searchFirst, firstOf]
      exact Walk.follows_error _
  | cons a rest ih =>
      rw [searchFirst, firstOf]
      exact (follows_searchAlternative hnested value a).tryCatch (fun _ => rfl)
        fun o => ih (reasons ++ [o])

end Parts

/-- A search that may nest to the depth below `room` has a result, from any depth and path. -/
theorem follows_search (site : RebuildSite) (room : Nat) {depth : Nat}
    (hroom : maxRebuildDepth - depth = room) (visiting : List HeapRef) (r : HeapRef) :
    (search site depth r).Follows depth visiting (within site room visiting r) := by
  induction room generalizing depth visiting r with
  | zero =>
      rw [search, if_pos (by omega)]
      exact (Walk.follows_error .tooDeep).note
  | succ room ih =>
      have hdepth : ¬maxRebuildDepth ≤ depth := by omega
      -- An argument is searched for one level further down.
      have hnested (visiting : List HeapRef) (r : HeapRef) :
          (search site (depth + 1) r).Follows (depth + 1) visiting (within site room visiting r) :=
        ih (by omega) visiting r
      rw [search, within, if_neg hdepth]
      refine Walk.Follows.note (Walk.follows_get fun d hd => ?_)
      rw [hd]
      by_cases hcyclic : visiting.contains r = true
      · rw [if_pos hcyclic, if_pos hcyclic]
        exact Walk.follows_error .cyclic
      · rw [if_neg hcyclic, if_neg hcyclic]
        refine Walk.follows_heap fun h => ?_
        dsimp only
        cases site.config.selector? (h.get r).className with
        | none => exact Walk.follows_error _
        | some selector =>
            have hr : r ∉ visiting := by simpa using hcyclic
            have hfirst := follows_searchFirst (hnested (r :: visiting)) (h.get r).className
              (.ref r) [] selector.alternatives
            exact Walk.Follows.pushed hfirst.note hdepth hr

/-- The search for code for an object comes to an end for every configuration and place, in every
    state of the machine and whatever its operations answer, with the result of the search that
    counts down. It nests no deeper than is allowed, has no object on its path twice, and the path
    is empty again whatever the result. A search from any depth and path ends as well, and leaves
    the path as it was. -/
theorem reconstruct_ends (site : RebuildSite) (env : Env) (s : Machine) (r : HeapRef) :
    (∃ stages : List Stage,
      reconstruct site r {} env s
        = some (((run site r env s).1, ⟨[], stages⟩), (run site r env s).2) ∧
      ∀ stage ∈ stages, stage.visiting.Nodup ∧ stage.depth = stage.visiting.length ∧
        stage.depth ≤ maxRebuildDepth) ∧
    ∀ (depth : Nat) (d : Descent), ∃ found stages t,
      search site depth r d env s = some ((found, ⟨d.visiting, stages⟩), t) := by
  refine ⟨?_, fun depth d => ?_⟩
  · rcases follows_search site maxRebuildDepth (Nat.sub_zero _) [] r [] env
      { s with executed := 0 } with ⟨stages, hstages, heq⟩
    refine ⟨stages, ?_, fun stage hstage => ?_⟩
    · rw [List.append_nil] at heq
      exact heq
    · -- The path starts empty, so its length is the depth.
      have hextends := hstages stage hstage
      have hdepth := hextends.depth_eq
      have hle := hextends.depth_le
      rw [List.length_nil] at hdepth
      exact ⟨hextends.nodup List.nodup_nil, by omega, by omega⟩
  · rcases follows_search site _ rfl d.visiting r d.stages env s with ⟨new, -, heq⟩
    exact ⟨_, _, _, heq⟩

end Rebuild

end JvmFold
