import JvmFold.Proofs.Analysis.Assignments
import JvmFold.Proofs.Universe.Searches

/-!
# The Bodies that a Run Visits

A run comes to every body of its primary classes once in every pass, and what
it keeps from one pass to the next changes there only. So the state of a run is
told by its visits: the bodies, each with the state in which the run comes to
it.

What becomes resolved is told by the visits as well. A field is resolved if one
assignment to it was followed with a known operand. Other assignments to the
field do not count, whatever they assign, and so a field that is assigned once
is the only kind of which all assignments are known.

## Main definitions

* `BodySite`: A body with its place in a run.
* `Visit`: A body with the state in which a run comes to it.
* `Folding.Trace`: What the visits of a run make of its state.
* `Config.Assigns`: An assignment of a class to a field.

## Theorems

* `Folding.passes_visits`: A run visits all bodies once in every pass.
* `Folding.Trace.mem_resolved`: What the visits of a run resolve.
* `Config.resolved_iff_assigned`: What a run resolves.
* `Config.resolved_assigned_twice`: A field that is resolved and gets another value.
-/

namespace JvmFold

/-- A body with its place in a run. -/
structure BodySite where
  /-- The number of the pass. -/
  pass : Nat
  /-- The class. -/
  owner : ClassFile
  /-- The method. -/
  method : Method
  /-- The body of the method. -/
  body : Body

namespace BodySite

/-- What is followed when the run comes to the body. -/
def subject (c : Config) (b : BodySite) : Subject :=
  .ofBody c b.pass b.owner b.method b.body

/-- The body of a method, if it has one. -/
def ofMethod (pass : Nat) (owner : ClassFile) (m : Method) : List BodySite :=
  m.body.toList.map fun b => ⟨pass, owner, m, b⟩

/-- The bodies of a class. -/
def ofClass (pass : Nat) (c : ClassFile) : List BodySite :=
  c.methods.flatMap (ofMethod pass c)

/-- The bodies of an entry, if the class can be read. -/
def ofEntry (pass : Nat) (e : ClassEntry) : List BodySite :=
  (e.full.toOption.map (ofClass pass)).getD []

/-- The bodies that a pass comes to. -/
def all (c : Config) (pass : Nat) : List BodySite :=
  c.classes.primaries.flatMap (ofEntry pass)

end BodySite

/-- The bodies of a pass are those of the methods of the primary classes. -/
theorem BodySite.exists_of_mem_all {c : Config} {pass : Nat} {b : BodySite}
    (h : b ∈ BodySite.all c pass) :
    ∃ e ∈ c.classes.primaries, e.full = .ok b.owner ∧ b.method ∈ b.owner.methods ∧
      b.method.body = some b.body := by
  rcases List.mem_flatMap.mp h with ⟨e, he, h⟩
  unfold ofEntry at h
  cases hfull : e.full with
  | error cause => simp [hfull, Except.toOption] at h
  | ok k =>
      rw [hfull] at h
      rcases List.mem_flatMap.mp h with ⟨m, hm, hb⟩
      rcases List.mem_map.mp hb with ⟨body, hbody, rfl⟩
      exact ⟨e, he, hfull, hm, by simpa using hbody⟩

/-- A body with the state in which a run comes to it. -/
structure Visit where
  /-- The body. -/
  site : BodySite
  /-- The state. -/
  state : FoldState

namespace Folding

/-- What the visits of a run make of its state. Between visits only events are added. -/
inductive Trace (j : FoldJob) : FoldState → List Visit → FoldState → Prop where
  | quiet {s t : FoldState} (hprogress : t.progress = s.progress)
      (hmachine : t.machine = s.machine) : Trace j s [] t
  | visit (b : BodySite) {s t : FoldState} {found : List Replacement}
      (h : analyse j (b.subject j.config) s = .ok found t) : Trace j s [⟨b, s⟩] t
  | append {s t u : FoldState} {l l' : List Visit} (h : Trace j s l t) (h' : Trace j t l' u) :
      Trace j s (l ++ l') u

/-- A computation that visits the given bodies in order, if it succeeds. -/
def Visits {α : Type} (j : FoldJob) (x : Folding α) (sites : List BodySite) : Prop :=
  ∀ s a s', x s = .ok a s' → ∃ l, Trace j s l s' ∧ l.map Visit.site = sites

section Rules

variable {α β : Type} {j : FoldJob} {sites sites' : List BodySite}

theorem visits_pure (a : α) : Visits j (pure a) [] := by
  intro s b s' h
  cases h
  exact ⟨[], .quiet rfl rfl, rfl⟩

/-- A part that fails visits whatever is said. -/
theorem visits_throw (e : Error) : Visits j (throw e : Folding α) sites := by
  intro s a s' h
  cases h

/-- Two parts visit their bodies one after the other. -/
theorem Visits.bind {x : Folding α} {f : α → Folding β} (hx : Visits j x sites)
    (hf : ∀ a, Visits j (f a) sites') : Visits j (x >>= f) (sites ++ sites') := by
  intro s b s' h
  rcases bind_eq_ok h with ⟨a, t, ha, hb⟩
  rcases hx s a t ha with ⟨l, hl, hsites⟩
  rcases hf a t b s' hb with ⟨l', hl', hsites'⟩
  exact ⟨l ++ l', hl.append hl', by rw [List.map_append, hsites, hsites']⟩

/-- What comes first visits nothing. -/
theorem Visits.bind_nil {x : Folding α} {f : α → Folding β} (hx : Visits j x [])
    (hf : ∀ a, Visits j (f a) sites) : Visits j (x >>= f) sites :=
  hx.bind hf

/-- What comes last visits nothing. -/
theorem Visits.bind_pure {x : Folding α} {f : α → Folding β} (hx : Visits j x sites)
    (hf : ∀ a, Visits j (f a) []) : Visits j (x >>= f) sites := by
  have h := hx.bind hf
  rwa [List.append_nil] at h

theorem visits_get : Visits j get [] := by
  intro s a s' h
  cases h
  exact ⟨[], .quiet rfl rfl, rfl⟩

/-- A change that leaves progress and machine alone visits none. -/
theorem visits_modify {f : FoldState → FoldState} (hprogress : ∀ s, (f s).progress = s.progress)
    (hmachine : ∀ s, (f s).machine = s.machine) : Visits j (modify f) [] := by
  intro s a s' h
  cases h
  exact ⟨[], .quiet (hprogress s) (hmachine s), rfl⟩

/-- A list of parts visits what each of them does. -/
theorem visits_mapM {γ : Type} {f : γ → Folding α} {g : γ → List BodySite} {l : List γ}
    (h : ∀ c ∈ l, Visits j (f c) (g c)) : Visits j (l.mapM f) (l.flatMap g) := by
  induction l with
  | nil => exact visits_pure []
  | cons c rest ih =>
      rw [List.mapM_cons, List.flatMap_cons]
      refine (h c List.mem_cons_self).bind fun a => ?_
      exact (ih fun d hd => h d (List.mem_cons_of_mem c hd)).bind_pure fun as => visits_pure _

end Rules

section Passes

variable {j : FoldJob} {pass : Nat}

/-- A method with a body visits it. -/
theorem foldMethod_visits (owner : ClassFile) (m : Method) :
    Visits j (foldMethod j pass owner m) (BodySite.ofMethod pass owner m) := by
  unfold foldMethod BodySite.ofMethod
  cases m.body with
  | none => exact visits_pure _
  | some b =>
      have hvisit : Visits j (analyse j (.ofBody j.config pass owner m b))
          [⟨pass, owner, m, b⟩] := by
        intro s found s' h
        exact ⟨[⟨⟨pass, owner, m, b⟩, s⟩], .visit _ h, rfl⟩
      refine hvisit.bind fun found => ?_
      split <;> exact visits_pure _

/-- A class visits those of its methods, in order. -/
theorem foldClass_visits (e : ClassEntry) :
    Visits j (foldClass j pass e) (BodySite.ofEntry pass e) := by
  unfold foldClass BodySite.ofEntry
  cases e.full with
  | error cause => exact visits_throw cause
  | ok c =>
      have hmethods : Visits j (c.methods.mapM (foldMethod j pass c)) (BodySite.ofClass pass c) :=
        visits_mapM fun m _ => foldMethod_visits c m
      exact hmethods.bind_pure fun methods => visits_pure _

theorem note_visits (e : Event) : Visits j (note e) [] :=
  visits_modify (fun _ => rfl) fun _ => rfl

-- And a pass those of all primary classes.
theorem runPass_visits : Visits j (runPass j pass) (BodySite.all j.config pass) := by
  have hclear : Visits j (modify fun s => { s with passLog := #[] }) [] :=
    visits_modify (fun _ => rfl) fun _ => rfl
  have hclasses : Visits j (j.config.classes.primaries.mapM (foldClass j pass))
      (BodySite.all j.config pass) := visits_mapM fun e _ => foldClass_visits e
  refine visits_get.bind_nil fun s => (note_visits _).bind_nil fun _ => hclear.bind_nil fun _ => ?_
  refine hclasses.bind_pure fun classes => visits_get.bind_nil fun t => ?_
  exact visits_get.bind_nil fun u => (note_visits _).bind_nil fun _ => visits_pure _

/-- Nothing is visited behind the last pass. -/
theorem lastPass_visits {s t s' : FoldState} {l : List Visit} {classes : List FoldedClass}
    {r : List FoldedClass × Nat} (hl : Trace j s l t)
    (hsites : l.map Visit.site = BodySite.all j.config pass)
    (hkeep : (keepPass >>= fun _ => pure (classes, pass) : Folding _) t = .ok r s') :
    pass ≤ r.2 ∧ ∃ l, Trace j s l s' ∧
      l.map Visit.site = (List.range' pass (r.2 + 1 - pass)).flatMap (BodySite.all j.config) := by
  cases hkeep
  refine ⟨Nat.le_refl _, l, ?_, ?_⟩
  · rw [← List.append_nil l]
    exact hl.append (.quiet rfl rfl)
  · rw [hsites, Nat.add_sub_cancel_left, List.range'_one, List.flatMap_singleton]

/-- The passes from the given one on come to all bodies once in every pass. -/
theorem passesFrom_visits (more pass : Nat) {s s' : FoldState} {r : List FoldedClass × Nat}
    (h : passesFrom j more pass s = .ok r s') :
    pass ≤ r.2 ∧ ∃ l, Trace j s l s' ∧
      l.map Visit.site = (List.range' pass (r.2 + 1 - pass)).flatMap (BodySite.all j.config) := by
  induction more generalizing pass s with
  | zero =>
      rcases bind_eq_ok h with ⟨⟨classes, grown⟩, t, hpass, hkeep⟩
      rcases runPass_visits s _ t hpass with ⟨l, hl, hsites⟩
      exact lastPass_visits hl hsites hkeep
  | succ more ih =>
      rcases bind_eq_ok h with ⟨⟨classes, grown⟩, t, hpass, hrest⟩
      rcases runPass_visits s _ t hpass with ⟨l, hl, hsites⟩
      dsimp only at hrest
      split at hrest
      · exact lastPass_visits hl hsites hrest
      · rcases ih (pass + 1) hrest with ⟨hle, l', hl', hsites'⟩
        -- The passes from here on are this one and those behind it.
        have hcount : r.2 + 1 - pass = r.2 + 1 - (pass + 1) + 1 := by omega
        refine ⟨by omega, l ++ l', hl.append hl', ?_⟩
        rw [List.map_append, hsites, hsites', hcount, List.range'_succ, List.flatMap_cons]

/-- A run comes to all bodies once in every pass. -/
theorem passes_visits {s s' : FoldState} {r : List FoldedClass × Nat}
    (h : passes j s = .ok r s') :
    1 ≤ r.2 ∧ ∃ l, Trace j s l s' ∧
      l.map Visit.site = (List.range' 1 r.2).flatMap (BodySite.all j.config) := by
  rcases passesFrom_visits _ 1 h with ⟨hpass, l, hl, hsites⟩
  exact ⟨hpass, l, hl, by rw [hsites, Nat.add_sub_cancel]⟩

end Passes

section Success

variable {α β : Type} {j : FoldJob}

/-- A computation that succeeds in every state. -/
def Succeeds (x : Folding α) : Prop :=
  ∀ s, ∃ a s', x s = .ok a s'

/-- Two parts that cannot fail do not fail one after the other. -/
theorem Succeeds.bind {x : Folding α} {f : α → Folding β} (hx : Succeeds x)
    (hf : ∀ a, Succeeds (f a)) : Succeeds (x >>= f) := by
  intro s
  rcases hx s with ⟨a, t, ha⟩
  rcases hf a t with ⟨b, u, hb⟩
  exact ⟨b, u, (bind_of_ok ha).trans hb⟩

theorem succeeds_pure (a : α) : Succeeds (pure a) :=
  fun s => ⟨a, s, rfl⟩

theorem succeeds_get : Succeeds get :=
  fun s => ⟨s, s, rfl⟩

theorem succeeds_modify (f : FoldState → FoldState) : Succeeds (modify f) :=
  fun s => ⟨⟨⟩, f s, rfl⟩

theorem succeeds_mapM {γ : Type} {f : γ → Folding α} {l : List γ}
    (h : ∀ c ∈ l, Succeeds (f c)) : Succeeds (l.mapM f) := by
  induction l with
  | nil => exact succeeds_pure []
  | cons c rest ih =>
      rw [List.mapM_cons]
      have hrest := ih fun d hd => h d (List.mem_cons_of_mem c hd)
      exact (h c List.mem_cons_self).bind fun a => hrest.bind fun as => succeeds_pure _

/-- Folding a method cannot fail. -/
theorem succeeds_foldMethod (pass : Nat) (owner : ClassFile) (m : Method) :
    Succeeds (foldMethod j pass owner m) := by
  unfold foldMethod
  split
  · exact succeeds_pure _
  · have hanalyse (s : Subject) : Succeeds (analyse j s) := fun _ => ⟨_, _, rfl⟩
    refine (hanalyse _).bind fun found => ?_
    split <;> exact succeeds_pure _

/-- Folding a class can fail only as it is read. -/
theorem succeeds_foldClass (pass : Nat) {e : ClassEntry} (h : ∃ k, e.full = .ok k) :
    Succeeds (foldClass j pass e) := by
  rcases h with ⟨k, hk⟩
  unfold foldClass
  rw [hk]
  exact (succeeds_mapM fun m _ => succeeds_foldMethod pass k m).bind fun _ => succeeds_pure _

-- And so can a pass.
theorem succeeds_runPass (h : ∀ e ∈ j.config.classes.primaries, ∃ k, e.full = .ok k) (pass : Nat) :
    Succeeds (runPass j pass) := by
  have hclasses : Succeeds (j.config.classes.primaries.mapM (foldClass j pass)) :=
    succeeds_mapM fun e he => succeeds_foldClass pass (h e he)
  refine succeeds_get.bind fun _ => (succeeds_modify _).bind fun _ => ?_
  refine (succeeds_modify _).bind fun _ => hclasses.bind fun _ => succeeds_get.bind fun _ => ?_
  exact succeeds_get.bind fun _ => (succeeds_modify _).bind fun _ => succeeds_pure _

/-- Nothing but a class that cannot be read stops the passes. -/
theorem succeeds_passes (h : ∀ e ∈ j.config.classes.primaries, ∃ k, e.full = .ok k) :
    Succeeds (passes j) := by
  have hfrom (more pass : Nat) : Succeeds (passesFrom j more pass) := by
    induction more generalizing pass with
    | zero =>
        exact (succeeds_runPass h pass).bind fun _ =>
          (succeeds_modify _).bind fun _ => succeeds_pure _
    | succ more ih =>
        refine (succeeds_runPass h pass).bind fun r => ?_
        dsimp only
        split
        · exact (succeeds_modify _).bind fun _ => succeeds_pure _
        · exact ih (pass + 1)
  exact hfrom _ 1

end Success

end Folding

namespace Visit

/-- The state of the analysis at the start of the visit. -/
def tracker (v : Visit) : Tracker where
  progress := v.state.progress
  runLog := v.state.log
  passLog := v.state.passLog

/-- The assignment at a position gives a field a value that is known when the run comes there. -/
def AssignsAt (j : FoldJob) (v : Visit) (p : Nat) (declared : Member) (value : Value) : Prop :=
  (v.site.subject j.config).AssignsAt v.tracker j.env v.state.machine p declared value

/-- The assignment at a position resolves a field. -/
def ResolvesAt (j : FoldJob) (v : Visit) (p : Nat) (declared : Member) (value : Value) : Prop :=
  (v.site.subject j.config).ResolvesAt v.tracker j.env v.state.machine p declared value

end Visit

/-- What the visits of a run resolve. -/
theorem Folding.Trace.mem_resolved {j : FoldJob} {s t : FoldState} {l : List Visit}
    (h : Folding.Trace j s l t) (declared : Member) :
    declared ∈ t.progress.resolved ↔
      declared ∈ s.progress.resolved ∨ ∃ v ∈ l, ∃ p value, v.ResolvesAt j p declared value := by
  induction h with
  | quiet hprogress hmachine => simp [hprogress]
  | @visit b s t found h =>
      have hresolved := Analysis.mem_resolved_replacements (b.subject j.config)
        (Visit.tracker ⟨b, s⟩) j.env s.machine declared
      rcases hrun : Analysis.replacements (b.subject j.config) (Visit.tracker ⟨b, s⟩) j.env
        s.machine with ⟨⟨found', u⟩, m⟩
      rw [hrun] at hresolved
      rw [analyse_eq hrun] at h
      injection h with _ ht
      rw [← ht]
      simp only [List.mem_singleton, exists_eq_left]
      exact hresolved
  | append _ _ ih ih' =>
      -- What two parts resolve is resolved by one of them.
      rw [ih', ih, or_assoc]
      simp only [List.mem_append, or_and_right, exists_or]

/-- An assignment of a class to a field: its method and its position there. -/
def Config.Assigns (c : Config) (k : ClassFile) (declared : Member) (m : Method) (p : Nat) :
    Prop :=
  m ∈ k.methods ∧ ∃ b f, m.body = some b ∧ b.instructions[p]? = some (.field .putstatic f) ∧
    c.classes.declaredField f = declared

/-- All assignments of a class to a field were followed with one known value. -/
def Config.Propagates (c : Config) (visits : List Visit) (k : ClassFile) (declared : Member) :
    Prop :=
  ∃ value, ∀ m p, c.Assigns k declared m p →
    ∃ v ∈ visits, v.site.owner = k ∧ v.site.method = m ∧ m.body = some v.site.body ∧
      v.AssignsAt (.ofConfig c) p declared value

/-- What a run resolves: the static final fields of primary classes to which at least one assignment
    was followed with a known value that is no object that can change. If the class assigns the
    field once, that is all assignments. -/
theorem Config.resolved_iff_assigned {c : Config} {log : EventLog} {r : List FoldedClass × Nat}
    {s : FoldState} (h : Folding.passes (.ofConfig c) { log } = .ok r s) :
    ∃ visits, Folding.Trace (.ofConfig c) { log } visits s ∧
      visits.map Visit.site = (List.range' 1 r.2).flatMap (BodySite.all c) ∧
      ∀ declared, (declared ∈ s.progress.resolved ↔
          ∃ v ∈ visits, ∃ p value, v.ResolvesAt (.ofConfig c) p declared value) ∧
        (declared ∈ s.progress.resolved → ∃ e ∈ c.classes.primaries, ∃ k, e.full = .ok k ∧
          Analysis.isOwnFinal k declared = true ∧
          ((∀ m p m' p', c.Assigns k declared m p → c.Assigns k declared m' p' → m = m' ∧ p = p') →
            c.Propagates visits k declared)) := by
  rcases Folding.passes_visits h with ⟨-, visits, htrace, hsites⟩
  have hresolved (declared : Member) := htrace.mem_resolved declared
  simp only [Std.TreeSet.not_mem_emptyc, false_or] at hresolved
  refine ⟨visits, htrace, hsites, fun declared => ⟨hresolved declared, fun hmem => ?_⟩⟩
  rcases (hresolved declared).mp hmem with ⟨v, hv, p, value, hresolves⟩
  rcases List.mem_flatMap.mp (hsites ▸ List.mem_map_of_mem hv) with ⟨pass, -, hsite⟩
  rcases BodySite.exists_of_mem_all hsite with ⟨e, he, hk, hmethod, hbody⟩
  refine ⟨e, he, v.site.owner, hk, hresolves.isOwnFinal, fun honce => ⟨value, ?_⟩⟩
  intro m q hassigns
  -- The assignment that resolves the field is one of the class, and so it is the only one.
  rcases hresolves.assigns with ⟨f, fold, hf, hdeclared, -⟩
  have hput : v.site.body.instructions[p]? = some (.field .putstatic f) := by
    simpa [BodySite.subject, Subject.ofBody] using hf
  have hself : c.Assigns v.site.owner declared v.site.method p :=
    ⟨hmethod, v.site.body, f, hbody, hput, hdeclared⟩
  rcases honce _ _ _ _ hself hassigns with ⟨rfl, rfl⟩
  exact ⟨v, hv, rfl, rfl, hbody, hresolves.assigns⟩

namespace Level

/-- The field of the example. -/
def field : Member :=
  ⟨"demo/Level", "LEVEL", "I"⟩

/-- Assigns the values to the field, one after the other. -/
def body (values : List Int32) : Body where
  maxStack := 1
  maxLocals := 0
  instructions := values.flatMap (fun v => [.push .bipush v, .field .putstatic field])
    ++ [.simple .voidReturn]

/-- An initializer that assigns it several values. -/
def initializer (values : List Int32) : Method where
  access := ⟨8⟩
  name := "<clinit>"
  descriptor := "()V"
  body := some (body values)

/-- The class. -/
def classFile (values : List Int32) : ClassFile where
  name := "demo/Level"
  fields := [⟨⟨24⟩, "LEVEL", "I", none, [], []⟩]
  methods := [initializer values]

/-- The class alone, of which nothing is constant by itself. -/
def config (values : List Int32) : Config :=
  .plain (.ofClasses [classFile values])

/-- Its passes come to an end. -/
theorem exists_passes (values : List Int32) :
    ∃ r s, Folding.passes (.ofConfig (config values)) { log := #[] } = .ok r s := by
  refine Folding.succeeds_passes ?_ _
  change ∀ e ∈ [ClassEntry.ofClass (classFile values)], _
  simpa using ⟨_, rfl⟩

section Visits

variable {values rest : List Int32} {v w : Int32} {x : Visit}

/-- A value that the initializer loads. -/
def loaded (position : Nat) (v : Int32) : Fold where
  origin := .literal
  start := position
  stop := position
  value := .int v
  type := .int

/-- The class is found by name. -/
theorem class?_config : (config values).classes.class? "demo/Level" = some (classFile values) :=
  Universe.class?_ofClasses rfl

theorem declaredField_field : (config values).classes.declaredField field = field :=
  Universe.declaredField_of_field? (f := field) class?_config rfl

theorem putSlots_field : Analysis.putSlots field = 1 := by
  cbv

/-- A value that is loaded right in front of an assignment is known there. -/
theorem assignsAt_of_push {s : Subject} {t : Tracker} {env : Env} {m : Machine} {k : Nat}
    (hpush : s.code[k]? = some (.push .bipush v))
    (hput : s.code[k + 1]? = some (.field .putstatic field))
    (hdeclared : s.config.classes.declaredField field = field) :
    s.AssignsAt t env m (k + 1) field (.int v) := by
  have hstack : (Analysis.before s t env m (k + 1)).1.stack
      = .known (loaded k v) :: (Analysis.before s t env m k).1.stack := by
    rw [Analysis.before, hpush]
    rfl
  refine ⟨field, loaded k v, hput, hdeclared, ?_, rfl⟩
  rw [putSlots_field, hstack]
  rfl

/-- A run that comes to the body finds the values of both assignments. -/
theorem assignsAt_first (howner : x.site.owner = classFile values)
    (hbody : x.site.body = body (v :: rest)) :
    x.AssignsAt (.ofConfig (config values)) 1 field (.int v) := by
  rcases x with ⟨⟨pass, owner, m, b⟩, state⟩
  cases howner
  cases hbody
  exact assignsAt_of_push (k := 0) rfl rfl declaredField_field

/-- The second assignment gives the second value. -/
theorem assignsAt_second (howner : x.site.owner = classFile values)
    (hbody : x.site.body = body (v :: w :: rest)) :
    x.AssignsAt (.ofConfig (config values)) 3 field (.int w) := by
  rcases x with ⟨⟨pass, owner, m, b⟩, state⟩
  cases howner
  cases hbody
  exact assignsAt_of_push (k := 2) rfl rfl declaredField_field

/-- One instruction assigns one value. -/
theorem assignsAt_unique {j : FoldJob} {p : Nat} {declared : Member} {a b : Value}
    (ha : x.AssignsAt j p declared a) (hb : x.AssignsAt j p declared b) : a = b := by
  rcases ha with ⟨f, fold, hf, -, htop, rfl⟩
  rcases hb with ⟨g, fold', hg, -, htop', rfl⟩
  rw [hf] at hg
  cases hg
  rw [htop] at htop'
  cases htop'
  rfl

/-- With one value the class assigns the field once. -/
theorem assigns_once {m : Method} {p : Nat}
    (h : (config [v]).Assigns (classFile [v]) field m p) : m = initializer [v] ∧ p = 1 := by
  rcases h with ⟨hm, b, f, hb, hput, -⟩
  cases List.mem_singleton.mp hm
  cases hb
  refine ⟨rfl, ?_⟩
  rcases p with _ | _ | _ | p
  · cases hput
  · rfl
  · cases hput
  · cases hput

/-- The field is resolved by the first assignment. -/
theorem resolved_field {r : List FoldedClass × Nat} {s : FoldState}
    (h : Folding.passes (.ofConfig (config (v :: rest))) { log := #[] } = .ok r s) :
    field ∈ s.progress.resolved := by
  rcases Folding.passes_visits h with ⟨hpass, visits, htrace, hsites⟩
  have hmem : (⟨1, classFile (v :: rest), initializer (v :: rest), body (v :: rest)⟩ : BodySite)
      ∈ visits.map Visit.site := by
    rw [hsites]
    refine List.mem_flatMap.mpr ⟨1, List.mem_range'_1.mpr ⟨Nat.le_refl 1, by omega⟩, ?_⟩
    exact List.mem_singleton_self _
  rcases List.mem_map.mp hmem with ⟨x, hx, hsite⟩
  refine (htrace.mem_resolved field).mpr (.inr ⟨x, hx, 1, .int v, ?_, ?_, rfl⟩)
  · simp [BodySite.subject, Subject.ofBody, hsite]
    rfl
  · exact assignsAt_first (by rw [hsite]) (by rw [hsite])

end Visits

end Level

/-- A class that assigns a field once: the field is resolved, and the assignment is known. -/
theorem Config.resolved_assigned_once :
    ∃ r s visits, Folding.passes (.ofConfig (Level.config [1])) { log := #[] } = .ok r s ∧
      Level.field ∈ s.progress.resolved ∧
      (Level.config [1]).Propagates visits (Level.classFile [1]) Level.field := by
  rcases Level.exists_passes [1] with ⟨r, s, h⟩
  rcases Config.resolved_iff_assigned h with ⟨visits, -, -, hall⟩
  have hmem := Level.resolved_field h
  rcases (hall Level.field).2 hmem with ⟨e, he, k, hk, -, hpropagates⟩
  cases List.mem_singleton.mp (show e ∈ [ClassEntry.ofClass (Level.classFile [1])] from he)
  cases hk
  refine ⟨r, s, visits, h, hmem, hpropagates fun m p m' p' hfirst hsecond => ?_⟩
  rcases Level.assigns_once hfirst with ⟨rfl, rfl⟩
  rcases Level.assigns_once hsecond with ⟨rfl, rfl⟩
  exact ⟨rfl, rfl⟩

/-- A class that assigns a field twice: the field is resolved, and the assignments give it
    different values. -/
theorem Config.resolved_assigned_twice :
    ∃ r s, Folding.passes (.ofConfig (Level.config [1, 2])) { log := #[] } = .ok r s ∧
      Level.field ∈ s.progress.resolved ∧
      ∀ visits, ¬(Level.config [1, 2]).Propagates visits (Level.classFile [1, 2]) Level.field := by
  rcases Level.exists_passes [1, 2] with ⟨r, s, h⟩
  refine ⟨r, s, h, Level.resolved_field h, fun visits hpropagates => ?_⟩
  rcases hpropagates with ⟨value, hall⟩
  have hfirst : (Level.config [1, 2]).Assigns (Level.classFile [1, 2]) Level.field
      (Level.initializer [1, 2]) 1 :=
    ⟨List.mem_singleton_self _, _, _, rfl, rfl, Level.declaredField_field⟩
  have hsecond : (Level.config [1, 2]).Assigns (Level.classFile [1, 2]) Level.field
      (Level.initializer [1, 2]) 3 :=
    ⟨List.mem_singleton_self _, _, _, rfl, rfl, Level.declaredField_field⟩
  rcases hall _ _ hfirst with ⟨x, -, howner, -, hbody, hx⟩
  rcases hall _ _ hsecond with ⟨y, -, howner', -, hbody', hy⟩
  have hfound := Level.assignsAt_first howner (Option.some.inj hbody).symm
  have hfound' := Level.assignsAt_second howner' (Option.some.inj hbody').symm
  -- Were there one value for all assignments, it would be both of these.
  have hone := Level.assignsAt_unique hx hfound
  have htwo := Level.assignsAt_unique hy hfound'
  rw [hone] at htwo
  cases htwo

end JvmFold
