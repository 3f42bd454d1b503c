import JvmFold.Proofs.Analysis.Recurrence
import JvmFold.Proofs.Machine.Stored
import JvmFold.Proofs.Run.Fixpoint

/-!
# Visits One After Another

A run comes to every body once in every pass, always with the same machine and
the same record, and a run that stops has come to the first of them. Each visit
starts where the one before it ended, so a later visit of a body finds whatever
an earlier one left. An evaluation is run by the first visit that asks for it
and by no other.

## Main definitions

* `Folding.Chained`: Visits each of which starts where the one before it ended.
* `Visit.Creates`: A value that a visit makes.
* `Visit.Executes`, `Visit.Reuses`: An evaluation that a visit runs or takes from the record.

## Theorems

* `Folding.passes_visits_left`: The bodies that a run comes to, whether it succeeds or not.
* `Folding.Trace.chained`: Nothing else than a visit changes what is kept.
* `Folding.Chained.recorded`: What is on record some visit has run.
* `Folding.not_executes_again`: What one visit runs no later one runs.
-/

namespace JvmFold

namespace Folding

/-- The state that is left, whether a computation succeeds or not. -/
def left {α : Type} : EStateM.Result Error FoldState α → FoldState
  | .ok _ s => s
  | .error _ s => s

/-- A computation that visits the first of the given bodies if it stops. -/
def Stops {α : Type} (j : FoldJob) (x : Folding α) (sites : List BodySite) : Prop :=
  ∀ s e s', x s = .error e s' → ∃ l, Trace j s l s' ∧ l.map Visit.site <+: sites

section Rules

variable {α β : Type} {j : FoldJob} {sites sites' : List BodySite}

/-- What fails does so in its first part or behind it. -/
theorem bind_eq_error {x : Folding α} {f : α → Folding β} {s s' : FoldState} {e : Error}
    (h : (x >>= f) s = .error e s') :
    x s = .error e s' ∨ ∃ a t, x s = .ok a t ∧ f a t = .error e s' := by
  change EStateM.bind x f s = _ at h
  unfold EStateM.bind at h
  cases hx : x s with
  | ok a t =>
      rw [hx] at h
      exact .inr ⟨a, t, rfl, h⟩
  | error e' t =>
      rw [hx] at h
      cases h
      exact .inl rfl

/-- A part that cannot fail stops nowhere. -/
theorem stops_of_succeeds {x : Folding α} (h : Succeeds x) : Stops j x sites := by
  intro s e s' hx
  rcases h s with ⟨a, t, ha⟩
  rw [ha] at hx
  cases hx

theorem stops_throw (e : Error) : Stops j (throw e : Folding α) sites := by
  intro s e' s' h
  cases h
  exact ⟨[], .quiet rfl rfl, List.nil_prefix⟩

/-- What stops first has visited the first bodies, and what stops behind it those of both. -/
theorem Stops.bind {x : Folding α} {f : α → Folding β} (hx : Stops j x sites)
    (hvisits : Visits j x sites) (hf : ∀ a, Stops j (f a) sites') :
    Stops j (x >>= f) (sites ++ sites') := by
  intro s e s' h
  rcases bind_eq_error h with h | ⟨a, t, ha, h⟩
  · rcases hx s e s' h with ⟨l, hl, hsites⟩
    exact ⟨l, hl, hsites.trans (List.prefix_append sites sites')⟩
  · rcases hvisits s a t ha with ⟨l, hl, hsites⟩
    rcases hf a t e s' h with ⟨l', hl', hsites'⟩
    refine ⟨l ++ l', hl.append hl', ?_⟩
    rw [List.map_append, hsites]
    exact (List.prefix_append_right_inj sites).mpr hsites'

/-- What does not stop only counts for what came first. -/
theorem Stops.bind_succeeds {x : Folding α} {f : α → Folding β} (hx : Stops j x sites)
    (hf : ∀ a, Succeeds (f a)) : Stops j (x >>= f) sites := by
  intro s e s' h
  rcases bind_eq_error h with h | ⟨a, t, ha, h⟩
  · exact hx s e s' h
  · rcases hf a t with ⟨b, u, hb⟩
    rw [hb] at h
    cases h

/-- What does not stop and visits nothing does not count. -/
theorem Succeeds.bind_stops {x : Folding α} {f : α → Folding β} (hx : Succeeds x)
    (hvisits : Visits j x []) (hf : ∀ a, Stops j (f a) sites) : Stops j (x >>= f) sites :=
  (stops_of_succeeds hx).bind hvisits hf

/-- A list of parts stops within one of them. -/
theorem stops_mapM {γ : Type} {f : γ → Folding α} {g : γ → List BodySite} {l : List γ}
    (h : ∀ c ∈ l, Stops j (f c) (g c)) (hvisits : ∀ c ∈ l, Visits j (f c) (g c)) :
    Stops j (l.mapM f) (l.flatMap g) := by
  induction l with
  | nil => exact stops_of_succeeds (succeeds_pure [])
  | cons c rest ih =>
      rw [List.mapM_cons, List.flatMap_cons]
      have hrest := ih (fun d hd => h d (List.mem_cons_of_mem c hd))
        (fun d hd => hvisits d (List.mem_cons_of_mem c hd))
      refine (h c List.mem_cons_self).bind (hvisits c List.mem_cons_self) fun a => ?_
      exact hrest.bind_succeeds fun as => succeeds_pure _

end Rules

section Passes

variable {j : FoldJob} {pass : Nat}

/-- Folding a class stops behind some of its bodies. -/
theorem foldClass_stops (e : ClassEntry) :
    Stops j (foldClass j pass e) (BodySite.ofEntry pass e) := by
  cases hfull : e.full with
  | error cause =>
      unfold foldClass
      rw [hfull]
      exact stops_throw cause
  | ok k => exact stops_of_succeeds (succeeds_foldClass pass ⟨k, hfull⟩)

-- And a pass behind some of its classes.
theorem runPass_stops : Stops j (runPass j pass) (BodySite.all j.config pass) := by
  have hclasses : Stops j (j.config.classes.primaries.mapM (foldClass j pass))
      (BodySite.all j.config pass) :=
    stops_mapM (fun e _ => foldClass_stops e) fun e _ => foldClass_visits e
  refine succeeds_get.bind_stops visits_get fun s => ?_
  refine (succeeds_modify _).bind_stops (note_visits _) fun _ => ?_
  refine (succeeds_modify _).bind_stops (visits_modify (fun _ => rfl) fun _ => rfl) fun _ => ?_
  refine hclasses.bind_succeeds fun classes => succeeds_get.bind fun _ => ?_
  exact succeeds_get.bind fun _ => (succeeds_modify _).bind fun _ => succeeds_pure _

/-- The bodies of one pass come before those of the next. -/
theorem prefix_of_pass {n : Nat} {sites : List BodySite} (hn : 0 < n)
    (h : sites <+: BodySite.all j.config pass) :
    sites <+: (List.range' pass n).flatMap (BodySite.all j.config) := by
  rcases Nat.exists_eq_succ_of_ne_zero hn.ne' with ⟨n, rfl⟩
  rw [List.range'_succ, List.flatMap_cons]
  exact h.trans (List.prefix_append _ _)

/-- The passes from the given one on come to the first bodies if they stop. -/
theorem passesFrom_stops (more pass : Nat) {s s' : FoldState} {e : Error}
    (h : passesFrom j more pass s = .error e s') :
    ∃ n l, Trace j s l s' ∧
      l.map Visit.site <+: (List.range' pass n).flatMap (BodySite.all j.config) := by
  -- Where the pass itself stops, only a part of its own bodies was visited.
  have hfirst {s s' : FoldState} {pass : Nat} (h : runPass j pass s = .error e s') :
      ∃ n l, Trace j s l s' ∧
        l.map Visit.site <+: (List.range' pass n).flatMap (BodySite.all j.config) := by
    rcases runPass_stops s e s' h with ⟨l, hl, hsites⟩
    exact ⟨1, l, hl, prefix_of_pass Nat.one_pos hsites⟩
  induction more generalizing pass s with
  | zero =>
      rcases bind_eq_error h with h | ⟨r, t, -, h⟩
      · exact hfirst h
      · cases h
  | succ more ih =>
      rcases bind_eq_error h with h | ⟨⟨classes, grown⟩, t, hpass, h⟩
      · exact hfirst h
      · dsimp only at h
        split at h
        · cases h
        · rcases ih (pass + 1) h with ⟨n, l', hl', hsites'⟩
          rcases runPass_visits s _ t hpass with ⟨l, hl, hsites⟩
          refine ⟨n + 1, l ++ l', hl.append hl', ?_⟩
          rw [List.map_append, hsites, List.range'_succ, List.flatMap_cons]
          exact (List.prefix_append_right_inj _).mpr hsites'

/-- The bodies that a run comes to: all of them once in every pass if it succeeds, and the first
    of them in any case. -/
theorem passes_visits_left (s : FoldState) :
    ∃ n l, Trace j s l (left (passes j s)) ∧
      l.map Visit.site <+: (List.range' 1 n).flatMap (BodySite.all j.config) ∧
      ∀ r s', passes j s = .ok r s' →
        l.map Visit.site = (List.range' 1 r.2).flatMap (BodySite.all j.config) := by
  cases hrun : passes j s with
  | ok r s' =>
      rcases passes_visits hrun with ⟨-, l, hl, hsites⟩
      refine ⟨r.2, l, hl, hsites ▸ List.prefix_rfl, fun r' t h => ?_⟩
      cases h
      exact hsites
  | error e s' =>
      rcases passesFrom_stops _ 1 hrun with ⟨n, l, hl, hsites⟩
      exact ⟨n, l, hl, hsites, nofun⟩

end Passes

end Folding

/-- What is kept at a moment of a run. -/
def FoldState.moment (s : FoldState) : Moment :=
  ⟨s.progress, s.machine⟩

namespace Visit

variable (j : FoldJob) (v : Visit)

/-- What a visit leaves to the next one. -/
def behind : Moment :=
  Analysis.momentOf (Analysis.replacements (v.site.subject j.config) v.tracker j.env
    v.state.machine)

/-- The analysis of a visit in front of a position. -/
def before (p : Nat) : Tracker × Machine :=
  Analysis.before (v.site.subject j.config) v.tracker j.env v.state.machine p

/-- A value that a visit makes: it is on the stack behind the last instruction of its span. -/
def Creates (f : Fold) : Prop :=
  .known f ∈ (v.before j (f.stop + 1)).1.stack

/-- An evaluation that a visit asks for and runs. -/
def Executes (site : EvaluationSite) (q : Request) (outcome : Except Failure (Member × Value)) :
    Prop :=
  Analysis.Executes (v.site.subject j.config) v.tracker j.env v.state.machine site q outcome

/-- An evaluation that a visit asks for and whose outcome it takes from the record. -/
def Reuses (site : EvaluationSite) (q : Request) (outcome : Except Failure (Member × Value)) :
    Prop :=
  Analysis.Reuses (v.site.subject j.config) v.tracker j.env v.state.machine site q outcome

/-- The values that a visit makes have the categories that the descriptors declare. -/
def Declared : Prop :=
  Analysis.Declared (v.site.subject j.config) v.tracker j.env v.state.machine

end Visit

namespace Folding

/-- Visits each of which starts where the one before it ended. -/
def Chained (j : FoldJob) : Moment → List Visit → Moment → Prop
  | a, [], b => b = a
  | a, v :: rest, b => v.state.moment = a ∧ Chained j (v.behind j) rest b

section Chains

variable {j : FoldJob} {a b : Moment} {l l' : List Visit} {v : Visit}

/-- Chains are joined at a moment that they share. -/
theorem Chained.append {c : Moment} (h : Chained j a l b) (h' : Chained j b l' c) :
    Chained j a (l ++ l') c := by
  induction l generalizing a with
  | nil =>
      cases h
      exact h'
  | cons v rest ih => exact ⟨h.1, ih h.2⟩

-- And taken apart at any visit.
theorem Chained.split (h : Chained j a (l ++ v :: l') b) :
    Chained j a l v.state.moment ∧ Chained j (v.behind j) l' b := by
  induction l generalizing a with
  | nil => exact ⟨h.1, h.2⟩
  | cons w rest ih =>
      rcases ih h.2 with ⟨hfirst, hrest⟩
      exact ⟨⟨h.1, hfirst⟩, hrest⟩

/-- The visits of a run are one after another, as nothing else changes what is kept. -/
theorem Trace.chained {s t : FoldState} (h : Trace j s l t) : Chained j s.moment l t.moment := by
  induction h with
  | quiet hprogress hmachine =>
      change FoldState.moment _ = FoldState.moment _
      unfold FoldState.moment
      rw [hprogress, hmachine]
  | @visit b s t found h =>
      refine ⟨rfl, ?_⟩
      rcases hrun : Analysis.replacements (b.subject j.config) (Visit.tracker ⟨b, s⟩) j.env
        s.machine with ⟨⟨found', u⟩, m⟩
      rw [analyse_eq hrun] at h
      -- The state behind the visit is made of what the analysis leaves.
      injection h with _ ht
      change t.moment = Analysis.momentOf (Analysis.replacements (b.subject j.config)
        (Visit.tracker ⟨b, s⟩) j.env s.machine)
      rw [hrun, ← ht]
      rfl
  | append _ _ ih ih' => exact ih.append ih'

/-- A visit forgets nothing. -/
theorem behind_precedes (henv : j.env.Keeps Machine.Precedes) (v : Visit) :
    v.state.moment.Precedes (v.behind j) :=
  (Analysis.preserves_precedes henv).replacements Analysis.records_precedes
    (s := v.site.subject j.config) (t := v.tracker) (m := v.state.machine)

/-- The machine at the end of a chain comes from that at its start. -/
theorem Chained.precedes (henv : j.env.Keeps Machine.Precedes) (h : Chained j a l b) :
    a.Precedes b := by
  induction l generalizing a with
  | nil =>
      cases h
      exact .refl _
  | cons v rest ih =>
      rcases h with ⟨rfl, hrest⟩
      exact (behind_precedes henv v).trans (ih hrest)

/-- What a visit leaves is there when any later one starts. -/
theorem Chained.pairwise (henv : j.env.Keeps Machine.Precedes) (h : Chained j a l b) :
    l.Pairwise fun v w => (v.behind j).Precedes w.state.moment := by
  induction l generalizing a with
  | nil => exact .nil
  | cons v rest ih =>
      refine .cons (fun w hw => ?_) (ih h.2)
      rcases List.append_of_mem hw with ⟨l₁, l₂, rfl⟩
      exact h.2.split.1.precedes henv

/-- What is on record was so at the start, or a visit ran the evaluation. -/
theorem Chained.recorded {site : EvaluationSite} {outcome : Except Failure (Member × Value)}
    (h : Chained j a l b) (hrecord : b.progress.evaluated[site]? = some outcome) :
    a.progress.evaluated[site]? = some outcome ∨ ∃ v ∈ l, ∃ q, v.Executes j site q outcome := by
  induction l generalizing a with
  | nil =>
      cases h
      exact .inl hrecord
  | cons v rest ih =>
      rcases h with ⟨rfl, hrest⟩
      rcases ih hrest with hbehind | ⟨w, hw, hexecutes⟩
      · rcases Analysis.recorded_replacements hbehind with hstart | hexecutes
        · exact .inl hstart
        · exact .inr ⟨v, List.mem_cons_self, hexecutes⟩
      · exact .inr ⟨w, List.mem_cons_of_mem v hw, hexecutes⟩

/-- What one visit runs no later one runs. -/
theorem not_executes_again (henv : j.env.Keeps Machine.Precedes) {v w : Visit}
    (hlater : (v.behind j).Precedes w.state.moment) {site : EvaluationSite} {q q' : Request}
    {outcome outcome' : Except Failure (Member × Value)} (hv : v.Executes j site q outcome) :
    ¬ w.Executes j site q' outcome' := by
  intro hw
  have hrecord : w.state.progress.evaluated[site]? = some outcome :=
    hlater.evaluated (Analysis.Executes.recorded henv hv)
  have hnew : w.state.progress.evaluated[site]? = none :=
    Analysis.Executes.not_recorded henv hw
  rw [hrecord] at hnew
  cases hnew

end Chains

end Folding

end JvmFold
