import JvmFold.Proofs.Run.Visits
import JvmFold.Proofs.Universe.Outline

/-!
# Passes Come to a Fixpoint

A run repeats its pass while passes resolve fields. Nothing takes a field out of
the resolved ones, and an assignment resolves only a static final field of the
class that it stands in, which is a primary class. So every pass but the last
one uses up at least one of these fields, and the last pass resolves nothing.

The passes are allowed one more than there are such fields. `Repeats` is the
loop without that allowance, and the two are the same: the allowance is never
used up.

That the last pass resolves nothing says more than that the loop may stop. The
resolved fields only grow, so they are the same at every position of every body
of that pass, and the order in which it comes to the classes does not matter
for what they are.

## Main definitions

* `Config.finalMembers`: The static final fields of the primary classes.
* `Folding.Repeats`: Passes until one resolves nothing, as many as it takes.
* `Visit.resolvedAt`: The resolved fields at a position of a body.

## Theorems

* `Folding.Trace.ordered`: Resolved fields only grow along a run.
* `Folding.passesFrom_iff_repeats`: The allowance of passes is never used up.
* `Folding.passes_reach_fixpoint`: How many passes there are, and what holds in the last one.
-/

namespace JvmFold

/-- The static final fields that the primary classes declare. -/
def Config.finalMembers (c : Config) : List Member :=
  c.classes.primaries.flatMap fun e =>
    (e.outline.fields.filter (·.isStaticFinal)).map e.outline.fieldMember

theorem Config.length_finalMembers (c : Config) : c.finalMembers.length = c.finalFields := by
  simp only [finalMembers, finalFields, List.length_flatMap, List.length_map]

/-- The fields that are resolved in front of a position of a body. -/
def Visit.resolvedAt (j : FoldJob) (v : Visit) (k : Nat) : Std.TreeSet Member :=
  (Analysis.before (v.site.subject j.config) v.tracker j.env v.state.machine k).1.progress.resolved

section Sets

variable {a b : Std.TreeSet Member}

/-- A set lists each of its members once. -/
theorem nodup_toList (a : Std.TreeSet Member) : a.toList.Nodup :=
  Std.TreeSet.distinct_toList.imp fun hne heq => hne (Std.compare_eq_iff_eq.mpr heq)

/-- A set in a list is no larger than the list without its repetitions. -/
theorem size_le_of_subset {l : List Member} (h : ∀ d ∈ a, d ∈ l) : a.size ≤ l.dedup.length := by
  rw [← Std.TreeSet.length_toList]
  refine (List.subperm_of_subset (nodup_toList a) fun d hd => ?_).length_le
  exact List.mem_dedup.mpr (h d (Std.TreeSet.mem_toList.mp hd))

/-- A set within another is no greater. -/
theorem size_le_size (h : ∀ d ∈ a, d ∈ b) : a.size ≤ b.size := by
  have hle := size_le_of_subset fun d hd => Std.TreeSet.mem_toList.mpr (h d hd)
  rwa [(nodup_toList b).dedup, Std.TreeSet.length_toList] at hle

/-- A set in a set of the same size is all of it. -/
theorem mem_of_size_le (h : ∀ d ∈ a, d ∈ b) (hsize : b.size ≤ a.size) {d : Member} (hd : d ∈ b) :
    d ∈ a := by
  have hsub : a.toList.Subperm b.toList :=
    List.subperm_of_subset (nodup_toList a) fun d hd =>
      Std.TreeSet.mem_toList.mpr (h d (Std.TreeSet.mem_toList.mp hd))
  have hperm := hsub.perm_of_length_le (by
    rwa [Std.TreeSet.length_toList, Std.TreeSet.length_toList])
  exact Std.TreeSet.mem_toList.mp (hperm.mem_iff.mpr (Std.TreeSet.mem_toList.mpr hd))

end Sets

/-- A field that an assignment can resolve is a static final field of a primary class. -/
theorem Config.mem_finalMembers {c : Config} (hc : c.classes.Faithful) {e : ClassEntry}
    {k : ClassFile} {declared : Member} (he : e ∈ c.classes.primaries) (hk : e.full = .ok k)
    (hown : Analysis.isOwnFinal k declared = true) : declared ∈ c.finalMembers := by
  have hshape : k.shape = e.outline.shape := hc e (List.mem_of_mem_filter he) k hk
  rw [Analysis.isOwnFinal, Bool.and_eq_true, beq_iff_eq, Option.any_eq_true] at hown
  rcases hown with ⟨howner, f, hf, hfinal⟩
  have hsignature : f.signature = declared.signature := by
    have hfound := List.find?_some hf
    exact eq_of_beq hfound
  -- The outline has a field with the flags and the signature of the one in full.
  have hmem : f.shape ∈ e.outline.fields.map Field.shape := by
    change f.shape ∈ e.outline.shape.fields
    rw [← hshape]
    exact List.mem_map_of_mem (List.mem_of_find?_eq_some hf)
  rcases List.mem_map.mp hmem with ⟨g, hg, hgf⟩
  refine List.mem_flatMap.mpr ⟨e, he, List.mem_map.mpr ⟨g, List.mem_filter.mpr ⟨hg, ?_⟩, ?_⟩⟩
  · change g.shape.isStaticFinal = true
    rw [hgf]
    exact hfinal
  · change g.shape.signature.on e.outline.name = declared
    rw [hgf, ← ClassFile.name_eq_of_shape hshape, ← howner]
    change f.signature.on declared.owner = declared
    rw [hsignature]
    rfl

/-- Each body belongs to the pass that it is visited in. -/
theorem BodySite.pass_of_mem_all {c : Config} {pass : Nat} {b : BodySite}
    (h : b ∈ BodySite.all c pass) : b.pass = pass := by
  rcases List.mem_flatMap.mp h with ⟨e, -, h⟩
  unfold ofEntry at h
  cases hfull : e.full with
  | error cause => simp [hfull, Except.toOption] at h
  | ok k =>
      rw [hfull] at h
      rcases List.mem_flatMap.mp h with ⟨m, -, hb⟩
      rcases List.mem_map.mp hb with ⟨body, -, rfl⟩
      rfl

namespace Visit

variable {j : FoldJob} {v : Visit} {d : Member}

/-- What is resolved at a place was so at the start of the visit, or has been since. -/
theorem mem_resolvedAt (k : Nat) : d ∈ v.resolvedAt j k ↔
    d ∈ v.state.progress.resolved ∨ ∃ p < k, ∃ value, v.ResolvesAt j p d value :=
  Analysis.mem_resolved_before _ _ _ _ k d

/-- The resolved fields only grow along a body. -/
theorem resolvedAt_mono {k l : Nat} (hkl : k ≤ l) (h : d ∈ v.resolvedAt j k) :
    d ∈ v.resolvedAt j l := by
  rw [mem_resolvedAt] at h ⊢
  rcases h with h | ⟨p, hp, value, h⟩
  · exact .inl h
  · exact .inr ⟨p, hp.trans_le hkl, value, h⟩

end Visit

namespace Folding

section Trace

variable {j : FoldJob} {s t : FoldState} {l : List Visit}

/-- Nothing is ever unresolved again. -/
theorem Trace.mono (h : Trace j s l t) {d : Member} (hd : d ∈ s.progress.resolved) :
    d ∈ t.progress.resolved :=
  (h.mem_resolved d).mpr (.inl hd)

/-- What is resolved at the start is resolved everywhere. -/
theorem Trace.mem_resolvedAt (h : Trace j s l t) {v : Visit} (hv : v ∈ l) {d : Member}
    (hd : d ∈ s.progress.resolved) (k : Nat) : d ∈ v.resolvedAt j k := by
  induction h with
  | quiet => cases hv
  | visit b hrun =>
      cases List.mem_singleton.mp hv
      exact (Visit.mem_resolvedAt k).mpr (.inl hd)
  | append h _ ih ih' =>
      rcases List.mem_append.mp hv with hv | hv
      · exact ih hv hd
      · exact ih' hv (h.mono hd)

/-- What is resolved anywhere is resolved at the end. -/
theorem Trace.mem_of_resolvedAt (h : Trace j s l t) {v : Visit} (hv : v ∈ l) {d : Member} {k : Nat}
    (hd : d ∈ v.resolvedAt j k) : d ∈ t.progress.resolved := by
  induction h with
  | quiet => cases hv
  | @visit b s t found hrun =>
      cases List.mem_singleton.mp hv
      rw [(Trace.visit b hrun).mem_resolved]
      rcases (Visit.mem_resolvedAt k).mp hd with hd | ⟨p, -, value, hd⟩
      · exact .inl hd
      · exact .inr ⟨_, List.mem_singleton_self _, p, value, hd⟩
  | append _ h' ih ih' =>
      rcases List.mem_append.mp hv with hv | hv
      · exact h'.mono (ih hv)
      · exact ih' hv

/-- The resolved fields only grow from one body to the next. -/
theorem Trace.ordered (h : Trace j s l t) :
    l.Pairwise fun v w => ∀ k k' d, d ∈ v.resolvedAt j k → d ∈ w.resolvedAt j k' := by
  induction h with
  | quiet => exact .nil
  | visit => exact List.pairwise_singleton _ _
  | append h h' ih ih' =>
      refine List.pairwise_append.mpr ⟨ih, ih', fun v hv w hw k k' d hd => ?_⟩
      exact h'.mem_resolvedAt hw (h.mem_of_resolvedAt hv hd) k'

/-- Along bodies of primary classes only their static final fields are resolved. -/
theorem Trace.owned (h : Trace j s l t) (hc : j.config.classes.Faithful)
    (hsites : ∀ v ∈ l, ∃ pass, v.site ∈ BodySite.all j.config pass)
    (hs : ∀ d ∈ s.progress.resolved, d ∈ j.config.finalMembers) :
    ∀ d ∈ t.progress.resolved, d ∈ j.config.finalMembers := by
  intro d hd
  rcases (h.mem_resolved d).mp hd with hd | ⟨v, hv, p, value, hresolves⟩
  · exact hs d hd
  · rcases hsites v hv with ⟨pass, hsite⟩
    rcases BodySite.exists_of_mem_all hsite with ⟨e, he, hk, -, -⟩
    exact Config.mem_finalMembers hc he hk hresolves.isOwnFinal

end Trace

/-- Passes from the given one on, as many as it takes until one resolves nothing. -/
inductive Repeats (j : FoldJob) : Nat → FoldState → List FoldedClass × Nat → FoldState → Prop where
  | last {pass : Nat} {s t u : FoldState} {classes : List FoldedClass}
      (h : runPass j pass s = .ok (classes, 0) t) (hkeep : keepPass t = .ok () u) :
      Repeats j pass s (classes, pass) u
  | again {pass grown : Nat} {s t u : FoldState} {classes : List FoldedClass}
      {r : List FoldedClass × Nat} (h : runPass j pass s = .ok (classes, grown) t)
      (hgrown : grown ≠ 0) (hrest : Repeats j (pass + 1) t r u) : Repeats j pass s r u

section Passes

variable {j : FoldJob} {pass grown : Nat} {s t : FoldState} {classes : List FoldedClass}

/-- What a pass does, by the bodies that it comes to. -/
theorem runPass_trace (h : runPass j pass s = .ok (classes, grown) t) :
    grown = t.progress.resolved.size - s.progress.resolved.size ∧
      ∃ l, Trace j s l t ∧ l.map Visit.site = BodySite.all j.config pass := by
  refine ⟨?_, runPass_visits s _ t h⟩
  rcases bind_eq_ok h with ⟨a, u, ha, h⟩
  cases ha
  rcases bind_eq_ok h with ⟨_, u, hnote, h⟩
  rcases bind_eq_ok h with ⟨_, w, hclear, h⟩
  rcases bind_eq_ok h with ⟨_, x, -, h⟩
  rcases bind_eq_ok h with ⟨_, y, hget, h⟩
  cases hget
  rcases bind_eq_ok h with ⟨_, z, hget, h⟩
  cases hget
  cases h
  rfl

variable {more : Nat} {r : List FoldedClass × Nat} {u : FoldState}

/-- A pass in which no field is resolved is the last one. -/
theorem passesFrom_last (hpass : runPass j pass s = .ok (classes, 0) t)
    (hkeep : keepPass t = .ok () u) : passesFrom j more pass s = .ok (classes, pass) u := by
  have hlast : (keepPass >>= fun _ => pure (classes, pass)) t = .ok (classes, pass) u :=
    bind_of_ok hkeep
  cases more with
  | zero => exact (bind_of_ok hpass).trans hlast
  | succ more => exact (bind_of_ok hpass).trans hlast

/-- Any other is followed by one more. -/
theorem passesFrom_again (hpass : runPass j pass s = .ok (classes, grown) t) (hgrown : grown ≠ 0) :
    passesFrom j (more + 1) pass s = passesFrom j more (pass + 1) t := by
  refine (bind_of_ok hpass).trans ?_
  dsimp only
  rw [if_neg hgrown]

/-- Each visit is that of a body of some pass. -/
theorem mem_all_of_sites {l : List Visit} (h : l.map Visit.site = BodySite.all j.config pass) :
    ∀ v ∈ l, ∃ pass, v.site ∈ BodySite.all j.config pass :=
  fun _ hv => ⟨pass, h ▸ List.mem_map_of_mem hv⟩

/-- A pass only resolves fields that can be resolved. -/
theorem runPass_owned (hc : j.config.classes.Faithful)
    (h : runPass j pass s = .ok (classes, grown) t)
    (hs : ∀ d ∈ s.progress.resolved, d ∈ j.config.finalMembers) :
    ∀ d ∈ t.progress.resolved, d ∈ j.config.finalMembers := by
  rcases runPass_trace h with ⟨-, l, hl, hsites⟩
  exact hl.owned hc (mem_all_of_sites hsites) hs

/-- The loop with an allowance for every field that is not resolved yet is the loop without one. -/
theorem passesFrom_iff_repeats (hc : j.config.classes.Faithful)
    (hs : ∀ d ∈ s.progress.resolved, d ∈ j.config.finalMembers)
    (hmore : j.config.finalMembers.dedup.length ≤ s.progress.resolved.size + more) :
    passesFrom j more pass s = .ok r u ↔ Repeats j pass s r u := by
  constructor
  · intro h
    induction more generalizing pass s with
    | zero =>
        rcases bind_eq_ok h with ⟨⟨classes, grown⟩, t, hpass, hkeep⟩
        -- All fields are resolved already, so the pass finds no more.
        have hsize := size_le_of_subset (runPass_owned hc hpass hs)
        rcases runPass_trace hpass with ⟨rfl, -⟩
        rw [show t.progress.resolved.size - s.progress.resolved.size = 0 by omega] at hpass
        rcases bind_eq_ok hkeep with ⟨_, v, hkeep, hpure⟩
        cases hpure
        exact .last hpass hkeep
    | succ more ih =>
        rcases bind_eq_ok h with ⟨⟨classes, grown⟩, t, hpass, hrest⟩
        dsimp only at hrest
        split at hrest
        next hgrown =>
          subst hgrown
          rcases bind_eq_ok hrest with ⟨_, v, hkeep, hpure⟩
          cases hpure
          exact .last hpass hkeep
        next hgrown =>
          have hsize := (runPass_trace hpass).1
          exact .again hpass hgrown (ih (runPass_owned hc hpass hs) (by omega) hrest)
  · intro h
    induction h generalizing more with
    | last hpass hkeep => exact passesFrom_last hpass hkeep
    | @again pass grown s t u classes r hpass hgrown hrest ih =>
        have howned := runPass_owned hc hpass hs
        have hsize := size_le_of_subset howned
        rcases runPass_trace hpass with ⟨hcount, -⟩
        cases more with
        | zero => omega
        | succ more =>
            rw [passesFrom_again hpass hgrown]
            exact ih howned (by omega)

/-- The resolved fields are the same everywhere in a pass that resolves none. -/
theorem runPass_steady (h : runPass j pass s = .ok (classes, 0) t) {l : List Visit}
    (hl : Trace j s l t) {v : Visit} (hv : v ∈ l) (k : Nat) (d : Member) :
    d ∈ v.resolvedAt j k ↔ d ∈ t.progress.resolved := by
  have hsize := (runPass_trace h).1
  refine ⟨hl.mem_of_resolvedAt hv, fun hd => hl.mem_resolvedAt hv ?_ k⟩
  exact mem_of_size_le (fun d hd => hl.mono hd) (by omega) hd

/-- What the passes do: every one of them but the last resolves a field, and in the last one the
    resolved fields are the same everywhere. -/
theorem Repeats.visits (h : Repeats j pass s r u) :
    r.2 + s.progress.resolved.size ≤ pass + u.progress.resolved.size ∧ pass ≤ r.2 ∧
      ∃ l, Trace j s l u ∧
        l.map Visit.site = (List.range' pass (r.2 + 1 - pass)).flatMap (BodySite.all j.config) ∧
        ∀ v ∈ l, v.site.pass = r.2 → ∀ k d, d ∈ v.resolvedAt j k ↔ d ∈ u.progress.resolved := by
  induction h with
  | @last pass s t u classes hpass hkeep =>
      rcases runPass_trace hpass with ⟨-, l, hl, hsites⟩
      cases hkeep
      refine ⟨?_, Nat.le_refl _, l ++ [], hl.append (.quiet rfl rfl), ?_, ?_⟩
      · -- Resolved fields are never given up, so their number cannot shrink.
        have hsize := size_le_size fun d hd => hl.mono hd
        dsimp only
        omega
      · rw [List.append_nil, hsites, Nat.add_sub_cancel_left, List.range'_one,
          List.flatMap_singleton]
      · intro v hv _ k d
        rw [List.append_nil] at hv
        exact runPass_steady hpass hl hv k d
  | @again pass grown s t u classes r hpass hgrown hrest ih =>
      rcases runPass_trace hpass with ⟨hsize, l, hl, hsites⟩
      rcases ih with ⟨hcount, hle, l', hl', hsites', hlast⟩
      refine ⟨by omega, by omega, l ++ l', hl.append hl', ?_, ?_⟩
      · rw [List.map_append, hsites, hsites',
          show r.2 + 1 - pass = r.2 + 1 - (pass + 1) + 1 by omega, List.range'_succ,
          List.flatMap_cons]
      · intro v hv hpassed
        rcases List.mem_append.mp hv with hv | hv
        · have hmem : v.site ∈ BodySite.all j.config pass := hsites ▸ List.mem_map_of_mem hv
          have := BodySite.pass_of_mem_all hmem
          omega
        · exact hlast v hv hpassed

end Passes

/-- The passes of a run are a loop that comes to a fixpoint. It ends if the classes can be read, and
    it is the loop without an allowance. There are at most as many further passes as there are
    static final fields of primary classes; only these are ever resolved, and the resolved ones
    only grow. In the last pass they are the same at every position of every body. -/
theorem passes_reach_fixpoint {j : FoldJob} (hc : j.config.classes.Faithful) (log : EventLog) :
    ((∀ e ∈ j.config.classes.primaries, ∃ k, e.full = .ok k) →
      ∃ r s, passes j { log } = .ok r s) ∧
    ∀ r s, (passes j { log } = .ok r s ↔ Repeats j 1 { log } r s) ∧
      (passes j { log } = .ok r s →
        r.2 ≤ j.config.finalMembers.dedup.length + 1 ∧
        (∀ d ∈ s.progress.resolved, d ∈ j.config.finalMembers) ∧
        ∃ visits, Trace j { log } visits s ∧
          visits.map Visit.site = (List.range' 1 r.2).flatMap (BodySite.all j.config) ∧
          (visits.Pairwise fun v w => ∀ k k' d, d ∈ v.resolvedAt j k → d ∈ w.resolvedAt j k') ∧
          ∀ v ∈ visits, (∀ k k' d, k ≤ k' → d ∈ v.resolvedAt j k → d ∈ v.resolvedAt j k') ∧
            (v.site.pass = r.2 → ∀ k d, d ∈ v.resolvedAt j k ↔ d ∈ s.progress.resolved)) := by
  have hnone : ∀ d ∈ ({ log : FoldState } : FoldState).progress.resolved,
      d ∈ j.config.finalMembers := fun d hd => absurd hd Std.TreeSet.not_mem_emptyc
  have hiff (r : List FoldedClass × Nat) (s : FoldState) :
      passes j { log } = .ok r s ↔ Repeats j 1 { log } r s := by
    refine passesFrom_iff_repeats hc hnone ?_
    rw [← Config.length_finalMembers]
    exact (List.dedup_sublist _).length_le.trans (Nat.le_add_left _ _)
  refine ⟨fun hread => succeeds_passes hread _, fun r s => ⟨hiff r s, fun h => ?_⟩⟩
  -- The visits of all passes in order; every pass but the last one resolves a field.
  rcases ((hiff r s).mp h).visits with ⟨hcount, hle, visits, htrace, hsites, hlast⟩
  have howned := htrace.owned hc (fun v hv => ?_) hnone
  · refine ⟨?_, howned, visits, htrace, ?_, htrace.ordered, fun v hv => ⟨fun k k' d hkk' hd =>
      Visit.resolvedAt_mono hkk' hd, hlast v hv⟩⟩
    · have hsize := size_le_of_subset howned
      omega
    · rw [hsites, Nat.add_sub_cancel]
  · rcases List.mem_flatMap.mp (hsites ▸ List.mem_map_of_mem hv) with ⟨pass, -, hsite⟩
    exact ⟨pass, hsite⟩

/-- A class with one final field that it assigns: there are two passes, which is as many as there
    can be, and the field is resolved at the end. -/
theorem passes_reach_fixpoint_level :
    (Level.config [1]).classes.Faithful ∧
      ∃ r s, passes (.ofConfig (Level.config [1])) { log := #[] } = .ok r s ∧ r.2 = 2 ∧
        Level.field ∈ s.progress.resolved := by
  have hfaithful : (Level.config [1]).classes.Faithful :=
    Universe.faithful_empty.place fun k hk => by cases hk; rfl
  rcases passes_reach_fixpoint (j := .ofConfig (Level.config [1])) hfaithful #[] with ⟨-, hall⟩
  rcases Level.exists_passes [1] with ⟨r, s, h⟩
  have hmem := Level.resolved_field h
  refine ⟨hfaithful, r, s, h, Nat.le_antisymm ((hall r s).2 h).1 ?_, hmem⟩
  cases (hall r s).1.mp h with
  | last hpass hkeep =>
      -- A first pass that is the last one leaves no field resolved.
      cases hkeep
      rcases runPass_trace hpass with ⟨hsize, -⟩
      have hnone : Level.field ∈ (∅ : Std.TreeSet Member) :=
        mem_of_size_le (fun d hd => absurd hd Std.TreeSet.not_mem_emptyc)
          (Nat.le_of_sub_eq_zero hsize.symm) hmem
      exact absurd hnone Std.TreeSet.not_mem_emptyc
  | again _ _ hrest => exact hrest.visits.2.1

end Folding

end JvmFold
