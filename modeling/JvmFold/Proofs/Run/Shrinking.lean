import JvmFold.Fold.Run
import JvmFold.Proofs.Analysis.Lowering
import JvmFold.Proofs.Bytes.Reading
import JvmFold.Proofs.Initializer.Leading
import JvmFold.Proofs.Splice.Segments

/-!
# What Passes Take Away

Where values are written back by instructions that load them, a pass takes at
least one call, cast or read out of every body that it changes, and puts none
in. The spans that it replaces all end in one. The last span is woven first,
into code that is as it was, so there at least something goes away; the others
only take more.

Pruning an initializer takes out instructions that load and assignments, and
annotations stay where they are.

## Main definitions

* `foldables`: The number of calls, casts and reads.
* `FoldedClass.Refolds`: What the passes make of a class.
* `Folding.Ensures`: What holds of a computation that succeeds.
* `FoldedClass.rewritten`: A class as a run leaves it.

## Theorems

* `foldables_weave_lt`: Weaving replacements into code takes away.
* `ClassFile.foldables_pruneInitializer_le`: Pruning puts nothing in.
* `Folding.foldMethod_ensures`: A body that changes holds less.
* `Folding.passesFrom_ensures`: What the passes make of the classes.
-/

namespace JvmFold

/-- The number of calls, casts and reads in code. -/
def foldables (code : List Instruction) : Nat :=
  code.countP Instruction.isFoldable

/-- The number of calls, casts and reads in the body of a method. -/
def Method.foldables (m : Method) : Nat :=
  (m.body.map fun b => JvmFold.foldables b.instructions).getD 0

/-- The number of calls, casts and reads in the bodies of a class. -/
def ClassFile.foldables (c : ClassFile) : Nat :=
  (c.methods.map Method.foldables).sum

/-- The number of calls, casts and reads in the classes that are folded. -/
def Config.foldables (c : Config) : Nat :=
  (c.classes.primaries.map fun e => (e.full.toOption.map ClassFile.foldables).getD 0).sum

section Code

variable {l l' : List Instruction} {rs : List Replacement} {position : Nat}

/-- What can be folded is counted part by part. -/
theorem foldables_append (l l' : List Instruction) :
    foldables (l ++ l') = foldables l + foldables l' :=
  List.countP_append

theorem foldables_eq_zero (h : ∀ i ∈ l, i.isFoldable = false) : foldables l = 0 :=
  List.countP_eq_zero.2 fun i hi => by simp [h i hi]

/-- Marks cannot be folded. -/
theorem foldables_marks (l : List Instruction) : foldables (l.filter Instruction.isPseudo) = 0 := by
  refine foldables_eq_zero fun i hi => ?_
  have hmark := (List.mem_filter.1 hi).2
  cases i <;> first | rfl | cases hmark

theorem foldables_take_add_drop (n : Nat) (l : List Instruction) :
    foldables (l.take n) + foldables (l.drop n) = foldables l := by
  rw [← foldables_append, List.take_append_drop]

/-- What is left of code with one replacement in it. -/
theorem foldables_weave_cons {r : Replacement} (hr : ∀ i ∈ r.code, i.isFoldable = false) :
    foldables (weave position (r :: rs) l) = foldables (l.take (r.start - position))
      + foldables ((weave r.start rs (l.drop (r.start - position))).drop
          (r.stop + 1 - r.start)) := by
  rw [weave]
  simp only [foldables_append, foldables_marks, foldables_eq_zero hr, Nat.zero_add]

/-- A part has no more than the whole. -/
theorem foldables_drop_le (n : Nat) (l : List Instruction) : foldables (l.drop n) ≤ foldables l :=
  (List.drop_sublist n l).countP_le

/-- Code without its beginning holds less, if something to count stood there. -/
theorem foldables_drop_lt {n k : Nat} {i : Instruction} (hi : l[k]? = some i)
    (hf : i.isFoldable = true) (hk : k < n) : foldables (l.drop n) < foldables l := by
  have htaken : 0 < foldables (l.take n) := by
    refine List.countP_pos_iff.2 ⟨i, ?_, hf⟩
    refine List.mem_of_getElem? (i := k) ?_
    rw [List.getElem?_take_of_lt hk, hi]
  have hsplit := foldables_take_add_drop n l
  omega

/-- Weaving replacements into code takes away, if the spans are by their starts and end in
    something to count. The last of them is woven first, into code that is as it was; whatever the
    others take afterwards, they put nothing back. -/
theorem foldables_weave_lt (hne : rs ≠ []) (hsorted : rs.Pairwise fun r r' => r.start ≤ r'.start)
    (hspan : ∀ r ∈ rs, position ≤ r.start ∧ r.start ≤ r.stop)
    (hlast : ∀ r ∈ rs, ∃ i, l[r.stop - position]? = some i ∧ i.isFoldable = true)
    (hcode : ∀ r ∈ rs, ∀ i ∈ r.code, i.isFoldable = false) :
    foldables (weave position rs l) < foldables l := by
  induction rs generalizing position l with
  | nil => exact absurd rfl hne
  | cons r rest ih =>
      have hin : ∀ r' ∈ rest, r' ∈ r :: rest := fun r' hr' => List.mem_cons_of_mem r hr'
      have hself : r ∈ r :: rest := List.mem_cons_self
      rw [foldables_weave_cons (hcode r hself)]
      have hsplit := foldables_take_add_drop (r.start - position) l
      rcases hspan r hself with ⟨hstart, hle⟩
      -- Positions count from the start of the span once what stands in front of it is taken off.
      have hdropped : ∀ r' ∈ r :: rest, r.start ≤ r'.start →
          ∃ i, (l.drop (r.start - position))[r'.stop - r.start]? = some i ∧
            i.isFoldable = true := by
        intro r' hr' hafter
        rcases hlast r' hr' with ⟨i, hi, hf⟩
        have hle' := (hspan r' hr').2
        refine ⟨i, ?_, hf⟩
        rw [List.getElem?_drop, ← hi]
        congr 1
        omega
      cases rest with
      | nil =>
          rcases hdropped r hself (Nat.le_refl _) with ⟨i, hi, hf⟩
          have hlt := foldables_drop_lt (n := r.stop + 1 - r.start) hi hf (by omega)
          rw [weave]
          omega
      | cons next others =>
          have hafter : ∀ r' ∈ next :: others, r.start ≤ r'.start :=
            (List.pairwise_cons.1 hsorted).1
          have hbehind := @ih (l.drop (r.start - position)) r.start
            (List.cons_ne_nil _ _) (List.pairwise_cons.1 hsorted).2
            (fun r' hr' => ⟨hafter r' hr', (hspan r' (hin r' hr')).2⟩)
            (fun r' hr' => hdropped r' (hin r' hr') (hafter r' hr'))
            fun r' hr' => hcode r' (hin r' hr')
          have hdrop := foldables_drop_le (r.stop + 1 - r.start)
            (weave r.start (next :: others) (l.drop (r.start - position)))
          omega

/-- A body with new code in the place of spans holds less. -/
theorem foldables_splice_lt {b : Body} (hne : rs ≠ [])
    (hspan : ∀ r ∈ rs, r.start ≤ r.stop)
    (hlast : ∀ r ∈ rs, ∃ i, b.instructions[r.stop]? = some i ∧ i.isFoldable = true)
    (hcode : ∀ r ∈ rs, ∀ i ∈ r.code, i.isFoldable = false) :
    foldables (b.splice rs).instructions < foldables b.instructions := by
  rw [Body.splice, if_neg (by simpa using hne)]
  have hmem : ∀ r ∈ byStart rs, r ∈ rs := fun r hr => mem_byStart.1 hr
  have hne' : byStart rs ≠ [] := by
    rcases List.exists_mem_of_ne_nil rs hne with ⟨r, hr⟩
    exact List.ne_nil_of_mem (mem_byStart.2 hr)
  exact foldables_weave_lt hne' (byStart_pairwise rs)
    (fun r hr => ⟨Nat.zero_le _, hspan r (hmem r hr)⟩)
    (fun r hr => by simpa using hlast r (hmem r hr)) fun r hr => hcode r (hmem r hr)

end Code

namespace Initializer

/-- Pruning adds nothing that can be folded. -/
theorem foldables_prune_le (c : ClassFile) (b : Body) :
    foldables (prune c b).2.instructions ≤ foldables b.instructions := by
  unfold prune
  dsimp only
  split
  · exact Nat.le_refl _
  · exact (leading_sublist _ _ _).countP_le

/-- A value to start with is no annotation. -/
theorem annotations_setConstant (s : Signature) (k : Constant) (l : List Field) :
    (setConstant s k l).flatMap (·.annotations) = l.flatMap (·.annotations) := by
  induction l with
  | nil => rfl
  | cons f rest ih =>
      rw [setConstant]
      split
      · rfl
      · simp only [List.flatMap_cons, ih]

/-- Giving a field its value keeps its annotations. -/
theorem annotations_setConstants (pairs : List (Member × Constant)) (l : List Field) :
    (pairs.foldl (fun l (f, k) => setConstant f.signature k l) l).flatMap (·.annotations)
      = l.flatMap (·.annotations) := by
  induction pairs generalizing l with
  | nil => rfl
  | cons pair rest ih => rw [List.foldl_cons, ih, annotations_setConstant]

end Initializer

namespace ClassFile

/-- Another body that holds no more leaves the methods with no more. -/
theorem foldables_replaceMethodBody_le {s : Signature} {body : Option Body} {b : Body}
    {l : List Method} {m : Method} (hm : l.find? (fun m => m.signature == s) = some m)
    (hb : m.body = some b)
    (hle : ∀ b', body = some b' →
      JvmFold.foldables b'.instructions ≤ JvmFold.foldables b.instructions) :
    ((replaceMethodBody s body l).map Method.foldables).sum ≤ (l.map Method.foldables).sum := by
  induction l with
  | nil => exact Nat.le_refl _
  | cons first rest ih =>
      unfold replaceMethodBody
      -- The body goes to the first method with the signature.
      by_cases hs : first.signature = s
      · rw [List.find?_cons_of_pos (by simpa using hs)] at hm
        cases hm
        rw [if_pos hs]
        cases body with
        | none => simp only [List.map_cons, List.sum_cons]; omega
        | some b' =>
            have hnew := hle b' rfl
            have hfirst : m.foldables = JvmFold.foldables b.instructions := by
              rw [Method.foldables, hb]; rfl
            simp only [List.map_cons, List.sum_cons, hfirst]
            exact Nat.add_le_add_right hnew _
      · rw [List.find?_cons_of_neg (by simpa using hs)] at hm
        rw [if_neg hs]
        simp only [List.map_cons, List.sum_cons]
        have hrest := ih hm
        omega

/-- Dropping a method drops its own. -/
theorem annotations_replaceMethodBody (s : Signature) (body : Option Body) (l : List Method) :
    ((replaceMethodBody s body l).flatMap (·.annotations)).Sublist
      (l.flatMap (·.annotations)) := by
  induction l with
  | nil => exact List.Sublist.refl _
  | cons first rest ih =>
      unfold replaceMethodBody
      split
      · cases body with
        | none => exact List.sublist_append_right _ _
        | some b' => exact List.Sublist.refl _
      · exact (List.Sublist.refl _).append ih

/-- Pruning an initializer puts no call, cast or read into a class. -/
theorem foldables_pruneInitializer_le (c : ClassFile) (pass : Nat) :
    (c.pruneInitializer pass).1.foldables ≤ c.foldables := by
  unfold pruneInitializer
  split
  · exact Nat.le_refl _
  next b hb =>
    rcases Option.bind_eq_some_iff.1 hb with ⟨m, hm, hmb⟩
    refine foldables_replaceMethodBody_le hm hmb fun b' hb' => ?_
    split at hb'
    · cases hb'
    · cases hb'
      exact Initializer.foldables_prune_le c b

/-- Pruning an initializer marks nothing. -/
theorem markerCount_pruneInitializer_le (c : ClassFile) (pass : Nat) :
    (c.pruneInitializer pass).1.markerCount ≤ c.markerCount := by
  unfold pruneInitializer
  split
  · exact Nat.le_refl _
  · simp only [markerCount, Marker.count]
    rw [Initializer.annotations_setConstants]
    refine Nat.add_le_add_left ?_ _
    exact ((annotations_replaceMethodBody _ _ _).filter _).length_le

end ClassFile

/-- What the passes make of a class: it is marked as before, and if one of its bodies changed it
    holds less. -/
def FoldedClass.Refolds (e : ClassEntry) (f : FoldedClass) : Prop :=
  ∃ k, e.full = .ok k ∧ f.folded.markerCount = k.markerCount ∧
    f.folded.foldables + f.modified.toNat ≤ k.foldables

namespace Folding

section Rules

variable {α β : Type} {I : FoldState → Prop} {Q : α → Prop} {R : β → Prop}

/-- A computation that succeeds keeps an invariant of the state, and its answer meets a
    condition. -/
def Ensures (I : FoldState → Prop) (x : Folding α) (Q : α → Prop) : Prop :=
  ∀ s a s', I s → x s = .ok a s' → I s' ∧ Q a

theorem ensures_pure {a : α} (h : Q a) : Ensures I (pure a) Q := by
  intro s b s' hs hb
  cases hb
  exact ⟨hs, h⟩

/-- A part that fails ensures anything. -/
theorem ensures_throw (e : Error) : Ensures I (throw e : Folding α) Q := by
  intro s a s' _ ha
  cases ha

/-- What a part ensures may be used for the part behind it. -/
theorem Ensures.bind {x : Folding α} {f : α → Folding β} (hx : Ensures I x Q)
    (hf : ∀ a, Q a → Ensures I (f a) R) : Ensures I (x >>= f) R := by
  intro s b s' hs h
  rcases bind_eq_ok h with ⟨a, s₁, ha, hb⟩
  rcases hx s a s₁ hs ha with ⟨hs₁, hqa⟩
  exact hf a hqa s₁ b s' hs₁ hb

theorem ensures_get : Ensures I get fun _ => True := by
  intro s a s' hs h
  cases h
  exact ⟨hs, trivial⟩

/-- A change keeps what it keeps for every state. -/
theorem ensures_modify {f : FoldState → FoldState} (h : ∀ s, I s → I (f s)) :
    Ensures I (modify f) fun _ => True := by
  intro s a s' hs ha
  cases ha
  exact ⟨h s hs, trivial⟩

/-- A list of parts ensures of each what it ensures alone. -/
theorem ensures_mapM {γ : Type} {f : γ → Folding α} {P : γ → α → Prop} {l : List γ}
    (h : ∀ c ∈ l, Ensures I (f c) (P c)) : Ensures I (l.mapM f) (List.Forall₂ P l) := by
  induction l with
  | nil => exact ensures_pure .nil
  | cons c rest ih =>
      rw [List.mapM_cons]
      refine (h c List.mem_cons_self).bind fun a ha => ?_
      refine (ih fun d hd => h d (List.mem_cons_of_mem c hd)).bind fun as has => ?_
      exact ensures_pure (.cons ha has)

end Rules

/-- The fields that became known are of classes that are folded. -/
def Known (c : Config) (s : FoldState) : Prop :=
  ∀ f ∈ s.progress.resolved, c.Folds f.owner

section Passes

variable {j : FoldJob} {pass : Nat}

/-- A note changes nothing that is known. -/
theorem note_ensures (e : Event) : Ensures (Known j.config) (note e) fun _ => True :=
  ensures_modify fun _ hs => hs

/-- Each replacement has less to fold than what it replaces. -/
theorem analyse_ensures {s : Subject} (hs : s.config = j.config) (hc : j.config.LoadsOnly)
    (ho : j.config.Folds s.owner.name) :
    Ensures (Known j.config) (analyse j s) fun found =>
      ∀ r ∈ found, r.start ≤ r.stop ∧ r.Lowers s := by
  intro state found state' hstate h
  cases h
  rw [← hs] at hc ho hstate ⊢
  rcases Analysis.replacements_lower s ⟨state.progress, state.log, state.passLog, [], #[]⟩ j.env
    state.machine hc ho hstate with ⟨hlower, hknown⟩
  exact ⟨hknown, hlower⟩

/-- A body that changes holds less. -/
theorem foldMethod_ensures (hc : j.config.LoadsOnly) {k : ClassFile}
    (hk : j.config.Folds k.name) (m : Method) :
    Ensures (Known j.config) (foldMethod j pass k m) fun r =>
      r.1.annotations = m.annotations ∧ r.1.foldables + r.2.toNat ≤ m.foldables := by
  unfold foldMethod
  split
  · exact ensures_pure ⟨rfl, Nat.le_refl _⟩
  next b hb =>
    refine (analyse_ensures rfl hc hk).bind fun found hfound => ?_
    split
    · exact ensures_pure ⟨rfl, Nat.le_refl _⟩
    next hne =>
      -- Each replacement ends in an instruction that could be folded and is gone now.
      have hlast : ∀ r ∈ found, ∃ i, b.instructions[r.stop]? = some i ∧ i.isFoldable = true := by
        intro r hr
        simpa [Subject.FoldsAt, Subject.ofBody] using (hfound r hr).2.last
      have hlt := foldables_splice_lt (fun h => hne h) (fun r hr => (hfound r hr).1) hlast
        fun r hr => (hfound r hr).2.code
      refine ensures_pure ⟨rfl, ?_⟩
      have hone := Bool.toNat_le (decide (0 < found.length))
      simp only [Method.foldables, hb, Option.map_some, Option.getD_some]
      omega

/-- Methods of which none holds more hold less together, if one of them changed. -/
theorem foldables_methods {l : List Method} {l' : List (Method × Bool)}
    (h : List.Forall₂ (fun m r => r.1.annotations = m.annotations ∧
      r.1.foldables + r.2.toNat ≤ m.foldables) l l') :
    (l'.map Prod.fst).flatMap (·.annotations) = l.flatMap (·.annotations) ∧
      ((l'.map Prod.fst).map Method.foldables).sum + (l'.any Prod.snd).toNat
        ≤ (l.map Method.foldables).sum := by
  induction h with
  | nil => exact ⟨rfl, Nat.le_refl _⟩
  | @cons m r l l' hm _ ih =>
      refine ⟨by simp only [List.map_cons, List.flatMap_cons, hm.1, ih.1], ?_⟩
      have hany : ((r :: l').any Prod.snd).toNat ≤ r.2.toNat + (l'.any Prod.snd).toNat := by
        rw [List.any_cons]
        cases r.2 <;> cases l'.any Prod.snd <;> decide
      have hfirst := hm.2
      have hrest := ih.2
      simp only [List.map_cons, List.sum_cons]
      omega

/-- A class has no more to fold afterwards. -/
theorem foldClass_ensures (hc : j.config.LoadsOnly) {e : ClassEntry}
    (he : e ∈ j.config.classes.primaries) :
    Ensures (Known j.config) (foldClass j pass e) (FoldedClass.Refolds e) := by
  unfold foldClass
  split
  · exact ensures_throw _
  next k hk =>
    have hfolds : j.config.Folds k.name := ⟨e, he, k, hk, rfl⟩
    refine (ensures_mapM fun m _ => foldMethod_ensures hc hfolds m).bind fun methods hmethods => ?_
    rcases foldables_methods hmethods with ⟨hannotations, hsum⟩
    refine ensures_pure ⟨k, hk, ?_, hsum⟩
    simp only [ClassFile.markerCount, hannotations]

-- And neither has any class of a pass.
theorem runPass_ensures (hc : j.config.LoadsOnly) :
    Ensures (Known j.config) (runPass j pass) fun r =>
      List.Forall₂ FoldedClass.Refolds j.config.classes.primaries r.1 := by
  refine ensures_get.bind fun _ _ => ?_
  refine (note_ensures _).bind fun _ _ => ?_
  refine (ensures_modify fun s hs => ?_).bind fun _ _ => ?_
  · exact hs
  refine (ensures_mapM fun e he => foldClass_ensures hc he).bind fun classes hclasses => ?_
  refine ensures_get.bind fun _ _ => ensures_get.bind fun _ _ => ?_
  exact (note_ensures _).bind fun _ _ => ensures_pure hclasses

/-- What the passes make of the classes. Every pass works on the classes as they were read, so the
    last one is as good as any. -/
theorem passesFrom_ensures (hc : j.config.LoadsOnly) (more pass : Nat) :
    Ensures (Known j.config) (passesFrom j more pass) fun r =>
      List.Forall₂ FoldedClass.Refolds j.config.classes.primaries r.1 := by
  have hkeep : Ensures (Known j.config) keepPass fun _ => True := ensures_modify fun _ hs => hs
  induction more generalizing pass with
  | zero =>
      refine (runPass_ensures hc).bind fun r hr => ?_
      exact hkeep.bind fun _ _ => ensures_pure hr
  | succ more ih =>
      refine (runPass_ensures hc).bind fun r hr => ?_
      dsimp only
      split
      · exact hkeep.bind fun _ _ => ensures_pure hr
      · exact ih (pass + 1)

end Passes

end Folding

/-- A class without markers as a run leaves it. -/
def FoldedClass.rewritten (f : FoldedClass) (pass : Nat) : ClassFile :=
  if f.modified then (f.folded.pruneInitializer pass).1 else f.folded

/-- Rewriting adds nothing to fold. -/
theorem foldables_rewritten_le (f : FoldedClass) (pass : Nat) :
    (f.rewritten pass).foldables ≤ f.folded.foldables := by
  unfold FoldedClass.rewritten
  split
  · exact ClassFile.foldables_pruneInitializer_le _ _
  · exact Nat.le_refl _

-- And no marker.
theorem markerCount_rewritten_le (f : FoldedClass) (pass : Nat) :
    (f.rewritten pass).markerCount ≤ f.folded.markerCount := by
  unfold FoldedClass.rewritten
  split
  · exact ClassFile.markerCount_pruneInitializer_le _ _
  · exact Nat.le_refl _

end JvmFold
