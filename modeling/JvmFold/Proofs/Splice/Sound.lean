import JvmFold.Proofs.Natives.Composition
import JvmFold.Proofs.Splice.Places

/-!
# Splicing Is Sound

A body with new code in the place of spans does what the body did, if the new
code does what the spans do. The runs of the two are lined up by segments. At
an instruction that stays both do the same, since they have the same labels
and handlers there; at a span both get to the next segment, each by its own
code, and since that code is straight no handler and no label of the method
matters on the way.

In what way contexts agree makes no difference to the argument, as long as
instructions keep it. New code is there to be shorter than its span, so the
count of instructions is another one behind it. Without a limit no instruction
looks at the count, and contexts need to be the same but for that.

## Main definitions

* `Respected`: A relation of contexts that instructions keep.
* `Replacement.Faithful`: New code that does what its span does.
* `Replacement.SameEffect`: New code that does this up to the count of instructions.

## Theorems

* `Matched.linked`: Methods of the same segments are lined up.
* `respected_alike`: Instructions do not look at the count of instructions.
* `splice_sound`: Splicing is sound.
-/

namespace JvmFold

/-- A relation of contexts that the instructions of a class keep. -/
structure Respected (same : Machine → Machine → Prop) (c : ClassFile) (env : Env) : Prop where
  heap : ∀ {s t : Machine}, same s t → s.heap = t.heap
  tick : ∀ {s t : Machine}, same s t → Agree same (Emu.tick env s) (Emu.tick env t)
  step : ∀ {s t : Machine} (i : Instruction) (a : Activation), same s t →
    Agree same (Emu.step c i a env s) (Emu.step c i a env t)

/-- Without a limit instructions do not look at the count of instructions. -/
theorem respected_alike {c : ClassFile} {env : Env} (hlimit : env.limits.instructions = none)
    (henv : env.Uncounted) : Respected Machine.Alike c env where
  heap hst := hst.heap_eq
  tick hst := Emu.agree_tick hlimit hst
  step i a hst := by
    have hcomposed : Emu.Composed true (Emu.step c i a) :=
      Emu.composed_step c (absurd · (by decide)) a
    exact hcomposed.uncounted henv hst

/-- Straight code keeps a relation that instructions keep. -/
theorem Respected.straight {same : Machine → Machine → Prop} {c : ClassFile} {env : Env}
    (hr : Respected same c env) (code : List Instruction) (a : Activation) {s t : Machine}
    (hst : same s t) :
    Agree same (Emu.straight c code a env s) (Emu.straight c code a env t) := by
  -- The induction is on the code; what an instruction does is respected, and so is its count.
  induction code generalizing a s t with
  | nil => exact .ok hst
  | cons i rest ih =>
      cases hi : i.isPseudo with
      | true =>
          rw [Emu.straight_mark hi]
          exact ih a hst
      | false =>
          have htick := hr.tick hst
          rw [Emu.straight_real hi, Emu.straight_real hi]
          generalize Emu.tick env s = r, Emu.tick env t = r' at htick
          cases htick with
          | error hst => exact .error hst
          | @ok _ s t hst =>
              have hstep := hr.step i a hst
              dsimp only
              generalize Emu.step c i a env s = r, Emu.step c i a env t = r' at hstep
              cases hstep with
              | error hst => exact .error hst
              | @ok flow s t hst =>
                  cases flow with
                  | next stack => exact ih _ hst
                  | store index v stack => exact ih _ hst
                  | jump l stack => exact .ok hst
                  | finish v => exact .ok hst

section Linked

variable {segs : List Segment} {referenced : List Label} {c : ClassFile} {p p' : Prepared}
variable {env : Env}
variable {same : Machine → Machine → Prop} {n : Nat} {a : Activation} {s t : Machine}

/-- The code from a place on is that of the segments from there on. -/
theorem drop_code {side : Segment → List Instruction} {q : Prepared} {g : Segment}
    (hcode : q.code.toList = segs.flatMap side) (h : segs[n]? = some g) :
    q.code.toList.drop (places side segs n) = side g ++ (segs.drop (n + 1)).flatMap side := by
  have hlt : n < segs.length := (List.getElem?_eq_some_iff.mp h).1
  have hget : segs[n] = g := (List.getElem?_eq_some_iff.mp h).2
  rw [hcode, drop_places, List.drop_eq_getElem_cons hlt, hget, List.flatMap_cons]

/-- An instruction that is kept stands at its place on both sides. -/
theorem getElem?_code {side : Segment → List Instruction} {q : Prepared} {i : Instruction}
    (hcode : q.code.toList = segs.flatMap side) (h : segs[n]? = some (.keep i))
    (hside : side (.keep i) = [i]) : q.code[places side segs n]? = some i := by
  have hdrop := drop_code hcode h
  rw [hside] at hdrop
  exact (Emu.getElem?_of_drop hdrop).1

/-- After an instruction that stays both methods go on at one segment. -/
theorem Matched.parallel_progress (hm : Matched segs referenced c p p') {i : Instruction}
    (h : segs[n]? = some (.keep i)) {flow : Flow}
    (htarget : ∀ l stack, flow = .jump l stack → l ∈ referenced) (hst : same s t) :
    Parallel same (places Segment.old segs) (places Segment.new segs) segs.length
      (Emu.lift (flow.progress p a (places Segment.old segs n)) env s)
      (Emu.lift (flow.progress p' a (places Segment.new segs n)) env t) := by
  have hnext : places Segment.old segs n + 1 = places Segment.old segs (n + 1) :=
    (places_succ h).symm
  have hnext' : places Segment.new segs n + 1 = places Segment.new segs (n + 1) :=
    (places_succ h).symm
  have hlt : n + 1 ≤ segs.length := (List.getElem?_eq_some_iff.mp h).1
  cases flow with
  | next stack =>
      rw [Flow.progress, Flow.progress, hnext, hnext']
      exact Parallel.running hlt hst
  | store index v stack =>
      rw [Flow.progress, Flow.progress, hnext, hnext']
      exact Parallel.running hlt hst
  | finish v => exact Parallel.finished hst
  | jump l stack =>
      -- The label is referenced, so it is at one segment in both methods.
      have hposition := position_together (hm.labels l (htarget l stack rfl))
      rw [Flow.progress, Flow.progress, Prepared.target, Prepared.target]
      generalize Prepared.position p.labels l = x, Prepared.position p'.labels l = x' at hposition
      cases hposition with
      | error => exact Parallel.error hst
      | ok hplace =>
          rcases hplace with ⟨m, hm, rfl, rfl⟩
          exact Parallel.running hm hst

/-- What an instruction that stays has come to is met in the same way in both methods. -/
theorem Matched.parallel_resume (hm : Matched segs referenced c p p')
    (hr : Respected same c env) {i : Instruction} (h : segs[n]? = some (.keep i))
    {x x' : Emu.Outcome Flow} (hx : Agree same x x')
    (htarget : ∀ l stack u, x = .ok (.jump l stack) u → l ∈ referenced) :
    Parallel same (places Segment.old segs) (places Segment.new segs) segs.length
      (p.resume a (places Segment.old segs n) env x)
      (p'.resume a (places Segment.new segs n) env x') := by
  cases hx with
  | ok hst =>
      refine hm.parallel_progress h (fun l stack hflow => ?_) hst
      exact htarget l stack _ (by rw [hflow])
  | @error e s t hst =>
      -- Only an exception is handed on to a guard; both codes have it at the same place.
      cases e with
      | thrown exception =>
          rcases hm.handler?_atPlace h env.program.classes (s.heap.get exception).className with
            ⟨o, hle, hold, hnew⟩
          unfold Prepared.resume
          simp only
          rw [← hr.heap hst, hold, hnew]
          cases o with
          | none => exact Parallel.error hst
          | some m => exact Parallel.running (hle m rfl) hst
      | _ => exact Parallel.error hst

/-- At an instruction that stays both methods do the same. -/
theorem Matched.parallel_keep (hm : Matched segs referenced c p p') (hr : Respected same c env)
    {i : Instruction} (h : segs[n]? = some (.keep i)) (htargets : ∀ l ∈ i.targets, l ∈ referenced)
    (hst : same s t) :
    Parallel same (places Segment.old segs) (places Segment.new segs) segs.length
      (Emu.advance p a (places Segment.old segs n) env s)
      (Emu.advance p' a (places Segment.new segs n) env t) := by
  have hget := getElem?_code hm.code h rfl
  have hget' := getElem?_code hm.code' h rfl
  have hlt : n + 1 ≤ segs.length := (List.getElem?_eq_some_iff.mp h).1
  -- A mark is one step on both sides; an instruction is counted first.
  cases hi : i.isPseudo with
  | true =>
      have hnext : places Segment.old segs (n + 1) = places Segment.old segs n + 1 := places_succ h
      have hnext' : places Segment.new segs (n + 1) = places Segment.new segs n + 1 := places_succ h
      rw [Emu.advance_mark hget hi, Emu.advance_mark hget' hi, ← hnext, ← hnext']
      exact Parallel.running hlt hst
  | false =>
      rw [Emu.advance_real hget hi, Emu.advance_real hget' hi, hm.owner, hm.owner']
      have htick := hr.tick hst
      generalize Emu.tick env s = x, Emu.tick env t = x' at htick
      cases htick with
      | error hst => exact Parallel.error hst
      | ok hst =>
          refine hm.parallel_resume hr h (hr.step i a hst) ?_
          intro l stack u hjump
          exact htargets l (Emu.step_jump hjump)

/-- At a span both methods get to the next segment. -/
theorem Matched.reaches_span (hm : Matched segs referenced c p p') {old code : List Instruction}
    {b : Activation} {s' t' : Machine} (h : segs[n]? = some (.span old code))
    (hold : Emu.straight c old a env s = .ok (some b) s')
    (hcode : Emu.straight c code a env t = .ok (some b) t') :
    Emu.Reaches p env a (places Segment.old segs n) s b (places Segment.old segs (n + 1)) s' ∧
    Emu.Reaches p' env a (places Segment.new segs n) t b (places Segment.new segs (n + 1)) t' := by
  rw [places_succ h, places_succ h]
  refine ⟨Emu.straight_reaches (drop_code hm.code h) ?_,
    Emu.straight_reaches (drop_code hm.code' h) ?_⟩
  · rw [hm.owner]
    exact hold
  · rw [hm.owner', Segment.new, Emu.straight_filter_append]
    exact hcode

/-- Methods of the same segments are lined up. -/
theorem Matched.linked (hm : Matched segs referenced c p p') (hr : Respected same c env)
    (hkeep : ∀ i, Segment.keep i ∈ segs → ∀ l ∈ i.targets, l ∈ referenced)
    (hspan : ∀ old code, Segment.span old code ∈ segs → ∀ a s t, same s t → ∃ b s' t', same s' t' ∧
      Emu.straight c old a env s = .ok (some b) s' ∧
      Emu.straight c code a env t = .ok (some b) t') :
    Linked p p' env same (places Segment.old segs) (places Segment.new segs) segs.length := by
  intro n hn a s t hst
  cases hget : segs[n]? with
  | none =>
      -- Behind the last segment both methods fall off the end.
      have hlast : n = segs.length := Nat.le_antisymm hn (List.getElem?_eq_none_iff.mp hget)
      have hend : p.code[places Segment.old segs n]? = none := by
        rw [hlast, places_length, ← hm.code]
        exact Array.getElem?_eq_none (Nat.le_refl _)
      have hend' : p'.code[places Segment.new segs n]? = none := by
        rw [hlast, places_length, ← hm.code']
        exact Array.getElem?_eq_none (Nat.le_refl _)
      rw [Emu.advance_end hend, Emu.advance_end hend', hm.member]
      exact Or.inl (Parallel.error hst)
  | some g =>
      have hmem : g ∈ segs := List.mem_of_getElem? hget
      cases g with
      | keep i => exact Or.inl (hm.parallel_keep hr hget (hkeep i hmem) hst)
      | span old code =>
          rcases hspan old code hmem a s t hst with ⟨b, s', t', hst', hold, hcode⟩
          have hreach := hm.reaches_span hget hold hcode
          exact Or.inr ⟨(List.getElem?_eq_some_iff.mp hget).1, b, s', t', hst', hreach⟩

end Linked

/-- The new code does what its span does: executed from the same frame in contexts that agree, both
    end in the same frame, in contexts that agree. -/
def Replacement.Faithful (same : Machine → Machine → Prop) (b : Body) (c : ClassFile) (env : Env)
    (r : Replacement) : Prop :=
  ∀ a s t, same s t → ∃ a' s' t', same s' t' ∧
    Emu.straight c (b.span r) a env s = .ok (some a') s' ∧
    Emu.straight c r.code a env t = .ok (some a') t'

/-- From every frame and context the code of the span and the new code both end in the same frame,
    in contexts that are the same but for the count of instructions. -/
def Replacement.SameEffect (b : Body) (c : ClassFile) (env : Env) (r : Replacement) : Prop :=
  ∀ a s, ∃ a' s' t', Machine.Alike s' t' ∧
    Emu.straight c (b.span r) a env s = .ok (some a') s' ∧
    Emu.straight c r.code a env s = .ok (some a') t'

/-- It does not matter then what has been counted in front of the new code. -/
theorem Replacement.SameEffect.faithful {b : Body} {c : ClassFile} {env : Env} {r : Replacement}
    (h : r.SameEffect b c env) (hr : Respected Machine.Alike c env) :
    r.Faithful Machine.Alike b c env := by
  intro a s t hst
  rcases h a s with ⟨a', s', t', hst', hold, hcode⟩
  have hagree := hr.straight r.code a hst
  rw [hcode] at hagree
  generalize hnew : Emu.straight c r.code a env t = x at hagree
  cases hagree with
  | @ok _ _ u hu => exact ⟨a', s', u, hst'.trans hu, hold, rfl⟩

/-- What a list of replacements must be like to be spliced: the spans are apart and inside the body,
    and no label that something refers to stands in a span or in new code. -/
structure Body.Splices (b : Body) (rs : List Replacement) : Prop where
  apart : rs.Pairwise Replacement.Apart
  inside : ∀ r ∈ rs, r.start ≤ r.stop ∧ r.stop < b.instructions.length
  unlabelled : ∀ r ∈ rs, ∀ l ∈ b.referenced,
    Instruction.label l ∉ b.span r ∧ Instruction.label l ∉ r.code

section Splice

variable {b : Body} {rs : List Replacement}

/-- The segments of a body for spans in any order. -/
def Body.segments (b : Body) (rs : List Replacement) : List Segment :=
  JvmFold.segments 0 (byStart rs) b.instructions

theorem splice_instructions :
    (b.splice rs).instructions = weave 0 (byStart rs) b.instructions := by
  unfold Body.splice
  cases rs with
  | nil =>
      rw [byStart, List.mergeSort_nil]
      rfl
  | cons r rest => rfl

theorem splice_handlers : (b.splice rs).handlers = b.handlers := by
  unfold Body.splice
  split <;> rfl

theorem splice_maxLocals : (b.splice rs).maxLocals = b.maxLocals := by
  unfold Body.splice
  split <;> rfl

/-- A span of the segments is the span of a replacement. -/
theorem Body.Splices.mem_segments (h : b.Splices rs) {old code : List Instruction}
    (hmem : Segment.span old code ∈ b.segments rs) :
    ∃ r ∈ rs, old = b.span r ∧ code = r.code := by
  have hdrop : Segment.span old code ∈ JvmFold.segments 0 (byStart rs) (b.instructions.drop 0) :=
    hmem
  rcases JvmFold.mem_segments hdrop (chained_byStart h.apart h.inside) with ⟨r, hr, hold, hcode⟩
  exact ⟨r, mem_byStart.mp hr, hold, hcode⟩

/-- The old sides of the segments are the body that was given. -/
theorem Body.Splices.flatMap_old (h : b.Splices rs) :
    (b.segments rs).flatMap Segment.old = b.instructions :=
  JvmFold.flatMap_old (chained_byStart h.apart h.inside)

/-- A body and its spliced form are made ready together. -/
theorem Body.Splices.ofBody_together (h : b.Splices rs) (owner : ClassFile) (member : Member) :
    Together (Matched (b.segments rs) b.referenced owner) (Prepared.ofBody owner member b)
      (Prepared.ofBody owner member (b.splice rs)) := by
  refine JvmFold.ofBody_together h.flatMap_old.symm ?_ splice_handlers splice_maxLocals ?_
  · rw [splice_instructions]
    exact (flatMap_new (chained_byStart h.apart h.inside) (Nat.zero_add _)).symm
  · intro old code hmem l hl
    rcases h.mem_segments hmem with ⟨r, hr, rfl, rfl⟩
    exact h.unlabelled r hr l hl

/-- What stays of a body branches to labels that count as referenced. -/
theorem Body.Splices.targets (h : b.Splices rs) {i : Instruction}
    (hi : Segment.keep i ∈ b.segments rs) {l : Label} (hl : l ∈ i.targets) : l ∈ b.referenced := by
  have hmem : i ∈ b.instructions := by
    rw [← h.flatMap_old]
    exact List.mem_flatMap.mpr ⟨.keep i, hi, List.mem_singleton_self i⟩
  rw [Body.referenced, List.mem_append]
  refine Or.inl (List.mem_flatMap.mpr ⟨i, hmem, ?_⟩)
  cases i with
  | frame f => cases hl
  | _ => exact hl

/-- A body and its spliced form are lined up if the new code does what the spans do. -/
theorem Body.Splices.linked (h : b.Splices rs) {c : ClassFile} {p p' : Prepared} {env : Env}
    {same : Machine → Machine → Prop} (hm : Matched (b.segments rs) b.referenced c p p')
    (hr : Respected same c env) (hcode : ∀ r ∈ rs, r.Faithful same b c env) :
    Linked p p' env same (places Segment.old (b.segments rs)) (places Segment.new (b.segments rs))
      (b.segments rs).length := by
  refine hm.linked hr (fun i hi l hl => h.targets hi hl) ?_
  intro old code hmem
  rcases h.mem_segments hmem with ⟨r, hr, rfl, rfl⟩
  exact hcode r hr

end Splice

/-- What one method returns the other returns as well, if their runs can be lined up from the start
    on. -/
theorem Linked.returns {p p' : Prepared} {env : Env} {same : Machine → Machine → Prop}
    {place place' : Nat → Nat} {last : Nat} (h : Linked p p' env same place place' last)
    (hplace : place 0 = 0) (hplace' : place' 0 = 0) {a : Activation} {s t : Machine}
    {r : Emu.Outcome (Option Value)} (hst : same s t) (hr : ∀ u, r ≠ .error .outOfSteps u)
    (hreturns : Emu.Returns p a 0 env s r) :
    ∃ r', Agree same r r' ∧ Emu.Returns p' a 0 env t r' := by
  rcases (Emu.returns_iff hr).mp hreturns with ⟨k, hk⟩
  rw [← hplace] at hk
  rcases h.run? (Nat.zero_le _) hst hk with ⟨k', r', hk', hagree⟩
  rw [hplace'] at hk'
  refine ⟨r', hagree, (Emu.returns_iff ?_).mpr ⟨k', hk'⟩⟩
  intro u hu
  rw [hu] at hagree
  cases hagree with
  | error _ => exact hr _ rfl

/-- Splicing is sound. Take a body with new code in the place of spans that are apart and hold no
    label that something refers to, and a machine without a limit of instructions, on top of any
    number of calls. If from every frame and context the code of each span and the new code end in
    the same frame and context, both bodies are made ready or neither is, and each returns from
    every context what the other returns, and leaves the same context. Contexts are the same here
    but for the count of instructions. -/
theorem splice_sound (b : Body) (rs : List Replacement) (owner : ClassFile) (member : Member)
    (p : Program) (limits : Limits) (hlimit : limits.instructions = none) (levels depth : Nat)
    (h : b.Splices rs)
    (hcode : ∀ r ∈ rs, r.SameEffect b owner (Engine.inside p limits levels depth)) :
    Together
      (fun q q' => ∀ arguments s r, (∀ u, r ≠ .error .outOfSteps u) →
        (Emu.Returns q (.start q.maxLocals arguments) 0 (Engine.inside p limits levels depth) s r →
          ∃ r', Agree Machine.Alike r r' ∧ Emu.Returns q' (.start q'.maxLocals arguments) 0
            (Engine.inside p limits levels depth) s r') ∧
        (Emu.Returns q' (.start q'.maxLocals arguments) 0 (Engine.inside p limits levels depth) s
            r →
          ∃ r', Agree Machine.Alike r' r ∧ Emu.Returns q (.start q.maxLocals arguments) 0
            (Engine.inside p limits levels depth) s r'))
      (Prepared.ofBody owner member b) (Prepared.ofBody owner member (b.splice rs)) := by
  have hrespected : Respected Machine.Alike owner (Engine.inside p limits levels depth) :=
    respected_alike hlimit (Engine.uncounted_inside p hlimit levels depth)
  -- The two codes are linked segment by segment; each direction is read off that link.
  refine (h.ofBody_together owner member).imp fun q q' hm arguments s r hr => ?_
  have hlinked := h.linked hm hrespected fun r hr => (hcode r hr).faithful hrespected
  rw [hm.maxLocals]
  constructor
  · exact hlinked.returns places_zero places_zero (.refl s) hr
  · intro hreturns
    rcases hlinked.symm.returns places_zero places_zero (.refl s) hr hreturns with
      ⟨r', hagree, hreturns'⟩
    exact ⟨r', hagree.symm, hreturns'⟩

/-- A body that adds two numbers, with a mark inside, and returns the sum. -/
def sumBody : Body where
  maxStack := 2
  maxLocals := 0
  instructions := [.simple .iconst1, .line 7, .simple .iconst2, .simple .iadd, .simple .ireturn]

/-- New code that loads the sum. -/
def sumSpan : Replacement where
  start := 0
  stop := 3
  code := [.simple .iconst3]
  slots := 1

/-- What the body is given where there are no classes and no limits. -/
def sumEnv : Env :=
  Engine.inside (.ofUniverse {}) {} 1 0

/-- The replacement of the example can be spliced. -/
theorem splices_sum : sumBody.Splices [sumSpan] where
  apart := List.pairwise_singleton _ _
  inside := by
    intro r hr
    rw [List.mem_singleton.1 hr]
    decide
  unlabelled := by
    intro r hr l hl
    cases hl

-- And it does what the sum does.
theorem sameEffect_sum : sumSpan.SameEffect sumBody default sumEnv :=
  fun _ s => ⟨_, _, _, ⟨s.executed + 1, rfl⟩, rfl, rfl⟩

/-- With one instruction in the place of three the body still returns the sum, and leaves the same
    context but for the count. -/
theorem splice_sound_sum :
    sumBody.Splices [sumSpan] ∧ sumSpan.SameEffect sumBody default sumEnv ∧
    ∃ q q', Prepared.ofBody default default sumBody = .ok q ∧
      Prepared.ofBody default default (sumBody.splice [sumSpan]) = .ok q' ∧
      q'.code = #[.line 7, .simple .iconst3, .simple .ireturn] ∧
      ∀ s, ∃ t, s.Alike t ∧
        Emu.Returns q' (.start q'.maxLocals []) 0 sumEnv s (.ok (some (.int 3)) t) := by
  have hsplice : Prepared.ofBody default default (sumBody.splice [sumSpan]) =
      .ok ⟨default, default, 0, #[.line 7, .simple .iconst3, .simple .ireturn], ∅, []⟩ := by
    unfold Prepared.ofBody
    rw [splice_instructions, splice_handlers, splice_maxLocals, byStart, List.mergeSort_singleton]
    rfl
  have hok (s u : Machine) :
      (.ok (some (.int 3)) s : Emu.Outcome (Option Value)) ≠ .error .outOfSteps u := by
    intro h
    cases h
  have hsound := splice_sound sumBody [sumSpan] default default (.ofUniverse {}) {} rfl 1
    0 splices_sum fun r hr => by
      rw [List.mem_singleton.1 hr]
      exact sameEffect_sum
  -- The sum returns three, with one instruction more than the load that replaces it.
  have hreturns (q : Prepared) (hq : Prepared.ofBody default default sumBody = .ok q)
      (s : Machine) : ∃ t, s.Alike t ∧
        Emu.Returns q (.start q.maxLocals []) 0 sumEnv s (.ok (some (.int 3)) t) := by
    cases hq
    exact ⟨_, ⟨s.executed + 4, rfl⟩, (Emu.returns_iff (hok _)).2 ⟨5, rfl⟩⟩
  rw [hsplice] at hsound ⊢
  generalize hold : Prepared.ofBody default default sumBody = x at hsound
  cases hsound with
  | ok hboth =>
      refine ⟨splices_sum, sameEffect_sum, _, _, rfl, rfl, rfl, fun s => ?_⟩
      rcases hreturns _ hold s with ⟨t, hst, hq⟩
      rcases (hboth [] s _ (hok _)).1 hq with ⟨r', hagree, hq'⟩
      cases hagree with
      | ok htu => exact ⟨_, hst.trans htu, hq'⟩

end JvmFold
