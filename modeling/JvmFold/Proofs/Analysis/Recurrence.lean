import JvmFold.Proofs.Analysis.Balance
import JvmFold.Proofs.Analysis.Mirror
import JvmFold.Proofs.Analysis.Overlap

/-!
# Following a Body Again

A body is followed once in every pass, with the same machine and the same
record. Between two passes more fields become known and more evaluations are on
record, and so more of the stack is known the second time. What was known the
first time is known again, though.

The two analyses are compared one instruction at a time. The first one comes to
its end before the second one starts, so whatever it leaves is there then. An
evaluation that it ran is on record, a class that it initialized stays
initialized, and a constant that it loaded has its object. What is left to the
program is that the fields that were read have not changed in between, and that
the objects are still of the same kind.

The stacks have the same height all the time. A value that only the second
analysis knows takes as many slots as the first one has left for it, and that
rests on values having the categories that are declared.

## Main definitions

* `Moment`: What is kept from one body to the next.
* `Analysis.Again`: An instruction that is followed again.
* `Analysis.Recurs`: A body that is followed again.

## Theorems

* `Analysis.Framed.precedes`: An analysis forgets nothing.
* `Analysis.step_mirrors`: An instruction knows again what it knew.
* `before_mirrors`: So does a body, at every position.
* `request_mirrors`: What a body asked for it asks for again.
-/

namespace JvmFold

/-- What is kept from one body to the next, at a moment of a run. -/
structure Moment where
  /-- What was found out. -/
  progress : Progress
  /-- The machine. -/
  machine : Machine

/-- A moment and a later one: nothing is forgotten. -/
structure Moment.Precedes (a b : Moment) : Prop where
  machine : a.machine.Precedes b.machine
  evaluated : ∀ {site : EvaluationSite} {outcome}, a.progress.evaluated[site]? = some outcome →
    b.progress.evaluated[site]? = some outcome
  resolved : ∀ {declared : Member}, declared ∈ a.progress.resolved →
    declared ∈ b.progress.resolved

namespace Moment

variable {a b c : Moment}

theorem Precedes.refl (a : Moment) : a.Precedes a :=
  ⟨.refl a.machine, id, id⟩

/-- What comes later than something later comes later. -/
theorem Precedes.trans (h : a.Precedes b) (h' : b.Precedes c) : a.Precedes c where
  machine := h.machine.trans h'.machine
  evaluated ho := h'.evaluated (h.evaluated ho)
  resolved hd := h'.resolved (h.resolved hd)

/-- The heap has evolved from one moment to the other. -/
theorem Precedes.heap (h : a.Precedes b) : a.machine.heap.Evolves b.machine.heap :=
  h.machine.heap

end Moment

namespace Analysis

/-- What an analysis answers and leaves. -/
abbrev Result (α : Type) := (α × Tracker) × Machine

/-- The moment that an analysis leaves. -/
def momentOf {α : Type} (r : Result α) : Moment :=
  ⟨r.1.2.progress, r.2⟩

section Framed

variable {env : Env} {α : Type}

/-- An analysis forgets nothing. -/
theorem preserves_precedes (henv : env.Keeps Machine.Precedes) :
    Preserves env fun t m u n => (⟨t.progress, m⟩ : Moment).Precedes ⟨u.progress, n⟩ where
  trans h h' := h.trans h'
  quiet m hprogress _ := by
    rw [hprogress]
    exact .refl _
  machine t :=
    { refl := fun _ => .refl _
      trans := fun h h' => h.trans h'
      heap := fun h => ⟨henv.heap h, id, id⟩
      counted := fun m n => ⟨henv.counted m n, id, id⟩
      dispatch := fun depth task m => ⟨henv.dispatch depth task m, id, id⟩ }
  answers _ m key answer := ⟨Machine.keepsAnswers_precedes m key answer, id, id⟩
  replace _ _ _ _ := .refl _
  resolve _ m _ := ⟨.refl m, id, fun hd => Std.TreeSet.mem_insert.mpr (.inr hd)⟩

/-- To record an outcome is to come later. -/
theorem records_precedes :
    Records fun t m u n => (⟨t.progress, m⟩ : Moment).Precedes ⟨u.progress, n⟩ := by
  intro t m site outcome hnew
  refine ⟨.refl m, fun {site'} {outcome'} hold => ?_, id⟩
  have hne : site ≠ site' := by
    rintro rfl
    rw [hnew] at hold
    cases hold
  rw [← hold]
  exact Std.HashMap.getElem?_insert.trans (if_neg (by simpa using hne))

/-- An analysis that is framed ends no earlier than it began. -/
theorem Framed.precedes {x : Analysis α} (hx : Framed true x) (henv : env.Keeps Machine.Precedes)
    (s : Subject) (t : Tracker) (m : Machine) :
    (⟨t.progress, m⟩ : Moment).Precedes (momentOf (x s t env m)) :=
  hx.keeps (preserves_precedes henv) (fun _ => records_precedes) s t m

end Framed

end Analysis

namespace Analysis

/-- An instruction that is followed in one state and again, in another pass, in a later one. At
    least as much is known of the stack, nothing was forgotten in between, what the first analysis
    read has stayed what it was, and the second one has values of the declared categories only. -/
structure Again (env : Env) (s : Subject) (pass p : Nat) (i : Instruction) (x : Analysis Unit)
    (t : Tracker) (m : Machine) (t' : Tracker) (m' : Machine) : Prop where
  below : Stacks.Below t.stack t'.stack
  later : (momentOf (x s t env m)).Precedes ⟨t'.progress, m'⟩
  stays : ∀ f, .known f ∈ (x s t env m).1.2.stack → f.stop = p →
    f.ReadAgain (x s t env m).2 m'
  kinds : ∀ f, .known f ∈ t.stack → m.heap.SameKind m'.heap f.value
  width : ∀ g, .known g ∈ (x (s.inPass pass) t' env m').1.2.stack → g.stop = p →
    ∀ k, i.declaredSlots? = some k → g.value.slots = k
  narrow : ∀ name g, i = .typed .checkcast name → operandOn 1 t'.stack = .known g →
    s.isContiguous p none [g] = true → g.value.slots = 1

section Mirrors

variable {env : Env} {s : Subject} {pass p : Nat} {t t' : Tracker} {m m' : Machine}
variable {i : Instruction} {x : Analysis Unit}

/-- A value that is laid down is on the stack. -/
theorem mem_lay_top {k : Nat} {f : Fold} {rest : List Slot} :
    .known f ∈ (Request.Place.top k).lay (some f) rest := by
  rw [Request.Place.lay, ← mem_knownIn, knownIn_onStack]
  exact List.mem_cons_self

/-- A value on top of the stack is known again: one that is found as it was, and one that is new
    with the slots that its descriptor declares. -/
theorem Again.lay {k : Nat} {found found' : Option Fold} {rest rest' : List Slot}
    (h : Again env s pass p i x t m t' m') (hrest : Stacks.Below rest rest')
    (hstack : (x s t env m).1.2.stack = (Request.Place.top k).lay found rest)
    (hstack' : (x (s.inPass pass) t' env m').1.2.stack = (Request.Place.top k).lay found' rest')
    (hagain : ∀ f ∈ found, ∃ g ∈ found', f.Like g) (hstop : ∀ g ∈ found', g.stop = p)
    (hdeclared : i.declaredSlots? = some k) :
    Stacks.Below (x s t env m).1.2.stack (x (s.inPass pass) t' env m').1.2.stack := by
  rw [hstack, hstack']
  refine hrest.lay (.top k) hagain fun k' g hk' hg => ?_
  cases hk'
  refine h.width g ?_ (hstop g hg) k hdeclared
  rw [hstack', hg]
  exact mem_lay_top

theorem Again.earlier {program : Program} {limits : Limits} [hx : Framed true x]
    (h : Again (Engine.env program limits) s pass p i x t m t' m') :
    (⟨t.progress, m⟩ : Moment).Precedes ⟨t'.progress, m'⟩ :=
  (hx.precedes (Engine.keeps_env program limits) s t m).trans h.later

/-- A literal is pushed in both passes. -/
theorem literal_mirrors {k : Constant} (hi : i.literal? = some k)
    (hx : x = do
      match ← probe (Probe.attempt (Emu.constant k)) with
      | .ok value => pushLiteral p value (constantType k)
      | .error _ => generic i)
    (h : Again env s pass p i x t m t' m') :
    Stacks.Below (x s t env m).1.2.stack (x (s.inPass pass) t' env m').1.2.stack := by
  rcases literal_lays (s := s) (t := t) (m := m) env hi hx with ⟨value, hvalue, hstack⟩
  rcases literal_lays (s := s.inPass pass) (t := t') (m := m') env hi hx with
    ⟨value', hvalue', hstack'⟩
  have hagain := Emu.constant_again hvalue h.later.heap
  rw [hvalue'] at hagain
  injection hagain with hsame _
  subst hsame
  rw [hstack, hstack']
  exact h.below.onStack (.refl _)

/-- A cast finds the same in both passes. -/
theorem checkCast_mirrors {name : String}
    (h : Again env s pass p (.typed .checkcast name) (checkCast p name) t m t' m') :
    Stacks.Below (checkCast p name s t env m).1.2.stack
      (checkCast p name (s.inPass pass) t' env m').1.2.stack := by
  rw [checkCast_lays, checkCast_lays, Subject.foundCast_inPass]
  refine (h.below.drop 1).lay (.top 1) ?_ fun k g hk hg => ?_
  · exact foundCast_again (h.below.operandOn 1) fun f hf => h.kinds f (mem_of_operandOn hf)
  · cases hk
    -- A cast that is found now was allowed then, and the object has kept its class.
    unfold Subject.foundCast at hg
    split at hg
    next f hf =>
      split at hg
      next hcond =>
        cases hg
        exact h.narrow name f rfl hf (Bool.and_eq_true_iff.mp hcond).2
      · cases hg
    · cases hg

section Reads

variable {program : Program} {limits : Limits} {f : Member}

-- So does a read of a static field.
theorem getStatic_mirrors (hclasses : program.classes = s.config.classes)
    (h : Again (Engine.env program limits) s pass p (.field .getstatic f) (getStatic p f) t m
      t' m') :
    Stacks.Below (getStatic p f s t (Engine.env program limits) m).1.2.stack
      (getStatic p f (s.inPass pass) t' (Engine.env program limits) m').1.2.stack := by
  cases htype : FieldType.parse f.descriptor with
  | error e =>
      -- A descriptor that does not parse leaves nothing known, both times.
      have hunknown (s : Subject) (u : Tracker) (n : Machine) :
          (getStatic p f s u (Engine.env program limits) n).1.2.stack = .unknown :: u.stack := by
        unfold getStatic
        rw [bind_at, read_apply]
        dsimp only
        rw [htype]
        exact pushUnknown_lays 1
      rw [hunknown, hunknown]
      exact .cons .unknown h.below
  | ok type =>
      rcases getStatic_lays (s := s) (t := t) (m := m) (p := p) (Engine.env program limits) htype
        with ⟨hstack, hread⟩
      rcases getStatic_lays (s := s.inPass pass) (t := t') (m := m') (p := p)
        (Engine.env program limits) htype with ⟨hstack', -⟩
      refine h.lay h.below hstack hstack' (fun g hg => ?_) (fun g hg => stop_of_foundStatic hg) ?_
      · have hmem : .known g ∈ (getStatic p f s t (Engine.env program limits) m).1.2.stack := by
          rw [hstack, hg]
          exact mem_lay_top
        exact foundStatic_again hclasses hg (hread g hg) h.later.machine
          (fun d hd => h.earlier.resolved hd) (h.stays g hmem (stop_of_foundStatic hg))
      · rw [Instruction.declaredSlots?, htype]
        rfl

-- And a read of an instance field.
theorem getField_mirrors (hclasses : program.classes = s.config.classes)
    (h : Again (Engine.env program limits) s pass p (.field .getfield f) (getField p f) t m
      t' m') :
    Stacks.Below (getField p f s t (Engine.env program limits) m).1.2.stack
      (getField p f (s.inPass pass) t' (Engine.env program limits) m').1.2.stack := by
  cases htype : FieldType.parse f.descriptor with
  | error e =>
      -- A descriptor that does not parse leaves nothing known, both times.
      have hunknown (s : Subject) (u : Tracker) (n : Machine) :
          (getField p f s u (Engine.env program limits) n).1.2.stack
            = .unknown :: u.stack.drop 1 := by
        unfold getField
        rw [bind_at, read_apply]
        dsimp only
        rw [bind_at, popOperand_narrow s u _ n (by decide), htype]
        dsimp only
        rw [bind_at, pushUnknown_lays, release_stack]
        rfl
      rw [hunknown, hunknown]
      exact .cons .unknown (h.below.drop 1)
  | ok type =>
      rcases getField_lays (s := s) (t := t) (m := m) (p := p) (Engine.env program limits) htype
        with ⟨hstack, hheap⟩
      rcases getField_lays (s := s.inPass pass) (t := t') (m := m') (p := p)
        (Engine.env program limits) htype with ⟨hstack', -⟩
      rw [Subject.foundField_inPass] at hstack'
      refine h.lay (h.below.drop 1) hstack hstack' (fun g hg => ?_)
        (fun g hg => stop_of_foundField hg) ?_
      · have hmem : .known g ∈ (getField p f s t (Engine.env program limits) m).1.2.stack := by
          rw [hstack, hg]
          exact mem_lay_top
        have hstays := (h.stays g hmem (stop_of_foundField hg)).fields
        rw [hheap g hg] at hstays
        exact foundField_again hclasses (h.below.operandOn 1) hg
          (fun o ho => h.kinds o (mem_of_operandOn ho)) hstays
      · rw [Instruction.declaredSlots?, htype]
        rfl

end Reads

/-- The value of a call takes the slots that its descriptor declares. -/
theorem Again.made_width {q : Request} {heap : Heap} {t₁ : Tracker} {m₁ : Machine}
    {outcome : Except Failure (Member × Value)} {k : Nat} {g : Fold} {rest : List Slot}
    (h : Again env s pass p i x t m t' m')
    (hq : request? p i (s.inPass pass) t' env m' = ((some q, t₁), m₁)) (hplace : q.place = .top k)
    (hstack : (x (s.inPass pass) t' env m').1.2.stack = q.place.lay (q.made p heap outcome) rest)
    (hg : g ∈ q.made p heap outcome) : g.value.slots = k := by
  have hmem : .known g ∈ (x (s.inPass pass) t' env m').1.2.stack := by
    rw [hstack, hplace, hg]
    exact mem_lay_top
  have hstop : g.stop = p := by
    cases outcome with
    | error failure => cases hg
    | ok r =>
        cases hg
        rfl
  exact h.width g hmem hstop k (declaredSlots?_of_request hq hplace)

/-- A call that is followed again: what was asked for is asked for again, its outcome is on
    record, and so its value is known again. -/
theorem call_mirrors {program : Program} {limits : Limits} {taking : Taking}
    (htaking : s.taking? p t.stack i = some taking)
    (h : Again (Engine.env program limits) s pass p i (step p i) t m t' m') :
    Stacks.Below (step p i s t (Engine.env program limits) m).1.2.stack
      (step p i (s.inPass pass) t' (Engine.env program limits) m').1.2.stack := by
  rcases exists_taking_again h.below htaking with ⟨taking', htaking', hbelow⟩
  rcases taking_apply (s := s) (t := t) (m := m) (Engine.env program limits) htaking with
    ⟨u, n, hrequest, -, -, hnothing⟩
  cases hq : s.requestOf? n.heap p taking with
  | some q =>
      rw [hq] at hrequest
      rcases request?_again (Engine.env program limits) pass h.below h.kinds hrequest with
        ⟨-, q', u', hrequest', hprogress', hrest, hlike, hplace⟩
      rcases step_concludes hrequest with ⟨outcome, heap, hstack, hrecord, -⟩
      rcases step_concludes hrequest' with ⟨outcome', heap', hstack', -, hsame⟩
      -- The outcome is on record when the call is followed again.
      have hrecord' := h.later.evaluated hrecord
      rw [← hlike.start_eq, ← hprogress'] at hrecord'
      rcases hsame outcome hrecord' with rfl
      rw [hstack, hstack', hplace]
      refine hrest.lay q.place hlike.made fun k g hk hg => ?_
      exact h.made_width hrequest' (hplace.trans hk) hstack' hg
  | none =>
      rcases taking_apply (s := s.inPass pass) (t := t') (m := m') (Engine.env program limits)
        (by rwa [Subject.taking?_inPass]) with ⟨u', n', hrequest', hrest', -, hnothing'⟩
      rw [Subject.requestOf?_inPass] at hrequest' hnothing'
      rw [hnothing hq]
      cases hq' : s.requestOf? n'.heap p taking' with
      | none =>
          rw [hnothing' hq', hbelow.place_eq]
          exact hbelow.rest.lay taking.place nofun nofun
      | some q' =>
          have hplace := (requestOf?_place htaking' hq').trans hbelow.place_eq
          rw [hq'] at hrequest'
          rcases step_concludes hrequest' with ⟨outcome, heap, hstack', -⟩
          rw [hstack', hrest', hplace]
          refine hbelow.rest.lay taking.place nofun fun k g hk hg => ?_
          exact h.made_width hrequest' (hplace.trans hk) hstack' hg

/-- What an instruction knew it knows again. -/
theorem step_mirrors {program : Program} {limits : Limits}
    (hclasses : program.classes = s.config.classes)
    (h : Again (Engine.env program limits) s pass p i (step p i) t m t' m') :
    Stacks.Below (step p i s t (Engine.env program limits) m).1.2.stack
      (step p i (s.inPass pass) t' (Engine.env program limits) m').1.2.stack := by
  cases htaking : s.taking? p t.stack i with
  | some taking => exact call_mirrors htaking h
  | none =>
      have htaking' : (s.inPass pass).taking? p t'.stack i = none := by
        rw [Subject.taking?_inPass]
        exact taking?_eq_none_again h.below htaking
      -- What is not followed as a call asks for no evaluation, so what it finds depends on the
      -- stack and on the machine only.
      rcases step_rule p i with ⟨x, hx, heq⟩
      rw [heq] at h ⊢
      cases hx with
      | literal hi => exact literal_mirrors hi rfl h
      | null =>
          change Stacks.Below (pushFold _ s t _ m).1.2.stack (pushFold _ _ t' _ m').1.2.stack
          rw [pushFold_stack, pushFold_stack]
          exact h.below.onStack (.refl _)
      | copy =>
          rw [dup_stack, dup_stack]
          exact h.below.stackCopied p
      | create => exact .cons (.uninitialized _) h.below
      | cast => exact checkCast_mirrors h
      | staticField => exact getStatic_mirrors hclasses h
      | field => exact getField_mirrors hclasses h
      | assign =>
          rw [putStatic_stack, putStatic_stack]
          exact h.below.drop _
      | method =>
          rw [invoke_of_taking_none htaking, generic_stack, generic_stack]
          exact h.below.stackBehind _
      | callSite =>
          rw [invokeDynamic_of_taking_none htaking, invokeDynamic_of_taking_none htaking',
            generic_stack, generic_stack]
          exact h.below.stackBehind _
      | other =>
          rw [generic_stack, generic_stack]
          exact h.below.stackBehind i

end Mirrors

end Analysis

section Casts

variable {s : Subject} {t : Tracker} {env : Env} {m : Machine} {p k : Nat} {f g : Fold}
variable {stack stack' : List Slot} {lost : List Fold}

/-- A value that is on the stack behind a move was there before, or the move made it. -/
theorem Move.mem_stack {i : Instruction} (hm : Move s p i stack stack' lost)
    (hf : .known f ∈ stack') : .known f ∈ stack ∨ f.stop = p := by
  cases hm with
  | lose n k _ =>
      rcases List.mem_append.mp hf with hf | hf
      · cases List.eq_of_mem_replicate hf
      · exact .inl (List.mem_of_mem_drop hf)
  | forget n u _ =>
      rw [settle_unknown, ← mem_knownIn, knownIn_without, mem_knownIn] at hf
      exact .inl (List.mem_of_mem_drop hf)
  | @make _ ws _ rest fs made hmakes hpops _ hspan =>
      rcases hpops.perm with ⟨n, rfl, -⟩
      rw [← mem_knownIn, knownIn_onStack, List.mem_append, List.mem_singleton, mem_knownIn] at hf
      rcases hf with rfl | hf
      · exact .inr hspan.stop_eq
      · exact .inl (List.mem_of_mem_drop hf)
  | create =>
      rcases List.mem_cons.mp hf with hf | hf
      · cases hf
      · exact .inl hf
  | copy =>
      rcases List.mem_cons.mp hf with hf | hf
      · cases hf
      · rcases List.mem_cons.mp hf with hf | hf
        · cases hf
        · exact .inl (List.mem_cons_of_mem _ hf)
  | @build _ _ _ _ rest u fs made _ _ _ hpops _ _ hspan =>
      rcases hpops.perm with ⟨n, rfl, -⟩
      -- The new value is what the object is settled to; everything else was below it.
      have hmem := (knownIn_settle u made (stack.drop n)).subset (mem_knownIn.mpr hf)
      rcases List.mem_cons.mp hmem with rfl | hmem
      · exact .inr hspan.stop_eq
      · exact .inl (List.mem_of_mem_drop (mem_knownIn.mp hmem))

/-- The values of a body have the categories that are declared, where they are made. -/
def Analysis.Declared (s : Subject) (t : Tracker) (env : Env) (m : Machine) : Prop :=
  ∀ p i f k, s.code[p]? = some i → .known f ∈ (before s t env m (p + 1)).1.stack → f.stop = p →
    i.declaredSlots? = some k → f.value.slots = k

/-- What constructors made takes one slot. -/
theorem before_built (h : Analysis.Declared s t env m) (hk : k ≤ s.code.size) :
    ∀ f, .known f ∈ (Analysis.before s t env m k).1.stack → s.BuildsAt f.stop →
      f.value.slots = 1 := by
  refine Analysis.before_invariant s t env m
    (P := fun _ u => ∀ f, .known f ∈ u.stack → s.BuildsAt f.stop → f.value.slots = 1)
    ?_ ?_ ?_ ?_ hk
  · intro u hstack _ f hf
    rw [hstack] at hf
    cases hf
  · intro k u v hu hquiet
    rw [hquiet.1]
    exact hu
  · -- A value that ends here is one of this constructor, and its instruction declares one slot.
    rintro k i v hi hreal hnext hu ⟨lost, hmove, -⟩ f hf hbuilds
    rcases hmove.mem_stack hf with hold | rfl
    · exact hu f hold hbuilds
    · rcases hbuilds with ⟨c, isInterface, hcode, hctor⟩
      rw [hi, Option.some.injEq] at hcode
      subst hcode
      rw [← hnext rfl] at hf
      refine h f.stop _ f 1 hi hf rfl ?_
      rw [Instruction.declaredSlots?, if_pos ⟨rfl, hctor⟩]
  · intro k u v hu hclears f hf
    rw [hclears.1] at hf
    cases hf

/-- A value that is cast takes one slot. -/
theorem cast_narrow (h : Analysis.Declared s t env m) {name : String}
    (hi : s.code[p]? = some (.typed .checkcast name))
    (hon : operandOn 1 (Analysis.before s t env m p).1.stack = .known g)
    (hc : s.isContiguous p none [g] = true) : g.value.slots = 1 := by
  have hlt : p < s.code.size := (Array.getElem?_eq_some_iff.mp hi).1
  rcases before_settled s t env m hlt.le with ⟨hstacked, -⟩
  have hbuilt := before_built h hlt.le
  generalize (Analysis.before s t env m p).1.stack = stack at hon hstacked hbuilt
  rcases stack with _ | ⟨slot, rest⟩
  · cases hon
  · cases slot with
    | known f =>
        cases hon
        have hpops : Pops [1] (.known g :: rest) ([g].map .known) rest [] :=
          .cons .nil (.narrow (by decide))
        -- The value lies right in front of the cast, and so it is as wide as the cast pops.
        have hwidths := hpops.widths hstacked.ordered ⟨_, hi, rfl⟩ hc (by simp) fun g' hg' => by
          rw [List.mem_singleton] at hg'
          subst hg'
          exact hbuilt g' List.mem_cons_self
        simpa using hwidths
    | _ => cases hon

end Casts

section Bodies

variable {program : Program} {limits : Limits} {s : Subject} {pass : Nat} {t t' : Tracker}
variable {m m' : Machine}

/-- A body that is followed and, in another pass, followed again. Nothing was forgotten in between.
    Where the second analysis comes to what the first one read it is unchanged, and the objects
    that the first one knew are of the same kind. -/
structure Analysis.Recurs (env : Env) (s : Subject) (pass : Nat) (t : Tracker) (m : Machine)
    (t' : Tracker) (m' : Machine) : Prop where
  later : (momentOf (replacements s t env m)).Precedes ⟨t'.progress, m'⟩
  stays : ∀ p f, .known f ∈ (before s t env m (p + 1)).1.stack → f.stop = p →
    f.ReadAgain (before s t env m (p + 1)).2 (before (s.inPass pass) t' env m' p).2
  kinds : ∀ p f, .known f ∈ (before s t env m p).1.stack →
    (before s t env m p).2.heap.SameKind (before (s.inPass pass) t' env m' p).2.heap f.value
  declared : Declared (s.inPass pass) t' env m'

/-- A real instruction is dealt with, and then a block may end. -/
theorem Analysis.advance_real {p : Nat} {i : Instruction} (hi : i.isPseudo = false) :
    advance p i = (step p i >>= fun _ => if endsBlock i then endBlock else pure ⟨⟩) := by
  cases i <;> first | rfl | cases hi

/-- Behind an instruction that ends a block nothing is known, and no other instruction does more
    than a step. -/
theorem Analysis.advance_stack {p : Nat} {i : Instruction} (env : Env) (hi : i.isPseudo = false) :
    (endsBlock i = true ∧ ∀ (s : Subject) t m, (advance p i s t env m).1.2.stack = []) ∨
      ∀ (s : Subject) t m, (advance p i s t env m) = (step p i s t env m) := by
  rw [advance_real hi]
  cases hends : endsBlock i with
  | true => exact .inl ⟨rfl, fun s t m => (endBlock_clears (s := s) env _).1⟩
  | false => exact .inr fun s t m => rfl

/-- A mark ends a block again. -/
theorem Analysis.mark_mirrors {p : Nat} {i : Instruction} {env : Env} (hi : i.isPseudo = true)
    (hab : Stacks.Below t.stack t'.stack) :
    Stacks.Below (advance p i s t env m).1.2.stack
      (advance p i (s.inPass pass) t' env m').1.2.stack := by
  cases i with
  | label l =>
      have hlabel (s : Subject) (u : Tracker) (n : Machine) :
          (advance p (.label l) s u env n).1.2.stack
            = if s.referenced.contains l then [] else u.stack := by
        change ((if s.referenced.contains l then endBlock else pure ⟨⟩ : Analysis Unit) s u env
          n).1.2.stack = _
        split
        · exact endBlock_stack
        · rfl
      -- Both passes refer to the same labels.
      rw [hlabel, hlabel]
      change Stacks.Below _ (if s.referenced.contains l then [] else t'.stack)
      split
      · exact .nil
      · exact hab
  | line _ => exact hab
  | frame _ => exact hab
  | _ => cases hi

/-- A body knows again, at every position, what it knew there. -/
theorem before_mirrors (hclasses : program.classes = s.config.classes)
    (h : Analysis.Recurs (Engine.env program limits) s pass t m t' m') (k : Nat) :
    Stacks.Below (Analysis.before s t (Engine.env program limits) m k).1.stack
      (Analysis.before (s.inPass pass) t' (Engine.env program limits) m' k).1.stack := by
  induction k with
  | zero => exact .nil
  | succ k ih =>
      cases hi : s.code[k]? with
      | none =>
          have hi' : (s.inPass pass).code[k]? = none := hi
          rw [Analysis.before, Analysis.before, hi, hi']
          exact ih
      | some i =>
          have hi' : (s.inPass pass).code[k]? = some i := hi
          have hprecedes := Analysis.preserves_precedes (Engine.keeps_env program limits)
          have hrecords := Analysis.records_precedes
          -- What the second body starts from comes after all that the first one did.
          have hlater := (hprecedes.replacements_of_before hrecords (s := s) (t := t) (m := m)
            (k + 1)).trans (h.later.trans (hprecedes.before_le hrecords (s := s.inPass pass)
              (t := t') (m := m') (Nat.zero_le k)))
          have hstays := h.stays k
          have hwidth := fun g n => h.declared k i g n hi'
          rw [Analysis.before, hi] at hlater hstays
          rw [Analysis.before, hi'] at hwidth
          rw [Analysis.before, Analysis.before, hi, hi']
          dsimp only at hlater hstays hwidth ⊢
          -- A block ends for both or for none; otherwise what counts is the step itself.
          cases hreal : i.isPseudo with
          | true => exact Analysis.mark_mirrors hreal ih
          | false =>
              rcases Analysis.advance_stack (p := k) (Engine.env program limits) hreal with
                ⟨-, hends⟩ | hstep
              · rw [hends, hends]
                exact .nil
              · rw [hstep] at hlater hstays
                simp only [hstep] at hwidth ⊢
                refine Analysis.step_mirrors hclasses ⟨ih, hlater, hstays, h.kinds k, ?_, ?_⟩
                · exact fun g hg hstop n hn => hwidth g n hg hstop hn
                · rintro name g rfl hon hc
                  exact cast_narrow h.declared hi' hon (by rwa [Subject.isContiguous_inPass])

/-- What a body asked for it asks for again. -/
theorem request_mirrors (hclasses : program.classes = s.config.classes)
    (h : Analysis.Recurs (Engine.env program limits) s pass t m t' m') {k : Nat} {i : Instruction}
    {q : Request} {t₁ : Tracker} {m₁ : Machine}
    (hq : Analysis.request? k i s (Analysis.before s t (Engine.env program limits) m k).1
      (Engine.env program limits) (Analysis.before s t (Engine.env program limits) m k).2
        = ((some q, t₁), m₁)) :
    ∃ q' t₂ m₂, Analysis.request? k i (s.inPass pass)
      (Analysis.before (s.inPass pass) t' (Engine.env program limits) m' k).1
      (Engine.env program limits)
      (Analysis.before (s.inPass pass) t' (Engine.env program limits) m' k).2
        = ((some q', t₂), m₂) ∧ q.Like q' := by
  rcases request?_again (Engine.env program limits) pass (before_mirrors hclasses h k) (h.kinds k)
    hq with ⟨-, q', t₂, hq', -, -, hlike, -⟩
  exact ⟨q', t₂, _, hq', hlike⟩

end Bodies

namespace Analysis

variable (s : Subject) (t : Tracker) (env : Env) (m : Machine)

/-- The instruction at a position asks for an evaluation. -/
def AsksAt (p : Nat) (q : Request) (t₁ : Tracker) (m₁ : Machine) : Prop :=
  ∃ i, s.code[p]? = some i ∧
    request? p i s (before s t env m p).1 env (before s t env m p).2 = ((some q, t₁), m₁)

/-- An evaluation is run, as no outcome of its span is on record. -/
def Executes (site : EvaluationSite) (q : Request) (outcome : Except Failure (Member × Value)) :
    Prop :=
  ∃ t₁ m₁, AsksAt s t env m site.stop q t₁ m₁ ∧ site = ⟨s.method, q.start, site.stop⟩ ∧
    t₁.progress.evaluated[site]? = none ∧ (ExceptT.run q.evaluation env m₁).1 = outcome

/-- An evaluation is not run, as an outcome of its span is on record. -/
def Reuses (site : EvaluationSite) (q : Request) (outcome : Except Failure (Member × Value)) :
    Prop :=
  ∃ t₁ m₁, AsksAt s t env m site.stop q t₁ m₁ ∧ site = ⟨s.method, q.start, site.stop⟩ ∧
    t₁.progress.evaluated[site]? = some outcome

section Records

variable {s : Subject} {t : Tracker} {env : Env} {m : Machine} {p k : Nat} {q : Request}
variable {t₁ : Tracker} {m₁ : Machine} {site : EvaluationSite}
variable {outcome : Except Failure (Member × Value)}

/-- Asking does not change the record. -/
theorem AsksAt.record_eq (h : AsksAt s t env m p q t₁ m₁) :
    t₁.progress.evaluated = (before s t env m p).1.progress.evaluated := by
  rcases h with ⟨i, -, hq⟩
  have hkeeps := (inferInstance : Framed false (request? p i)).keeps (keeps_record env)
    (absurd · Bool.false_ne_true) s (before s t env m p).1 (before s t env m p).2
  rwa [hq] at hkeeps

/-- To deal with an outcome records nothing. -/
theorem conclude_record_eq (q : Request) (outcome : Except Failure (Member × Value)) :
    (conclude p q outcome s t env m).1.2.progress.evaluated = t.progress.evaluated :=
  (inferInstance : Framed false (conclude p q outcome)).keeps (keeps_record env)
    (absurd · Bool.false_ne_true) s t m

/-- What is on record in front of a position was so at the start, or it is the outcome of an
    evaluation in front of the position. -/
theorem recorded_before (h : (before s t env m k).1.progress.evaluated[site]? = some outcome) :
    t.progress.evaluated[site]? = some outcome ∨
      site.stop < k ∧ ∃ q, Executes s t env m site q outcome := by
  induction k with
  | zero => exact .inl h
  | succ k ih =>
      have hold (h : (before s t env m k).1.progress.evaluated[site]? = some outcome) :
          t.progress.evaluated[site]? = some outcome ∨
            site.stop < k + 1 ∧ ∃ q, Executes s t env m site q outcome :=
        (ih h).imp_right fun h => ⟨h.1.trans (Nat.lt_succ_self k), h.2⟩
      cases hi : s.code[k]? with
      | none =>
          rw [before, hi] at h
          exact hold h
      | some i =>
          rw [before, hi] at h
          dsimp only at h
          rcases hrequest : request? k i s (before s t env m k).1 env (before s t env m k).2 with
            ⟨⟨_ | q, t₁⟩, m₁⟩
          · -- Without a request the record stays as it is.
            have hkeeps := (keeps_record env).advance (s := s) (i := i) (p := k)
              (t := (before s t env m k).1) (m := (before s t env m k).2) (by rw [hrequest])
            rw [hkeeps] at h
            exact hold h
          · have hasks : AsksAt s t env m k q t₁ m₁ := ⟨i, hi, hrequest⟩
            rw [advance_of_request hrequest, bind_at, conclude_record_eq] at h
            cases hsite : t₁.progress.evaluated[(⟨s.method, q.start, k⟩ : EvaluationSite)]? with
            | some o =>
                rw [evaluate_gives hsite] at h
                rw [hasks.record_eq] at h
                exact hold h
            | none =>
                rw [evaluate_of_new hsite] at h
                dsimp only at h
                rw [Std.HashMap.getElem?_insert] at h
                split at h
                next heq =>
                  -- The new outcome is that of this very request.
                  rw [beq_iff_eq] at heq
                  subst heq
                  cases h
                  exact .inr ⟨Nat.lt_succ_self k, q, t₁, m₁, hasks, rfl, hsite, rfl⟩
                · rw [hasks.record_eq] at h
                  exact hold h

/-- What is on record behind a body was so at the start, or it is the outcome of an evaluation of
    the body. -/
theorem recorded_replacements
    (h : (replacements s t env m).1.2.progress.evaluated[site]? = some outcome) :
    t.progress.evaluated[site]? = some outcome ∨ ∃ q, Executes s t env m site q outcome := by
  have hend : (replacements s t env m).1.2.progress.evaluated
      = (before s t env m s.code.size).1.progress.evaluated := by
    change (followAll s (before s t env m 0).1 env (before s t env m 0).2).1.2.progress.evaluated
      = _
    rw [followAll_eq]
    exact (inferInstance : Framed false endBlock).keeps (keeps_record env)
      (absurd · Bool.false_ne_true) s _ _
  rw [hend] at h
  exact (recorded_before h).imp_right And.right

/-- What is on record where an evaluation asks for an outcome was so when the body was come to. -/
theorem Reuses.recorded (h : Reuses s t env m site q outcome) :
    t.progress.evaluated[site]? = some outcome := by
  rcases h with ⟨t₁, m₁, hasks, -, hsite⟩
  rw [hasks.record_eq] at hsite
  exact (recorded_before hsite).resolve_right fun h => Nat.lt_irrefl _ h.1

/-- An evaluation that is run has no outcome on record when the body is come to. -/
theorem Executes.not_recorded (henv : env.Keeps Machine.Precedes)
    (h : Executes s t env m site q outcome) : t.progress.evaluated[site]? = none := by
  rcases h with ⟨t₁, m₁, hasks, -, hsite, -⟩
  rw [hasks.record_eq] at hsite
  cases hold : t.progress.evaluated[site]? with
  | none => rfl
  | some o =>
      have hle := (preserves_precedes henv).before_le records_precedes (s := s) (t := t) (m := m)
        (Nat.zero_le site.stop)
      rw [hle.evaluated hold] at hsite
      cases hsite

/-- The outcome of an evaluation that is run is on record behind the body. -/
theorem Executes.recorded (henv : env.Keeps Machine.Precedes)
    (h : Executes s t env m site q outcome) :
    (replacements s t env m).1.2.progress.evaluated[site]? = some outcome := by
  rcases h with ⟨t₁, m₁, ⟨i, hi, hrequest⟩, hsite, hnew, rfl⟩
  have hbehind : (before s t env m (site.stop + 1)).1.progress.evaluated[site]?
      = some (ExceptT.run q.evaluation env m₁).1 := by
    rw [before, hi]
    dsimp only
    rw [hsite] at hnew
    rw [advance_of_request hrequest, bind_at, conclude_record_eq, evaluate_of_new hnew, ← hsite]
    exact Std.HashMap.getElem?_insert_self
  exact ((preserves_precedes henv).replacements_of_before records_precedes
    (site.stop + 1)).evaluated hbehind

end Records

end Analysis

end JvmFold
