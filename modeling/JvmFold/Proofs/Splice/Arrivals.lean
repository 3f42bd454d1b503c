import JvmFold.Proofs.Splice.Sound

/-!
# Where Control Comes To

A spliced body returns what the body returned, and on the way there it goes by
the same places. Whoever stands at an instruction that stays sees control come
by in both bodies at the same time, with the same operand stack and the same
local variables.

A run may take several steps in one body to get across a span and a different
number in the other, and it may come back to a place many times. So the run in
the one body is cut where it gets across a span: either it ends inside, or the
rest of it starts behind the span and is no longer than the whole. The run in
the other body follows by induction on the length and, where nothing was cut
off, on the segments that are left.

## Main definitions

* `Emu.walk?`: Where a run is after a number of steps.
* `Emu.Crosses`: Runs from one place all go through another, unless they end between.
* `Alongside`: Two methods whose runs go by the same segments.
* `ArriveAlike`: Runs from the start come to two places in the same states.

## Theorems

* `Emu.reaches_iff`: What is reached is reached in a number of steps.
* `Emu.straight_crosses`: Runs go all the way through straight-line code.
* `Alongside.arrives`: A run to an instruction that stays is followed in the other body.
* `Body.Splices.arriveAlike`: Control comes to an instruction that stays in the same states.
-/

namespace JvmFold

namespace Emu

/-- Where a run is after a number of steps, unless it has ended. -/
def walk? (p : Prepared) (env : Env) :
    Nat → Activation → Nat → Machine → Option (Activation × Nat × Machine)
  | 0, a, i, s => some (a, i, s)
  | k + 1, a, i, s =>
      match advance p a i env s with
      | .ok (.running b j) t => walk? p env k b j t
      | _ => none

/-- All runs from one place go through another, unless they end between. What is left then is no
    longer than the whole. -/
def Crosses (p : Prepared) (env : Env) (a : Activation) (i : Nat) (s : Machine) (b : Activation)
    (j : Nat) (t : Machine) : Prop :=
  ∀ k c l u, walk? p env k a i s = some (c, l, u) →
    (i ≤ l ∧ l < j) ∨ ∃ k' ≤ k, walk? p env k' b j t = some (c, l, u)

section Walk

variable {p : Prepared} {env : Env} {a b c : Activation} {i j l n : Nat} {s t u : Machine}
variable {code rest : List Instruction}

/-- A walk takes a step and goes on. -/
theorem walk?_running (h : advance p a i env s = .ok (.running b j) t) (k : Nat) :
    walk? p env (k + 1) a i s = walk? p env k b j t := by
  rw [walk?, h]

/-- Behind the code a run goes nowhere. -/
theorem eq_of_walk?_end {k : Nat} (hend : p.code[i]? = none)
    (h : walk? p env k a i s = some (b, j, t)) : j = i := by
  cases k with
  | zero =>
      cases h
      rfl
  | succ k =>
      rw [walk?, advance_end hend] at h
      cases h

/-- What a walk comes to is reached. -/
theorem reaches_of_walk? {k : Nat} (h : walk? p env k a i s = some (b, j, t)) :
    Reaches p env a i s b j t := by
  induction k generalizing a i s with
  | zero =>
      cases h
      exact .refl
  | succ k ih =>
      rw [walk?] at h
      split at h
      next hadvance =>
        exact .step hadvance (ih h)
      · cases h

/-- What is reached is reached in a number of steps. -/
theorem reaches_iff : Reaches p env a i s b j t ↔ ∃ k, walk? p env k a i s = some (b, j, t) := by
  constructor
  · intro h
    induction h with
    | refl => exact ⟨0, rfl⟩
    | step hadvance _ ih =>
        rcases ih with ⟨k, hk⟩
        exact ⟨k + 1, (walk?_running hadvance k).trans hk⟩
  · rintro ⟨k, h⟩
    exact reaches_of_walk? h

/-- What is reached from there is reached as well. -/
theorem Reaches.trans (h : Reaches p env a i s b j t) (h' : Reaches p env b j t c l u) :
    Reaches p env a i s c l u := by
  induction h with
  | refl => exact h'
  | step hadvance _ ih => exact .step hadvance (ih h')

theorem crosses_refl : Crosses p env a i s a i s :=
  fun k _ _ _ h => Or.inr ⟨k, Nat.le_refl k, h⟩

/-- One step in front. -/
theorem Crosses.step (hadvance : advance p a i env s = .ok (.running b (i + 1)) t)
    (hle : i + 1 ≤ j) (h : Crosses p env b (i + 1) t c j u) : Crosses p env a i s c j u := by
  intro k d l v hk
  cases k with
  | zero =>
      cases hk
      exact Or.inl ⟨Nat.le_refl _, hle⟩
  | succ k =>
      rw [walk?_running hadvance] at hk
      rcases h k d l v hk with hinside | ⟨k', hk', hwalk⟩
      · exact Or.inl ⟨Nat.le_of_succ_le hinside.1, hinside.2⟩
      · exact Or.inr ⟨k', Nat.le_succ_of_le hk', hwalk⟩

/-- Runs go all the way through straight-line code. -/
theorem straight_crosses (h : p.code.toList.drop i = code ++ rest)
    (hrun : straight p.owner code a env s = .ok (some b) t) :
    Crosses p env a i s b (i + code.length) t := by
  induction code generalizing i a s with
  | nil =>
      cases hrun
      exact crosses_refl
  | cons instruction code ih =>
      rcases getElem?_of_drop h with ⟨hget, hdrop⟩
      rcases advance_of_straight hget hrun with ⟨c, u, hadvance, hrun⟩
      rw [List.length_cons, Nat.add_comm code.length, ← Nat.add_assoc]
      exact .step hadvance (Nat.le_add_right _ _) (ih hdrop hrun)

end Walk

end Emu

/-- Two methods whose runs go by the same segments: an instruction that stays does the same in both,
    and runs get across a span in both. -/
structure Alongside (p p' : Prepared) (env : Env) (same : Machine → Machine → Prop)
    (segs : List Segment) (place place' : Nat → Nat) : Prop where
  keep : ∀ n i, segs[n]? = some (.keep i) → ∀ a s t, same s t →
    Parallel same place place' segs.length (Emu.advance p a (place n) env s)
      (Emu.advance p' a (place' n) env t)
  span : ∀ n old code, segs[n]? = some (.span old code) → ∀ a s t, same s t →
    ∃ b s' t', same s' t' ∧
      (Emu.Crosses p env a (place n) s b (place (n + 1)) s' ∧
        Emu.Reaches p env a (place n) s b (place (n + 1)) s') ∧
      (Emu.Crosses p' env a (place' n) t b (place' (n + 1)) t' ∧
        Emu.Reaches p' env a (place' n) t b (place' (n + 1)) t')

section Alongside

variable {p p' : Prepared} {env : Env} {same : Machine → Machine → Prop} {segs : List Segment}
variable {side side' : Segment → List Instruction} {i : Instruction} {m n : Nat}
variable {a c : Activation} {s t u : Machine}

/-- Running alongside goes both ways. -/
theorem Alongside.symm {place place' : Nat → Nat}
    (h : Alongside p p' env same segs place place') :
    Alongside p' p env (fun s t => same t s) segs place' place where
  keep n i hi a s t hst := (h.keep n i hi a t s hst).symm
  span n old code hspan a s t hst := by
    rcases h.span n old code hspan a t s hst with ⟨b, t', s', hsame, hleft, hright⟩
    exact ⟨b, s', t', hsame, hright, hleft⟩

/-- What stays is inside no other segment. -/
theorem places_outside (hside : (side (.keep i)).length = 1) (hm : segs[m]? = some (.keep i))
    (hne : n ≠ m) : ¬ (places side segs n ≤ places side segs m ∧
      places side segs m < places side segs (n + 1)) := by
  rintro ⟨hle, hlt⟩
  have hnm : n ≤ m := (places_le_iff hm hside).1 hle
  have hmono : places side segs (n + 1) ≤ places side segs m := places_mono (by omega)
  omega

/-- A run to an instruction that stays is followed in the other body. -/
theorem Alongside.arrives
    (h : Alongside p p' env same segs (places side segs) (places side' segs))
    (hside : ∀ i, (side (.keep i)).length = 1) (hcode : p.code.toList = segs.flatMap side)
    (hm : segs[m]? = some (.keep i)) {k : Nat} :
    ∀ {n : Nat} {a : Activation} {s t : Machine}, n ≤ segs.length → same s t →
      Emu.walk? p env k a (places side segs n) s = some (c, places side segs m, u) →
      ∃ u', same u u' ∧
        Emu.Reaches p' env a (places side' segs n) t c (places side' segs m) u' := by
  -- A run that gets across a span may have as many steps left as before; then the segments that
  -- are left are fewer.
  induction k using Nat.strong_induction_on with
  | _ k ih =>
      intro n
      induction hleft : segs.length - n generalizing n with
      | zero =>
          intro a s t hn hst hwalk
          have hlast : n = segs.length := by omega
          have hmlt : m < segs.length := (List.getElem?_eq_some_iff.1 hm).1
          have hend : p.code[places side segs n]? = none := by
            rw [hlast, places_length, ← hcode]
            exact Array.getElem?_eq_none (Nat.le_refl _)
          have hplace : places side segs m = places side segs n :=
            Emu.eq_of_walk?_end hend hwalk
          have hle : n ≤ m := (places_le_iff hm (hside i)).1 (Nat.le_of_eq hplace.symm)
          omega
      | succ left ihleft =>
          intro a s t hn hst hwalk
          have hlt : n < segs.length := by omega
          cases hget : segs[n] with
          | keep j =>
              have hj : segs[n]? = some (.keep j) := by rw [List.getElem?_eq_getElem hlt, hget]
              cases k with
              | zero =>
                  simp only [Emu.walk?, Option.some.injEq, Prod.mk.injEq] at hwalk
                  rcases hwalk with ⟨rfl, hplace, rfl⟩
                  rcases places_inj hj (hside j) hm (hside i) hplace with rfl
                  exact ⟨t, hst, .refl⟩
              | succ k =>
                  have hstep := h.keep n j hj a s t hst
                  rw [Emu.walk?] at hwalk
                  generalize Emu.advance p a (places side segs n) env s = x at hstep hwalk
                  generalize hadvance : Emu.advance p' a (places side' segs n) env t = x' at hstep
                  cases hstep with
                  | finished _ => cases hwalk
                  | error _ => cases hwalk
                  | running hnext hs =>
                      rcases ih k (Nat.lt_succ_self k) hnext hs hwalk with ⟨u', hu, hreach⟩
                      exact ⟨u', hu, .step hadvance hreach⟩
          | span old code =>
              have hspan : segs[n]? = some (.span old code) := by
                rw [List.getElem?_eq_getElem hlt, hget]
              have hne : n ≠ m := by
                rintro rfl
                rw [hm] at hspan
                cases hspan
              rcases h.span n old code hspan a s t hst with
                ⟨b, s', t', hst', ⟨hcross, -⟩, -, hreach⟩
              rcases hcross k _ _ _ hwalk with hinside | ⟨k', hk', hrest⟩
              · exact absurd hinside (places_outside (hside i) hm hne)
              · have hfollowed : ∃ u', same u u' ∧ Emu.Reaches p' env b
                    (places side' segs (n + 1)) t' c (places side' segs m) u' := by
                  by_cases hfewer : k' < k
                  · exact ih k' hfewer hlt hst' hrest
                  · have heq : k' = k := by omega
                    subst heq
                    exact ihleft (by omega) hlt hst' hrest
                rcases hfollowed with ⟨u', hu, hreach'⟩
                exact ⟨u', hu, hreach.trans hreach'⟩

end Alongside

/-- Wherever a run of the one method from the start comes to its place, a run of the other method
    from the start comes to its own, with the same operand stack and local variables, and in
    contexts that agree. -/
def ArriveAlike (p p' : Prepared) (env : Env) (same : Machine → Machine → Prop) (i i' : Nat) :
    Prop :=
  ∀ a s t, same s t → ∀ c,
    (∀ u, Emu.Reaches p env a 0 s c i u → ∃ u', same u u' ∧ Emu.Reaches p' env a 0 t c i' u') ∧
    ∀ u', Emu.Reaches p' env a 0 t c i' u' → ∃ u, same u u' ∧ Emu.Reaches p env a 0 s c i u

section Splice

variable {b : Body} {rs : List Replacement} {c : ClassFile} {p p' : Prepared} {env : Env}
variable {same : Machine → Machine → Prop}

/-- A body and its spliced form are gone through alongside, if the new code does what the spans
    do. -/
theorem Body.Splices.alongside (h : b.Splices rs)
    (hm : Matched (b.segments rs) b.referenced c p p') (hr : Respected same c env)
    (hcode : ∀ r ∈ rs, r.Faithful same b c env) :
    Alongside p p' env same (b.segments rs) (places Segment.old (b.segments rs))
      (places Segment.new (b.segments rs)) where
  keep n i hi a s t hst :=
    hm.parallel_keep hr hi (fun _ hl => h.targets (List.mem_of_getElem? hi) hl) hst
  span n old code hspan a s t hst := by
    rcases h.mem_segments (List.mem_of_getElem? hspan) with ⟨r, hmem, rfl, rfl⟩
    rcases hcode r hmem a s t hst with ⟨a', s', t', hst', hold, hnew⟩
    have hreach := hm.reaches_span hspan hold hnew
    rw [← hm.owner] at hold
    rw [← hm.owner', ← Emu.straight_filter_append (b.span r) r.code] at hnew
    refine ⟨a', s', t', hst', ⟨?_, hreach.1⟩, ?_, hreach.2⟩
    · rw [places_succ hspan]
      exact Emu.straight_crosses (drop_code hm.code hspan) hold
    · rw [places_succ hspan]
      exact Emu.straight_crosses (drop_code hm.code' hspan) hnew

/-- Control comes to an instruction that stays in the same states as it does in the spliced
    body. -/
theorem Body.Splices.arriveAlike (h : b.Splices rs)
    (hm : Matched (b.segments rs) b.referenced c p p') (hr : Respected same c env)
    (hcode : ∀ r ∈ rs, r.Faithful same b c env) {n : Nat} {i : Instruction}
    (hi : (b.segments rs)[n]? = some (.keep i)) :
    ArriveAlike p p' env same (places Segment.old (b.segments rs) n)
      (places Segment.new (b.segments rs) n) := by
  have halong := h.alongside hm hr hcode
  have hfront (side : Segment → List Instruction) : places side (b.segments rs) 0 = 0 := places_zero
  intro a s t hst d
  refine ⟨fun u hu => ?_, fun u' hu' => ?_⟩
  · rcases Emu.reaches_iff.1 hu with ⟨k, hk⟩
    rw [← hfront Segment.old] at hk
    have hreach := halong.arrives (fun _ => rfl) hm.code hi (Nat.zero_le _) hst hk
    rwa [hfront] at hreach
  · rcases Emu.reaches_iff.1 hu' with ⟨k, hk⟩
    rw [← hfront Segment.new] at hk
    have hreach := halong.symm.arrives (fun _ => rfl) hm.code' hi (Nat.zero_le _) hst hk
    rwa [hfront] at hreach

end Splice

end JvmFold
