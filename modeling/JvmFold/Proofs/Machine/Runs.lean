import Mathlib
import JvmFold.Machine.Engine

/-!
# Runs of Methods

`Emu.execute` is given a number of steps, and a method that is not done by
then ends in a fault that no method brings about by itself. So what a method
returns is what it returns for all numbers of steps that are large enough.
`Returns` says this, and `run?` tells running out of steps apart from every
other outcome, which `execute` does not.

Two methods return the same when their runs can be lined up. `Linked` is what
is needed for that: places in the one and in the other, and from each place
either one instruction that does the same in both, or a way to the next place
in both. The runs may take different numbers of steps from place to place, and
one of them even none, so a run of the one is followed in the other by
induction on its length and then on the place.

Contexts need not be the same in the two runs but only agree in some relation.
Equality is one; another is to agree in all but the count of instructions.

## Main definitions

* `Prepared.unguarded`: A method without handlers, made ready.
* `Emu.Returns`: What a method returns, with steps enough.
* `Emu.run?`: The outcome of a run, unless it takes more steps.
* `Emu.Reaches`: A run from one place of a method to another.
* `Agree`: Outcomes that are the same in contexts that agree.
* `Linked`: Two methods whose runs can be lined up.

## Theorems

* `Emu.returns_iff`: What a method returns is the outcome of a run.
* `Linked.run?`: A run of the one method is followed in the other.
* `Linked.symm`: The other way round.
-/

namespace JvmFold

/-- A method without handlers, made ready. -/
def Prepared.unguarded (owner : ClassFile) (m : Member) (b : Body) : Prepared where
  member := m
  owner := owner
  maxLocals := b.maxLocals.toNat
  code := b.instructions.toArray
  labels := labelPositions 0 ∅ b.instructions
  guards := []

theorem Prepared.ofBody_unguarded {owner : ClassFile} {m : Member} {b : Body}
    (h : b.handlers = []) : ofBody owner m b = .ok (unguarded owner m b) := by
  unfold ofBody
  rw [h]
  rfl

namespace Emu

/-- The outcome of an operation. -/
abbrev Outcome (α : Type) := EStateM.Result Fault Machine α

/-- What a method returns from a position on, for all numbers of steps that are large enough. -/
def Returns (p : Prepared) (a : Activation) (position : Nat) (env : Env) (s : Machine)
    (r : Outcome (Option Value)) : Prop :=
  ∃ enough, ∀ steps, enough ≤ steps → execute p steps a position env s = r

/-- The outcome of a run of at most the given number of steps. -/
def run? (p : Prepared) (env : Env) :
    Nat → Activation → Nat → Machine → Option (Outcome (Option Value))
  | 0, _, _, _ => none
  | k + 1, a, position, s =>
      match advance p a position env s with
      | .error e s => some (.error e s)
      | .ok (.finished v) s => some (.ok v s)
      | .ok (.running a position) s => run? p env k a position s

section Run

variable {p : Prepared} {env : Env} {k n : Nat} {a b c : Activation} {i j : Nat}
variable {s t u : Machine} {r : Outcome (Option Value)}

/-- A run that has ended ends the same with more steps. -/
theorem run?_mono (h : run? p env k a i s = some r) (hle : k ≤ n) :
    run? p env n a i s = some r := by
  induction k generalizing n a i s with
  | zero => cases h
  | succ k ih =>
      cases n with
      | zero => omega
      | succ n =>
          rw [run?] at h ⊢
          split at h
          · exact h
          · exact h
          · exact ih h (by omega)

/-- A run takes a step and goes on. -/
theorem execute_succ :
    execute p (k + 1) a i env s =
      match advance p a i env s with
      | .error e s => .error e s
      | .ok (.finished v) s => .ok v s
      | .ok (.running a position) s => execute p k a position env s :=
  rfl

/-- A run that ends is what the method returns with at least as many steps. -/
theorem execute_of_run? (h : run? p env k a i s = some r) : execute p k a i env s = r := by
  induction k generalizing a i s with
  | zero => cases h
  | succ k ih =>
      rw [run?] at h
      rw [execute_succ]
      split at h
      · exact Option.some.inj h
      · exact Option.some.inj h
      · exact ih h

/-- What is returned and is not for want of steps is the outcome of a run. -/
theorem run?_of_execute (h : execute p k a i env s = r)
    (hr : ∀ t, r ≠ .error .outOfSteps t) : run? p env k a i s = some r := by
  induction k generalizing a i s with
  | zero => exact absurd h.symm (hr s)
  | succ k ih =>
      rw [execute_succ] at h
      rw [run?]
      split at h
      · rw [h]
      · rw [h]
      · exact ih h

/-- What a method returns is the outcome of a run. -/
theorem returns_iff (hr : ∀ t, r ≠ .error .outOfSteps t) :
    Returns p a i env s r ↔ ∃ k, run? p env k a i s = some r := by
  constructor
  · rintro ⟨enough, h⟩
    exact ⟨enough, run?_of_execute (h enough (Nat.le_refl _)) hr⟩
  · rintro ⟨k, h⟩
    exact ⟨k, fun steps hle => execute_of_run? (run?_mono h hle)⟩

/-- A run from one place of a method to another. -/
inductive Reaches (p : Prepared) (env : Env) :
    Activation → Nat → Machine → Activation → Nat → Machine → Prop where
  | refl {a : Activation} {i : Nat} {s : Machine} : Reaches p env a i s a i s
  | step {a b c : Activation} {i j k : Nat} {s t u : Machine} :
      advance p a i env s = .ok (.running b j) t → Reaches p env b j t c k u →
        Reaches p env a i s c k u

/-- A run goes through every place that is reached. -/
theorem Reaches.run? (h : Reaches p env a i s b j t) (hr : run? p env k a i s = some r) :
    run? p env k b j t = some r := by
  induction h generalizing k with
  | refl => exact hr
  | step hadvance _ ih =>
      cases k with
      | zero => cases hr
      | succ k =>
          rw [Emu.run?, hadvance] at hr
          exact run?_mono (ih hr) (Nat.le_succ k)

/-- A place that is reached goes on to where the run ends. -/
theorem Reaches.exists_run? (h : Reaches p env a i s b j t)
    (hr : Emu.run? p env k b j t = some r) : ∃ n, Emu.run? p env n a i s = some r := by
  induction h with
  | refl => exact ⟨k, hr⟩
  | step hadvance _ ih =>
      rcases ih hr with ⟨n, hn⟩
      refine ⟨n + 1, ?_⟩
      rw [Emu.run?, hadvance]
      exact hn

end Run

end Emu

/-- Outcomes that are the same in contexts that agree. -/
inductive Agree {α : Type} (same : Machine → Machine → Prop) :
    Emu.Outcome α → Emu.Outcome α → Prop where
  | ok {v : α} {s t : Machine} : same s t → Agree same (.ok v s) (.ok v t)
  | error {e : Fault} {s t : Machine} : same s t → Agree same (.error e s) (.error e t)

/-- Agreement goes both ways. -/
theorem Agree.symm {α : Type} {same : Machine → Machine → Prop} {r r' : Emu.Outcome α}
    (h : Agree same r r') : Agree (fun s t => same t s) r' r := by
  cases h with
  | ok hs => exact Agree.ok hs
  | error hs => exact Agree.error hs

/-- Instructions that do the same at a place of one method and of another: they go on to one place
    in both, or end in the same way. -/
inductive Parallel (same : Machine → Machine → Prop) (place place' : Nat → Nat) (last : Nat) :
    Emu.Outcome Emu.Progress → Emu.Outcome Emu.Progress → Prop where
  | running {a : Activation} {n : Nat} {s t : Machine} (hn : n ≤ last) (hs : same s t) :
      Parallel same place place' last (.ok (.running a (place n)) s)
        (.ok (.running a (place' n)) t)
  | finished {v : Option Value} {s t : Machine} (hs : same s t) :
      Parallel same place place' last (.ok (.finished v) s) (.ok (.finished v) t)
  | error {e : Fault} {s t : Machine} (hs : same s t) :
      Parallel same place place' last (.error e s) (.error e t)

/-- Two methods whose runs can be lined up: from each place either one instruction does the same in
    both, or both get to the next place. -/
def Linked (p p' : Prepared) (env : Env) (same : Machine → Machine → Prop)
    (place place' : Nat → Nat) (last : Nat) : Prop :=
  ∀ n, n ≤ last → ∀ (a : Activation) (s t : Machine), same s t →
    Parallel same place place' last (Emu.advance p a (place n) env s)
      (Emu.advance p' a (place' n) env t) ∨
    (n < last ∧ ∃ b s' t', same s' t' ∧
      Emu.Reaches p env a (place n) s b (place (n + 1)) s' ∧
      Emu.Reaches p' env a (place' n) t b (place' (n + 1)) t')

section Linked

variable {p p' : Prepared} {env : Env} {same : Machine → Machine → Prop}
variable {place place' : Nat → Nat} {last : Nat}

/-- Going on side by side goes both ways. -/
theorem Parallel.symm {r r' : Emu.Outcome Emu.Progress}
    (h : Parallel same place place' last r r') :
    Parallel (fun s t => same t s) place' place last r' r := by
  cases h with
  | running hn hs => exact Parallel.running hn hs
  | finished hs => exact Parallel.finished hs
  | error hs => exact Parallel.error hs

-- And so do linked codes.
theorem Linked.symm (h : Linked p p' env same place place' last) :
    Linked p' p env (fun s t => same t s) place' place last := by
  intro n hn a s t hs
  rcases h n hn a t s hs with hstep | ⟨hlt, b, s', t', hsame, hreach, hreach'⟩
  · exact Or.inl hstep.symm
  · exact Or.inr ⟨hlt, b, t', s', hsame, hreach', hreach⟩

/-- Instructions that do the same start runs that end in the same way, if the runs from the place
    that they go on to do. -/
theorem Parallel.run? {k : Nat} {a : Activation} {i i' : Nat} {s t : Machine}
    {r : Emu.Outcome (Option Value)}
    (h : Parallel same place place' last (Emu.advance p a i env s) (Emu.advance p' a i' env t))
    (ih : ∀ {n : Nat} {a : Activation} {s t : Machine} {r : Emu.Outcome (Option Value)},
      n ≤ last → same s t → Emu.run? p env k a (place n) s = some r →
      ∃ k' r', Emu.run? p' env k' a (place' n) t = some r' ∧ Agree same r r')
    (hr : Emu.run? p env (k + 1) a i s = some r) :
    ∃ k' r', Emu.run? p' env k' a i' t = some r' ∧ Agree same r r' := by
  rw [Emu.run?] at hr
  generalize hadvance : Emu.advance p a i env s = x at h hr
  generalize hadvance' : Emu.advance p' a i' env t = x' at h
  -- The step goes on, ends or fails, and the other one does the same.
  cases h with
  | running hn hs =>
      rcases ih hn hs hr with ⟨k', r', hrun, hagree⟩
      refine ⟨k' + 1, r', ?_, hagree⟩
      rw [Emu.run?, hadvance']
      exact hrun
  | finished hs =>
      cases hr
      refine ⟨1, _, ?_, Agree.ok hs⟩
      rw [Emu.run?, hadvance']
  | error hs =>
      cases hr
      refine ⟨1, _, ?_, Agree.error hs⟩
      rw [Emu.run?, hadvance']

/-- A run of the one method is followed in the other. -/
theorem Linked.run? (h : Linked p p' env same place place' last) {k : Nat} :
    ∀ {n : Nat} {a : Activation} {s t : Machine} {r : Emu.Outcome (Option Value)}, n ≤ last →
      same s t → Emu.run? p env k a (place n) s = some r →
      ∃ k' r', Emu.run? p' env k' a (place' n) t = some r' ∧ Agree same r r' := by
  induction k with
  | zero =>
      intro n a s t r _ _ hr
      cases hr
  | succ k ih =>
      -- The steps that are left do not become fewer on the way to the next place, so the places
      -- that are left are counted as well.
      intro n
      induction hm : last - n generalizing n with
      | zero =>
          intro a s t r hn hs hr
          rcases h n hn a s t hs with hstep | ⟨hlt, _⟩
          · exact hstep.run? ih hr
          · omega
      | succ m ihm =>
          intro a s t r hn hs hr
          rcases h n hn a s t hs with hstep | ⟨hlt, b, s', t', hsame, hreach, hreach'⟩
          · exact hstep.run? ih hr
          · rcases ihm (by omega) hlt hsame (hreach.run? hr) with ⟨k', r', hrun, hagree⟩
            rcases hreach'.exists_run? hrun with ⟨k'', hrun'⟩
            exact ⟨k'', r', hrun', hagree⟩

end Linked

end JvmFold
