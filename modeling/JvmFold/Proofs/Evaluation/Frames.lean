import JvmFold.Fold.Evaluation
import JvmFold.Fold.Reconstruction
import JvmFold.Proofs.Natives.Composition

/-!
# What Evaluations Keep

Reading a field, calling a method, joining strings at a call site and searching
for code that makes an object again all run operations of the machine. None of
these does more than let the heap evolve, count instructions and run parts of
the program; a call may keep an answer in addition. So whatever relation
between states survives these holds between the states before and after a
probe. That the answers stay as they are is one such relation, except for calls.

## Main definitions

* `Env.Keeps`: A relation between states that what a probe does keeps.
* `Probe.Framed`: A probe that keeps every such relation.
* `Trial.Framed`: The same of a probe that can fail.

## Theorems

* `Env.Framed.keeps`: The state evolves.
* `Evaluation.framed_concat`: Joining strings is framed.
* `Rebuild.framed_run`: A search for code is framed.
-/

namespace JvmFold

/-- A relation between states that holds as long as the heap evolves, instructions are counted and
    parts of the program run. -/
structure Env.Keeps (env : Env) (R : Machine → Machine → Prop) : Prop where
  refl : ∀ s, R s s
  trans : ∀ {s t u}, R s t → R t u → R s u
  heap : ∀ {s : Machine} {h : Heap}, s.heap.Evolves h → R s { s with heap := h }
  counted : ∀ (s : Machine) (n : Nat), R s { s with executed := n }
  dispatch : ∀ depth task s, R s (Emu.Outcome.state (env.dispatch depth task s))

/-- A relation that holds as well when an answer is kept. -/
def Machine.KeepsAnswers (R : Machine → Machine → Prop) : Prop :=
  ∀ (s : Machine) (key : CallKey) (answer : Except HeapRef (Option Value)),
    R s { s with answers := s.answers.insert key answer }

theorem Env.Framed.keeps {env : Env} (henv : env.Framed) : env.Keeps Machine.Evolves where
  refl := .refl
  trans := .trans
  heap h := ⟨rfl, h⟩
  counted s _ := ⟨rfl, .refl s.heap⟩
  dispatch := henv

/-- An operation that writes no static fields keeps what its parts keep. -/
theorem Env.Keeps.outcome {env : Env} {R : Machine → Machine → Prop} (henv : env.Keeps R)
    {α : Type} (x : Emu α) [hx : Emu.Composed false x] (s : Machine) :
    R s (Emu.Outcome.state (x env s)) := by
  have hlasting : Emu.Lasting false (R s) := {
    heap := fun h hheap => henv.trans h (henv.heap hheap)
    statics := fun _ _ hwrites => absurd hwrites Bool.false_ne_true
    initialized := fun _ _ hwrites => absurd hwrites Bool.false_ne_true }
  exact hx.lasts hlasting (fun depth task t ht => henv.trans ht (henv.dispatch depth task t)) s
    (henv.refl s)

namespace Probe

variable {answers : Bool} {α β : Type}

/-- A probe that keeps what its parts keep. Only one that may keep answers changes those. -/
class Framed (answers : Bool) (x : Probe α) : Prop where
  keeps : ∀ {env : Env} {R : Machine → Machine → Prop}, env.Keeps R →
    (answers = true → Machine.KeepsAnswers R) → ∀ s, R s (x env s).2

/-- The state has evolved after a probe that keeps no answers. -/
theorem Framed.evolves {x : Probe α} (hx : Framed false x) {env : Env} (henv : env.Framed)
    (s : Machine) : s.Evolves (x env s).2 :=
  hx.keeps henv.keeps (absurd · Bool.false_ne_true) s

/-- An attempt leaves the machine as the computation does, whether it fails or not. -/
theorem attempt_snd (x : Emu α) (env : Env) (s : Machine) :
    (attempt x env s).2 = Emu.Outcome.state (x env s) := by
  unfold attempt
  cases x env s <;> rfl

instance (x : Emu α) [Emu.Composed false x] : Framed answers (attempt x) := by
  refine ⟨fun henv _ s => ?_⟩
  rw [attempt_snd]
  exact henv.outcome x s

instance : Framed answers heap :=
  ⟨fun henv _ s => henv.refl s⟩

instance : Framed answers beginEvaluation :=
  ⟨fun henv _ s => henv.counted s 0⟩

end Probe

namespace Trial

variable {answers : Bool} {ε α β : Type}

/-- A probe that can fail and keeps what its parts keep. -/
class Framed (answers : Bool) (x : ExceptT ε Probe α) : Prop where
  framed : Probe.Framed answers (ExceptT.run x)

/-- The state has evolved after one that keeps no answers. -/
theorem Framed.evolves {x : ExceptT ε Probe α} (hx : Framed false x) {env : Env}
    (henv : env.Framed) (s : Machine) : s.Evolves (ExceptT.run x env s).2 :=
  hx.framed.evolves henv s

instance (a : α) : Framed answers (pure a : ExceptT ε Probe α) :=
  ⟨⟨fun henv _ s => henv.refl s⟩⟩

instance (e : ε) : Framed answers (throw e : ExceptT ε Probe α) :=
  ⟨⟨fun henv _ s => henv.refl s⟩⟩

instance (x : Probe α) [hx : Probe.Framed answers x] :
    Framed answers (liftM x : ExceptT ε Probe α) :=
  ⟨⟨fun henv hanswers s => hx.keeps henv hanswers s⟩⟩

/-- A bind of trials is a bind of what they come to. -/
theorem run_bind (x : ExceptT ε Probe α) (f : α → ExceptT ε Probe β) (env : Env) (s : Machine) :
    ExceptT.run (x >>= f) env s = ExceptT.bindCont f (x env s).1 env (x env s).2 :=
  rfl

/-- Two parts that keep the answers do so one after the other. -/
theorem Framed.bind {x : ExceptT ε Probe α} {f : α → ExceptT ε Probe β} (hx : Framed answers x)
    (hf : ∀ a, Framed answers (f a)) : Framed answers (x >>= f) := by
  refine ⟨⟨fun {env R} henv hanswers s => ?_⟩⟩
  have hfirst : R s (x env s).2 := hx.framed.keeps henv hanswers s
  rw [run_bind]
  cases (x env s).1 with
  | error e => exact hfirst
  | ok a => exact henv.trans hfirst ((hf a).framed.keeps henv hanswers _)

instance (x : ExceptT ε Probe α) (f : α → ExceptT ε Probe β) [hx : Framed answers x]
    [hf : ∀ a, Framed answers (f a)] : Framed answers (x >>= f) :=
  hx.bind hf

-- So does a part with a handler.
theorem framed_tryCatch {x : ExceptT ε Probe α} {handle : ε → ExceptT ε Probe α}
    (hx : Framed answers x) (hhandle : ∀ e, Framed answers (handle e)) :
    Framed answers (tryCatch x handle) := by
  refine ⟨⟨fun {env R} henv hanswers s => ?_⟩⟩
  have hfirst : R s (x env s).2 := hx.framed.keeps henv hanswers s
  change R s ((ExceptT.tryCatch x handle : ExceptT ε Probe α) env s).2
  simp only [ExceptT.tryCatch, ExceptT.mk, bind, ReaderT.bind, StateT.bind]
  rcases hrun : x env s with ⟨e | a, t⟩
  · rw [hrun] at hfirst
    exact henv.trans hfirst ((hhandle e).framed.keeps henv hanswers t)
  · rwa [hrun] at hfirst

instance (c : Prop) [Decidable c] (x y : ExceptT ε Probe α) [hx : Framed answers x]
    [hy : Framed answers y] : Framed answers (if c then x else y) := by
  split
  · exact hx
  · exact hy

end Trial

namespace Evaluation

variable {answers : Bool}

instance {α : Type} (m : Member) (x : Emu α) [Probe.Framed answers (Probe.attempt x)] :
    Trial.Framed answers (guarded m x) := by
  refine Trial.Framed.bind inferInstance fun outcome => ?_
  split <;> infer_instance

instance (f : Member) : Trial.Framed answers (readStatic f) := by
  unfold readStatic
  infer_instance

instance (object : Value) (f : Member) : Trial.Framed answers (readField object f) := by
  unfold readField
  infer_instance

instance framed_concat (c : ClassFile) (bootstrap : UInt16) (parameters : List FieldType)
    (operands : List Value) : Trial.Framed answers (concat c bootstrap parameters operands) := by
  refine Trial.Framed.bind inferInstance fun recipe => ?_
  split <;> infer_instance

end Evaluation

namespace Rebuild

section Search

variable {answers : Bool} {site : RebuildSite} {nested : HeapRef → Rebuild Reconstruction}

instance {α : Type} (obstacle : String → Obstacle) (x : Emu α) [Emu.Composed false x] :
    Trial.Framed answers (guarded obstacle x) := by
  refine Trial.Framed.bind inferInstance fun outcome => ?_
  split <;> infer_instance

instance (a b : Value) : Trial.Framed answers (equalOrFalse a b) := by
  refine Trial.Framed.bind inferInstance fun outcome => ?_
  split <;> infer_instance

instance (value : Value) (fields : List Member) :
    Trial.Framed answers (firstEqual? site value fields) := by
  induction fields with
  | nil => exact inferInstanceAs (Trial.Framed answers (pure none))
  | cons f rest ih =>
      unfold firstEqual?
      split
      · refine Trial.Framed.bind inferInstance fun outcome => ?_
        split <;> infer_instance
      · exact ih

instance (fields : List Member) (value : Value) :
    Trial.Framed answers (reuse site fields value) := by
  refine Trial.Framed.bind inferInstance fun found => ?_
  split <;> infer_instance

instance (value : Value) (a : Accessor) : Trial.Framed answers (extract value a) := by
  unfold extract
  split
  · infer_instance
  · refine Trial.Framed.bind inferInstance fun answer => ?_
    split <;> infer_instance

/-- Rebuilding the arguments keeps the answers if rebuilding one value does. -/
theorem framed_encodeArguments (hnested : ∀ r, Trial.Framed answers (nested r)) (value : Value)
    (accessors : List Accessor) :
    Trial.Framed answers (encodeArguments site nested value accessors) := by
  induction accessors with
  | nil => exact inferInstanceAs (Trial.Framed answers (pure _))
  | cons a rest ih =>
      unfold encodeArguments
      refine Trial.Framed.bind inferInstance fun v => Trial.Framed.bind inferInstance fun h => ?_
      dsimp only
      split <;> infer_instance

instance (recipe : Recipe) (arguments : List Value) :
    Trial.Framed answers (perform recipe arguments) := by
  unfold perform
  split
  · infer_instance
  · refine Trial.Framed.bind inferInstance fun answer => ?_
    split <;> infer_instance

-- So does an alternative.
theorem framed_attempt (hnested : ∀ r, Trial.Framed answers (nested r)) (value : Value)
    (a : Alternative) : Trial.Framed answers (attempt site nested value a) := by
  have hencode (l : List Accessor) : Trial.Framed answers (encodeArguments site nested value l) :=
    framed_encodeArguments hnested value l
  cases a with
  | reuse fields => exact inferInstanceAs (Trial.Framed answers (reuse site fields value))
  | recipe r =>
      unfold attempt execute
      infer_instance

-- And trying alternatives one by one.
theorem framed_firstOf (hnested : ∀ r, Trial.Framed answers (nested r)) (name : String)
    (value : Value) (reasons : List Obstacle) (l : List Alternative) :
    Trial.Framed answers (firstOf site nested name value reasons l) := by
  induction l generalizing reasons with
  | nil => exact inferInstanceAs (Trial.Framed answers (throw _))
  | cons a rest ih =>
      exact Trial.framed_tryCatch (framed_attempt hnested value a) fun o => ih (reasons ++ [o])

/-- Rebuilding keeps the answers, whatever it is within. -/
theorem framed_within (room : Nat) (visiting : List HeapRef) (r : HeapRef) :
    Trial.Framed answers (within site room visiting r) := by
  induction room generalizing visiting r with
  | zero => exact inferInstanceAs (Trial.Framed answers (throw _))
  | succ room ih =>
      -- The alternatives are tried with the object on the path, and with less room.
      have hfirst (name : String) (value : Value) (reasons : List Obstacle)
          (l : List Alternative) :
          Trial.Framed answers
            (firstOf site (within site room (r :: visiting)) name value reasons l) :=
        framed_firstOf (ih (r :: visiting)) name value reasons l
      unfold within
      dsimp only
      split
      on_goal 1 => refine Trial.Framed.bind inferInstance fun _ => ?_
      all_goals
        refine Trial.Framed.bind inferInstance fun h => ?_
        split
        · infer_instance
        · exact hfirst _ _ _ _

/-- A search for code is framed. -/
instance framed_run (r : HeapRef) : Probe.Framed answers (run site r) :=
  ⟨fun henv hanswers s => henv.trans (henv.counted s 0)
    ((framed_within maxRebuildDepth [] r).framed.keeps henv hanswers _)⟩

end Search

end Rebuild

end JvmFold
