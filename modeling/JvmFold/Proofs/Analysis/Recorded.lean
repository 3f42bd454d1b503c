import JvmFold.Machine.Engine
import JvmFold.Proofs.Analysis.Stack

/-!
# Evaluations on Record

What an analysis answers depends on a machine, but not if all of its
evaluations are on record from an earlier pass: then it takes their outcomes
from there. So a run over a given body can be followed by hand, one position
after the other, for any record that holds the outcomes. The machine only has
to hold the objects.

## Main definitions

* `Analysis.Gives`: A computation that does not change the machine.
* `Recorded.subject`, `Recorded.tracker`: A body, and an analysis with a record.
* `Recorded.machine`: A machine that holds an empty string.
* `Recorded.Shows`: The stack and the replacements in front of a position.

## Theorems

* `Analysis.evaluate_gives`: An evaluation on record is not run again.
* `Analysis.invokestatic_gives`, `Analysis.construct_gives`: Calls without parameters.
* `Recorded.Shows.succ`: Following a body by one position.
* `Recorded.Shows.replacements_eq`: The replacements of a body that was followed to its end.
-/

namespace JvmFold

namespace Analysis

/-- A computation that answers a value, leaves a state and does not change the machine. -/
def Gives {α : Type} (x : Analysis α) (s : Subject) (t : Tracker) (env : Env) (m : Machine)
    (a : α) (t' : Tracker) : Prop :=
  x s t env m = ((a, t'), m)

section Rules

variable {α β : Type} {s : Subject} {t u v : Tracker} {env : Env} {m : Machine}

/-- What is done one after the other gives what the last part gives. -/
theorem gives_bind {x : Analysis α} {f : α → Analysis β} {a : α} {b : β}
    (hx : Gives x s t env m a u) (hf : Gives (f a) s u env m b v) :
    Gives (x >>= f) s t env m b v := by
  change f (x s t env m).1.1 s (x s t env m).1.2 env (x s t env m).2 = ((b, v), m)
  rw [hx]
  exact hf

/-- An evaluation on record is not run again. -/
theorem evaluate_gives {start stop : Nat} {e : Evaluation (Member × Value)}
    {outcome : Except Failure (Member × Value)}
    (h : t.progress.evaluated[(⟨s.method, start, stop⟩ : EvaluationSite)]? = some outcome) :
    Gives (evaluate start stop e) s t env m outcome t := by
  refine gives_bind (a := s) rfl (gives_bind (a := t) rfl ?_)
  dsimp only
  rw [h]
  rfl

/-- A narrow value is pushed on one slot. -/
theorem pushFold_gives {f : Fold} (hf : f.value.slots = 1) :
    Gives (pushFold f) s t env m ⟨⟩ { t with stack := .known f :: t.stack } := by
  refine gives_bind (a := PUnit.unit) (u := { t with stack := .known f :: t.stack }) rfl ?_
  rw [hf]
  rfl

/-- A static call without parameters that is on record. -/
theorem invokestatic_gives {p : Nat} {i : Instruction} {named method : Member} {result : FieldType}
    {value : Value} (hd : MethodType.parse named.descriptor = .ok ⟨[], some result⟩)
    (hc : named.isConstructor = false)
    (h : t.progress.evaluated[(⟨s.method, p, p⟩ : EvaluationSite)]? = some (.ok (method, value)))
    (hv : value.slots = 1) :
    Gives (invoke p i .invokestatic named) s t env m ⟨⟩
      { t with stack := .known { origin := .call, start := p, stop := p, value, type := result,
                                 member := some method } :: t.stack } := by
  rw [invoke, hd]
  refine gives_bind (a := []) rfl (gives_bind (a := none) rfl ?_)
  rw [hc]
  refine gives_bind (a := s) rfl ?_
  refine gives_bind (a := some []) rfl ?_
  refine gives_bind (evaluate_gives h) ?_
  refine gives_bind (a := m.heap) rfl ?_
  exact pushFold_gives hv

/-- A call without operands can be evaluated where it stands. -/
theorem evaluable?_gives {p : Nat} {cursor : Option Nat}
    (hc : s.isContiguous p cursor [] = true) :
    Gives (evaluable? p cursor []) s t env m (some []) t := by
  refine gives_bind (a := s) rfl ?_
  change Gives (if !s.isContiguous p cursor [] then pure none else _) s t env m (some []) t
  rw [hc]
  rfl

/-- A constructor call without parameters that is on record, right behind the last copy of the
    reference. -/
theorem construct_gives {p : Nat} {i : Instruction} {named method : Member}
    {result : Option FieldType} {value : Value} {w : Uninitialized} {rest : List Slot}
    (hd : MethodType.parse named.descriptor = .ok ⟨[], result⟩)
    (hc : named.isConstructor = true) (hp : s.nextReal (w.stop + 1) = p)
    (hrest : .uninitialized w ∉ rest)
    (h : t.progress.evaluated[(⟨s.method, w.start, p⟩ : EvaluationSite)]?
      = some (.ok (method, value))) :
    Gives (invoke p i .invokespecial named) s
      { t with stack := .uninitialized w :: .uninitialized w :: rest } env m ⟨⟩
      { t with stack := .known { origin := .call, start := w.start, stop := p, value,
                                 type := .object named.owner,
                                 member := some method } :: rest } := by
  rw [invoke, hd]
  refine gives_bind (a := []) rfl ?_
  refine gives_bind (a := some (Operand.uninitialized w))
    (u := { t with stack := .uninitialized w :: rest }) rfl ?_
  -- The method is a constructor, and its object is on the stack.
  rw [hc]
  refine gives_bind (a := s) rfl ?_
  refine gives_bind (evaluable?_gives (by simp [Subject.isContiguous, hp])) ?_
  refine gives_bind (a := ({ t with stack := .uninitialized w :: rest } : Tracker)) rfl ?_
  have hholds : holds w (.uninitialized w :: rest) = true := by simp [holds]
  rw [hholds]
  refine gives_bind (evaluate_gives h) ?_
  refine gives_bind (a := m.heap) rfl ?_
  rw [Gives]
  -- The copy of the object that is left becomes the value.
  change ((PUnit.unit, { t with stack := settle w _ .unknown (.uninitialized w :: rest) }), m) = _
  rw [settle, if_pos rfl, settle_eq_self hrest]
  rfl

/-- A call does not end a block. -/
theorem advance_gives {p : Nat} {op : Opcode} {named : Member} {isInterface : Bool}
    (h : Gives (invoke p (.invoke op named isInterface) op named) s t env m ⟨⟩ u)
    (hop : op.isUnconditionalTransfer = false) :
    Gives (advance p (.invoke op named isInterface)) s t env m ⟨⟩ u := by
  refine gives_bind h ?_
  change Gives (if op.isUnconditionalTransfer then endBlock else pure ⟨⟩) s u env m ⟨⟩ u
  rw [hop]
  rfl

end Rules

end Analysis

namespace Recorded

/-- A method with the given body, in a program in which nothing is constant by itself. -/
def subject (code : Array Instruction) : Subject where
  config := ⟨∅, ∅, ∅, ∅, false, none, {}, {}⟩
  owner := { name := "demo/Made" }
  method := ⟨"demo/Made", "make", "()Ljava/lang/String;"⟩
  code := code
  referenced := ∅
  order := {}
  pass := 1

/-- The site of an evaluation in the method. -/
def site (start stop : Nat) : EvaluationSite :=
  ⟨⟨"demo/Made", "make", "()Ljava/lang/String;"⟩, start, stop⟩

/-- A record of evaluations. -/
abbrev Record := Std.HashMap EvaluationSite (Except Failure (Member × Value))

/-- A state of an analysis with a record of evaluations. -/
def state (record : Record) (log : EventLog) (stack : List Slot)
    (replacements : Array Replacement) : Tracker where
  progress := ⟨∅, record⟩
  runLog := #[]
  passLog := log
  stack := stack
  replacements := replacements

/-- The start of an analysis with a record of evaluations. -/
def tracker (record : Record) : Tracker :=
  state record #[] [] #[]

/-- A machine that holds an empty string. -/
def machine : Machine :=
  { heap := { objects := #[.string #[]] } }

/-- What the operations of the machine are given: no program. -/
def env : Env :=
  Engine.env ⟨{}, ∅⟩ {}

section Runs

variable {code : Array Instruction} {record : Record} {k : Nat} {stack stack' : List Slot}
variable {replacements replacements' : Array Replacement}

/-- The stack and the replacements in front of a position. -/
def Shows (code : Array Instruction) (record : Record) (k : Nat) (stack : List Slot)
    (replacements : Array Replacement) : Prop :=
  ∃ log, Analysis.before (subject code) (tracker record) env machine k
    = (state record log stack replacements, machine)

theorem shows_zero : Shows code record 0 [] #[] :=
  ⟨#[], rfl⟩

/-- Following the body by one position. -/
theorem Shows.succ (h : Shows code record k stack replacements) {i : Instruction}
    (hi : code[k]? = some i)
    (hstep : ∀ log, ∃ log', Analysis.Gives (Analysis.advance k i) (subject code)
      (state record log stack replacements) env machine ⟨⟩
      (state record log' stack' replacements')) :
    Shows code record (k + 1) stack' replacements' := by
  rcases h with ⟨log, hlog⟩
  rcases hstep log with ⟨log', hgives⟩
  exact ⟨log', Analysis.before_of_advance _ _ _ _ hi hlog hgives⟩

/-- The replacements of a body behind which nothing is known any more. -/
theorem Shows.replacements_eq (h : Shows code record code.size [] replacements) :
    (Analysis.replacements (subject code) (tracker record) env machine).1.1
      = replacements.toList := by
  rcases h with ⟨log, hlog⟩
  rcases Analysis.replacements_eq (subject code) (tracker record) env machine
    with ⟨t', ⟨_, lost, hperm, new, he, _, hr⟩, heq⟩
  rw [show (subject code).code.size = code.size from rfl, hlog] at hperm hr
  rw [hperm.eq_nil] at he
  cases he
  rw [heq, hr, List.append_nil]
  rfl

end Runs

end Recorded

end JvmFold
