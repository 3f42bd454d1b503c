import JvmFold.Fold.Reconstruction
import JvmFold.Proofs.Machine.Straight

/-!
# Plans

Code that makes an object again is a tree written out: a recipe around the code
for its arguments, and these are loaded, read from a static field, or made by
recipes of their own. A plan is that tree. It can be written out as
instructions, and it can be carried out, which is to run each recipe on what
the plans of its arguments have made.

Both come to the same. The code stands among other code and on top of a stack
that is not its own, so what is shown of a plan is shown for any instructions
behind it and any frame below it.

A recipe has to be regular for that. A call takes as many values off the stack
as its descriptor names parameters, which nobody compares with the accessors,
and it leaves what the method happens to return.

## Main definitions

* `Plan`: How a value is made again.
* `Plan.code`: The instructions.
* `Plan.make`: What they stand for.
* `Recipe.Regular`: A recipe that takes and leaves what its descriptor says.
* `Emu.Reproduces`: Code that leaves a value equal to a given one.
* `Plan.Remakes`: A plan that makes a value equal to a given one.

## Theorems

* `Plan.straight_code`: Executing the code of a plan is carrying out the plan.
* `Plan.reproduces_iff`: The code of a plan reproduces what the plan remakes.
-/

namespace JvmFold

/-- How a value is made again. -/
inductive Plan where
  /-- A constant is loaded. -/
  | constant (k : Constant)
  | null
  /-- A static field is read. -/
  | field (f : Member)
  /-- A recipe is run. -/
  | call (recipe : Recipe) (arguments : List Plan)
  /-- What another plan makes is cast to a class. -/
  | cast (name : String) (plan : Plan)

/-- What the code of a recipe does, around what is done for the arguments. -/
def Recipe.make (r : Recipe) (arguments : Emu (List Value)) : Emu Value :=
  match r.kind with
  | .constructor => do
    Emu.tick
    let object := Value.ref (← Emu.instantiate r.member.owner)
    Emu.tick
    let values ← arguments
    Emu.tick
    let _ ← Emu.invoke .special r.member (object :: values)
    return object
  | _ => do
    let values ← arguments
    Emu.tick
    match ← Emu.invoke .static r.member values with
    | some v => return v
    | none => throw .stackUnderflow

/-- The kind of the call in the code of a recipe. -/
def Recipe.invokeKind (r : Recipe) : InvokeKind :=
  if r.kind = .constructor then .special else .static

/-- A recipe has an accessor for each parameter, and only a constructor returns nothing. -/
structure Recipe.Regular (env : Env) (r : Recipe) : Prop where
  parameters : ∃ type, MethodType.parse r.member.descriptor = .ok type ∧
    type.parameters.length = r.accessors.length
  result : ∀ {values s x t}, Emu.invoke r.invokeKind r.member values env s = .ok x t →
    (x = none ↔ r.kind = .constructor)

namespace Plan

mutual
/-- The instructions of a plan. -/
def code (u : Universe) : Plan → List Instruction
  | .constant k => [.literal k]
  | .null => [.simple .aconstNull]
  | .field f => [.field .getstatic f]
  | .call r arguments => (Rebuild.ofRecipe u r (codes u arguments)).code
  | .cast name plan => plan.code u ++ [.typed .checkcast name]

/-- The instructions of several plans. -/
def codes (u : Universe) : List Plan → List Instruction
  | [] => []
  | plan :: rest => plan.code u ++ codes u rest
end

mutual
/-- Carries out a plan. -/
def make : Plan → Emu Value
  | .constant k => do
    Emu.tick
    Emu.constant k
  | .null => do
    Emu.tick
    return .null
  | .field f => do
    Emu.tick
    Emu.getStatic f
  | .call r arguments => r.make (makeAll arguments)
  | .cast name plan => do
    let v ← plan.make
    Emu.tick
    let _ ← Emu.typed .checkcast name [v]
    return v

/-- Carries out several plans one after the other. -/
def makeAll : List Plan → Emu (List Value)
  | [] => return []
  | plan :: rest => do
    let v ← plan.make
    let values ← makeAll rest
    return v :: values
end

mutual
/-- Whether the recipes of a plan are regular and are given their arguments. -/
def Regular (env : Env) : Plan → Prop
  | .call r arguments =>
      r.Regular env ∧ arguments.length = r.accessors.length ∧ AllRegular env arguments
  | .cast _ plan => plan.Regular env
  | _ => True

/-- Whether the recipes of several plans are regular and are given their arguments. -/
def AllRegular (env : Env) : List Plan → Prop
  | [] => True
  | plan :: rest => plan.Regular env ∧ AllRegular env rest
end

end Plan

namespace Emu

section Instructions

variable {c : ClassFile} {env : Env} {s : Machine} {rest : List Instruction} {a : Activation}

/-- What follows an operation matters only where the operation ends. -/
theorem bind_congr_apply {α β : Type} {m : Emu α} {f g : α → Emu β}
    (h : ∀ x t, m env s = .ok x t → f x env t = g x env t) :
    (m >>= f) env s = (m >>= g) env s := by
  rw [bind_apply, bind_apply]
  cases hm : m env s with
  | ok x t => exact h x t hm
  | error e t => rfl

theorem straight_null :
    straight c (.simple .aconstNull :: rest) a =
      (do tick; straight c rest (a.withStack (.null :: a.stack))) := by
  rw [straight_next (pure (.null :: a.stack)) rfl rfl]
  simp only [pure_bind]

/-- A literal makes its constant. -/
theorem step_literal (k : Constant) :
    step c (.literal k) a = constant k >>= fun v => pure (.next (v :: a.stack)) := by
  cases k with
  | int v =>
      change step c (.int v) a = _
      unfold Instruction.int
      repeat' split
      -- The small numbers have instructions of their own.
      iterate 7
        next h =>
          subst h
          rfl
      iterate 3 rfl
  | long v =>
      change step c (if v = 0 then _ else if v = 1 then _ else _) a = _
      repeat' split
      iterate 2
        next h =>
          subst h
          rfl
      · rfl
  | float b =>
      change step c (if b = 0 then _ else if b = _ then _ else if b = _ then _ else _) a = _
      repeat' split
      iterate 3
        next h =>
          subst h
          rfl
      · rfl
  | double b =>
      change step c (if b = 0 then _ else if b = _ then _ else _) a = _
      repeat' split
      iterate 2
        next h =>
          subst h
          rfl
      · rfl
  | string text | classRef name | pool index => rfl

theorem literal_isPseudo (k : Constant) : (Instruction.literal k).isPseudo = false := by
  unfold Instruction.literal Instruction.int
  repeat' split
  all_goals rfl

theorem straight_literal (k : Constant) :
    straight c (.literal k :: rest) a =
      (do tick; let v ← constant k; straight c rest (a.withStack (v :: a.stack))) := by
  rw [straight_next (constant k >>= fun v => pure (v :: a.stack)) (literal_isPseudo k)]
  · simp only [bind_assoc, pure_bind]
  · rw [step_literal]
    simp only [bind_assoc, pure_bind]

theorem straight_getstatic (f : Member) :
    straight c (.field .getstatic f :: rest) a =
      (do tick; let v ← getStatic f; straight c rest (a.withStack (v :: a.stack))) := by
  rw [straight_next (getStatic f >>= fun v => pure (v :: a.stack)) rfl rfl]
  simp only [bind_assoc, pure_bind]

/-- A new object is pushed before its constructor runs. -/
theorem straight_new (name : String) :
    straight c (.typed .new name :: rest) a =
      (do tick; let r ← instantiate name; straight c rest (a.withStack (.ref r :: a.stack))) := by
  rw [straight_next (instantiate name >>= fun r => pure (.ref r :: a.stack)) rfl rfl]
  simp only [bind_assoc, pure_bind]

theorem straight_dup (v : Value) (stack : Stack) :
    straight c (.simple .dup :: rest) (a.withStack (v :: stack)) =
      (do tick; straight c rest (a.withStack (v :: v :: stack))) := by
  rw [straight_next (pure (v :: v :: stack)) rfl rfl]
  simp only [pure_bind]
  rfl

/-- A cast looks at the top of the stack alone. -/
theorem typed_checkcast (name : String) (v : Value) (stack : Stack) :
    typed .checkcast name (v :: stack) =
      typed .checkcast name [v] >>= fun _ => pure (v :: stack) := by
  cases v with
  | ref r =>
      unfold typed
      simp only [Stack.pop, lift, pure_bind, bind_assoc]
      congr
      funext isInstance
      cases isInstance with
      | true => rfl
      | false => simp only [Bool.not_false, if_true, bind_assoc, pure_bind]
  | _ => rfl

theorem straight_checkcast (name : String) (v : Value) (stack : Stack) :
    straight c (.typed .checkcast name :: rest) (a.withStack (v :: stack)) =
      (do tick; let _ ← typed .checkcast name [v]; straight c rest (a.withStack (v :: stack))) := by
  rw [straight_next (typed .checkcast name (v :: stack)) rfl rfl, typed_checkcast]
  simp only [bind_assoc, pure_bind]
  rfl

/-- A call takes its arguments from the stack and leaves what it returns. -/
theorem straight_invoke {op : Opcode} {kind : InvokeKind} {m : Member} {isInterface : Bool}
    {type : MethodType} {values : List Value} {stack : Stack}
    (hkind : InvokeKind.ofOpcode? op = some kind)
    (htype : MethodType.parse m.descriptor = .ok type)
    (hlength : values.length = type.parameters.length + kind.hasReceiver.toNat) :
    straight c (.invoke op m isInterface :: rest) (a.withStack (values.reverse ++ stack)) =
      (do
        tick
        let x ← invoke kind m values
        straight c rest (a.withStack (x.toList ++ stack))) := by
  have heffect : invokeFrom op m (values.reverse ++ stack) =
      invoke kind m values >>= fun x => pure (x.toList ++ stack) :=
    invokeFrom_reverse hkind htype hlength
  rw [straight_next (invokeFrom op m (values.reverse ++ stack)) rfl rfl, heffect]
  simp only [bind_assoc, pure_bind]
  rfl

end Instructions

end Emu

namespace Plan

variable {c : ClassFile} {u : Universe} {env : Env}

/-- There is a value for each plan. -/
theorem makeAll_length {plans : List Plan} {s t : Machine} {values : List Value}
    (h : makeAll plans env s = .ok values t) : values.length = plans.length := by
  induction plans generalizing s values with
  | nil =>
      cases h
      rfl
  | cons plan rest ih =>
      rw [makeAll] at h
      rcases Emu.bind_ok h with ⟨v, s₁, _, h⟩
      rcases Emu.bind_ok h with ⟨vs, s₂, hrest, h⟩
      cases h
      rw [List.length_cons, List.length_cons, ih hrest]

/-- The code of a regular recipe does what the recipe does, if the code for its arguments does. -/
theorem straight_recipe {r : Recipe} {arguments : Emu (List Value)} {code : List Instruction}
    (hr : r.Regular env)
    (hlength : ∀ {s values t}, arguments env s = .ok values t →
      values.length = r.accessors.length)
    (hcode : ∀ rest a s, Emu.straight c (code ++ rest) a env s =
      (arguments >>= fun values =>
        Emu.straight c rest (a.withStack (values.reverse ++ a.stack))) env s)
    (rest : List Instruction) (a : Activation) (s : Machine) :
    Emu.straight c ((Rebuild.ofRecipe u r code).code ++ rest) a env s =
      (r.make arguments >>= fun v => Emu.straight c rest (a.withStack (v :: a.stack))) env s := by
  rcases hr.parameters with ⟨type, htype, hparameters⟩
  unfold Rebuild.ofRecipe Recipe.make
  have hresult := @hr.result
  unfold Recipe.invokeKind at hresult
  cases hkind : r.kind with
  | constructor =>
      simp only [List.cons_append, List.nil_append, List.append_assoc, bind_assoc, pure_bind]
      rw [Emu.straight_new]
      refine Emu.bind_congr_apply fun _ s₁ _ => Emu.bind_congr_apply fun object s₂ _ => ?_
      rw [Emu.straight_dup]
      refine Emu.bind_congr_apply fun _ s₃ _ => ?_
      rw [hcode]
      refine Emu.bind_congr_apply fun values s₄ hvalues => ?_
      have hstack : values.reverse ++ Value.ref object :: Value.ref object :: a.stack
          = (Value.ref object :: values).reverse ++ Value.ref object :: a.stack := by
        rw [List.reverse_cons, List.append_assoc]
        rfl
      change Emu.straight c _ (a.withStack (values.reverse ++ _ :: _ :: a.stack)) env s₄ = _
      rw [hstack, Emu.straight_invoke rfl htype (by
        rw [List.length_cons, hlength hvalues, hparameters]
        rfl)]
      refine Emu.bind_congr_apply fun _ s₅ _ => Emu.bind_congr_apply fun x s₆ hx => ?_
      rw [hkind, if_pos rfl] at hresult
      rw [(hresult hx).mpr rfl]
      rfl
  | factory | staticField =>
      simp only [List.append_assoc, bind_assoc]
      rw [hcode]
      refine Emu.bind_congr_apply fun values s₁ hvalues => ?_
      change Emu.straight c (_ :: rest) _ env s₁ = _
      rw [Emu.straight_invoke rfl htype (by
        rw [hlength hvalues, hparameters]
        rfl)]
      refine Emu.bind_congr_apply fun _ s₂ _ => Emu.bind_congr_apply fun x s₃ hx => ?_
      rw [hkind, if_neg (by decide)] at hresult
      -- A method that returned nothing would leave the stack without the object.
      cases x with
      | none => exact absurd ((hresult hx).mp rfl) (by decide)
      | some v => rfl

mutual
/-- Executing the code of a plan in front of other code is carrying out the plan. -/
theorem straight_code {plan : Plan} (h : plan.Regular env) (rest : List Instruction)
    (a : Activation) (s : Machine) :
    Emu.straight c (plan.code u ++ rest) a env s =
      (plan.make >>= fun v => Emu.straight c rest (a.withStack (v :: a.stack))) env s := by
  match plan, h with
  | .constant k, _ =>
      rw [code, make, List.singleton_append, Emu.straight_literal]
      simp only [bind_assoc]
  | .null, _ =>
      rw [code, make, List.singleton_append, Emu.straight_null]
      simp only [bind_assoc, pure_bind]
  | .field f, _ =>
      rw [code, make, List.singleton_append, Emu.straight_getstatic]
      simp only [bind_assoc]
  | .call r arguments, h =>
      rw [Regular] at h
      rw [code, make]
      -- The code for the arguments leaves as many values as the recipe takes.
      refine straight_recipe h.1 (fun hvalues => ?_) (straight_codes h.2.2) rest a s
      rw [makeAll_length hvalues, h.2.1]
  | .cast name plan, h =>
      rw [Regular] at h
      rw [code, make, List.append_assoc, straight_code h]
      simp only [bind_assoc, pure_bind]
      refine Emu.bind_congr_apply fun v s₁ _ => ?_
      rw [List.singleton_append, Emu.straight_checkcast]

/-- Executing the code of several plans in front of other code is carrying out the plans. -/
theorem straight_codes {plans : List Plan} (h : AllRegular env plans) (rest : List Instruction)
    (a : Activation) (s : Machine) :
    Emu.straight c (codes u plans ++ rest) a env s =
      (makeAll plans >>= fun values =>
        Emu.straight c rest (a.withStack (values.reverse ++ a.stack))) env s := by
  -- The induction is on the plans: the code of the first one leaves its value beneath the others.
  match plans, h with
  | [], _ =>
      rw [codes, makeAll, List.nil_append, pure_bind]
      rfl
  | plan :: plans, h =>
      rw [AllRegular] at h
      rw [codes, makeAll, List.append_assoc, straight_code h.1]
      simp only [bind_assoc, pure_bind]
      refine Emu.bind_congr_apply fun v s₁ _ => ?_
      rw [straight_codes h.2]
      refine Emu.bind_congr_apply fun values s₂ _ => ?_
      rw [List.reverse_cons, List.append_assoc]
      rfl
end

end Plan

/-- Whether code, executed by itself in a context, leaves one value and this is equal to the given
    one. -/
def Emu.Reproduces (c : ClassFile) (env : Env) (t : Machine) (code : List Instruction)
    (value : Value) : Prop :=
  ∃ v a u w, straight c code {} env t = .ok (some a) u ∧ a.stack = [v] ∧
    areEqual v value env u = .ok true w

/-- Whether a plan, carried out in a context, makes a value that is equal to the given one. -/
def Plan.Remakes (plan : Plan) (env : Env) (t : Machine) (value : Value) : Prop :=
  ∃ v u w, plan.make env t = .ok v u ∧ Emu.areEqual v value env u = .ok true w

/-- The code of a plan reproduces what the plan remakes. -/
theorem Plan.reproduces_iff {plan : Plan} {c : ClassFile} {u : Universe} {env : Env} {t : Machine}
    {value : Value} (h : plan.Regular env) :
    Emu.Reproduces c env t (plan.code u) value ↔ plan.Remakes env t value := by
  -- Running the code is making the plan and leaving the value on the stack.
  have hcode := straight_code (c := c) (u := u) h [] {} t
  rw [List.append_nil, Emu.bind_apply] at hcode
  constructor
  · rintro ⟨v, a, s, w, hstraight, hstack, hequal⟩
    rw [hcode] at hstraight
    cases hmake : plan.make env t with
    | error e s' =>
        rw [hmake] at hstraight
        cases hstraight
    | ok x s' =>
        rw [hmake] at hstraight
        cases hstraight
        cases hstack
        exact ⟨_, _, _, hmake, hequal⟩
  · rintro ⟨v, s, w, hmake, hequal⟩
    rw [hmake] at hcode
    exact ⟨v, _, s, w, hcode, rfl, hequal⟩

end JvmFold
