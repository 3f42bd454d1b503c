import JvmFold.Proofs.Machine.Runs

/-!
# Straight-Line Code

Code in which every instruction goes on to the one behind it can be executed
by itself, without a method around it. Where it stands in a method, the method
gets from its start to its end and does just that, whatever handlers guard it,
as long as none of its instructions fails.

The other instructions need the method: a branch for the position of its
label, and one that raises an exception for the handlers. `advance_real` says
how they enter.

## Main definitions

* `Emu.straight`: Executes straight-line code.
* `Flow.progress`: Where a method goes on after an instruction.
* `Prepared.resume`: Where it goes on if the instruction may have failed.
* `Emu.Advances`: How a method goes on where it does.
* `Emu.Leads`: What an instruction may have done when it has been carried out.

## Theorems

* `Emu.advance_real`: What a method does at a real instruction.
* `Emu.straight_reaches`: A method executes its straight-line code.
* `Emu.step_leads`: What there is for an instruction to have done.
-/

namespace JvmFold

/-- Where a method goes on after an instruction at a position. -/
def Flow.progress (p : Prepared) (a : Activation) (position : Nat) :
    Flow → Except Fault Emu.Progress
  | .next s => .ok (.running (a.withStack s) (position + 1))
  | .store index v s => .ok (.running ((a.withStack s).store index v) (position + 1))
  | .jump label s => (p.target label).map (.running (a.withStack s))
  | .finish v => .ok (.finished v)

/-- A jump goes on at its label. -/
theorem Flow.progress_jump {p : Prepared} {a : Activation} {position : Nat} {l : Label}
    {stack : Stack} {progress : Emu.Progress}
    (h : (Flow.jump l stack).progress p a position = .ok progress) :
    ∃ target, p.target l = .ok target ∧ progress = .running (a.withStack stack) target := by
  rw [Flow.progress] at h
  cases hl : p.target l with
  | error e =>
      rw [hl] at h
      cases h
  | ok target =>
      rw [hl] at h
      cases h
      exact ⟨target, rfl, rfl⟩

/-- The handler of a method that guards a position against an exception of a class. -/
def Prepared.handler? (p : Prepared) (u : Universe) (position : Nat) (name : String) :
    Option Nat :=
  (p.guards.find? fun g =>
    g.start ≤ position && position < g.stop && g.catchType.all (u.isSubtype name)).map (·.target)

/-- Where a method goes on after what an instruction at a position has come to. -/
def Prepared.resume (p : Prepared) (a : Activation) (position : Nat) (env : Env) :
    Emu.Outcome Flow → Emu.Outcome Emu.Progress
  | .ok flow s => Emu.lift (flow.progress p a position) env s
  | .error (.thrown exception) s =>
      match p.handler? env.program.classes position (s.heap.get exception).className with
      | some target => .ok (.running (a.withStack [.ref exception]) target) s
      | none => .error (.thrown exception) s
  | .error e s => .error e s

/-- The code that is run is that of the body. -/
theorem Prepared.code_of_ofBody {c : ClassFile} {member : Member} {b : Body} {p : Prepared}
    (h : ofBody c member b = .ok p) : p.code = b.instructions.toArray := by
  unfold ofBody at h
  simp only [bind, Except.bind] at h
  split at h
  · cases h
  · cases h
    rfl

namespace Emu

/-- A second part runs on the machine that the first one leaves. -/
theorem bind_apply {α β : Type} (m : Emu α) (f : α → Emu β) (env : Env) (s : Machine) :
    (m >>= f) env s =
      match m env s with
      | .ok x s => f x env s
      | .error e s => .error e s := by
  change EStateM.bind (m env) (fun x => f x env) s = _
  unfold EStateM.bind
  cases m env s <;> rfl

-- So does a handler.
theorem tryCatch_apply {α : Type} (m : Emu α) (f : Fault → Emu α) (env : Env) (s : Machine) :
    (tryCatch m f) env s =
      match m env s with
      | .ok x s => .ok x s
      | .error e s => f e env s := by
  change EStateM.tryCatch (m env) (fun e => f e env) s = _
  unfold EStateM.tryCatch
  cases m env s <;> rfl

/-- Arguments are popped in the order in which they were pushed. -/
theorem popMany_reverse (values : List Value) (stack : Stack) :
    Stack.popMany values.length (values.reverse ++ stack) = .ok (values, stack) := by
  have hlength : values.length = values.reverse.length := List.length_reverse.symm
  unfold Stack.popMany
  rw [hlength, List.take_left', List.drop_left' rfl, if_neg (by omega), List.reverse_reverse]
  rfl

/-- A call takes its arguments off the stack, and puts its value there if it has one. -/
theorem invokeFrom_reverse {op : Opcode} {kind : InvokeKind} {m : Member} {type : MethodType}
    {values : List Value} {stack : Stack} (hkind : InvokeKind.ofOpcode? op = some kind)
    (htype : MethodType.parse m.descriptor = .ok type)
    (hlength : values.length = type.parameters.length + kind.hasReceiver.toNat) :
    invokeFrom op m (values.reverse ++ stack) =
      invoke kind m values >>= fun x => pure (x.toList ++ stack) := by
  unfold invokeFrom
  simp only [hkind, htype, fromDescriptor, lift, pure_bind, ← hlength, popMany_reverse]
  congr
  funext x
  cases x <;> rfl

/-- Executes instructions one after the other; marks are passed over. Nothing is left if one of
    them does not go on to the next. -/
def straight (c : ClassFile) : List Instruction → Activation → Emu (Option Activation)
  | [], a => return a
  | i :: rest, a =>
      if i.isPseudo then straight c rest a
      else do
        tick
        match ← step c i a with
        | .next s => straight c rest (a.withStack s)
        | .store index v s => straight c rest ((a.withStack s).store index v)
        | .jump _ _ | .finish _ => return none

section Straight

variable {p : Prepared} {c : ClassFile} {env : Env} {a b : Activation} {position : Nat}
variable {s t : Machine} {i : Instruction} {code rest : List Instruction}

/-- Marks do nothing. -/
theorem straight_mark (h : i.isPseudo = true) :
    straight c (i :: rest) a = straight c rest a := by
  rw [straight, if_pos h]

/-- An instruction is counted and run. -/
theorem straight_real (h : i.isPseudo = false) :
    straight c (i :: rest) a env s =
      match tick env s with
      | .error e s => .error e s
      | .ok _ s =>
        match step c i a env s with
        | .error e s => .error e s
        | .ok (.next stack) s => straight c rest (a.withStack stack) env s
        | .ok (.store index v stack) s => straight c rest ((a.withStack stack).store index v) env s
        | .ok (.jump _ _) s => .ok none s
        | .ok (.finish _) s => .ok none s := by
  rw [straight, if_neg (by rw [h]; decide)]
  rw [bind_apply]
  cases tick env s with
  | error e s => rfl
  | ok u s =>
      simp only [bind_apply]
      cases step c i a env s with
      | error e s => rfl
      | ok flow s => cases flow <;> rfl

/-- An instruction that only changes the stack. -/
theorem straight_next {i : Instruction} (effect : Emu Stack) (hi : i.isPseudo = false)
    (hstep : step c i a = effect >>= fun stack => pure (.next stack)) :
    straight c (i :: rest) a =
      (do tick; let stack ← effect; straight c rest (a.withStack stack)) := by
  rw [straight, if_neg (by rw [hi]; decide), hstep]
  simp only [bind_assoc, pure_bind]

/-- Marks in front make no difference. -/
theorem straight_filter_append (marks code : List Instruction) (a : Activation) :
    straight c (marks.filter Instruction.isPseudo ++ code) a = straight c code a := by
  induction marks with
  | nil => rfl
  | cons i rest ih =>
      cases hi : i.isPseudo with
      | true => rw [List.filter_cons_of_pos hi, List.cons_append, straight_mark hi, ih]
      | false => rw [List.filter_cons_of_neg (by rw [hi]; decide), ih]

/-- Marks make no difference anywhere. -/
theorem straight_filter (code : List Instruction) (a : Activation) :
    straight c (code.filter (!·.isPseudo)) a = straight c code a := by
  induction code generalizing a with
  | nil => rfl
  | cons i rest ih =>
      cases hi : i.isPseudo with
      | true => rw [List.filter_cons_of_neg (by rw [hi]; decide), straight_mark hi, ih]
      | false =>
          rw [List.filter_cons_of_pos (by rw [hi]; decide), straight, straight]
          simp only [hi, ih]

/-- Behind the last instruction the run falls off. -/
theorem advance_end (h : p.code[position]? = none) :
    advance p a position env s = .error (.derailed (.fellOff p.member)) s := by
  rw [advance, h]
  rfl

/-- A mark is one step on. -/
theorem advance_mark (h : p.code[position]? = some i) (hi : i.isPseudo = true) :
    advance p a position env s = .ok (.running a (position + 1)) s := by
  rw [advance, h]
  simp only [hi, if_true]
  rfl

-- Which handler is meant depends on the class of the exception.
theorem handler?_apply {exception : HeapRef} :
    handler? p position exception env s
      = .ok (p.handler? env.program.classes position (s.heap.get exception).className) s :=
  rfl

/-- What a method does at a real instruction. -/
theorem advance_real (h : p.code[position]? = some i) (hi : i.isPseudo = false) :
    advance p a position env s =
      match tick env s with
      | .error e s => .error e s
      | .ok _ s => p.resume a position env (step p.owner i a env s) := by
  rw [advance, h]
  simp only [hi, Bool.false_eq_true, if_false]
  rw [bind_apply]
  cases tick env s with
  | error e s => rfl
  | ok u s =>
      simp only [bind_apply, tryCatch_apply]
      cases step p.owner i a env s with
      | ok flow s =>
          cases flow with
          | next stack => rfl
          | store index v stack => rfl
          | finish v => rfl
          | jump label stack =>
              change (lift (p.target label) >>= fun target =>
                pure (Progress.running (a.withStack stack) target)) env s = _
              simp only [Prepared.resume, Flow.progress]
              cases p.target label with
              | ok target => rfl
              | error e => rfl
      | error e s =>
          cases e with
          -- Only an exception is looked up in the handlers.
          | thrown exception =>
              simp only [bind_apply, handler?_apply, Prepared.resume]
              cases p.handler? env.program.classes position (s.heap.get exception).className with
              | some target => rfl
              | none => rfl
          | _ => rfl

/-- How a method goes on where it does: past a mark, behind an instruction that was carried out, or
    at the handler for an exception of one. -/
inductive Advances (p : Prepared) (env : Env) (a : Activation) (position : Nat) (s : Machine) :
    Progress → Machine → Prop where
  | mark {i : Instruction} (hget : p.code[position]? = some i) (hi : i.isPseudo = true) :
      Advances p env a position s (.running a (position + 1)) s
  | done {i : Instruction} {flow : Flow} {progress : Progress} {t u : Machine}
      (hget : p.code[position]? = some i) (htick : tick env s = .ok () t)
      (hstep : step p.owner i a env t = .ok flow u)
      (hflow : flow.progress p a position = .ok progress) :
      Advances p env a position s progress u
  | caught {i : Instruction} {exception : HeapRef} {target : Nat} {t u : Machine}
      (hget : p.code[position]? = some i) (htick : tick env s = .ok () t)
      (hstep : step p.owner i a env t = .error (.thrown exception) u)
      (hhandler : p.handler? env.program.classes position (u.heap.get exception).className
        = some target) :
      Advances p env a position s (.running (a.withStack [.ref exception]) target) u

/-- What a step comes to is one of the ways in which a run goes on. -/
theorem advances_of_ok {progress : Progress} (h : advance p a position env s = .ok progress t) :
    Advances p env a position s progress t := by
  cases hget : p.code[position]? with
  | none =>
      rw [advance_end hget] at h
      cases h
  | some i =>
      cases hi : i.isPseudo with
      | true =>
          rw [advance_mark hget hi] at h
          cases h
          exact .mark hget hi
      | false =>
          rw [advance_real hget hi] at h
          cases htick : tick env s with
          | error e u =>
              rw [htick] at h
              cases h
          | ok _ u =>
              simp only [htick] at h
              cases hstep : step p.owner i a env u with
              | ok flow w =>
                  rw [hstep] at h
                  cases hflow : flow.progress p a position with
                  | error e =>
                      rw [Prepared.resume, hflow] at h
                      cases h
                  | ok next =>
                      rw [Prepared.resume, hflow] at h
                      cases h
                      exact .done hget htick hstep hflow
              | error e w =>
                  rw [hstep] at h
                  cases e with
                  | thrown exception =>
                      -- Only an exception can be caught.
                      rw [Prepared.resume] at h
                      split at h
                      next hhandler =>
                        cases h
                        exact .caught hget htick hstep hhandler
                      next => cases h
                  | _ => cases h

/-- The first of the instructions that are left stands at the position, the others behind it. -/
theorem getElem?_of_drop {code : Array Instruction} (h : code.toList.drop position = i :: rest) :
    code[position]? = some i ∧ code.toList.drop (position + 1) = rest := by
  constructor
  · rw [← Array.getElem?_toList, ← List.head?_drop, h, List.head?_cons]
  · rw [← List.tail_drop, h, List.tail_cons]

/-- The first instruction of straight-line code goes on to the next position, and the others are
    straight from there. -/
theorem advance_of_straight (hget : p.code[position]? = some i)
    (hrun : straight p.owner (i :: code) a env s = .ok (some b) t) :
    ∃ c u, advance p a position env s = .ok (.running c (position + 1)) u ∧
      straight p.owner code c env u = .ok (some b) t := by
  cases hi : i.isPseudo with
  | true =>
      rw [straight_mark hi] at hrun
      exact ⟨a, s, advance_mark hget hi, hrun⟩
  | false =>
      -- The code is not straight where an instruction fails, so no handler is entered.
      have hadvance : advance p a position env s = _ := advance_real hget hi
      rw [straight_real hi] at hrun
      cases htick : tick env s with
      | error e u =>
          simp only [htick] at hrun
          cases hrun
      | ok _ u =>
          simp only [htick] at hrun hadvance
          cases hstep : step p.owner i a env u with
          | error e w =>
              simp only [hstep] at hrun
              cases hrun
          | ok flow w =>
              simp only [hstep] at hrun hadvance
              cases flow with
              | next stack | store index v stack => exact ⟨_, w, hadvance, hrun⟩
              | jump label stack | finish v => cases hrun

/-- A method executes its straight-line code. -/
theorem straight_reaches (h : p.code.toList.drop position = code ++ rest)
    (hrun : straight p.owner code a env s = .ok (some b) t) :
    Reaches p env a position s b (position + code.length) t := by
  induction code generalizing position a s with
  | nil =>
      cases hrun
      exact Reaches.refl
  | cons i code ih =>
      rcases getElem?_of_drop h with ⟨hget, hdrop⟩
      rcases advance_of_straight hget hrun with ⟨c, u, hadvance, hrun⟩
      rw [List.length_cons, Nat.add_comm code.length, ← Nat.add_assoc]
      exact Reaches.step hadvance (ih hdrop hrun)

end Straight

section Branch

variable {env : Env} {s t : Machine}

/-- What succeeds has succeeded in both of its parts. -/
theorem bind_ok {α β : Type} {m : Emu α} {f : α → Emu β} {y : β}
    (h : (m >>= f) env s = .ok y t) : ∃ x u, m env s = .ok x u ∧ f x env u = .ok y t := by
  rw [bind_apply] at h
  cases hm : m env s with
  | ok x u =>
      rw [hm] at h
      exact ⟨x, u, rfl, h⟩
  | error e u =>
      rw [hm] at h
      cases h

/-- A table switch jumps to one of its labels. -/
theorem tableTarget_mem (default : Label) (low high : Int32) (targets : List Label) (key : Int32) :
    tableTarget default low high targets key ∈ default :: targets := by
  unfold tableTarget
  split
  · exact List.mem_cons_self
  · cases hget : targets[(key.toInt - low.toInt).toNat]? with
    | none => exact List.mem_cons_self
    | some l => exact List.mem_cons_of_mem _ (List.mem_of_getElem? hget)

-- And so does a lookup switch.
theorem lookupTarget_mem (default : Label) (pairs : List (Int32 × Label)) (key : Int32) :
    lookupTarget default pairs key ∈ default :: pairs.map Prod.snd := by
  unfold lookupTarget
  cases hfind : pairs.find? (·.1 == key) with
  | none => exact List.mem_cons_self
  | some x => exact List.mem_cons_of_mem _ (List.mem_map_of_mem (List.mem_of_find?_eq_some hfind))

/-- What an instruction may have done when it has been carried out: it branches to its own targets
    only, and only one instruction returns nothing. -/
inductive Leads (i : Instruction) : Flow → Prop where
  | next (stack : Stack) : Leads i (.next stack)
  | store (index : Nat) (v : Value) (stack : Stack) : Leads i (.store index v stack)
  | jump {l : Label} (hl : l ∈ i.targets) (stack : Stack) : Leads i (.jump l stack)
  | finish (h : i = .simple .voidReturn) : Leads i (.finish none)
  | hand (v : Value) : Leads i (.finish (some v))

/-- An instruction without operands leads on, or ends the run. -/
theorem simple_leads {op : Opcode} {stack : Stack} {flow : Flow}
    (h : simple op stack env s = .ok flow t) : Leads (.simple op) flow := by
  unfold simple at h
  -- What only computes goes on; of the others some hand a value on, return, or throw.
  cases hf : (Stack.compute? op).or (Stack.shuffle? op) with
  | some f =>
      simp only [hf] at h
      rcases bind_ok h with ⟨_, _, _, h⟩
      cases h
      exact .next _
  | none =>
      simp only [hf] at h
      split at h
      iterate 5
        rcases bind_ok h with ⟨_, _, _, h⟩
        cases h
        exact .hand _
      · cases h
        exact .finish rfl
      · rcases bind_ok h with ⟨_, _, _, h⟩
        cases h
        exact .next _

/-- An access to a local variable leads on. -/
theorem localAccess_leads {op : Opcode} {index : UInt16} {a : Activation} {flow : Flow}
    (h : localAccess op index a env s = .ok flow t) : Leads (.var op index) flow := by
  unfold localAccess at h
  split at h
  iterate 5
    rcases bind_ok h with ⟨_, _, _, h⟩
    cases h
    exact .next _
  iterate 5
    rcases bind_ok h with ⟨_, _, _, h⟩
    cases h
    exact .store _ _ _
  · cases h

-- So every instruction leads on, to one of its targets or to the end.
theorem step_leads {c : ClassFile} {i : Instruction} {a : Activation} {flow : Flow}
    (h : step c i a env s = .ok flow t) : Leads i flow := by
  cases i with
  | label l | line n | frame f =>
      cases h
      exact .next _
  | push op v =>
      cases h
      exact .next _
  | simple op => exact simple_leads h
  | var op index => exact localAccess_leads h
  | iinc index delta =>
      rcases bind_ok h with ⟨_, _, _, h⟩
      rcases bind_ok h with ⟨_, _, _, h⟩
      cases h
      exact .store _ _ _
  | jump op target =>
      unfold step at h
      cases htest : Stack.branch? op with
      | none =>
          simp only [htest] at h
          cases h
      | some test =>
          simp only [htest] at h
          rcases bind_ok h with ⟨⟨taken, stack⟩, _, _, h⟩
          cases taken with
          | true =>
              cases h
              exact .jump (List.mem_singleton_self _) _
          | false =>
              cases h
              exact .next _
  -- A switch takes its default or one of its other targets, and all of them are listed.
  | tableSwitch default low high targets =>
      rcases bind_ok h with ⟨⟨key, _⟩, _, _, h⟩
      cases h
      exact .jump (tableTarget_mem default low high targets key) _
  | lookupSwitch default pairs =>
      rcases bind_ok h with ⟨⟨key, _⟩, _, _, h⟩
      cases h
      exact .jump (lookupTarget_mem default pairs key) _
  | _ =>
      rcases bind_ok h with ⟨_, _, _, h⟩
      cases h
      exact .next _

/-- An instruction branches to its own targets only. -/
theorem step_jump {c : ClassFile} {i : Instruction} {a : Activation} {stack : Stack} {l : Label}
    (h : step c i a env s = .ok (.jump l stack) t) : l ∈ i.targets := by
  cases step_leads h with
  | jump hl => exact hl

/-- Only one instruction returns nothing. -/
theorem step_finish_none {c : ClassFile} {i : Instruction} {a : Activation}
    (h : step c i a env s = .ok (.finish none) t) : i = .simple .voidReturn := by
  cases step_leads h with
  | finish hi => exact hi

end Branch

end Emu

end JvmFold
