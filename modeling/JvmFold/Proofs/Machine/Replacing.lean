import JvmFold.Proofs.Body.Reencoding
import JvmFold.Proofs.Machine.Lifecycle
import JvmFold.Proofs.Machine.Relabelled
import JvmFold.Proofs.Splice.Places

/-!
# Methods in the Place of Others

A program can have its methods replaced by others that say the same with labels
of their own. What an operation comes to is the same then, but a method can
take more steps for it or fewer, since passing over a mark is a step. The
engine is therefore run with any number of steps for a method in place of its
allowance. Where one program has ended with some number of steps, the other one
ends in the same way with a multiple of that number.

A label is a position to a run only if it is placed. In a body that was decoded
and could be encoded every label is, and no label is placed twice, so both
bodies can be made ready and their labels and handlers stand at positions that
count the same.

## Main definitions

* `Body.TargetsPlaced`: The labels that a run can go on to are placed.
* `Prepared.Answers`, `Program.Answers`: Methods and programs that come to the same.
* `Engine.runWithin`: The engine with a number of steps for every method.
* `Emu.Operation`, `Emu.outcomes`: What a user asks for, and what it comes to.
* `Engine.ComesTo`: What operations come to with steps enough.

## Theorems

* `Prepared.exists_alike`: Bodies that say the same are made ready together.
* `Engine.follows_runWithin`: What one program answers, the other one answers.
* `Engine.runWithin_lasts`: What lasts in operations lasts in every task.
* `Engine.comesTo_iff`: Operations come to the same in both.
* `Engine.ComesTo.unique`: What they come to does not depend on the number of steps.
-/

namespace JvmFold

/-- The counts go on from one part of the code to the next. -/
theorem counted_append (n : Nat) (l l' : List Instruction) :
    counted n (l ++ l') = counted n l ++ counted (n + (l.filter (!·.isPseudo)).length) l' := by
  induction l generalizing n with
  | nil => rfl
  | cons i l ih =>
      rw [List.cons_append, counted, counted, List.cons_append, ih]
      cases hi : i.isPseudo with
      | true => rw [if_pos rfl, List.filter_cons_of_neg (by simp [hi])]
      | false =>
          rw [if_neg (by simp), List.filter_cons_of_pos (by simp [hi]), List.length_cons,
            Nat.add_right_comm, Nat.add_assoc]

/-- The instructions themselves stay what they are. -/
theorem map_snd_counted (n : Nat) (l : List Instruction) : (counted n l).map Prod.snd = l := by
  induction l generalizing n with
  | nil => rfl
  | cons i l ih => rw [counted, List.map_cons, ih]

theorem find?_counted_eq_none {l : Label} {code : List Instruction}
    (h : Instruction.label l ∉ code) (n : Nat) :
    ((counted n code).find? fun x => x.2 = .label l) = none := by
  refine List.find?_eq_none.2 fun x hx hlabel => h ?_
  have hmem : x.2 ∈ (counted n code).map Prod.snd := List.mem_map_of_mem hx
  rw [map_snd_counted, of_decide_eq_true hlabel] at hmem
  exact hmem

/-- Targets are renamed with the instruction. -/
theorem Instruction.targets_relabel (f : Label → Label) (i : Instruction) :
    (i.relabel f).targets = i.targets.map f := by
  cases i with
  | lookupSwitch default pairs =>
      simp only [Instruction.relabel, Instruction.targets, List.map_cons, List.map_map]
      rfl
  | _ => rfl

namespace Body

section Positions

variable {b b' : Body} {l : Label}

/-- A label that has a mark is at the position of the mark, if it is placed once. -/
theorem exists_position (honce : (b.instructions.filterMap Instruction.label?).Nodup)
    (hl : b.positionOf l ≤ b.real.length) :
    ∃ j, (Prepared.labelPositions 0 ∅ b.instructions)[l]? = some j ∧
      realsBefore b.instructions j = b.positionOf l := by
  have hmem : Instruction.label l ∈ b.instructions := by
    by_contra hnot
    unfold positionOf at hl
    rw [find?_counted_eq_none hnot] at hl
    exact Nat.not_succ_le_self _ hl
  -- The label is marked only once, so its mark is where the count says.
  rcases List.append_of_mem hmem with ⟨before, after, hsplit⟩
  rw [hsplit, List.filterMap_append, List.filterMap_cons] at honce
  change (_ ++ l :: _ : List Label).Nodup at honce
  have hafter : Instruction.label l ∉ after := fun h =>
    (List.nodup_cons.1 (List.nodup_append.1 honce).2.1).1 (List.mem_filterMap.2 ⟨_, h, rfl⟩)
  have hbefore : Instruction.label l ∉ before := fun h =>
    (List.nodup_append.1 honce).2.2 l (List.mem_filterMap.2 ⟨_, h, rfl⟩) l List.mem_cons_self rfl
  refine ⟨before.length, ?_, ?_⟩
  · rw [hsplit, labelPositions_append, Prepared.labelPositions, labelPositions_other hafter,
      Std.HashMap.getElem?_insert_self, Nat.zero_add]
  · unfold positionOf realsBefore
    rw [hsplit, counted_append, List.find?_append, find?_counted_eq_none hbefore, Option.none_or,
      counted, List.find?_cons_of_pos (by simp), List.take_left]
    simp

/-- The labels that a run of the body can go on to are placed. -/
structure TargetsPlaced (b : Body) : Prop where
  code : ∀ i ∈ b.real, ∀ l ∈ i.targets, b.positionOf l ≤ b.real.length
  handlers : ∀ h ∈ b.handlers, ∀ l ∈ h.labels, b.positionOf l ≤ b.real.length

/-- If every label has its mark, so do all targets. -/
theorem LabelsPlaced.targets (h : b.LabelsPlaced) : b.TargetsPlaced where
  code := by
    intro i hi l hl
    exact h l (mem_labels.2 (.inl ⟨i, (List.mem_filter.1 hi).1, mem_instructionLabels hl⟩))
  handlers := fun g hg l hl => h l (mem_labels.2 (.inr (.inl ⟨g, hg, hl⟩)))

/-- Bodies that are seen alike have as many instructions. -/
theorem length_real_of_view (h : b'.view = b.view) : b'.real.length = b.real.length := by
  have hcode := congrArg (fun v => v.code.length) h
  simpa only [view, List.length_map] using hcode

/-- A body that says the same has the labels placed that it goes on to. -/
theorem TargetsPlaced.of_view (h : b.TargetsPlaced) (hview : b'.view = b.view) :
    b'.TargetsPlaced where
  code := by
    intro i hi l hl
    -- The label is compared by its position, which is all that the view has of it.
    have hmem : b'.canonical l ∈ (i.relabel b'.canonical).targets := by
      rw [Instruction.targets_relabel]
      exact List.mem_map_of_mem hl
    have hi' : i.relabel b'.canonical ∈ b.view.code := by
      rw [← hview]
      exact List.mem_map_of_mem hi
    rcases List.mem_map.1 hi' with ⟨j, hj, hij⟩
    rw [← hij, Instruction.targets_relabel] at hmem
    rcases List.mem_map.1 hmem with ⟨k, hk, hlk⟩
    have hposition : b.positionOf k = b'.positionOf l := congrArg Label.id hlk
    rw [length_real_of_view hview, ← hposition]
    exact h.code j hj k hk
  handlers := by
    intro g hg l hl
    have hg' : g.relabel b'.canonical ∈ b.view.handlers := by
      rw [← hview]
      exact List.mem_map_of_mem hg
    rcases List.mem_map.1 hg' with ⟨k, hk, hgk⟩
    have hlabels : k.labels.map b.canonical = g.labels.map b'.canonical :=
      congrArg Handler.labels hgk
    have hmem : b'.canonical l ∈ k.labels.map b.canonical := by
      rw [hlabels]
      exact List.mem_map_of_mem hl
    rcases List.mem_map.1 hmem with ⟨m, hm, hlm⟩
    have hposition : b.positionOf m = b'.positionOf l := congrArg Label.id hlm
    rw [length_real_of_view hview, ← hposition]
    exact h.handlers k hk m hm

end Positions

end Body

/-- A guard stands where the handler does, by the numbers of real instructions. -/
structure Handler.Guards (b : Body) (h : Handler) (g : Guard) : Prop where
  start : realsBefore b.instructions g.start = b.positionOf h.start
  stop : realsBefore b.instructions g.stop = b.positionOf h.stop
  target : realsBefore b.instructions g.target = b.positionOf h.target
  catchType : g.catchType = h.catchType

section Ready

variable {b b' : Body} {c d : ClassFile} {m : Member}

/-- A body with its labels placed is made ready, with its labels and handlers by position. -/
theorem Prepared.exists_ofBody (c : ClassFile) (m : Member)
    (honce : (b.instructions.filterMap Instruction.label?).Nodup) (h : b.TargetsPlaced) :
    ∃ p, ofBody c m b = .ok p ∧ p.member = m ∧ p.owner = c ∧
      p.maxLocals = b.maxLocals.toNat ∧ p.code.toList = b.instructions ∧
      p.Numbers b.canonical ∧ List.Forall₂ (Handler.Guards b) b.handlers p.guards := by
  let labels := labelPositions 0 ∅ b.instructions
  have hposition (l : Label) (hl : b.positionOf l ≤ b.real.length) :
      ∃ j, position labels l = .ok j ∧ realsBefore b.instructions j = b.positionOf l := by
    rcases Body.exists_position honce hl with ⟨j, hj, hnumber⟩
    refine ⟨j, ?_, hnumber⟩
    unfold position
    rw [show labels[l]? = some j from hj]
  -- Each handler has its three labels placed, so none of them stops the table of guards.
  have hguards : ∃ guards, b.handlers.mapM (Handler.guard labels) = .ok guards ∧
      List.Forall₂ (Handler.Guards b) b.handlers guards := by
    have hhandlers := h.handlers
    generalize b.handlers = l at hhandlers
    induction l with
    | nil => exact ⟨[], rfl, .nil⟩
    | cons g l ih =>
        rw [List.forall_mem_cons] at hhandlers
        rcases ih hhandlers.2 with ⟨guards, hmap, hall⟩
        rcases hposition g.start (hhandlers.1 _ (by simp [Handler.labels])) with ⟨i, hi, hni⟩
        rcases hposition g.stop (hhandlers.1 _ (by simp [Handler.labels])) with ⟨j, hj, hnj⟩
        rcases hposition g.target (hhandlers.1 _ (by simp [Handler.labels])) with ⟨k, hk, hnk⟩
        refine ⟨⟨i, j, k, g.catchType⟩ :: guards, ?_, .cons ⟨hni, hnj, hnk, rfl⟩ hall⟩
        have hguard : g.guard labels = .ok ⟨i, j, k, g.catchType⟩ := by
          unfold Handler.guard
          rw [hi, hj, hk]
          rfl
        rw [List.mapM_cons, hguard, hmap]
        rfl
  rcases hguards with ⟨guards, hmap, hall⟩
  refine ⟨⟨m, c, b.maxLocals.toNat, b.instructions.toArray, labels, guards⟩, ?_, rfl, rfl, rfl,
    rfl, ?_, hall⟩
  · change (b.handlers.mapM (Handler.guard labels) >>= fun guards => .ok _) = _
    rw [hmap]
    rfl
  · intro i hi l hl
    refine hposition l (h.code i (List.mem_filter.2 ⟨hi, ?_⟩) l hl)
    cases i <;> first | rfl | cases hl

/-- Bodies that say the same are made ready to methods that say the same. -/
theorem Prepared.exists_alike (m : Member) (hview : b'.view = b.view)
    (honce : (b.instructions.filterMap Instruction.label?).Nodup)
    (honce' : (b'.instructions.filterMap Instruction.label?).Nodup) (h : b.TargetsPlaced)
    (hsites : ∀ bootstrap, ConcatRecipe.ofCallSite c bootstrap =
      ConcatRecipe.ofCallSite d bootstrap) :
    ∃ p p', ofBody c m b = .ok p ∧ ofBody d m b' = .ok p' ∧
      Prepared.Alike b.canonical b'.canonical p p' := by
  rcases exists_ofBody c m honce h with
    ⟨p, hp, hmember, howner, hlocals, hcode, hnumbers, hguards⟩
  rcases exists_ofBody d m honce' (h.of_view hview) with
    ⟨p', hp', hmember', howner', hlocals', hcode', hnumbers', hguards'⟩
  refine ⟨p, p', hp, hp', ⟨hmember.trans hmember'.symm, ?_, ?_, ?_, hnumbers, hnumbers', ?_⟩⟩
  · rw [hlocals, hlocals']
    exact congrArg (fun v => UInt16.toNat v.maxLocals) hview.symm
  · rw [howner, howner']
    exact hsites
  · rw [hcode, hcode']
    exact congrArg (fun v => v.code) hview.symm
  · -- The handlers say the same in turn, and each guard says what its handler does.
    have hhandlers : b'.handlers.map (Handler.relabel b'.canonical) =
        b.handlers.map (Handler.relabel b.canonical) := congrArg (fun v => v.handlers) hview
    rw [hcode, hcode']
    generalize b.handlers = l, b'.handlers = l' at hguards hguards' hhandlers
    generalize p.guards = gs, p'.guards = gs' at hguards hguards'
    induction hguards generalizing l' gs' with
    | nil =>
        rw [List.map_nil, List.map_eq_nil_iff] at hhandlers
        rw [hhandlers] at hguards'
        cases hguards'
        exact .nil
    | @cons h g l gs hg _ ih =>
        cases hguards' with
        | nil => cases hhandlers
        | @cons h' g' l' gs' hg' hrest =>
            rw [List.map_cons, List.map_cons, List.cons.injEq] at hhandlers
            refine .cons ⟨?_, ?_, ?_, ?_⟩ (ih l' hhandlers.2 gs' hrest)
            · rw [hg.start, hg'.start]
              exact congrArg (fun h => h.start.id) hhandlers.1.symm
            · rw [hg.stop, hg'.stop]
              exact congrArg (fun h => h.stop.id) hhandlers.1.symm
            · rw [hg.target, hg'.target]
              exact congrArg (fun h => h.target.id) hhandlers.1.symm
            · rw [hg.catchType, hg'.catchType]
              exact congrArg (fun h => h.catchType) hhandlers.1.symm

end Ready

namespace Emu

section Follows

variable {excused : Prop} {good : Machine → Prop} {env env' : Env} {p : Prepared}

/-- Where a method goes on does not depend on how parts of the program are run. -/
theorem resume_congr (h : env.Alike env') (a : Activation) (position : Nat) (r : Outcome Flow) :
    p.resume a position env' r = p.resume a position env r := by
  have hsubtype : env'.program.classes.isSubtype = env.program.classes.isSubtype :=
    funext₂ fun sub sup => (h.classes.isSubtype sub sup).symm
  unfold Prepared.resume Prepared.handler?
  rw [hsubtype]
  split
  · exact lift_congr _ env' env _
  · rfl
  · rfl

/-- An instruction in its place comes out the same in two environments. -/
theorem follows_advance (hgood : Lasting true good) (henv : env.Follows excused good env')
    (hticked : ∀ s, good s → good s.ticked) (a : Activation) (position : Nat) (s : Machine)
    (hs : good s) :
    Outcome.Follows excused good (advance p a position env s) (advance p a position env' s) := by
  cases hget : p.code[position]? with
  | none =>
      rw [advance_end hget, advance_end hget]
      exact .inl ⟨rfl, hs⟩
  | some i =>
      cases hi : i.isPseudo with
      | true =>
          rw [advance_mark hget hi, advance_mark hget hi]
          exact .inl ⟨rfl, hs⟩
      | false =>
          have hstep : Composed true (step p.owner i a) :=
            composed_step p.owner (fun hfalse => by cases hfalse) a
          rw [advance_real hget hi, advance_real hget hi, ← tick_congr henv.limits]
          -- The count is exceeded in both or in none, since the limits are the same.
          rcases tick_cases env s with h | ⟨fault, h⟩
          · rw [h]
            dsimp only
            rcases hstep.follows hgood henv s.ticked (hticked s hs) with
              ⟨heq, hstate⟩ | ⟨hexcused, t, ht⟩
            · rw [heq, resume_congr henv.alike]
              refine .inl ⟨rfl, ?_⟩
              rw [state_resume]
              exact hstate
            · rw [ht]
              exact .inr ⟨hexcused, t, rfl⟩
          · rw [h]
            exact .inl ⟨rfl, hticked s hs⟩

/-- A method comes out the same in two environments. -/
theorem follows_execute (hgood : Lasting true good) (henv : env.Follows excused good env')
    (hticked : ∀ s, good s → good s.ticked) (steps : Nat) (a : Activation) (position : Nat)
    (s : Machine) (hs : good s) :
    Outcome.Follows excused good (execute p steps a position env s)
      (execute p steps a position env' s) := by
  induction steps generalizing a position s with
  | zero => exact .inl ⟨rfl, hs⟩
  | succ steps ih =>
      rw [execute_succ, execute_succ]
      rcases follows_advance (p := p) hgood henv hticked a position s hs with
        ⟨heq, hstate⟩ | ⟨hexcused, t, ht⟩
      · rw [heq]
        -- The first steps agree, so the rest starts from the same machine.
        revert hstate
        cases advance p a position env s with
        | error fault t => exact fun ht => .inl ⟨rfl, ht⟩
        | ok progress t =>
            cases progress with
            | finished x => exact fun ht => .inl ⟨rfl, ht⟩
            | running b next => exact fun ht => ih b next t ht
      · rw [ht]
        exact .inr ⟨hexcused, t, rfl⟩

/-- What lasts in the parts of the program and when an instruction is counted lasts in a method. -/
theorem execute_lasts (hgood : Lasting true good) (hticked : ∀ s, good s → good s.ticked)
    (hparts : ∀ depth task s, good s → good (Outcome.state (env.dispatch depth task s)))
    (steps : Nat) (a : Activation) (position : Nat) (s : Machine) (hs : good s) :
    good (Outcome.state (execute p steps a position env s)) := by
  have hsame : env.Follows False good env :=
    ⟨env.alike_refl, rfl, fun depth task t ht => .inl ⟨rfl, hparts depth task t ht⟩⟩
  exact (follows_execute hgood hsame hticked steps a position s hs).eq.2

end Follows

end Emu

/-- Methods that come to the same, where one is given steps enough for both. -/
def Prepared.Answers (extra : Nat) (p p' : Prepared) : Prop :=
  p' = p ∨ p.code.toList.length < extra ∧ p'.code.toList.length < extra ∧
    ∃ f f', Prepared.Alike f f' p p'

/-- Programs whose classes look the same to the machine and whose methods come to the same. -/
structure Program.Answers (extra : Nat) (p p' : Program) : Prop where
  classes : p.classes.Alike p'.classes
  methods : ∀ m, Together (Prepared.Answers extra) (p.prepare m) (p'.prepare m)

section Answers

variable {extra : Nat}

/-- Being alike goes both ways. -/
theorem Prepared.Alike.symm {f f' : Label → Label} {p p' : Prepared}
    (h : Prepared.Alike f f' p p') : Prepared.Alike f' f p' p where
  member := h.member.symm
  maxLocals := h.maxLocals.symm
  sites := fun bootstrap => (h.sites bootstrap).symm
  code := h.code.symm
  numbers := h.numbers'
  numbers' := h.numbers
  guards := h.guards.flip.imp fun _ _ hg =>
    ⟨hg.start.symm, hg.stop.symm, hg.target.symm, hg.catchType.symm⟩

-- So does answering alike.
theorem Prepared.Answers.symm {p p' : Prepared} (h : p.Answers extra p') : p'.Answers extra p := by
  rcases h with rfl | ⟨hlt, hlt', f, f', halike⟩
  · exact .inl rfl
  · exact .inr ⟨hlt', hlt, f', f, halike.symm⟩

/-- A program answers as itself. -/
theorem Program.answers_refl (p : Program) : p.Answers extra p where
  classes := Universe.alike_refl _
  methods := by
    intro m
    cases p.prepare m with
    | ok q => exact .ok (.inl rfl)
    | error e => exact .error

-- And two programs answer each other.
theorem Program.Answers.symm {p p' : Program} (h : p.Answers extra p') : p'.Answers extra p where
  classes := h.classes.symm
  methods := by
    intro m
    have hmethod := h.methods m
    generalize p.prepare m = x, p'.prepare m = x' at hmethod
    cases hmethod with
    | ok hq => exact .ok hq.symm
    | error => exact .error

end Answers

namespace Emu

/-- What a method comes to, another one comes to that is given steps enough. -/
theorem execute_of_answers {extra : Nat} {p p' : Prepared} (h : p.Answers extra p')
    (hextra : 0 < extra) {steps steps' : Nat} (hsteps : steps * extra ≤ steps')
    {arguments : List Value} {env : Env} {s : Machine} {r : Outcome (Option Value)}
    (hr : execute p steps (.start p.maxLocals arguments) 0 env s = r)
    (hends : ∀ t, r ≠ .error .outOfSteps t) :
    execute p' steps' (.start p'.maxLocals arguments) 0 env s = r := by
  have hrun := run?_of_execute hr hends
  rcases h with rfl | ⟨-, hlt, f, f', halike⟩
  · have hle := Nat.le_mul_of_pos_right steps hextra
    exact execute_of_run? (run?_mono hrun (hle.trans hsteps))
  · rw [← halike.maxLocals]
    have hrun' : run? p' env (steps * (p'.code.toList.length + 1)) _ 0 s = some r :=
      run?_alike halike rfl hrun
    have hle := Nat.mul_le_mul_left steps (Nat.succ_le_of_lt hlt)
    exact execute_of_run? (run?_mono hrun' (hle.trans hsteps))

end Emu

namespace Engine

/-- Runs a task as `run` does, with a number of steps for every method. -/
def runWithin (steps : Nat) (p : Program) (limits : Limits) :
    Nat → Nat → Task → Machine → Emu.Outcome (Option Value)
  | 0, _, _, s => .error .outOfSteps s
  | levels + 1, depth, task, s =>
    let inside (depth : Nat) : Env :=
      { program := p, limits, isNative := Natives.contains, depth
        dispatch := fun depth task s => runWithin steps p limits levels depth task s }
    match task with
    | .initClass name =>
      match Emu.useClass name (inside depth) s with
      | .ok _ s => .ok none s
      | .error e s => .error e s
    | .call target arguments =>
      if limits.depth ≤ depth then
        Emu.raise "java/lang/StackOverflowError" none (inside depth) s
      else
        match target with
        | .native m => nativeBody m arguments (inside (depth + 1)) s
        | .bytecode m =>
          match p.prepare m with
          | .error e => .error e s
          | .ok q => Emu.execute q steps (.start q.maxLocals arguments) 0 (inside (depth + 1)) s

/-- What the operations of a call in progress are given, with a number of steps for every
    method. -/
def insideWithin (steps : Nat) (p : Program) (limits : Limits) (levels depth : Nat) : Env where
  program := p
  limits := limits
  isNative := Natives.contains
  depth := depth
  dispatch := runWithin steps p limits levels

section Within

variable {steps steps' : Nat} {p p' : Program} {limits : Limits} {levels depth : Nat} {s : Machine}

theorem runWithin_initClass (name : String) :
    runWithin steps p limits (levels + 1) depth (.initClass name) s =
      match Emu.useClass name (insideWithin steps p limits levels depth) s with
      | .ok _ s => .ok none s
      | .error e s => .error e s :=
  rfl

/-- What initializing leaves behind, seen as the machine alone. -/
theorem state_runWithin_initClass (name : String) :
    Emu.Outcome.state (runWithin steps p limits (levels + 1) depth (.initClass name) s) =
      Emu.Outcome.state (Emu.useClass name (insideWithin steps p limits levels depth) s) := by
  rw [runWithin_initClass]
  cases Emu.useClass name (insideWithin steps p limits levels depth) s <;> rfl

theorem runWithin_native (m : Member) (values : List Value) :
    runWithin steps p limits (levels + 1) depth (.call (.native m) values) s =
      if limits.depth ≤ depth then
        Emu.raise "java/lang/StackOverflowError" none (insideWithin steps p limits levels depth) s
      else nativeBody m values (insideWithin steps p limits levels (depth + 1)) s :=
  rfl

theorem runWithin_bytecode (m : Member) (values : List Value) :
    runWithin steps p limits (levels + 1) depth (.call (.bytecode m) values) s =
      if limits.depth ≤ depth then
        Emu.raise "java/lang/StackOverflowError" none (insideWithin steps p limits levels depth) s
      else
        match p.prepare m with
        | .error e => .error e s
        | .ok q =>
          Emu.execute q steps (.start q.maxLocals values) 0
            (insideWithin steps p limits levels (depth + 1)) s :=
  rfl

/-- The engine runs tasks with its allowance. -/
theorem runWithin_allowance (p : Program) (limits : Limits) (levels : Nat) :
    runWithin allowance p limits levels = run p limits levels := by
  induction levels with
  | zero => rfl
  | succ levels ih =>
      -- What runs inside is the same by the hypothesis for fewer levels.
      have hinside : insideWithin allowance p limits levels = inside p limits levels := by
        unfold insideWithin inside
        rw [ih]
      funext depth task s
      cases task with
      | initClass name =>
          refine (runWithin_initClass ..).trans ?_
          rw [hinside]
          exact (run_initClass ..).symm
      | call target values =>
          cases target with
          | native m =>
              rw [runWithin_native, run_native, hinside]
              unfold nativeBody
              cases Natives.find? m <;> rfl
          | bytecode m =>
              refine (runWithin_bytecode ..).trans ?_
              rw [hinside]
              refine Eq.trans ?_ (run_call ..).symm
              split
              · rfl
              · cases p.prepare m <;> rfl

/-- What a program answers, another one answers whose methods are given steps enough. -/
theorem follows_runWithin {extra : Nat} (h : p.Answers extra p') (hextra : 0 < extra)
    (hsteps : steps * extra ≤ steps') (limits : Limits) (levels depth : Nat) (task : Task)
    (s : Machine) :
    Emu.Outcome.Follows True (fun _ => True) (runWithin steps p limits levels depth task s)
      (runWithin steps' p' limits levels depth task s) := by
  have hlasting : Emu.Lasting true fun _ : Machine => True :=
    ⟨fun _ _ => trivial, fun _ _ _ _ => trivial, fun _ _ _ _ => trivial⟩
  induction levels generalizing depth task s with
  | zero => exact .inl ⟨rfl, trivial⟩
  | succ levels ih =>
      have hinside (depth : Nat) : (insideWithin steps p limits levels depth).Follows True
          (fun _ => True) (insideWithin steps' p' limits levels depth) :=
        ⟨⟨h.classes, rfl, rfl⟩, rfl, fun depth task s _ => ih depth task s⟩
      have hfollows {α : Type} {x : Emu α} (hx : Emu.Composed true x) (depth : Nat) (s : Machine) :
          Emu.Outcome.Follows True (fun _ => True) (x (insideWithin steps p limits levels depth) s)
            (x (insideWithin steps' p' limits levels depth) s) :=
        hx.follows hlasting (hinside depth) s trivial
      cases task with
      | initClass name =>
          rw [runWithin_initClass, runWithin_initClass]
          rcases hfollows (x := Emu.useClass name) inferInstance depth s with ⟨heq, -⟩ | ⟨-, t, ht⟩
          · rw [heq]
            exact .inl ⟨rfl, trivial⟩
          · rw [ht]
            exact .inr ⟨trivial, t, rfl⟩
      | call target values =>
          cases target with
          | native m =>
              rw [runWithin_native, runWithin_native]
              split
              · exact hfollows inferInstance depth s
              · unfold nativeBody
                cases hnative : Natives.find? m with
                | none => exact .inl ⟨rfl, trivial⟩
                | some native => exact hfollows (Natives.composed_find? hnative values) _ s
          | bytecode m =>
              rw [runWithin_bytecode, runWithin_bytecode]
              split
              · exact hfollows inferInstance depth s
              · have hmethod := h.methods m
                generalize p.prepare m = x, p'.prepare m = x' at hmethod
                cases hmethod with
                | error => exact .inl ⟨rfl, trivial⟩
                | @ok q q' hq =>
                    dsimp only
                    -- First the same method in the other environment, then the other method.
                    rcases Emu.follows_execute (p := q) hlasting (hinside (depth + 1))
                      (fun _ _ => trivial) steps (.start q.maxLocals values) 0 s trivial with
                      ⟨heq, -⟩ | hout
                    · by_cases hout : ∃ t, Emu.execute q steps (.start q.maxLocals values) 0
                          (insideWithin steps p limits levels (depth + 1)) s = .error .outOfSteps t
                      · exact .inr ⟨trivial, hout⟩
                      · refine .inl ⟨?_, trivial⟩
                        exact Emu.execute_of_answers hq hextra hsteps heq fun t ht => hout ⟨t, ht⟩
                    · exact .inr hout

/-- What lasts in operations and when an instruction is counted lasts in every task. -/
theorem runWithin_lasts {good : Machine → Prop} (hgood : Emu.Lasting true good)
    (hticked : ∀ s, good s → good s.ticked) (levels depth : Nat) (task : Task) (s : Machine)
    (hs : good s) :
    good (Emu.Outcome.state (runWithin steps p limits levels depth task s)) := by
  induction levels generalizing depth task s with
  | zero => exact hs
  | succ levels ih =>
      -- Every part of a task is put together from operations.
      have hlasts {α : Type} {x : Emu α} (hx : Emu.Composed true x) (depth : Nat) :
          good (Emu.Outcome.state (x (insideWithin steps p limits levels depth) s)) :=
        hx.lasts hgood ih s hs
      cases task with
      | initClass name =>
          rw [state_runWithin_initClass]
          exact hlasts (x := Emu.useClass name) inferInstance depth
      | call target values =>
          cases target with
          | native m =>
              rw [runWithin_native]
              split
              · exact hlasts inferInstance depth
              · unfold nativeBody
                cases hnative : Natives.find? m with
                | none => exact hs
                | some native => exact hlasts (Natives.composed_find? hnative values) (depth + 1)
          | bytecode m =>
              rw [runWithin_bytecode]
              split
              · exact hlasts inferInstance depth
              · cases p.prepare m with
                | error e => exact hs
                | ok q => exact Emu.execute_lasts hgood hticked ih steps _ 0 s hs

end Within

/-- What an operation is given at the start, with a number of steps for every method. -/
def envWithin (steps : Nat) (p : Program) (limits : Limits) : Env :=
  insideWithin steps p limits allowance 0

/-- The allowance is the bound that the engine uses. -/
theorem envWithin_allowance (p : Program) (limits : Limits) :
    envWithin allowance p limits = env p limits := by
  unfold envWithin insideWithin env
  rw [runWithin_allowance]

end Engine

namespace Emu

/-- What the user of a machine asks it for. -/
inductive Operation where
  /-- A call of a method. -/
  | invoke (kind : InvokeKind) (m : Member) (arguments : List Value)
  /-- The value of a static field. -/
  | getStatic (m : Member)
  /-- The initialization of a class. -/
  | initClass (name : String)

/-- Does what the user asks for. -/
def Operation.run : Operation → Emu (Option Value)
  | .invoke kind m arguments => Emu.invoke kind m arguments
  | .getStatic m => some <$> Emu.getStatic m
  | .initClass name => do
    Emu.initClass name
    return none

/-- What operations come to one after the other, each with the state that it leaves. The state stays
    whatever becomes of the operation. -/
def outcomes (env : Env) : List Operation → Machine → List (Outcome (Option Value))
  | [], _ => []
  | operation :: rest, s =>
    operation.run env s :: outcomes env rest (Outcome.state (operation.run env s))

instance (operation : Operation) : Composed true operation.run := by
  cases operation with
  | invoke kind m arguments => exact inferInstanceAs (Composed true (Emu.invoke kind m arguments))
  | getStatic m => exact inferInstanceAs (Composed true (some <$> Emu.getStatic m))
  | initClass name =>
      exact inferInstanceAs (Composed true (Emu.initClass name >>= fun _ => pure none))

/-- Where no operation runs out of steps, operations come to the same in an environment that
    follows. -/
theorem outcomes_of_follows {env env' : Env} (henv : env.Follows True (fun _ => True) env')
    (operations : List Operation) (s : Machine)
    (hends : ∀ r ∈ outcomes env operations s, ∀ t, r ≠ .error .outOfSteps t) :
    outcomes env' operations s = outcomes env operations s := by
  have hlasting : Lasting true fun _ : Machine => True :=
    ⟨fun _ _ => trivial, fun _ _ _ _ => trivial, fun _ _ _ _ => trivial⟩
  induction operations generalizing s with
  | nil => rfl
  | cons operation rest ih =>
      rw [outcomes, List.forall_mem_cons] at hends
      have hcomposed : Composed true operation.run := inferInstance
      rcases hcomposed.follows hlasting henv s trivial with ⟨heq, -⟩ | ⟨-, t, ht⟩
      · rw [outcomes, outcomes, heq, ih _ hends.2]
      · exact absurd ht (hends.1 t)

end Emu

namespace Engine

/-- The operations come to the given ends in turn, with steps enough for every method. -/
def ComesTo (p : Program) (limits : Limits) (operations : List Emu.Operation) (s : Machine)
    (ends : List (Emu.Outcome (Option Value))) : Prop :=
  ∃ steps, Emu.outcomes (envWithin steps p limits) operations s = ends ∧
    ∀ r ∈ ends, ∀ t, r ≠ .error .outOfSteps t

section ComesTo

variable {extra : Nat} {p p' : Program} {limits : Limits} {operations : List Emu.Operation}
variable {s : Machine} {ends ends' : List (Emu.Outcome (Option Value))}

/-- Programs that answer alike end alike, given steps enough. -/
theorem outcomes_of_answers {steps steps' : Nat} (h : p.Answers extra p') (hextra : 0 < extra)
    (hsteps : steps * extra ≤ steps')
    (hcomes : Emu.outcomes (envWithin steps p limits) operations s = ends)
    (hends : ∀ r ∈ ends, ∀ t, r ≠ .error .outOfSteps t) :
    Emu.outcomes (envWithin steps' p' limits) operations s = ends := by
  have hfollows : (envWithin steps p limits).Follows True (fun _ => True)
      (envWithin steps' p' limits) :=
    ⟨⟨h.classes, rfl, rfl⟩, rfl, fun depth task s _ =>
      follows_runWithin h hextra hsteps limits allowance depth task s⟩
  subst hcomes
  exact Emu.outcomes_of_follows hfollows operations s hends

/-- Programs whose methods come to the same bring operations to the same ends. -/
theorem comesTo_iff (h : p.Answers extra p') (hextra : 0 < extra) :
    ComesTo p limits operations s ends ↔ ComesTo p' limits operations s ends := by
  constructor
  · rintro ⟨steps, hcomes, hends⟩
    exact ⟨_, outcomes_of_answers h hextra (Nat.le_refl _) hcomes hends, hends⟩
  · rintro ⟨steps, hcomes, hends⟩
    exact ⟨_, outcomes_of_answers h.symm hextra (Nat.le_refl _) hcomes hends, hends⟩

/-- The ends do not depend on the number of steps. -/
theorem ComesTo.unique (h : ComesTo p limits operations s ends)
    (h' : ComesTo p limits operations s ends') : ends = ends' := by
  rcases h with ⟨steps, hcomes, hends⟩
  rcases h' with ⟨steps', hcomes', hends'⟩
  have hrefl : p.Answers 1 p := p.answers_refl
  have hle : steps * 1 ≤ steps + steps' := by omega
  have hle' : steps' * 1 ≤ steps + steps' := by omega
  exact (outcomes_of_answers hrefl Nat.one_pos hle hcomes hends).symm.trans
    (outcomes_of_answers hrefl Nat.one_pos hle' hcomes' hends')

/-- Where the allowance of the engine is enough, operations come to what the engine makes of
    them. -/
theorem comesTo_outcomes
    (hends : ∀ r ∈ Emu.outcomes (env p limits) operations s, ∀ t, r ≠ .error .outOfSteps t) :
    ComesTo p limits operations s (Emu.outcomes (env p limits) operations s) :=
  ⟨allowance, by rw [envWithin_allowance], hends⟩

end ComesTo

end Engine

end JvmFold
