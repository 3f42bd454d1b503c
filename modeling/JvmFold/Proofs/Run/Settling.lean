import JvmFold.Proofs.Run.Accounting

/-!
# Runs Come to Rest

A run on what an earlier run has left may still find something to fold. An
evaluation that fails on the classes as they were read can succeed once calls
in them are folded or an initializer is pruned away, as both make it shorter.
So one run is not always enough.

There is an end to it, though, where values are written back by instructions
that load them. Then every class that a run delivers holds fewer calls, casts
and reads than before. So however many runs follow one another, they deliver no
more classes than there were calls, casts and reads to begin with, and sooner
or later one of them delivers nothing.

With ways to make objects again a value can be written back by other calls, and
counting them says nothing. What remains true is that a run is idle if its last
pass finds nothing to replace, and only then.

## Main definitions

* `Config.leaves`: The classes as a run leaves them.
* `Reruns`: Runs that follow one another.
* `Late.first`, `Late.second`, `Late.third`: A class as it is read, and as runs leave it.

## Theorems

* `emitted_eq_found`: What a run delivers is what its last pass found something in.
* `emitted_add_foldables_le`: Every class that is delivered holds less than before.
* `reruns_come_to_rest`: When a run is idle, and how much runs in turn can deliver.
* `Late.reruns`: Two runs that deliver the same class, and a third that does not.
-/

namespace JvmFold

namespace Folding

/-- A class is pruned as it is rewritten. -/
theorem prune_ensures (pass : Nat) (f : FoldedClass) :
    Ensures (fun _ => True) (prune pass f) fun c => c = f.rewritten pass := by
  intro s c s' hs h
  rcases prune_eq pass f s with ⟨s'', hprune⟩
  rw [hprune] at h
  cases h
  exact ⟨hs, rfl⟩

/-- Under its own name. -/
theorem name_rewritten (f : FoldedClass) (pass : Nat) :
    (f.rewritten pass).name = f.folded.name := by
  unfold FoldedClass.rewritten ClassFile.pruneInitializer
  split
  · split <;> rfl
  · rfl

/-- Without markers a class is delivered if and only if one of its bodies changed. -/
theorem emitOne_ensures {pass : Nat} {f : FoldedClass} (hf : f.folded.markerCount = 0) :
    Ensures (fun _ => True) (emitOne pass f) fun o =>
      o.map Prod.fst = if f.modified then some f.folded.name else none := by
  refine (prune_ensures pass f).bind fun c hc => ?_
  have hcount : c.markerCount = 0 := by
    have hle := markerCount_rewritten_le f pass
    rw [← hc] at hle
    omega
  have hname : c.name = f.folded.name := by rw [hc, name_rewritten]
  have hstrip : Ensures (fun _ => True) (strip pass c) fun r => r = (c, false) := by
    unfold strip
    rw [if_pos hcount]
    exact ensures_pure rfl
  refine hstrip.bind fun r hr => ?_
  dsimp only
  rw [hr, Bool.or_false]
  -- Without markers only what was folded is given out.
  cases f.modified with
  | true =>
      rw [if_pos rfl]
      cases c.toBytes with
      | ok bytes => exact ensures_pure (congrArg some hname)
      | error e => exact ensures_throw e
  | false => exact ensures_pure rfl

end Folding

/-- The classes as a run leaves them, in the order of their names. -/
def Config.leaves (c : Config) (s : RunState) : List ClassFile :=
  match Folding.passes (.ofConfig c) { log := s.log } with
  | .ok (classes, pass) _ => classes.map fun f => f.rewritten pass
  | .error _ _ => []

/-- No class that is folded has markers. -/
def Config.Unmarked (c : Config) : Prop :=
  ∀ e ∈ c.classes.primaries, ∀ k, e.full = .ok k → k.markerCount = 0

/-- The classes that are delivered are those of which a body changed. -/
theorem map_fst_outputs {classes : List FoldedClass} {os : List (Option (String × Delivery))}
    (h : List.Forall₂ (fun f o => o.map Prod.fst = if f.modified then some f.folded.name else none)
      classes os) :
    (os.filterMap id).map Prod.fst =
      (classes.filter FoldedClass.modified).map fun f => f.folded.name := by
  induction h with
  | nil => rfl
  | @cons f o classes os hf _ ih =>
      -- A class that was not modified has no output.
      cases hmodified : f.modified with
      | true =>
          rw [if_pos hmodified] at hf
          rcases Option.map_eq_some_iff.1 hf with ⟨x, rfl, hx⟩
          rw [List.filter_cons_of_pos hmodified, List.map_cons, ← ih, ← hx]
          rfl
      | false =>
          rw [if_neg (by rw [hmodified]; decide), Option.map_eq_none_iff] at hf
          rw [List.filter_cons_of_neg (by rw [hmodified]; decide), ← ih, hf]
          rfl

/-- Folding puts no marker on a class. -/
theorem unmarked_classes {entries : List ClassEntry} {classes : List FoldedClass}
    (h : List.Forall₂ (fun e f => ∃ k, e.full = .ok k ∧ f.folded.markerCount = k.markerCount)
      entries classes)
    (hm : ∀ e ∈ entries, ∀ k, e.full = .ok k → k.markerCount = 0) :
    ∀ f ∈ classes, f.folded.markerCount = 0 := by
  induction h with
  | nil => exact nofun
  | @cons e f entries classes hf _ ih =>
      rcases hf with ⟨k, hk, hmarks⟩
      refine List.forall_mem_cons.2 ⟨?_, ih fun e' he' => hm e' (List.mem_cons_of_mem e he')⟩
      rw [hmarks]
      exact hm e List.mem_cons_self k hk

/-- Every class that changes holds less than when it was read, and the others hold no more. -/
theorem foldables_classes {entries : List ClassEntry} {classes : List FoldedClass} {pass : Nat}
    (h : List.Forall₂ FoldedClass.Refolds entries classes) :
    (classes.filter FoldedClass.modified).length
        + ((classes.map fun f => f.rewritten pass).map ClassFile.foldables).sum
      ≤ (entries.map fun e => (e.full.toOption.map ClassFile.foldables).getD 0).sum := by
  induction h with
  | nil => exact Nat.le_refl _
  | @cons e f entries classes hf _ ih =>
      rcases hf with ⟨k, hk, -, hle⟩
      have hrewritten := foldables_rewritten_le f pass
      have hread : (e.full.toOption.map ClassFile.foldables).getD 0 = k.foldables := by
        rw [hk]; rfl
      rw [List.filter_cons]
      simp only [List.map_cons, List.sum_cons, hread]
      -- A class that was modified has lost something that can be folded.
      cases hmodified : f.modified with
      | true =>
          rw [hmodified, Bool.toNat_true] at hle
          rw [if_pos rfl, List.length_cons]
          omega
      | false =>
          rw [if_neg Bool.false_ne_true]
          omega

/-- The classes that a run delivers are those that changed in its last pass. -/
theorem emitted_eq {c : Config} {s s' : RunState} {report : RunReport} (h : c.run s = .ok report s')
    {classes : List FoldedClass} {t : FoldState}
    (hpasses : Folding.passes (.ofConfig c) { log := s.log } = .ok (classes, report.passes) t)
    (hm : ∀ f ∈ classes, f.folded.markerCount = 0) :
    report.emitted = (classes.filter FoldedClass.modified).map fun f => f.folded.name := by
  rcases Config.emit_of_run h with ⟨others, s₁, os, s₂, hothers, hos, hemitted⟩
  rw [hpasses] at hothers
  cases hothers
  have hall := Folding.ensures_mapM (fun f hf => Folding.emitOne_ensures (hm f hf)) t os s₂ trivial
    hos
  rw [hemitted, map_fst_outputs hall.2]

/-- Every class that a run delivers holds less than before. -/
theorem emitted_add_foldables_le {c : Config} {s s' : RunState} {report : RunReport}
    (hc : c.LoadsOnly) (hm : c.Unmarked) (h : c.run s = .ok report s') :
    report.emitted.length + ((c.leaves s).map ClassFile.foldables).sum ≤ c.foldables := by
  rcases Config.emit_of_run h with ⟨classes, t, -, -, hpasses, -, -⟩
  have hclasses := (Folding.passesFrom_ensures (j := .ofConfig c) hc _ _ _ _ _
    (fun _ hf => absurd hf Std.TreeSet.not_mem_emptyc) hpasses).2
  have hleaves : c.leaves s = classes.map fun f => f.rewritten report.passes := by
    rw [Config.leaves, hpasses]
  have hmarks : List.Forall₂ (fun e f => ∃ k, e.full = .ok k ∧
      f.folded.markerCount = k.markerCount) c.classes.primaries classes :=
    hclasses.imp fun _ _ ⟨k, hk, hmarks, _⟩ => ⟨k, hk, hmarks⟩
  rw [hleaves, emitted_eq h hpasses (unmarked_classes hmarks hm), List.length_map]
  exact foldables_classes hclasses

/-- The classes that a run delivers are those in which its last pass found something to replace. -/
theorem emitted_eq_found {c : Config} {s s' : RunState} {report : RunReport} (hm : c.Unmarked)
    (h : c.run s = .ok report s') :
    ∃ ws v, c.LastPass s.log report.passes ws v ∧
      List.Forall₂ (fun e w => w.Reads e) c.classes.primaries ws ∧
      report.emitted = (ws.filter fun w => !w.places.isEmpty).map fun w => w.read.name := by
  rcases Config.run_decides h with ⟨ws, v, hlast, -, -, -⟩
  rcases hlast.runs with ⟨u, grown, hpass⟩
  have hreads := Folding.weavePass_reads hpass
  refine ⟨ws, v, hlast, hreads, ?_⟩
  rcases hlast.kept with ⟨t, -, -, hpasses⟩
  have hmarks : List.Forall₂ (fun e f => ∃ k, e.full = .ok k ∧
      f.folded.markerCount = k.markerCount) c.classes.primaries (ws.map ClassFold.result) :=
    List.forall₂_map_right_iff.2 <| hreads.imp fun e w hread =>
      ⟨w.read, hread.2.1, hread.markerCount_result⟩
  rw [emitted_eq h hpasses (unmarked_classes hmarks hm), List.filter_map, List.map_map]
  -- A class is modified exactly if something was replaced in it.
  have hmodified : FoldedClass.modified ∘ ClassFold.result = fun w => !w.places.isEmpty :=
    funext ClassFold.modified_result
  rw [hmodified]
  rfl

/-- Runs that follow one another, with their reports. Each takes the classes as the one before it
    left them, or any others that hold no more. -/
inductive Reruns : Config → List RunReport → Prop where
  | rest (c : Config) : Reruns c []
  | again {c d : Config} {s s' : RunState} {report : RunReport} {reports : List RunReport}
      (hc : c.LoadsOnly) (hm : c.Unmarked) (hrun : c.run s = .ok report s')
      (hnext : d.foldables ≤ ((c.leaves s).map ClassFile.foldables).sum)
      (hrest : Reruns d reports) : Reruns c (report :: reports)

/-- All runs together give out no more classes than there is to fold. -/
theorem sum_emitted_le {c : Config} {reports : List RunReport} (h : Reruns c reports) :
    (reports.map fun r => r.emitted.length).sum ≤ c.foldables := by
  induction h with
  | rest c => exact Nat.zero_le _
  | again hc hm hrun hnext _ ih =>
      have hle := emitted_add_foldables_le hc hm hrun
      simp only [List.map_cons, List.sum_cons]
      omega

/-- A run on classes without markers delivers those in which its last pass found something to
    replace, and no others. So whatever the configuration, a run on what an earlier one has left is
    idle if and only if its last pass finds nothing any more. Where values are written back by
    instructions that load them, runs that follow one another deliver no more classes than there are
    calls, casts and reads in the classes of the first, so not all of that many runs and one more
    deliver something. -/
theorem reruns_come_to_rest (c : Config) :
    (∀ {s s' : RunState} {report : RunReport}, c.Unmarked → c.run s = .ok report s' →
      ∃ ws v, c.LastPass s.log report.passes ws v ∧
        List.Forall₂ (fun e w => w.Reads e) c.classes.primaries ws ∧
        report.emitted = (ws.filter fun w => !w.places.isEmpty).map (fun w => w.read.name) ∧
        (report.emitted = [] ↔ ∀ w ∈ ws, w.places = [])) ∧
    ∀ {reports : List RunReport}, Reruns c reports →
      (reports.map fun r => r.emitted.length).sum ≤ c.foldables ∧
        (c.foldables < reports.length → ∃ r ∈ reports, r.emitted = []) := by
  refine ⟨fun hm hrun => ?_, fun {reports} h => ?_⟩
  · rcases emitted_eq_found hm hrun with ⟨ws, v, hlast, hreads, hemitted⟩
    refine ⟨ws, v, hlast, hreads, hemitted, ?_⟩
    rw [hemitted, List.map_eq_nil_iff, List.filter_eq_nil_iff]
    simp
  · have hsum := sum_emitted_le h
    refine ⟨hsum, fun hlt => ?_⟩
    by_contra hnone
    -- If no run were idle, each would give out a class, and there are more runs than that.
    have hone : ∀ n ∈ reports.map fun r => r.emitted.length, 1 ≤ n := by
      intro n hn
      rcases List.mem_map.1 hn with ⟨r, hr, rfl⟩
      exact List.length_pos_iff.2 fun he => hnone ⟨r, hr, he⟩
    have hlength := List.length_le_sum_of_one_le _ hone
    rw [List.length_map] at hlength
    omega

namespace Late

/-- The field of the example. -/
def value : Member :=
  ⟨"demo/Late", "VALUE", "I"⟩

/-- With its value or still without one. -/
def field (start : Option Constant) : Field where
  access := ⟨25⟩
  name := "VALUE"
  descriptor := "I"
  constant := start

/-- A body that needs one slot. -/
def body (code : List Instruction) : Body where
  maxStack := 1
  maxLocals := 0
  instructions := code

/-- The initializer, which assigns the field. -/
def initialBody : Body :=
  body [.simple .iconst5, .field .putstatic value, .simple .voidReturn]

/-- As a method. -/
def initializer : Method where
  access := ⟨8⟩
  name := "<clinit>"
  descriptor := "()V"
  body := some initialBody

/-- The method that reads the field. -/
def use (code : List Instruction) : Method where
  access := ⟨9⟩
  name := "use"
  descriptor := "()I"
  body := some (body code)

/-- The class. -/
def withMembers (start : Option Constant) (methods : List Method) : ClassFile where
  name := "demo/Late"
  superName := none
  fields := [field start]
  methods := methods

/-- What the method does at first. -/
def castAndRead : List Instruction :=
  [.simple .aconstNull, .typed .checkcast "java/lang/String", .simple .pop,
    .field .getstatic value, .simple .ireturn]

/-- What is left when the cast is folded. -/
def justRead : List Instruction :=
  [.simple .aconstNull, .simple .pop, .field .getstatic value, .simple .ireturn]

/-- And when the read is folded as well. -/
def loaded : List Instruction :=
  [.simple .aconstNull, .simple .pop, .simple .iconst5, .simple .ireturn]

/-- The class as it is read. Its only read of a field fails in the first run: no call is allowed,
    and so the initializer cannot be run. But there is a cast to fold in the same body. As the class
    changes, its initializer is pruned, and nothing is left of it. Then the second run need not call
    anything to read the field. -/
def first : ClassFile :=
  withMembers none [initializer, use castAndRead]

/-- The class without the cast and the initializer. -/
def second : ClassFile :=
  withMembers (some (.int 5)) [use justRead]

/-- The class without the read. -/
def third : ClassFile :=
  withMembers (some (.int 5)) [use loaded]

/-- The field is constant, and no call is allowed. -/
def config (c : ClassFile) : Config :=
  { Config.plain (.ofClasses [c]) with fields := {value}, limits := { depth := 0 } }

def env (c : ClassFile) : Env :=
  Engine.env (.ofUniverse (config c).classes) (config c).limits

/-- The class is found by name. -/
theorem class?_config {c : ClassFile} (hc : c.name = "demo/Late") :
    (config c).classes.class? "demo/Late" = some c :=
  Universe.class?_ofClasses hc

/-- It declares the field. -/
theorem fieldOwner?_value {c : ClassFile} (hc : c.name = "demo/Late")
    (hf : (c.field? value.signature).isSome = true) :
    (config c).classes.fieldOwner? value = some "demo/Late" :=
  Universe.fieldOwner?_of_field? (f := value) (class?_config hc) hf

theorem declaredField_value {c : ClassFile} (hc : c.name = "demo/Late")
    (hf : (c.field? value.signature).isSome = true) :
    (config c).classes.declaredField value = value :=
  Universe.declaredField_of_field? (f := value) (class?_config hc) hf

-- Which is final.
theorem isConstantField_value {c : ClassFile} (hc : c.name = "demo/Late")
    (hf : (c.field? value.signature).isSome = true) :
    (config c).isConstantField ((config c).classes.declaredField value) = true := by
  rw [declaredField_value hc hf]
  simp [config, Config.isConstantField]

theorem parse_descriptor : FieldType.parse value.descriptor = .ok .int := by
  cbv

/-- The bodies of the example as subjects. -/
def subject (c : ClassFile) (m : Method) (b : Body) (pass : Nat) : Subject :=
  .ofBody (config c) pass c m b

def useSubject (c : ClassFile) (code : List Instruction) (pass : Nat) : Subject :=
  subject c (use code) (body code) pass

section Initializer

def initializerSubject (pass : Nat) : Subject :=
  subject first initializer initialBody pass

/-- The note that the initializer resolves the field. -/
def resolvedEvent (pass : Nat) (heap : Heap) : Event :=
  { kind := .fieldResolved, method := some ⟨"demo/Late", "<clinit>", "()V"⟩, location := some 1,
    member := some value, message := value.display ++ " = " ++ heap.render (.int 5),
    pass := some pass }

/-- The number that is assigned. -/
def five : Fold :=
  { origin := .literal, start := 0, stop := 0, value := .int 5, type := .int }

/-- The field is resolved in the first pass. -/
theorem resolve_new (pass : Nat) (t : Tracker) (env : Env) (m : Machine)
    (hr : t.progress.resolved = ∅) :
    Analysis.Gives (Analysis.resolve 1 value (.int 5)) (initializerSubject pass) t env m ⟨⟩
      { t with runLog := t.runLog.push (resolvedEvent pass m.heap),
               progress.resolved := (∅ : Std.TreeSet Member).insert value } := by
  rcases t with ⟨⟨resolved, evaluated⟩, runLog, passLog, stack, replacements⟩
  simp only at hr
  subst hr
  rfl

-- And known in the second one.
theorem resolve_known (pass : Nat) (t : Tracker) (env : Env) (m : Machine)
    (hr : t.progress.resolved.contains value = true) :
    Analysis.Gives (Analysis.resolve 1 value (.int 5)) (initializerSubject pass) t env m ⟨⟩ t := by
  refine Analysis.gives_bind (a := initializerSubject pass) rfl ?_
  refine Analysis.gives_bind (a := m.heap) rfl (Analysis.gives_bind (a := t) rfl ?_)
  rw [hr]
  simp only [Bool.not_true, Bool.and_false]
  rfl

-- The assignment leaves what making the field known does.
theorem replacements_of_resolve {pass : Nat} {t t' : Tracker} {env : Env} {m : Machine}
    (ht : t'.stack = []) (ht' : t'.replacements = #[])
    (hr : Analysis.Gives (Analysis.resolve 1 value (.int 5)) (initializerSubject pass)
      { t with stack := [], replacements := #[] } env m ⟨⟩ t') :
    Analysis.replacements (initializerSubject pass) t env m = (([], t'), m) := by
  have hput : Analysis.Gives (Analysis.advance 1 (.field .putstatic value))
      (initializerSubject pass) { t with stack := [.known five], replacements := #[] } env m ⟨⟩
      t' := by
    refine Analysis.gives_bind (a := ⟨⟩) (u := t') ?_ rfl
    refine Analysis.gives_bind (a := Operand.known five)
      (u := { t with stack := [], replacements := #[] }) rfl ?_
    refine Analysis.gives_bind (a := initializerSubject pass) rfl ?_
    refine Analysis.gives_bind (a := ⟨⟩) (u := t') ?_ rfl
    rw [show (initializerSubject pass).config.classes.declaredField value = value from
      declaredField_value rfl rfl]
    exact hr
  have hbehind := Analysis.before_of_advance (initializerSubject pass) t env m (k := 1) rfl rfl hput
  -- Behind the assignment the stack is empty, and returning gives nothing up.
  have hreturn : Analysis.Gives (Analysis.advance 2 (.simple .voidReturn))
      (initializerSubject pass) t' env m ⟨⟩ t' := by
    rcases t' with ⟨progress, runLog, passLog, stack, replacements⟩
    simp only at ht ht'
    subst ht ht'
    rfl
  have hall := Analysis.replacements_of_before (initializerSubject pass) t env m
    (Analysis.before_of_advance _ _ _ _ (k := 2) rfl hbehind hreturn) ht
  rw [hall, ht']

-- The field becomes known from the assignment in the first pass.
theorem replacements_initializer (pass : Nat) (t : Tracker) (env : Env) (m : Machine)
    (hr : t.progress.resolved = ∅) :
    Analysis.replacements (initializerSubject pass) t env m
      = (([], { t with runLog := t.runLog.push (resolvedEvent pass m.heap), stack := [],
                       replacements := #[],
                       progress.resolved := (∅ : Std.TreeSet Member).insert value }), m) :=
  replacements_of_resolve rfl rfl
    (resolve_new pass { t with stack := [], replacements := #[] } env m hr)

-- In the second pass it is known already.
theorem replacements_initializer_known (pass : Nat) (t : Tracker) (env : Env) (m : Machine)
    (hr : t.progress.resolved.contains value = true) :
    Analysis.replacements (initializerSubject pass) t env m
      = (([], { t with stack := [], replacements := #[] }), m) :=
  replacements_of_resolve rfl rfl
    (resolve_known pass { t with stack := [], replacements := #[] } env m hr)

end Initializer

/-- The class is not initialized, and never will be. -/
def Unusable (m : Machine) : Prop :=
  m.initialized["demo/Late"]? = none ∨ m.initialized["demo/Late"]? = some .failed

/-- The outermost surroundings of calls, with some more levels to go. -/
def outside (n : Nat) : Env :=
  Engine.inside (.ofUniverse (config first).classes) (config first).limits (n + 1) 0

/-- The initializer cannot be called without any depth. -/
theorem call_fails (n : Nat) (m : Machine) :
    ∃ r heap, Emu.call (.bytecode (ClassFile.initializer.on "demo/Late")) [] (outside n) m
      = .error (.thrown r) { m with heap } := by
  have hraises : ∃ r heap,
      (Emu.raise "java/lang/StackOverflowError" none : Emu (Option Value)) (Engine.inside
        (.ofUniverse (config first).classes) (config first).limits n 0) m
          = .error (.thrown r) { m with heap } := Emu.raise_eq _ _ _ _
  rcases hraises with ⟨r, heap, h⟩
  refine ⟨r, heap, ?_⟩
  change Engine.run (.ofUniverse (config first).classes) (config first).limits (n + 1) 0
    (.call (.bytecode (ClassFile.initializer.on "demo/Late")) []) m = _
  rw [Engine.run_call, if_pos (show (config first).limits.depth ≤ 0 from Nat.le_refl 0)]
  exact h

-- So the class cannot be started.
theorem startClass_fails (n : Nat) (m : Machine) :
    ∃ fault m', Emu.startClass first "demo/Late" (outside n) m = .error fault m' ∧
      m'.initialized["demo/Late"]? = some .failed := by
  have hset : Emu.setInitState "demo/Late" .inProgress (outside n) m
    = .ok () { m with initialized := m.initialized.insert "demo/Late" .inProgress } := rfl
  -- The statics can be started, and only the initializer fails.
  have hbegins : ∃ m₁, Emu.startStatics first (outside n)
      { m with initialized := m.initialized.insert "demo/Late" .inProgress } = .ok () m₁ := ⟨_, rfl⟩
  rcases hbegins with ⟨m₁, hstatics⟩
  rcases call_fails n m₁ with ⟨r, heap, hcall⟩
  rcases Emu.runInitializer_of_thrown (c := first) rfl hcall with ⟨fault, m', hfault, hfailed⟩
  refine ⟨fault, m', ?_, hfailed⟩
  unfold Emu.startClass
  rw [show first.superName = none from rfl, Emu.bind_apply, hset]
  dsimp only
  rw [Emu.bind_apply, hstatics]
  dsimp only
  rw [Emu.bind_apply, hfault]

-- Nor used afterwards.
theorem useClass_fails (n : Nat) {m : Machine} (hm : Unusable m) :
    ∃ fault m', Emu.useClass "demo/Late" (outside n) m = .error fault m' ∧
      m'.initialized["demo/Late"]? = some .failed := by
  rcases hm with hnew | hfailed
  · rw [Emu.useClass_of_new hnew (class?_config rfl)]
    exact startClass_fails n m
  · have hraises : ∃ r heap, (Emu.raise "java/lang/NoClassDefFoundError"
        (some ("Could not initialize class " ++ dotted "demo/Late")) : Emu Unit) (outside n) m
          = .error (.thrown r) { m with heap } := Emu.raise_eq _ _ _ _
    rcases hraises with ⟨r, heap, hraise⟩
    rw [Emu.useClass_of_failed hfailed]
    exact ⟨.thrown r, { m with heap }, hraise, hfailed⟩

-- And the field cannot be read.
theorem getStatic_fails {m : Machine} (hm : Unusable m) :
    ∃ fault m', Emu.getStatic value (env first) m = .error fault m' ∧ Unusable m' := by
  rcases useClass_fails (Engine.allowance - 1 - 1) hm with ⟨fault, m', huse, hfailed⟩
  refine ⟨fault, m', ?_, .inr hfailed⟩
  have hinit : Emu.initClass "demo/Late" (env first) m = .error fault m' := by
    rw [outside] at huse
    rw [env, Engine.env_eq, Emu.initClass_eq,
      show Engine.allowance - 1 = Engine.allowance - 1 - 1 + 1 from rfl, huse]
  exact Emu.getStatic_of_initClass_error (fieldOwner?_value rfl rfl) hinit

/-- The cast is folded nevertheless. -/
def castFold : Fold :=
  { origin := .cast, start := 0, stop := 1, value := .null, type := .object "java/lang/String",
    children := [{ origin := .literal, start := 0, stop := 0, value := .null,
                   type := .object objectClass }] }

/-- By null alone. -/
def castSpan : Replacement :=
  ⟨0, 1, [.simple .aconstNull], 1⟩

/-- What is beneath the cast. -/
def null : Fold :=
  { origin := .literal, start := 0, stop := 0, value := .null, type := .object objectClass }

theorem checkcast_gives (pass : Nat) (t : Tracker) (env : Env) (m : Machine) :
    Analysis.Gives (Analysis.advance 1 (.typed .checkcast "java/lang/String"))
      (useSubject first castAndRead pass) { t with stack := [.known null] } env m ⟨⟩
      { t with stack := [.known castFold] } := by
  refine Analysis.gives_bind (a := ⟨⟩) (u := { t with stack := [.known castFold] }) ?_ rfl
  refine Analysis.gives_bind (a := useSubject first castAndRead pass) rfl ?_
  refine Analysis.gives_bind (a := Operand.known null) (u := { t with stack := [] }) rfl ?_
  refine Analysis.gives_bind (a := m.heap) rfl ?_
  have hnext : (useSubject first castAndRead pass).nextReal 1 = 1 := by
    rw [Subject.nextReal]
    rfl
  rw [if_pos (by simp [Analysis.passesCast, Subject.isContiguous, hnext, null])]
  rfl

-- The cast is given up by the `pop`, and the read is skipped.
theorem replacements_castAndRead (pass : Nat) (t : Tracker) {m : Machine} (hm : Unusable m) :
    ∃ passLog m', Analysis.replacements (useSubject first castAndRead pass) t (env first) m
        = (([castSpan], { t with passLog, stack := [], replacements := #[castSpan] }), m') ∧
      Unusable m' := by
  have hcast := Analysis.before_of_advance (useSubject first castAndRead pass) t (env first) m
    (k := 1) rfl rfl (checkcast_gives pass { t with replacements := #[] } (env first) m)
  -- The cast is decided when its value is dropped; the read behind it fails.
  have hpops : ∃ passLog, Analysis.Gives (Analysis.advance 2 (.simple .pop))
      (useSubject first castAndRead pass)
      { t with stack := [.known castFold], replacements := #[] } (env first) m ⟨⟩
      { t with stack := [], replacements := #[castSpan], passLog } := ⟨_, rfl⟩
  rcases hpops with ⟨log₁, hpop⟩
  have hpopped := Analysis.before_of_advance _ _ _ _ (k := 2) rfl hcast hpop
  rcases getStatic_fails (m := { m with executed := 0 }) hm with ⟨fault, m', hread, hm'⟩
  rcases Analysis.getStatic_of_error (s := useSubject first castAndRead pass) (p := 3)
    parse_descriptor (isConstantField_value (c := first) rfl rfl) rfl rfl hread
    { t with stack := [], replacements := #[castSpan], passLog := log₁ } with ⟨log₂, hget⟩
  have hskipped := Analysis.before_of_advance _ _ _ _ (k := 3) rfl hpopped
    (Analysis.advance_of_getStatic hget)
  refine ⟨log₂, m', ?_, hm'⟩
  exact Analysis.replacements_of_before _ _ _ _
    (Analysis.before_of_advance _ _ _ _ (k := 4) rfl hskipped rfl) rfl

/-- Once the initializer is gone the field can be read. -/
theorem getStatic_second {m : Machine} (hm : m.initialized["demo/Late"]? = none) :
    ∃ m', Emu.getStatic value (env second) m = .ok (.int 5) m' := by
  have huses : ∃ m', Emu.useClass "demo/Late"
      (Engine.inside (.ofUniverse (config second).classes) (config second).limits
        (Engine.allowance - 1) 0) m = .ok () m' ∧ m'.statics[value]? = some (.int 5) := by
    rw [Emu.useClass_of_new hm (class?_config rfl)]
    exact ⟨_, rfl, Std.HashMap.getElem?_insert_self⟩
  rcases huses with ⟨m', huse, hvalue⟩
  have hinit : Emu.initClass "demo/Late" (env second) m = .ok () m' := by
    rw [env, Engine.env_eq, Emu.initClass_eq, huse]
  exact ⟨m', Emu.getStatic_of_initClass (fieldOwner?_value rfl rfl) hinit hvalue⟩

/-- So the second run folds the read. -/
def readFold : Fold :=
  { origin := .staticField, start := 2, stop := 2, value := .int 5, type := .int,
    member := some value }

/-- By the number. -/
def readSpan : Replacement :=
  ⟨2, 2, [.simple .iconst5], 1⟩

-- Without an initializer the read succeeds, and the `ireturn` gives its value up.
theorem replacements_justRead (pass : Nat) (t : Tracker) {m : Machine}
    (hm : m.initialized["demo/Late"]? = none) :
    ∃ passLog m', Analysis.replacements (useSubject second justRead pass) t (env second) m
        = (([readSpan], { t with passLog, stack := [], replacements := #[readSpan] }), m') := by
  rcases getStatic_second (m := { m with executed := 0 }) hm with ⟨m', hvalue⟩
  have hget := Analysis.getStatic_of_ok (s := useSubject second justRead pass) (p := 2)
    (t := { t with stack := [], replacements := #[] }) parse_descriptor
    (Bool.or_eq_true_iff.mpr (.inl (isConstantField_value (c := second) rfl rfl))) rfl rfl hvalue
  have hread := Analysis.before_of_advance (useSubject second justRead pass) t (env second) m
    (k := 2) rfl rfl (Analysis.advance_of_getStatic hget)
  rw [show (useSubject second justRead pass).config.classes.declaredField value = value from
    declaredField_value rfl rfl] at hread
  -- The value that was read is returned, which decides it.
  have hreturns : ∃ passLog, Analysis.advance 3 (.simple .ireturn)
      (useSubject second justRead pass) { t with stack := [.known readFold], replacements := #[] }
      (env second) m' = ((⟨⟩, { t with passLog, stack := [], replacements := #[readSpan] }), m') :=
    ⟨_, rfl⟩
  rcases hreturns with ⟨passLog, hreturn⟩
  refine ⟨passLog, m', ?_⟩
  exact Analysis.replacements_of_before _ _ _ _
    (Analysis.before_of_advance _ _ _ _ (k := 3) rfl hread hreturn) rfl

-- And the third run finds nothing.
theorem replacements_loaded (pass : Nat) (t : Tracker) (env : Env) (m : Machine) :
    Analysis.replacements (useSubject third loaded pass) t env m
      = (([], { t with stack := [], replacements := #[] }), m) :=
  rfl

/-- The bodies that the runs leave. -/
theorem splice_cast : (body castAndRead).splice [castSpan] = body justRead := by
  simp only [Body.splice, byStart, List.mergeSort]
  rfl

theorem splice_read : (body justRead).splice [readSpan] = body loaded := by
  simp only [Body.splice, byStart, List.mergeSort]
  rfl

/-- What the passes do to each method. -/
theorem foldMethod_initializer (pass : Nat) (s : FoldState) (hr : s.progress.resolved = ∅) :
    ∃ log, Folding.foldMethod (.ofConfig (config first)) pass first initializer s
      = .ok (initializer, false)
          { s with log, progress.resolved := (∅ : Std.TreeSet Member).insert value } :=
  ⟨_, bind_of_ok (Folding.analyse_eq (j := .ofConfig (config first))
    (replacements_initializer pass ⟨s.progress, s.log, s.passLog, [], #[]⟩ (env first) s.machine
      hr))⟩

theorem foldMethod_initializer_known (pass : Nat) (s : FoldState)
    (hr : s.progress.resolved.contains value = true) :
    Folding.foldMethod (.ofConfig (config first)) pass first initializer s
      = .ok (initializer, false) s :=
  bind_of_ok (Folding.analyse_eq (j := .ofConfig (config first))
    (replacements_initializer_known pass ⟨s.progress, s.log, s.passLog, [], #[]⟩ (env first)
      s.machine hr))

/-- In the first run the cast is folded. -/
theorem foldMethod_castAndRead (pass : Nat) (s : FoldState) (hm : Unusable s.machine) :
    ∃ passLog machine, Folding.foldMethod (.ofConfig (config first)) pass first (use castAndRead) s
      = .ok (use justRead, true) { s with passLog, machine } ∧ Unusable machine := by
  rcases replacements_castAndRead pass ⟨s.progress, s.log, s.passLog, [], #[]⟩ hm with
    ⟨passLog, m', h, hm'⟩
  refine ⟨passLog, m', ?_, hm'⟩
  refine (bind_of_ok (Folding.analyse_eq (j := .ofConfig (config first)) h)).trans ?_
  dsimp only
  rw [Body.apply, splice_cast]
  rfl

/-- In the second one the read. -/
theorem foldMethod_justRead (pass : Nat) (s : FoldState)
    (hm : s.machine.initialized["demo/Late"]? = none) :
    ∃ passLog machine, Folding.foldMethod (.ofConfig (config second)) pass second (use justRead) s
      = .ok (use loaded, true) { s with passLog, machine } := by
  rcases replacements_justRead pass ⟨s.progress, s.log, s.passLog, [], #[]⟩ hm with ⟨passLog, m', h⟩
  refine ⟨passLog, m', ?_⟩
  refine (bind_of_ok (Folding.analyse_eq (j := .ofConfig (config second)) h)).trans ?_
  dsimp only
  rw [Body.apply, splice_read]
  rfl

/-- The class behind the passes of the first run. -/
def afterFirst : FoldedClass where
  entry := .ofClass first
  folded := withMembers none [initializer, use justRead]
  modified := true

/-- The class behind the pass of the second run. -/
def afterSecond : FoldedClass where
  entry := .ofClass second
  folded := third
  modified := true

/-- The class behind the pass of the third run. -/
def afterThird : FoldedClass where
  entry := .ofClass third
  folded := third
  modified := false

/-- The first run folds the class. -/
theorem foldClass_first (pass : Nat) {s s₁ : FoldState}
    (hinit : Folding.foldMethod (.ofConfig (config first)) pass first initializer s
      = .ok (initializer, false) s₁) (hm : Unusable s₁.machine) :
    ∃ passLog machine, Folding.foldClass (.ofConfig (config first)) pass (.ofClass first) s
      = .ok afterFirst { s₁ with passLog, machine } ∧ Unusable machine := by
  rcases foldMethod_castAndRead pass s₁ hm with ⟨passLog, machine, huse, hm'⟩
  have hmethods : first.methods.mapM (Folding.foldMethod (.ofConfig (config first)) pass first) s
      = .ok [(initializer, false), (use justRead, true)] { s₁ with passLog, machine } :=
    mapM_cons_of_ok hinit (mapM_cons_of_ok huse rfl)
  exact ⟨passLog, machine, bind_of_ok hmethods, hm'⟩

-- And so does the second one.
theorem foldClass_second (pass : Nat) (s : FoldState)
    (hm : s.machine.initialized["demo/Late"]? = none) :
    ∃ passLog machine, Folding.foldClass (.ofConfig (config second)) pass (.ofClass second) s
      = .ok afterSecond { s with passLog, machine } := by
  rcases foldMethod_justRead pass s hm with ⟨passLog, machine, huse⟩
  have hmethods : second.methods.mapM (Folding.foldMethod (.ofConfig (config second)) pass second) s
      = .ok [(use loaded, true)] { s with passLog, machine } := mapM_cons_of_ok huse rfl
  exact ⟨passLog, machine, bind_of_ok hmethods⟩

/-- The third one leaves it. -/
theorem foldClass_third (pass : Nat) (s : FoldState) :
    Folding.foldClass (.ofConfig (config third)) pass (.ofClass third) s = .ok afterThird s := by
  have huse : Folding.foldMethod (.ofConfig (config third)) pass third (use loaded) s
      = .ok (use loaded, false) s :=
    bind_of_ok (Folding.analyse_eq (j := .ofConfig (config third))
      (replacements_loaded pass ⟨s.progress, s.log, s.passLog, [], #[]⟩ (env third) s.machine))
  have hmethods : third.methods.mapM (Folding.foldMethod (.ofConfig (config third)) pass third) s
      = .ok [(use loaded, false)] s := mapM_cons_of_ok huse rfl
  exact bind_of_ok hmethods

/-- A pass over the only class. -/
theorem runPass_eq (pass grown : Nat) {c : ClassFile} {s : FoldState} {f : FoldedClass}
    {P : FoldState → Prop}
    (h : ∀ log, ∃ s', Folding.foldClass (.ofConfig (config c)) pass (.ofClass c)
      { s with log, passLog := #[] } = .ok f s' ∧ P s' ∧
        s'.progress.resolved.size = s.progress.resolved.size + grown) :
    ∃ s' log, P s' ∧
      Folding.runPass (.ofConfig (config c)) pass s = .ok ([f], grown) { s' with log } := by
  rcases h _ with ⟨s', hclass, hs', hsize⟩
  have hclasses : (config c).classes.primaries.mapM (Folding.foldClass (.ofConfig (config c)) pass)
      _ = .ok [f] s' := mapM_cons_of_ok hclass rfl
  have hgrown : s'.progress.resolved.size - s.progress.resolved.size = grown := by omega
  rw [← hgrown]
  exact ⟨s', _, hs', bind_of_ok hclasses⟩

-- The first pass makes the field known, and so a second one follows.
/-- The first run has two passes, as it resolves the field. -/
theorem passes_first (log : EventLog) :
    ∃ s, Folding.passes (.ofConfig (config first)) { log } = .ok ([afterFirst], 2) s := by
  have hone : ∃ (s₁ : FoldState) (log₁ : EventLog),
      (Unusable s₁.machine ∧ s₁.progress.resolved.contains value = true) ∧
        Folding.runPass (.ofConfig (config first)) 1 { log }
          = .ok ([afterFirst], 1) { s₁ with log := log₁ } := by
    refine runPass_eq 1 1
      (P := fun s => Unusable s.machine ∧ s.progress.resolved.contains value = true) fun log' => ?_
    rcases foldMethod_initializer 1 { log := log' } rfl with ⟨log'', hinit⟩
    rcases foldClass_first 1 hinit (.inl Std.HashMap.getElem?_empty) with
      ⟨passLog, machine, hclass, hm⟩
    exact ⟨_, hclass, ⟨hm, by simp⟩, rfl⟩
  rcases hone with ⟨s₁, log₁, ⟨hm, hknown⟩, h₁⟩
  -- The second pass finds the field resolved, and folds the cast as the first one did.
  have htwo : ∃ (s₂ : FoldState) (log₂ : EventLog), True ∧
      Folding.runPass (.ofConfig (config first)) 2 { s₁ with log := log₁ }
        = .ok ([afterFirst], 0) { s₂ with log := log₂ } := by
    refine runPass_eq 2 0 (P := fun _ => True) fun log' => ?_
    have hinit := foldMethod_initializer_known 2 { s₁ with log := log', passLog := #[] } hknown
    rcases foldClass_first 2 hinit hm with ⟨passLog, machine, hclass, -⟩
    exact ⟨_, hclass, trivial, rfl⟩
  rcases htwo with ⟨s₂, log₂, -, h₂⟩
  exact ⟨_, (bind_of_ok h₁).trans (bind_of_ok h₂)⟩

/-- A single pass is enough if no field becomes known. -/
theorem passes_eq {c : ClassFile} {f : FoldedClass} {log : EventLog}
    (h : ∀ log, ∃ s, Folding.foldClass (.ofConfig (config c)) 1 (.ofClass c) { log } = .ok f s ∧
      s.progress.resolved = ∅) :
    ∃ s, Folding.passes (.ofConfig (config c)) { log } = .ok ([f], 1) s :=
  Folding.passes_of_class rfl h

/-- The second run has one. -/
theorem passes_second (log : EventLog) :
    ∃ s, Folding.passes (.ofConfig (config second)) { log } = .ok ([afterSecond], 1) s :=
  passes_eq fun log' => by
    rcases foldClass_second 1 { log := log' } Std.HashMap.getElem?_empty with
      ⟨passLog, machine, hclass⟩
    exact ⟨_, hclass, rfl⟩

theorem passes_third (log : EventLog) :
    ∃ s, Folding.passes (.ofConfig (config third)) { log } = .ok ([afterThird], 1) s :=
  passes_eq fun _ => ⟨_, foldClass_third 1 _, rfl⟩

/-- The assignment can be moved into the field. -/
theorem isInlinable_value :
    Initializer.isInlinable afterFirst.folded (Initializer.assignments initialBody) value (.int 5)
      = true := by
  have hcount : (Initializer.assignments initialBody).getD value 0 = 1 := by
    change ((∅ : Std.HashMap Member Nat).alter value _).getD value 0 = 1
    simp
  unfold Initializer.isInlinable
  rw [hcount, parse_descriptor]
  rfl

theorem leading_initialBody {referenced : Std.HashSet Label} {test : Member → Constant → Bool}
    (htest : test value (.int 5) = true) :
    Initializer.leading referenced test initialBody.instructions
      = ([(value, .int 5)], [.simple .voidReturn]) := by
  have hend : Initializer.leading referenced test [.simple .voidReturn]
      = ([], [.simple .voidReturn]) := by
    rw [Initializer.leading]
    rfl
  rw [show initialBody.instructions
    = [.simple .iconst5, .field .putstatic value, .simple .voidReturn] from rfl,
    Initializer.leading]
  simp [Initializer.nextReal?, Instruction.literal?, htest, hend]

-- So the initializer goes when the class is given out.
theorem rewritten_afterFirst (pass : Nat) : afterFirst.rewritten pass = second := by
  have hprune : Initializer.prune afterFirst.folded initialBody
      = ([(value, .int 5)], body [.simple .voidReturn]) := by
    unfold Initializer.prune
    rw [leading_initialBody isInlinable_value]
    rfl
  change (afterFirst.folded.pruneInitializer pass).1 = second
  unfold ClassFile.pruneInitializer
  rw [show (afterFirst.folded.method? ClassFile.initializer).bind (·.body) = some initialBody
    from rfl]
  dsimp only
  rw [hprune]
  rfl

open Pool

/-- The bodies have few bytes. -/
theorem encode_justRead_fits (m : Member) :
    Edit.Fits 6 ((body justRead).encode m) fun w => w.length = 18 := by
  have hindexed : Body.indexed justRead = addField value >>= fun i =>
      pure [(.simple .aconstNull, 0), (.simple .pop, 0), (.field .getstatic value, i),
        (.simple .ireturn, 0)] := by
    simp [Body.indexed, justRead, Body.poolIndex]
  rw [Body.encode, show (body justRead).instructions = justRead from rfl, hindexed, bind_assoc]
  refine (addField_fits (m := value) (by decide) (by decide) (by decide)).bind (by decide) ?_
  exact fun i _ p _ => ⟨_, p, rfl, Nat.le_refl _, rfl⟩

theorem encode_loaded_fits (m : Member) :
    Edit.Fits 6 ((body loaded).encode m) fun w => w.length = 16 :=
  fun p _ => ⟨_, p, rfl, Nat.le_add_right _ _, rfl⟩

/-- The parts of the class need few entries. -/
theorem fieldBytes_fits :
    Edit.Fits 4 (ClassFile.fieldBytes (field (some (.int 5)))) fun _ => True := by
  have hheader : Edit.Fits 2 (ClassFile.headerBytes ⟨25⟩ ⟨"VALUE", "I"⟩) fun _ => True :=
    ClassFile.headerBytes_fits (by decide) (by decide)
  have hconstant : Edit.Fits 1 (ClassFile.fieldConstantAttribute (field (some (.int 5))))
      fun l => ∃ w, l = [⟨"ConstantValue", w⟩] ∧ w.length = 2 :=
    (push_fits (e := .integer 5) rfl).bind (by decide) fun _ _ => fits_pure ⟨_, rfl, rfl⟩
  refine hheader.bind (by decide) fun _ _ => hconstant.bind (by decide) fun l hl => ?_
  rcases hl with ⟨w, rfl, hw⟩
  have hattributes : Edit.Fits 1 (ClassFile.attributesBytes [⟨"ConstantValue", w⟩]) fun _ => True :=
    ClassFile.attributeBytes_fits (by decide) (hw ▸ by decide)
  exact hattributes.bind (Nat.le_refl _) fun _ _ => fits_pure trivial

section Use

variable {code : List Instruction} {n : Nat}

theorem methodBytes_fits (hn : n < UInt32.size)
    (hcode : Edit.Fits 6 ((body code).encode ⟨"demo/Late", "use", "()I"⟩) fun w => w.length = n) :
    Edit.Fits 9 (ClassFile.methodBytes "demo/Late" (use code)) fun _ => True := by
  have hname : IsShort "use" := by decide
  have hdescriptor : IsShort "()I" := by decide
  refine ClassFile.methodBytes_fits hname hdescriptor rfl ?_
  exact hcode.bind (by decide) fun w hw => fits_pure ⟨w, rfl, by omega⟩

-- So the class has bytes.
theorem exists_toBytes (hn : n < UInt32.size)
    (hcode : Edit.Fits 6 ((body code).encode ⟨"demo/Late", "use", "()I"⟩) fun w => w.length = n) :
    ∃ w, (withMembers (some (.int 5)) [use code]).toBytes = .ok w := by
  have hname : IsShort "demo/Late" := by decide
  have hfields := fits_mapM (List.forall_mem_singleton.2 fieldBytes_fits)
  have hmethods := fits_mapM (List.forall_mem_singleton.2 (methodBytes_fits hn hcode))
  refine ClassFile.toBytes_of_fits (n := 15) ?_ (show 16 ≤ 65535 by decide)
  exact ClassFile.bodyBytes_fits (k := 4) (n := 9) hname rfl rfl rfl
    (show 1 ≤ 65535 by decide) (show 1 ≤ 65535 by decide) hfields hmethods

end Use

theorem leaves_eq {c k : ClassFile} {f : FoldedClass} {pass : Nat} {s : RunState} {t : FoldState}
    (hpasses : Folding.passes (.ofConfig (config c)) { log := s.log } = .ok ([f], pass) t)
    (hk : f.rewritten pass = k) : (config c).leaves s = [k] := by
  rw [Config.leaves, hpasses]
  exact congrArg (fun k => [k]) hk

/-- A run over the only class, which changes and is written. -/
theorem run_of_modified {c k : ClassFile} {f : FoldedClass} {pass : Nat} {w : Bytes} {s : RunState}
    {t : FoldState}
    (hpasses : Folding.passes (.ofConfig (config c)) { log := s.log } = .ok ([f], pass) t)
    (hmodified : f.modified = true) (hk : f.rewritten pass = k) (hmarks : k.markerCount = 0)
    (hw : k.toBytes = .ok w) :
    ∃ s', (config c).run s = .ok ⟨[k.name], pass⟩ s' ∧
      s'.storage.sink = s.storage.sink.insert f.entry.input.key w := by
  rcases Folding.emitOne_of_modified hmodified hk hmarks hw t with ⟨t', hone⟩
  have hall : [f].mapM (Folding.emitOne pass) t = .ok [some (k.name, ⟨f.entry.input, w⟩)] t' :=
    mapM_cons_of_ok hone rfl
  have hemit : Folding.emit (.ofConfig (config c)) { log := s.log }
      = .ok ([(k.name, ⟨f.entry.input, w⟩)], pass) t' :=
    (bind_of_ok hpasses).trans (bind_of_ok hall)
  exact Config.run_of_emit rfl hemit

/-- The third run gives out nothing. -/
theorem run_third (s : RunState) :
    ∃ s', (config third).run s = .ok ⟨[], 1⟩ s' := by
  rcases passes_third s.log with ⟨t, hpasses⟩
  have hone : Folding.emitOne 1 afterThird t = .ok none t := rfl
  have hall : [afterThird].mapM (Folding.emitOne 1) t = .ok [none] t := mapM_cons_of_ok hone rfl
  have hemit : Folding.emit (.ofConfig (config third)) { log := s.log } = .ok ([], 1) t :=
    (bind_of_ok hpasses).trans (bind_of_ok hall)
  rcases Config.run_of_emit (c := config third) rfl hemit with ⟨s', hrun, -⟩
  exact ⟨s', hrun⟩

section Settings

variable {c : ClassFile}

theorem primaries_config (c : ClassFile) : (config c).classes.primaries = [.ofClass c] := rfl

/-- No class of the example has a marker. -/
theorem unmarked_config (hc : c.markerCount = 0) : (config c).Unmarked := by
  intro e he k hk
  rw [primaries_config, List.mem_singleton] at he
  subst he
  cases hk
  exact hc

/-- A field of another class is its own. -/
theorem declaredField_config (hc : c.name = "demo/Late") {f : Member}
    (hf : f.owner ≠ "demo/Late") : (config c).classes.declaredField f = f := by
  have hclass : (config c).classes.class? f.owner = none :=
    Universe.class?_ofClasses_of_ne (c := c) (hc ▸ Ne.symm hf)
  rw [Universe.declaredField, Universe.fieldOwner?_of_class?_eq_none hclass]

/-- Nothing but constants is loaded. -/
theorem loadsOnly_config (hc : c.name = "demo/Late") : (config c).LoadsOnly := by
  -- A field that holds the class of a primitive type belongs to a wrapper.
  have howner {f : Member} (hf : f.holdsPrimitive = true) : f.owner ≠ "demo/Late" := by
    intro he
    rw [Member.holdsPrimitive, he, Bool.and_eq_true] at hf
    exact absurd hf.2 (by decide)
  refine ⟨fun name => ?_, fun f hf => ?_, fun f hf => ?_⟩
  · simp [Config.selector?, config, Config.plain]
  · have hname : f ≠ value := fun he => howner hf (he ▸ rfl)
    rw [declaredField_config hc (howner hf)]
    simp [Config.isConstantField, config, Config.plain, Ne.symm hname]
  · rw [declaredField_config hc (howner hf)]
    rintro ⟨e, he, k, hk, hname⟩
    rw [primaries_config, List.mem_singleton] at he
    subst he
    cases hk
    exact howner hf (hname.symm.trans hc)

end Settings

/-- The first run gives out the class. -/
theorem run_first : ∃ w s, second.toBytes = .ok w ∧
    (config first).run ⟨#[], {}⟩ = .ok ⟨["demo/Late"], 2⟩ s ∧
    s.storage.sink["demo/Late.class"]? = some w ∧ (config first).leaves ⟨#[], {}⟩ = [second] := by
  rcases exists_toBytes (by decide) (encode_justRead_fits _) with ⟨w, hw⟩
  rcases passes_first #[] with ⟨t, hpasses⟩
  rcases run_of_modified (s := ⟨#[], {}⟩) hpasses rfl (rewritten_afterFirst 2) rfl hw with
    ⟨s, hrun, hsink⟩
  refine ⟨w, s, hw, hrun, ?_, leaves_eq hpasses (rewritten_afterFirst 2)⟩
  rw [hsink]
  exact Std.TreeMap.getElem?_insert_self

-- And the second one gives it out again.
theorem run_second : ∃ s, (config second).run ⟨#[], {}⟩ = .ok ⟨["demo/Late"], 1⟩ s ∧
    (config second).leaves ⟨#[], {}⟩ = [third] := by
  rcases exists_toBytes (by decide) (encode_loaded_fits _) with ⟨w, hw⟩
  rcases passes_second #[] with ⟨t, hpasses⟩
  rcases run_of_modified (s := ⟨#[], {}⟩) (k := third) hpasses rfl rfl rfl hw with ⟨s, hrun, -⟩
  exact ⟨s, hrun, leaves_eq hpasses rfl⟩

/-- The reports of three runs, each on what the one before it has left. -/
def reports : List RunReport :=
  [⟨["demo/Late"], 2⟩, ⟨["demo/Late"], 1⟩, ⟨[], 1⟩]

/-- The three runs in order. -/
theorem reruns : Reruns (config first) reports := by
  rcases run_first with ⟨-, s₁, -, hrun₁, -, hleaves₁⟩
  rcases run_second with ⟨s₂, hrun₂, hleaves₂⟩
  rcases run_third ⟨#[], {}⟩ with ⟨s₃, hrun₃⟩
  refine .again (d := config second) (loadsOnly_config rfl) (unmarked_config rfl) hrun₁ ?_ ?_
  · rw [hleaves₁]
    exact Nat.le_refl _
  refine .again (d := config third) (loadsOnly_config rfl) (unmarked_config rfl) hrun₂ ?_ ?_
  · rw [hleaves₂]
    exact Nat.le_refl _
  exact .again (d := config third) (loadsOnly_config rfl) (unmarked_config rfl) hrun₃
    (Nat.zero_le _) (.rest _)

end Late

/-- The class has two calls, casts and reads, and of three runs the third delivers nothing: there
    the one pass finds nothing, where that of the second has found something. -/
theorem late_class_comes_to_rest :
    Reruns (Late.config Late.first) Late.reports ∧
      (Late.config Late.first).foldables < Late.reports.length ∧
      (∃ r ∈ Late.reports, r.emitted = []) ∧
      (∃ ws v, (Late.config Late.second).LastPass #[] 1 ws v ∧ ∃ w ∈ ws, w.places ≠ []) ∧
      ∃ ws v, (Late.config Late.third).LastPass #[] 1 ws v ∧ ∀ w ∈ ws, w.places = [] := by
  refine ⟨Late.reruns, by decide, ((reruns_come_to_rest _).2 Late.reruns).2 (by decide), ?_, ?_⟩
  · rcases Late.run_second with ⟨s, hrun, -⟩
    rcases (reruns_come_to_rest _).1 (Late.unmarked_config rfl) hrun with
      ⟨ws, v, hlast, -, -, hidle⟩
    refine ⟨ws, v, hlast, ?_⟩
    by_contra hnone
    push Not at hnone
    exact List.cons_ne_nil _ _ (hidle.2 hnone)
  · rcases Late.run_third ⟨#[], {}⟩ with ⟨s, hrun⟩
    rcases (reruns_come_to_rest _).1 (Late.unmarked_config rfl) hrun with
      ⟨ws, v, hlast, -, -, hidle⟩
    exact ⟨ws, v, hlast, hidle.1 rfl⟩

/-- A class without markers that is delivered, and delivered again when it takes the place of what
    was read. -/
theorem late_class_is_delivered_twice :
    (Late.config Late.first).Unmarked ∧ ∃ w s s',
      (Late.config Late.first).run ⟨#[], {}⟩ = .ok ⟨["demo/Late"], 2⟩ s ∧
      s.storage.sink["demo/Late.class"]? = some w ∧ Late.second.toBytes = .ok w ∧
      (Late.config Late.second).run ⟨#[], {}⟩ = .ok ⟨["demo/Late"], 1⟩ s' := by
  rcases Late.run_first with ⟨w, s, hw, hrun, hsink, -⟩
  rcases Late.run_second with ⟨s', hrun', -⟩
  exact ⟨Late.unmarked_config rfl, w, s, s', hrun, hsink, hw, hrun'⟩

end JvmFold
