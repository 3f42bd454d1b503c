import JvmFold.ClassFile.Writer
import JvmFold.Proofs.Analysis.Recorded
import JvmFold.Proofs.Pool.Growth
import JvmFold.Proofs.Run.Shrinking

/-!
# Following Runs

What it takes to follow a run on given classes from the analysis of a body to
the classes that are delivered. A read of a constant field is left to the
machine, so what comes of it depends on whether the machine answers. A class
that changed is delivered if it can be written, and a small class always can.

## Main definitions

* `Config.plain`: A configuration in which nothing is constant.

## Theorems

* `Analysis.getStatic_of_ok`, `Analysis.getStatic_of_error`: Reads that succeed and fail.
* `Folding.emitOne_of_modified`: A class that changed is delivered.
* `Folding.passes_of_class`: A single pass.
* `Config.run_of_emit`: A run that hands its classes over.
* `ClassFile.toBytes_of_fits`: A class is written if its pool has room.
-/

namespace JvmFold

/-- A configuration of classes of which nothing is constant, and which are kept. -/
def Config.plain (u : Universe) : Config where
  types := ∅
  fields := ∅
  methods := ∅
  selectors := ∅
  foldsConcat := false
  output := some .sink
  limits := {}
  classes := u

/-- A guarded operation fails with what the machine says of its fault. -/
theorem Evaluation.guarded_apply {α : Type} (member : Member) (operation : Emu α) (env : Env)
    (m : Machine) :
    Evaluation.guarded member operation env m =
      (match (Probe.attempt operation env m).1 with
      | .ok a => (pure a : Evaluation α)
      | .error f => do throw (Failure.ofFault (← Probe.heap) member f)) env
        (Probe.attempt operation env m).2 :=
  rfl

/-- As the two ways in which the operation ends. -/
theorem Evaluation.guarded_eq {α : Type} (member : Member) (operation : Emu α) (env : Env)
    (m : Machine) :
    Evaluation.guarded member operation env m =
      match operation env m with
      | .ok a m' => (.ok a, m')
      | .error e m' => (.error (.ofFault m'.heap member e), m') := by
  rw [Evaluation.guarded_apply]
  unfold Probe.attempt
  cases operation env m with
  | ok a m' => rfl
  | error e m' => rfl

theorem Evaluation.readStatic_eq (f : Member) (env : Env) (m : Machine) :
    ExceptT.run (Evaluation.readStatic f) env m
      = Evaluation.guarded f (Emu.getStatic f) env { m with executed := 0 } :=
  rfl

namespace Analysis

section Reads

variable {p : Nat} {f : Member} {s : Subject}

/-- A read of a field that is constant, or has become known, is left to the machine. -/
theorem getStatic_of_constant {type : FieldType} {t : Tracker}
    (htype : FieldType.parse f.descriptor = .ok type)
    (hconstant : (s.config.isConstantField (s.config.classes.declaredField f)
      || t.progress.resolved.contains (s.config.classes.declaredField f)) = true)
    (hreadable : s.order.isReadable (s.config.classes.declaredField f) p = true)
    (env : Env) (m : Machine) :
    getStatic p f s t env m =
      (match (ExceptT.run (Evaluation.readStatic f) env m).1 with
      | .ok value =>
        pushFold { origin := .staticField, start := p, stop := p, value, type,
                   member := some (s.config.classes.declaredField f) }
      | .error failure => do
        report p (s.config.classes.declaredField f) failure
        pushUnknown type.slots) s t env (ExceptT.run (Evaluation.readStatic f) env m).2 := by
  -- Neither the subject nor the tracker is changed before the field is read.
  have hread : (read : Analysis Subject) s t env m = ((s, t), m) := rfl
  have hget : (get : Analysis Tracker) s t env m = ((t, t), m) := rfl
  unfold getStatic
  rw [bind_at, hread]
  dsimp only
  rw [htype]
  dsimp only
  rw [bind_at, hget]
  simp only [hconstant, hreadable, Bool.and_self, if_true]
  rfl

/-- A read of any other field leaves a value behind that is not known. -/
theorem getStatic_of_unknown {type : FieldType} {t : Tracker}
    (htype : FieldType.parse f.descriptor = .ok type)
    (hunknown : (s.config.isConstantField (s.config.classes.declaredField f)
      || t.progress.resolved.contains (s.config.classes.declaredField f)) = false)
    (env : Env) (m : Machine) :
    getStatic p f s t env m = pushUnknown type.slots s t env m := by
  have hread : (read : Analysis Subject) s t env m = ((s, t), m) := rfl
  have hget : (get : Analysis Tracker) s t env m = ((t, t), m) := rfl
  unfold getStatic
  rw [bind_at, hread]
  dsimp only
  rw [htype]
  dsimp only
  rw [bind_at, hget]
  simp only [hunknown, Bool.false_and, Bool.false_eq_true, if_false]

/-- A report is noted and changes nothing else. -/
theorem report_eq (p : Nat) (member : Member) (failure : Failure) (s : Subject) (t : Tracker)
    (env : Env) (m : Machine) :
    ∃ passLog, report p member failure s t env m = ((⟨⟩, { t with passLog }), m) := by
  cases failure with
  | notConstant => exact ⟨_, rfl⟩
  | rejected _ => exact ⟨_, rfl⟩
  | inaccessible _ _ => exact ⟨_, rfl⟩
  | failed _ => exact ⟨_, rfl⟩

/-- A read that succeeds puts the value on the stack. -/
theorem getStatic_of_ok {type : FieldType} {value : Value} {t : Tracker} {env : Env}
    {m m' : Machine} (htype : FieldType.parse f.descriptor = .ok type)
    (hconstant : (s.config.isConstantField (s.config.classes.declaredField f)
      || t.progress.resolved.contains (s.config.classes.declaredField f)) = true)
    (hreadable : s.order.isReadable (s.config.classes.declaredField f) p = true)
    (hslots : value.slots = 1)
    (hread : Emu.getStatic f env { m with executed := 0 } = .ok value m') :
    getStatic p f s t env m
      = ((⟨⟩, { t with stack := .known { origin := .staticField, start := p, stop := p, value, type,
                                         member := some (s.config.classes.declaredField f) }
                          :: t.stack }), m') := by
  rw [getStatic_of_constant htype hconstant hreadable, Evaluation.readStatic_eq,
    Evaluation.guarded_eq, hread]
  exact pushFold_gives hslots

/-- A read that fails leaves a value behind that is not known. -/
theorem getStatic_of_error {type : FieldType} {fault : Fault} {env : Env} {m m' : Machine}
    (htype : FieldType.parse f.descriptor = .ok type)
    (hconstant : s.config.isConstantField (s.config.classes.declaredField f) = true)
    (hreadable : s.order.isReadable (s.config.classes.declaredField f) p = true)
    (hslots : type.slots = 1)
    (hread : Emu.getStatic f env { m with executed := 0 } = .error fault m') (t : Tracker) :
    ∃ passLog, getStatic p f s t env m
      = ((⟨⟩, { t with passLog, stack := .unknown :: t.stack }), m') := by
  rcases report_eq p (s.config.classes.declaredField f) (.ofFault m'.heap f fault) s t env m' with
    ⟨passLog, hlog⟩
  refine ⟨passLog, ?_⟩
  rw [getStatic_of_constant htype (by rw [hconstant, Bool.true_or]) hreadable,
    Evaluation.readStatic_eq, Evaluation.guarded_eq, hread]
  dsimp only
  rw [bind_at, hlog, hslots]
  rfl

/-- Reading a static field is what its instruction does. -/
theorem advance_of_getStatic {t u : Tracker} {env : Env} {m m' : Machine}
    (h : getStatic p f s t env m = ((⟨⟩, u), m')) :
    advance p (.field .getstatic f) s t env m = ((⟨⟩, u), m') := by
  change (getStatic p f >>= fun _ => pure ()) s t env m = _
  rw [bind_at, h]
  rfl

end Reads

end Analysis

namespace Folding

/-- A body is analysed from the state of the run, and leaves its own. -/
theorem analyse_eq {j : FoldJob} {s : Subject} {state : FoldState} {found : List Replacement}
    {t : Tracker} {m : Machine}
    (h : Analysis.replacements s ⟨state.progress, state.log, state.passLog, [], #[]⟩ j.env
      state.machine = ((found, t), m)) :
    analyse j s state = .ok found ⟨t.runLog, t.passLog, m, t.progress⟩ := by
  unfold analyse
  dsimp only
  rw [h]

/-- Notes are always taken. -/
theorem forM_note_eq (l : List Event) (s : FoldState) : ∃ s', l.forM note s = .ok ⟨⟩ s' := by
  induction l generalizing s with
  | nil => exact ⟨s, rfl⟩
  | cons e rest ih =>
      rcases ih { s with log := s.log.push e } with ⟨s', h⟩
      exact ⟨s', h⟩

/-- Pruning cannot fail. -/
theorem prune_eq (pass : Nat) (f : FoldedClass) (s : FoldState) :
    ∃ s', prune pass f s = .ok (f.rewritten pass) s' := by
  unfold prune FoldedClass.rewritten
  split
  · rcases forM_note_eq (f.folded.pruneInitializer pass).2 s with ⟨s', hnotes⟩
    exact ⟨s', bind_of_ok hnotes⟩
  · exact ⟨s, rfl⟩

/-- One pass over the only class is enough if no field becomes known in it. -/
theorem passes_of_class {j : FoldJob} {e : ClassEntry} {f : FoldedClass} {log : EventLog}
    (hone : j.config.classes.primaries = [e])
    (h : ∀ log, ∃ t, foldClass j 1 e { log } = .ok f t ∧ t.progress.resolved = ∅) :
    ∃ s, passes j { log } = .ok ([f], 1) s := by
  have hclasses (log : EventLog) : ∃ t, j.config.classes.primaries.mapM (foldClass j 1) { log }
      = .ok [f] t ∧ t.progress.resolved = ∅ := by
    rcases h log with ⟨t, hclass, hresolved⟩
    rw [hone]
    exact ⟨t, mapM_cons_of_ok hclass rfl, hresolved⟩
  -- Nothing was resolved, so this pass is the last one, whatever is left to resolve.
  have hpass : ∃ s, runPass j 1 { log } = .ok ([f], 0) s := by
    rcases hclasses _ with ⟨t, hall, hresolved⟩
    have hgrown : ∃ s, runPass j 1 { log } = .ok ([f], t.progress.resolved.size
        - (∅ : Std.TreeSet Member).size) s := ⟨_, bind_of_ok hall⟩
    rwa [hresolved, Nat.sub_self] at hgrown
  rcases hpass with ⟨s, hpass⟩
  unfold passes
  cases j.config.finalFields with
  | zero => exact ⟨_, bind_of_ok hpass⟩
  | succ more => exact ⟨_, bind_of_ok hpass⟩

/-- A class without markers that changed is delivered, if it can be written. -/
theorem emitOne_of_modified {pass : Nat} {f : FoldedClass} {c : ClassFile} {w : Bytes}
    (hmodified : f.modified = true) (hc : f.rewritten pass = c) (hmarks : c.markerCount = 0)
    (hw : c.toBytes = .ok w) (s : FoldState) :
    ∃ s', emitOne pass f s = .ok (some (c.name, ⟨f.entry.input, w⟩)) s' := by
  rcases prune_eq pass f s with ⟨s', hprune⟩
  rw [hc] at hprune
  have hstrip : strip pass c s' = .ok (c, false) s' := by
    unfold strip
    rw [if_pos hmarks]
    rfl
  refine ⟨s', (bind_of_ok hprune).trans ((bind_of_ok hstrip).trans ?_)⟩
  dsimp only
  rw [hmodified, hw]
  rfl

/-- The passes come first, and then one class is handed over after the other. -/
theorem emit_eq_ok {j : FoldJob} {s s' : FoldState} {outputs : List (String × Delivery)}
    {pass : Nat} (h : emit j s = .ok (outputs, pass) s') :
    ∃ classes s₁ os, passes j s = .ok (classes, pass) s₁ ∧
      classes.mapM (emitOne pass) s₁ = .ok os s' ∧ outputs = os.filterMap id := by
  rcases bind_eq_ok h with ⟨⟨classes, pass'⟩, s₁, hpasses, h⟩
  rcases bind_eq_ok h with ⟨os, s₂, hos, h⟩
  cases h
  exact ⟨classes, s₁, os, hpasses, hos, rfl⟩

end Folding

/-- A run that hands its classes over succeeds if they can be written. -/
theorem Config.run_of_emit {c : Config} (hsink : c.output = some .sink) {s : RunState}
    {outputs : List (String × Delivery)} {pass : Nat} {f : FoldState}
    (h : Folding.emit (.ofConfig c) { log := s.log } = .ok (outputs, pass) f) :
    ∃ s', c.run s = .ok ⟨outputs.map Prod.fst, pass⟩ s' ∧
      s'.storage.sink = (outputs.map Prod.snd).foldl
        (fun k d => k.insert d.input.key d.bytes) s.storage.sink := by
  unfold Config.run
  rw [h]
  dsimp only
  cases outputs with
  | nil => exact ⟨_, rfl, rfl⟩
  | cons o rest =>
      rw [Config.deliver, hsink]
      exact ⟨_, rfl, rfl⟩

/-- A run that succeeds has handed over the classes of its last pass. -/
theorem Config.emit_of_run {c : Config} {s s' : RunState} {report : RunReport}
    (h : c.run s = .ok report s') :
    ∃ classes s₁ os s₂, Folding.passes (.ofConfig c) { log := s.log }
        = .ok (classes, report.passes) s₁ ∧
      classes.mapM (Folding.emitOne report.passes) s₁ = .ok os s₂ ∧
      report.emitted = (os.filterMap id).map Prod.fst := by
  unfold Config.run at h
  cases hemit : Folding.emit (.ofConfig c) { log := s.log } with
  | error e f =>
      rw [hemit] at h
      cases h
  | ok r f =>
      rw [hemit] at h
      -- The run ends in an error if emitting or delivering does.
      rcases Folding.emit_eq_ok hemit with ⟨classes, s₁, os, hpasses, hos, houtputs⟩
      dsimp only at h
      cases hdeliver : c.deliver r.1 { s with log := f.log } with
      | error e t =>
          rw [hdeliver] at h
          cases h
      | ok _ t =>
          rw [hdeliver] at h
          cases h
          exact ⟨classes, s₁, os, f, hpasses, hos, congrArg (List.map Prod.fst) houtputs⟩

namespace ClassFile

open Pool

/-- A count needs no entry. -/
theorem countBytes_fits {count n : Nat} {what : String} (h : count ≤ 65535) :
    Edit.Fits n (countBytes count what) fun _ => True := by
  rw [countBytes, if_neg (Nat.not_lt.2 h)]
  exact fits_pure trivial

/-- An attribute needs one for its name. -/
theorem attributeBytes_fits {name : String} {w : Bytes} (hname : IsShort name)
    (hw : w.length < UInt32.size) :
    Edit.Fits 1 (attributesBytes [⟨name, w⟩]) fun _ => True := by
  have hone : Edit.Fits 1 (attributeBytes ⟨name, w⟩) fun _ => True := by
    rw [attributeBytes, if_neg (Nat.not_le.2 hw)]
    exact (addUtf8_fits hname).bind (Nat.le_refl _) fun _ _ => fits_pure trivial
  have hmap := fits_mapM (List.forall_mem_singleton.2 hone)
  exact (countBytes_fits (show 1 ≤ 65535 by decide)).bind (Nat.zero_le _) fun _ _ =>
    hmap.bind (Nat.le_refl _) fun _ _ => fits_pure trivial

/-- A member needs two, for its name and its descriptor. -/
theorem headerBytes_fits {access : Access} {s : Signature} (hname : IsShort s.name)
    (hdescriptor : IsShort s.descriptor) : Edit.Fits 2 (headerBytes access s) fun _ => True :=
  (addUtf8_fits hname).bind (by decide) fun _ _ =>
    (addUtf8_fits hdescriptor).bind (by decide) fun _ _ => fits_pure trivial

/-- A method needs one more for the name of the body. -/
theorem methodBytes_fits {owner : String} {m : Method} {n : Nat} (hname : IsShort m.name)
    (hdescriptor : IsShort m.descriptor)
    (hplain : annotationAttributes m.annotations ++ m.attributes = [])
    (hbody : Edit.Fits n (bodyAttribute owner m)
      fun l => ∃ w, l = [⟨"Code", w⟩] ∧ w.length < UInt32.size) :
    Edit.Fits (n + 3) (methodBytes owner m) fun _ => True := by
  have hheader : Edit.Fits 2 (headerBytes m.access m.signature) fun _ => True :=
    headerBytes_fits hname hdescriptor
  refine hheader.bind (by omega) fun _ _ => hbody.bind (by omega) fun l hl => ?_
  rcases hl with ⟨w, rfl, hw⟩
  rw [List.append_assoc, hplain, List.append_nil]
  exact (attributeBytes_fits (by decide) hw).bind (by omega) fun _ _ => fits_pure trivial

/-- The room that a class without superclass, interfaces and attributes takes up. -/
theorem bodyBytes_fits {c : ClassFile} {k n : Nat} (hname : IsShort c.name)
    (hsuper : c.superName = none) (hinterfaces : c.interfaces = [])
    (hplain : annotationAttributes c.annotations ++ bootstrapAttribute c.bootstraps ++ c.attributes
      = [])
    (hfields : c.fields.length ≤ 65535) (hmethods : c.methods.length ≤ 65535)
    (hfield : Edit.Fits k (c.fields.mapM fieldBytes) fun _ => True)
    (hmethod : Edit.Fits n (c.methods.mapM (methodBytes c.name)) fun _ => True) :
    Edit.Fits (k + n + 2) c.bodyBytes fun _ => True := by
  have hnothing {α : Type} (a : α) : Edit.Fits 0 (pure a : Edit α) fun _ => True :=
    fits_pure trivial
  have hcount {count : Nat} (h : count ≤ 65535) (what : String) :
      Edit.Fits 0 (countBytes count what) fun _ => True := countBytes_fits h
  unfold bodyBytes
  rw [hsuper, hinterfaces, hplain]
  -- The room is used up part by part: the class, the fields and the methods.
  refine (addClass_fits hname).bind (by omega) fun _ _ => ?_
  refine (hnothing _).bind (Nat.zero_le _) fun _ _ => ?_
  refine (hcount (Nat.zero_le _) _).bind (Nat.zero_le _) fun _ _ => ?_
  refine (hnothing _).bind (Nat.zero_le _) fun _ _ => ?_
  refine (hcount hfields _).bind (Nat.zero_le _) fun _ _ => ?_
  refine hfield.bind (by omega) fun _ _ => ?_
  refine (hcount hmethods _).bind (Nat.zero_le _) fun _ _ => ?_
  refine hmethod.bind (by omega) fun _ _ => ?_
  exact (hnothing _).bind (Nat.zero_le _) fun _ _ => fits_pure trivial

/-- A class is written if its pool has room for what is behind the pool. -/
theorem toBytes_of_fits {c : ClassFile} {n : Nat} (h : Edit.Fits n c.bodyBytes fun _ => True)
    (hsize : c.pool.size + n ≤ 65535) : ∃ w, c.toBytes = .ok w := by
  rcases h c.pool hsize with ⟨body, pool, hbody, -⟩
  exact ⟨_, by rw [toBytes, hbody]⟩

end ClassFile

end JvmFold
