import JvmFold.Proofs.Analysis.Frames
import JvmFold.Proofs.ClassFile.Emission
import JvmFold.Proofs.Machine.Calls
import JvmFold.Proofs.Run.Following
import JvmFold.Proofs.Universe.Reencoding

/-!
# What the Events Account For

The events say what was folded and what was not, and the bodies of a class are
where it was done. Both are written by the analysis: a replacement and the
event for it are added together, and nothing else adds either. The replacements
of a body are woven into it at once, while the events of a pass are kept apart
until it is clear that the pass is the last one.

An event that is about something folded or not folded is a decision. The
decisions in the events of a run are those of its last pass, in order. No other
pass has left one, since only the last pass is kept, and neither the closing
work on the classes nor the delivery makes any. So the decisions for something
that was folded stand one to one for the replacements that were woven into the
classes of the last pass.

## Main definitions

* `EventLog.decisions`: The events about what was folded and what was not.
* `Subject.Decides`: Events and replacements of a body that belong together.
* `ClassFold`: A class of a pass with the replacements in its bodies.
* `Folding.weaves`: The passes of a run, with the replacements of the last one.
* `Folding.Decides`: What a part of a pass adds to the events.
* `Config.LastPass`: The last pass of a run.

## Theorems

* `Setup.decisions_build`: A new configuration comes without decisions.
* `Analysis.replacements_decides`: What following a body adds to the events.
* `Folding.passes_eq`: The passes of a run weave the replacements into the classes.
* `Folding.weavePass_decides`: What a pass adds to the events.
* `Folding.weaves_decides`, `Config.run_decides`: The decisions are those of the last pass.
* `Config.run_accounts`: The events of a run account for its replacements.
-/

namespace JvmFold

/-- Whether the event is about what was folded or what was not. -/
def Event.isDecision (e : Event) : Bool :=
  e.kind.isFold || e.kind.isSkip

/-- The method and the position that the event is about. -/
def Event.place (e : Event) : Option Member × Option Nat :=
  (e.method, e.location)

/-- The method and the start of a replacement. -/
def Replacement.place (method : Member) (r : Replacement) : Option Member × Option Nat :=
  (some method, some r.start)

/-- The events about what was folded and what was not. -/
def EventLog.decisions (l : EventLog) : List Event :=
  l.toList.filter (·.isDecision)

/-- The decisions of two logs are those of one behind those of the other. -/
theorem EventLog.decisions_append (l l' : EventLog) :
    EventLog.decisions (l ++ l') = l.decisions ++ l'.decisions := by
  simp [EventLog.decisions]

/-- Events that are no decisions leave those that are. -/
theorem EventLog.decisions_of_append {l l' : EventLog} {others : List Event}
    (hl : l'.toList = l.toList ++ others) (hothers : ∀ e ∈ others, e.isDecision = false) :
    l'.decisions = l.decisions := by
  have hnone : others.filter (·.isDecision) = [] :=
    List.filter_eq_nil_iff.2 fun e he => by simp [hothers e he]
  unfold EventLog.decisions
  rw [hl, List.filter_append, hnone, List.append_nil]

/-- An event that is no decision adds none. -/
theorem EventLog.decisions_push {e : Event} (he : e.isDecision = false) (l : EventLog) :
    EventLog.decisions (l.push e) = l.decisions :=
  decisions_of_append Array.toList_push (List.forall_mem_singleton.2 he)

/-- The places of what was folded. -/
def Event.foldedPlaces (l : List Event) : List (Option Member × Option Nat) :=
  (l.filter (·.kind.isFold)).map Event.place

/-- The places of two lists of events are those of one behind those of the other. -/
theorem Event.foldedPlaces_append (l l' : List Event) :
    Event.foldedPlaces (l ++ l') = Event.foldedPlaces l ++ Event.foldedPlaces l' := by
  simp [Event.foldedPlaces]

/-- Whatever is about something folded is a decision. -/
theorem EventLog.foldedPlaces_decisions (l : EventLog) :
    Event.foldedPlaces l.decisions = Event.foldedPlaces l.toList := by
  have hfold (e : Event) : (e.kind.isFold && e.isDecision) = e.kind.isFold := by
    unfold Event.isDecision
    cases e.kind.isFold <;> rfl
  unfold Event.foldedPlaces EventLog.decisions
  rw [List.filter_filter]
  simp only [hfold]

namespace Scan

/-- A step of a scan that notes no decision. -/
class Silent {α : Type} (x : Scanning α) : Prop where
  keeps : ∀ {r r' : Scan} {a : α}, x r = .ok (a, r') → r'.log.decisions = r.log.decisions

section Silent

variable {α β : Type}

instance (a : α) : Silent (pure a : Scanning α) where
  keeps h := by cases h; rfl

instance (e : Error) : Silent (throw e : Scanning α) where
  keeps h := by cases h

instance : Silent (get : Scanning Scan) where
  keeps h := by cases h; rfl

instance (x : Except Error α) : Silent (liftM x : Scanning α) where
  keeps {r r' a} h := by
    cases x with
    | error e => cases h
    | ok b => cases h; rfl

/-- Two parts that decide nothing do so one after the other. -/
theorem Silent.bind {x : Scanning α} {f : α → Scanning β} (hx : Silent x)
    (hf : ∀ a, Silent (f a)) : Silent (x >>= f) where
  keeps {r r' b} h := by
    rcases except_bind_ok (f := fun p : α × Scan => f p.1 p.2) h with ⟨⟨a, t⟩, ha, hb⟩
    exact ((hf a).keeps hb).trans (hx.keeps ha)

instance (x : Scanning α) (f : α → Scanning β) [Silent x] [∀ a, Silent (f a)] :
    Silent (x >>= f) :=
  Silent.bind inferInstance inferInstance

instance (c : Prop) [Decidable c] (x y : Scanning α) [Silent x] [Silent y] :
    Silent (if c then x else y) := by
  split <;> infer_instance

/-- A change of what was found that adds no decision to the events. -/
theorem silent_modify {f : Scan → Scan} (hf : ∀ r, (f r).log.decisions = r.log.decisions) :
    Silent (modify f : Scanning PUnit) where
  keeps {r _ _} h := by cases h; exact hf r

instance (l : List α) (f : α → Scanning PUnit) [hf : ∀ a, Silent (f a)] :
    Silent (l.forM f) := by
  induction l with
  | nil => exact inferInstanceAs (Silent (pure PUnit.unit))
  | cons a rest ih => exact inferInstanceAs (Silent (f a >>= fun _ => rest.forM f))

instance (m : Member) (reason : String) : Silent (invalid m reason : Scanning α) := by
  unfold invalid
  infer_instance

instance (name : String) (a : Alternative) : Silent (addAlternative name a) :=
  silent_modify fun _ => rfl

instance (c : ClassFile) : Silent (scanEnum c) := by
  have hfields : Silent (modify fun r =>
      { r with fields := r.fields.insertMany (enumerators c) }) := silent_modify fun _ => rfl
  have hfactory (l : List (String × Recipe)) :
      Silent (modify fun r => { r with enumFactories := r.enumFactories ++ l }) :=
    silent_modify fun _ => rfl
  have hinfo (text : String) : Silent (modify fun r => { r with log := r.log.info text }) :=
    silent_modify fun r => EventLog.decisions_push rfl r.log
  unfold scanEnum
  infer_instance

instance (c : ClassFile) (f : Field) : Silent (scanReusable c f) := by
  have hwarn (text : String) : Silent (modify fun r => { r with log := r.log.warn text }) :=
    silent_modify fun r => EventLog.decisions_push rfl r.log
  unfold scanReusable
  dsimp only
  split
  · refine Silent.bind inferInstance fun _ => Silent.bind inferInstance fun type => ?_
    split <;> infer_instance
  · refine Silent.bind inferInstance fun type => ?_
    split <;> infer_instance

instance (c : ClassFile) (f : Field) : Silent (scanField c f) := by
  have hfield : Silent (modify fun r => { r with fields := r.fields.insert (c.fieldMember f) }) :=
    silent_modify fun _ => rfl
  unfold scanField
  infer_instance

instance (u : Universe) (c : ClassFile) (m : Method) : Silent (recipeOf u c m) := by
  unfold recipeOf
  dsimp only
  split
  · infer_instance
  · split
    · refine Silent.bind inferInstance fun type => ?_
      split <;> infer_instance
    · infer_instance

instance (name : String) (recipe : Recipe) : Silent (addRecipe name recipe) := by
  have hrecipe : Silent (modify fun r =>
      { r with executables := r.executables.insert name recipe }) := silent_modify fun _ => rfl
  unfold addRecipe
  refine Silent.bind inferInstance fun r => ?_
  split <;> infer_instance

instance (u : Universe) (c : ClassFile) (m : Method) : Silent (scanMethod u c m) := by
  have hmethod (p : Predicate) : Silent (modify fun r =>
      { r with methods := r.methods.insert (c.methodMember m) p }) := silent_modify fun _ => rfl
  unfold scanMethod
  dsimp only
  infer_instance

instance (u : Universe) (c : ClassFile) : Silent (scanClass u c) := by
  have htype : Silent (modify fun r => { r with types := r.types.insert c.name }) :=
    silent_modify fun _ => rfl
  unfold scanClass
  infer_instance

instance : Silent addEnumFactories := by
  unfold addEnumFactories
  infer_instance

end Silent

/-- A scan notes no decision. -/
theorem decisions_ofUniverse {u : Universe} {found : Scan} (h : ofUniverse u = .ok found) :
    found.log.decisions = [] := by
  rcases except_bind_ok h with ⟨⟨⟨⟩, r⟩, hscan, h⟩
  cases h
  -- The instances above follow the scan down to its single steps.
  have hsilent : Silent (do
      u.entries.forM fun e => scanClass u e.outline
      addEnumFactories) := inferInstance
  exact hsilent.keeps hscan

end Scan

/-- A setup that can be read is built from what was read. -/
theorem Setup.build_eq {setup : Setup} {output : Option OutputMode} {u : Universe} {found : Scan}
    (houtput : setup.output = .ok output)
    (hkeys : Setup.checkKeys (setup.primary ++ setup.classPath) = .ok ())
    (hclasses : setup.readClasses = .ok u) (hfound : Scan.ofUniverse u = .ok found) :
    setup.build = .ok (setup.merge output u found,
      found.log.info (Setup.remark (setup.merge output u found))) := by
  unfold Setup.build
  rw [houtput, hkeys, hclasses]
  change (Scan.ofUniverse u >>= _) = _
  rw [hfound]
  rfl

/-- A configuration that was just built has made no decision. -/
theorem Setup.decisions_build {setup : Setup} {c : Config} {log : EventLog}
    (h : setup.build = .ok (c, log)) : log.decisions = [] := by
  rcases except_bind_ok h with ⟨output, -, h⟩
  rcases except_bind_ok h with ⟨_, -, h⟩
  rcases except_bind_ok h with ⟨u, -, h⟩
  rcases except_bind_ok h with ⟨found, hfound, h⟩
  cases h
  exact (EventLog.decisions_push rfl _).trans (Scan.decisions_ofUniverse hfound)

/-- Events of a pass over a body that go together with replacements in it. -/
structure Subject.Decides (s : Subject) (found : List Replacement) (noted : List Event) :
    Prop where
  decisions : ∀ e ∈ noted, e.isDecision = true ∧ e.pass = some s.pass
  places : Event.foldedPlaces noted = found.map (Replacement.place s.method)

/-- The decisions of two parts stand for the replacements of both. -/
theorem Subject.Decides.append {s : Subject} {found more : List Replacement}
    {noted events : List Event} (h : s.Decides found noted) (h' : s.Decides more events) :
    s.Decides (found ++ more) (noted ++ events) where
  decisions := List.forall_mem_append.2 ⟨h.decisions, h'.decisions⟩
  places := by rw [Event.foldedPlaces_append, h.places, h'.places, List.map_append]

namespace Analysis

/-- The state with more replacements, the events that go with them, and fields that have become
    known. -/
def Adds (s : Subject) (t u : Tracker) : Prop :=
  ∃ found noted resolved, s.Decides found noted ∧ (∀ e ∈ resolved, e.isDecision = false) ∧
    u.replacements.toList = t.replacements.toList ++ found ∧
    u.passLog.toList = t.passLog.toList ++ noted ∧
    u.runLog.toList = t.runLog.toList ++ resolved

/-- Two steps add what both of them do. -/
theorem Adds.trans {s : Subject} {t u v : Tracker} (h : Adds s t u) (h' : Adds s u v) :
    Adds s t v := by
  rcases h with ⟨found, noted, resolved, hdecides, hresolved, hr, hp, hl⟩
  rcases h' with ⟨more, events, known, hmore, hknown, hr', hp', hl'⟩
  refine ⟨found ++ more, noted ++ events, resolved ++ known, hdecides.append hmore,
    List.forall_mem_append.2 ⟨hresolved, hknown⟩, ?_, ?_, ?_⟩
  · rw [hr', hr, List.append_assoc]
  · rw [hp', hp, List.append_assoc]
  · rw [hl', hl, List.append_assoc]

/-- Nothing is added by what changes neither the replacements nor the events. -/
theorem Adds.of_eq {s : Subject} {t u : Tracker} (hr : u.replacements = t.replacements)
    (hp : u.passLog = t.passLog) (hl : u.runLog = t.runLog) : Adds s t u :=
  ⟨[], [], [], ⟨List.forall_mem_nil _, rfl⟩, List.forall_mem_nil _, by rw [hr, List.append_nil],
    by rw [hp, List.append_nil], by rw [hl, List.append_nil]⟩

/-- Every operation of an analysis adds replacements and events that go together. -/
theorem tracks_adds (env : Env) (s : Subject) : Tracks env s fun t _ u _ => Adds s t u where
  trans h h' := h.trans h'
  stack _ _ _ := .of_eq rfl rfl rfl
  machine _ := ⟨fun _ => .of_eq rfl rfl rfl, fun h h' => h.trans h', fun _ => .of_eq rfl rfl rfl,
    fun _ _ => .of_eq rfl rfl rfl, fun _ _ _ => .of_eq rfl rfl rfl⟩
  answers _ _ _ _ := .of_eq rfl rfl rfl
  skip t _ kind p member text hkind := by
    -- An event about something that is not folded is no event about something folded.
    have hfold : kind.isFold = false := by cases kind <;> first | rfl | cases hkind
    refine ⟨[], [s.event kind p member text], [], ⟨?_, ?_⟩, List.forall_mem_nil _,
      (List.append_nil _).symm, Array.toList_push, (List.append_nil _).symm⟩
    · exact List.forall_mem_singleton.2 ⟨by simp [Event.isDecision, Subject.event, hkind], rfl⟩
    · simp [Event.foldedPlaces, Subject.event, hfold]
  fold t _ kind r member text hkind _ := by
    refine ⟨[r], [s.event kind r.start member text], [], ⟨?_, ?_⟩, List.forall_mem_nil _,
      Array.toList_push, Array.toList_push, (List.append_nil _).symm⟩
    · exact List.forall_mem_singleton.2 ⟨by simp [Event.isDecision, Subject.event, hkind], rfl⟩
    · simp [Event.foldedPlaces, Subject.event, hkind, Event.place, Replacement.place]
  resolve t _ p declared text :=
    ⟨[], [], [s.event .fieldResolved p (some declared) text], ⟨List.forall_mem_nil _, rfl⟩,
      List.forall_mem_singleton.2 rfl, (List.append_nil _).symm, (List.append_nil _).symm,
      Array.toList_push⟩

/-- What following a body adds to the events of the pass goes together with its replacements. -/
theorem replacements_decides (s : Subject) (t : Tracker) (env : Env) (m : Machine) :
    ∃ noted resolved, s.Decides (replacements s t env m).1.1 noted ∧
      (∀ e ∈ resolved, e.isDecision = false) ∧
      (replacements s t env m).1.2.passLog.toList = t.passLog.toList ++ noted ∧
      (replacements s t env m).1.2.runLog.toList = t.runLog.toList ++ resolved := by
  have hadds : Adds s { t with stack := [], replacements := #[] } (replacements s t env m).1.2 :=
    (tracks_adds env s).replacements (fun _ _ _ _ _ => .of_eq rfl rfl rfl)
  rcases hadds with ⟨found, noted, resolved, hdecides, hresolved, hr, hp, hl⟩
  have hfound : (replacements s t env m).1.1 = found := hr
  exact ⟨noted, resolved, hfound ▸ hdecides, hresolved, hp, hl⟩

end Analysis

/-- A method of a class with the replacements that were found in its body. -/
structure MethodFold where
  method : Method
  found : List Replacement

/-- The method with the replacements woven into its body. -/
def MethodFold.folded (w : MethodFold) : Method :=
  match w.method.body with
  | none => w.method
  | some b => { w.method with body := some (b.splice w.found) }

/-- Whether something was woven in. -/
def MethodFold.modified (w : MethodFold) : Bool :=
  !w.found.isEmpty

/-- The places of the replacements. -/
def MethodFold.places (owner : ClassFile) (w : MethodFold) :
    List (Option Member × Option Nat) :=
  w.found.map (Replacement.place (owner.methodMember w.method))

/-- A class of a pass with the replacements that were found in its bodies. -/
structure ClassFold where
  /-- The class as it came. -/
  entry : ClassEntry
  /-- What was read. -/
  read : ClassFile
  /-- The methods in order. -/
  methods : List MethodFold

namespace ClassFold

/-- The class behind the pass. -/
def result (w : ClassFold) : FoldedClass where
  entry := w.entry
  folded := { w.read with methods := w.methods.map MethodFold.folded }
  modified := w.methods.any MethodFold.modified

/-- The places of the replacements. -/
def places (w : ClassFold) : List (Option Member × Option Nat) :=
  w.methods.flatMap (MethodFold.places w.read)

/-- A class changes if and only if something is replaced in it. -/
theorem modified_result (w : ClassFold) : w.result.modified = !w.places.isEmpty := by
  have hmethod (m : MethodFold) : m.modified = !(m.places w.read).isEmpty := by
    rw [MethodFold.modified, MethodFold.places, List.isEmpty_map]
  change w.methods.any MethodFold.modified = !(w.methods.flatMap (MethodFold.places w.read)).isEmpty
  induction w.methods with
  | nil => rfl
  | cons m rest ih =>
      rw [List.any_cons, List.flatMap_cons, ih, hmethod]
      cases m.places w.read <;> rfl

/-- What a pass makes of a class that was read: all of its methods are still there. -/
def Reads (w : ClassFold) (e : ClassEntry) : Prop :=
  w.entry = e ∧ e.full = .ok w.read ∧ w.methods.map MethodFold.method = w.read.methods

/-- Nothing that is replaced in a class marks it. -/
theorem Reads.markerCount_result {e : ClassEntry} {w : ClassFold} (h : w.Reads e) :
    w.result.folded.markerCount = w.read.markerCount := by
  have hmethod (m : MethodFold) : m.folded.annotations = m.method.annotations := by
    unfold MethodFold.folded
    cases m.method.body <;> rfl
  have hmethods : (w.methods.map MethodFold.folded).flatMap (·.annotations) =
      w.read.methods.flatMap (·.annotations) := by
    rw [← h.2.2, List.flatMap_map, List.flatMap_map]
    exact congrArg (w.methods.flatMap ·) (funext hmethod)
  change Marker.count _ + _ + Marker.count ((w.methods.map MethodFold.folded).flatMap _) = _
  rw [hmethods]
  rfl

/-- A class that is modified has a replacement. -/
theorem places_ne_nil {w : ClassFold} (h : w.result.modified = true) : w.places ≠ [] := by
  rw [modified_result] at h
  intro hnone
  rw [hnone] at h
  cases h

end ClassFold

namespace Folding

section Weaving

variable {α β γ : Type} (j : FoldJob)

/-- Analyses the body of a method and answers the replacements with it. -/
def weaveMethod (pass : Nat) (owner : ClassFile) (m : Method) : Folding MethodFold := do
  match m.body with
  | none => return ⟨m, []⟩
  | some b => return ⟨m, ← analyse j (.ofBody j.config pass owner m b)⟩

/-- Analyses the bodies of a class and answers the replacements with it. -/
def weaveClass (pass : Nat) (e : ClassEntry) : Folding ClassFold := do
  match e.full with
  | .error cause => throw cause
  | .ok c => return ⟨e, c, ← c.methods.mapM (weaveMethod j pass c)⟩

/-- A pass that does something with each primary class. -/
def passWith (pass : Nat) (fold : ClassEntry → Folding α) : Folding (List α × Nat) := do
  let known := (← get).progress.resolved.size
  let name := "pass " ++ toString pass
  note { kind := .passStarted, pass := some pass,
         message := name ++ ": " ++ toString known ++ " resolved fields" }
  modify fun s => { s with passLog := #[] }
  let classes ← j.config.classes.primaries.mapM fold
  let grown := (← get).progress.resolved.size - known
  note { kind := .passCompleted, pass := some pass,
         message := name ++ ": " ++ toString (← get).passLog.size ++ " events, "
           ++ toString grown ++ " new resolved fields" }
  return (classes, grown)

/-- Passes from the given one on, each done in the same way. -/
def passesWith (run : Nat → Folding (List α × Nat)) : Nat → Nat → Folding (List α × Nat)
  | 0, pass => do
    let (classes, _) ← run pass
    keepPass
    return (classes, pass)
  | more + 1, pass => do
    let (classes, grown) ← run pass
    if grown = 0 then
      keepPass
      return (classes, pass)
    else passesWith run more (pass + 1)

/-- A pass that answers the replacements with the classes. -/
def weavePass (pass : Nat) : Folding (List ClassFold × Nat) :=
  passWith j pass (weaveClass j pass)

/-- The passes of a run, with the replacements of the last one. -/
def weaves : Folding (List ClassFold × Nat) :=
  passesWith (weavePass j) j.config.finalFields 1

theorem map_mapM (f : γ → Folding α) (g : α → β) (l : List γ) :
    l.mapM (fun a => g <$> f a) = List.map g <$> l.mapM f := by
  induction l with
  | nil => rfl
  | cons a rest ih =>
      rw [List.mapM_cons, List.mapM_cons, ih]
      simp only [map_eq_pure_bind, bind_assoc, pure_bind, List.map_cons]

/-- Weaving a method is folding it, with the replacements kept. -/
theorem foldMethod_eq (pass : Nat) (owner : ClassFile) (m : Method) :
    foldMethod j pass owner m
      = (fun w => (w.folded, w.modified)) <$> weaveMethod j pass owner m := by
  unfold foldMethod weaveMethod
  cases hbody : m.body with
  | none => simp [MethodFold.folded, MethodFold.modified, hbody]
  | some b =>
      simp only [map_eq_pure_bind, bind_assoc, pure_bind]
      refine bind_congr fun found => ?_
      cases found with
      | nil =>
          cases m
          cases hbody
          rfl
      | cons first rest => simp [MethodFold.folded, MethodFold.modified, Body.apply, hbody]

-- And so is weaving a class.
theorem foldClass_eq (pass : Nat) (e : ClassEntry) :
    foldClass j pass e = ClassFold.result <$> weaveClass j pass e := by
  unfold foldClass weaveClass
  cases e.full with
  | error cause => rfl
  | ok c =>
      have hmethods : foldMethod j pass c
          = fun m => (fun w => (w.folded, w.modified)) <$> weaveMethod j pass c m :=
        funext fun m => foldMethod_eq j pass c m
      dsimp only
      rw [hmethods, map_mapM]
      simp [ClassFold.result, Function.comp_def]

/-- A pass. -/
theorem runPass_eq (pass : Nat) :
    runPass j pass = (fun r => (r.1.map ClassFold.result, r.2)) <$> weavePass j pass := by
  have hclasses : foldClass j pass = fun e => ClassFold.result <$> weaveClass j pass e :=
    funext fun e => foldClass_eq j pass e
  change passWith j pass (foldClass j pass) = _
  rw [hclasses]
  unfold weavePass passWith
  simp only [map_mapM]
  simp only [map_eq_pure_bind, bind_assoc, pure_bind]

-- And all passes.
theorem passesFrom_eq (more pass : Nat) :
    passesFrom j more pass
      = (fun r => (r.1.map ClassFold.result, r.2)) <$> passesWith (weavePass j) more pass := by
  induction more generalizing pass with
  | zero =>
      simp only [passesFrom, passesWith, runPass_eq, map_eq_pure_bind, bind_assoc, pure_bind]
  | succ more ih =>
      simp only [passesFrom, passesWith, runPass_eq, map_eq_pure_bind, bind_assoc, pure_bind]
      refine bind_congr fun r => ?_
      split
      · simp only [bind_assoc, pure_bind]
      · rw [ih, map_eq_pure_bind]

/-- The passes of a run weave the replacements into the classes. -/
theorem passes_eq : passes j = (fun r => (r.1.map ClassFold.result, r.2)) <$> weaves j :=
  passesFrom_eq j _ 1

end Weaving

/-- A part of a pass adds decisions to the events of the pass, with the given places of what was
    folded. To the events of the run it adds none. -/
def Decides (pass : Nat) (places : List (Option Member × Option Nat)) (s t : FoldState) : Prop :=
  ∃ noted : List Event, t.passLog.toList = s.passLog.toList ++ noted ∧
    t.log.decisions = s.log.decisions ∧
    (∀ e ∈ noted, e.isDecision = true ∧ e.pass = some pass) ∧ Event.foldedPlaces noted = places

section Pass

variable {j : FoldJob} {pass : Nat} {s t u : FoldState}
variable {places more : List (Option Member × Option Nat)}

theorem decides_refl : Decides pass [] s s :=
  ⟨[], (List.append_nil _).symm, rfl, List.forall_mem_nil _, rfl⟩

/-- One part decides behind another. -/
theorem Decides.trans (h : Decides pass places s t) (h' : Decides pass more t u) :
    Decides pass (places ++ more) s u := by
  rcases h with ⟨noted, hp, hl, hnoted, hplaces⟩
  rcases h' with ⟨events, hp', hl', hevents, hmore⟩
  refine ⟨noted ++ events, ?_, hl'.trans hl, List.forall_mem_append.2 ⟨hnoted, hevents⟩, ?_⟩
  · rw [hp', hp, List.append_assoc]
  · rw [Event.foldedPlaces_append, hplaces, hmore]

/-- Several parts of a pass, one after the other. -/
theorem decides_mapM {γ ω : Type} {f : γ → Folding ω}
    {placesOf : ω → List (Option Member × Option Nat)}
    (h : ∀ a s w t, f a s = .ok w t → Decides pass (placesOf w) s t)
    {l : List γ} {ws : List ω} (hl : l.mapM f s = .ok ws t) :
    Decides pass (ws.flatMap placesOf) s t := by
  induction l generalizing s ws with
  | nil =>
      cases hl
      exact decides_refl
  | cons a rest ih =>
      rw [List.mapM_cons] at hl
      rcases bind_eq_ok hl with ⟨w, u, hw, hl⟩
      rcases bind_eq_ok hl with ⟨others, v, hrest, hl⟩
      cases hl
      exact (h a s w u hw).trans (ih hrest)

/-- Following a body. -/
theorem analyse_decides {subject : Subject} {found : List Replacement}
    (h : analyse j subject s = .ok found t) :
    Decides subject.pass (found.map (Replacement.place subject.method)) s t := by
  have hdecides := Analysis.replacements_decides subject
    ⟨s.progress, s.log, s.passLog, [], #[]⟩ j.env s.machine
  rcases hrun : Analysis.replacements subject ⟨s.progress, s.log, s.passLog, [], #[]⟩ j.env
    s.machine with ⟨⟨found', u⟩, m⟩
  rw [hrun] at hdecides
  rw [analyse_eq hrun] at h
  cases h
  rcases hdecides with ⟨noted, resolved, hdecides, hresolved, hp, hl⟩
  exact ⟨noted, hp, EventLog.decisions_of_append hl hresolved, hdecides.decisions,
    hdecides.places⟩

/-- A method decides exactly its replacements. -/
theorem weaveMethod_decides {owner : ClassFile} {m : Method} {w : MethodFold}
    (h : weaveMethod j pass owner m s = .ok w t) : Decides pass (w.places owner) s t := by
  unfold weaveMethod at h
  cases hbody : m.body with
  | none =>
      rw [hbody] at h
      cases h
      exact decides_refl
  | some b =>
      rw [hbody] at h
      rcases bind_eq_ok h with ⟨found, u, hfound, h⟩
      cases h
      exact analyse_decides hfound

/-- A class those of its methods. -/
theorem weaveClass_decides {e : ClassEntry} {w : ClassFold} (h : weaveClass j pass e s = .ok w t) :
    Decides pass w.places s t := by
  unfold weaveClass at h
  cases hfull : e.full with
  | error cause =>
      rw [hfull] at h
      cases h
  | ok c =>
      rw [hfull] at h
      rcases bind_eq_ok h with ⟨methods, u, hmethods, h⟩
      cases h
      exact decides_mapM (fun _ _ _ _ hm => weaveMethod_decides hm) hmethods

/-- A pass makes its decisions anew, and its places are those of its replacements. -/
theorem weavePass_decides {ws : List ClassFold} {grown : Nat}
    (h : weavePass j pass s = .ok (ws, grown) t) :
    t.log.decisions = s.log.decisions ∧
      (∀ e ∈ t.passLog.toList, e.isDecision = true ∧ e.pass = some pass) ∧
      Event.foldedPlaces t.passLog.toList = ws.flatMap ClassFold.places := by
  rcases bind_eq_ok h with ⟨_, s₁, hget, h⟩
  cases hget
  rcases bind_eq_ok h with ⟨_, s₂, hstarted, h⟩
  cases hstarted
  -- What an earlier pass has noted is dropped here, and the classes start on an empty log.
  rcases bind_eq_ok h with ⟨_, s₃, hclear, h⟩
  cases hclear
  rcases bind_eq_ok h with ⟨_, s₄, hclasses, h⟩
  rcases bind_eq_ok h with ⟨_, s₅, hget, h⟩
  cases hget
  rcases bind_eq_ok h with ⟨_, s₆, hget, h⟩
  cases hget
  rcases bind_eq_ok h with ⟨_, s₇, hcompleted, h⟩
  cases hcompleted
  cases h
  rcases decides_mapM (fun _ _ _ _ hw => weaveClass_decides hw) hclasses with
    ⟨noted, hp, hl, hnoted, hplaces⟩
  rw [List.nil_append] at hp
  rw [EventLog.decisions_push rfl] at hl
  refine ⟨(EventLog.decisions_push rfl _).trans hl, ?_, ?_⟩
  · rw [hp]
    exact hnoted
  · rw [hp]
    exact hplaces

/-- What is woven is the method that was given. -/
theorem weaveMethod_ensures (owner : ClassFile) (m : Method) :
    Ensures (fun _ => True) (weaveMethod j pass owner m) fun w => w.method = m := by
  unfold weaveMethod
  cases m.body with
  | none => exact ensures_pure rfl
  | some b =>
      have hanalyse : Ensures (fun _ => True) (analyse j (.ofBody j.config pass owner m b))
          fun _ => True := fun _ _ _ _ _ => ⟨trivial, trivial⟩
      exact hanalyse.bind fun _ _ => ensures_pure rfl

-- And the class that was read.
theorem weaveClass_ensures (e : ClassEntry) :
    Ensures (fun _ => True) (weaveClass j pass e) fun w => w.Reads e := by
  unfold weaveClass
  cases hfull : e.full with
  | error cause => exact ensures_throw _
  | ok c =>
      refine (ensures_mapM fun m _ => weaveMethod_ensures c m).bind fun methods hmethods => ?_
      have hall : List.Forall₂ (fun m w => m = MethodFold.method w) c.methods methods :=
        hmethods.imp fun _ _ hm => hm.symm
      have heq : c.methods = methods.map MethodFold.method := by
        rw [← List.forall₂_eq_eq_eq, List.forall₂_map_right_iff]
        exact hall
      exact ensures_pure ⟨rfl, hfull, heq.symm⟩

/-- A pass goes through the classes in order. -/
theorem weavePass_reads {ws : List ClassFold} {grown : Nat}
    (h : weavePass j pass s = .ok (ws, grown) t) :
    List.Forall₂ (fun e w => w.Reads e) j.config.classes.primaries ws := by
  have hpass : Ensures (fun _ => True) (weavePass j pass) fun r =>
      List.Forall₂ (fun e w => ClassFold.Reads w e) j.config.classes.primaries r.1 := by
    have hsilent (e : Event) : Ensures (fun _ => True) (note e) fun _ => True :=
      ensures_modify fun _ hs => hs
    refine ensures_get.bind fun _ _ => (hsilent _).bind fun _ _ => ?_
    refine (ensures_modify fun _ _ => trivial).bind fun _ _ => ?_
    refine (ensures_mapM fun e _ => weaveClass_ensures e).bind fun classes hclasses => ?_
    refine ensures_get.bind fun _ _ => ensures_get.bind fun _ _ => ?_
    exact (hsilent _).bind fun _ _ => ensures_pure hclasses
  exact (hpass s _ t trivial h).2

/-- The pass that is kept. Its decisions become those of the run. -/
theorem keepPass_decides {ws : List ClassFold} {r : List ClassFold × Nat}
    (h : (keepPass >>= fun _ => pure (ws, pass) : Folding _) s = .ok r t) :
    r = (ws, pass) ∧ keepPass s = .ok ⟨⟩ t ∧
      t.log.decisions = s.log.decisions ++ s.passLog.decisions := by
  cases h
  exact ⟨rfl, rfl, EventLog.decisions_append _ _⟩

/-- The decisions of a run are those of the last pass, which is the one that is kept. -/
theorem weaves_decides (more pass : Nat) {r : List ClassFold × Nat}
    (h : passesWith (weavePass j) more pass s = .ok r t) :
    ∃ u v grown, weavePass j r.2 u = .ok (r.1, grown) v ∧ keepPass v = .ok ⟨⟩ t ∧
      t.log.decisions = s.log.decisions ++ v.passLog.decisions := by
  induction more generalizing pass s with
  | zero =>
      rcases bind_eq_ok h with ⟨⟨ws, grown⟩, v, hpass, hkeep⟩
      rcases keepPass_decides hkeep with ⟨rfl, hkept, hlog⟩
      exact ⟨s, v, grown, hpass, hkept, by rw [hlog, (weavePass_decides hpass).1]⟩
  | succ more ih =>
      rcases bind_eq_ok h with ⟨⟨ws, grown⟩, v, hpass, hrest⟩
      have hearlier := (weavePass_decides hpass).1
      dsimp only at hrest
      split at hrest
      · rcases keepPass_decides hrest with ⟨rfl, hkept, hlog⟩
        exact ⟨s, v, grown, hpass, hkept, by rw [hlog, hearlier]⟩
      · -- The pass is thrown away, and the next one starts without its events.
        rcases ih (pass + 1) hrest with ⟨u, w, last, hlast, hkept, hlog⟩
        exact ⟨u, w, last, hlast, hkept, by rw [hlog, hearlier]⟩

end Pass

section Closing

variable {decided : List Event}

/-- An event that is no decision may be noted. -/
theorem note_silent {e : Event} (he : e.isDecision = false) :
    Ensures (fun s => s.log.decisions = decided) (note e) fun _ => True :=
  ensures_modify fun _ hs => (EventLog.decisions_push he _).trans hs

-- And any number of them.
theorem forM_note_silent {l : List Event} (hl : ∀ e ∈ l, e.isDecision = false) :
    Ensures (fun s => s.log.decisions = decided) (l.forM note) fun _ => True := by
  induction l with
  | nil => exact ensures_pure trivial
  | cons e rest ih =>
      have hall := List.forall_mem_cons.1 hl
      exact (note_silent hall.1).bind fun _ _ => ih hall.2

/-- Pruning decides nothing. -/
theorem pruneInitializer_silent (c : ClassFile) (pass : Nat) :
    ∀ e ∈ (c.pruneInitializer pass).2, e.isDecision = false := by
  unfold ClassFile.pruneInitializer
  split
  · exact List.forall_mem_nil _
  · intro e he
    rcases List.mem_append.1 he with hin | hin
    · rcases List.mem_map.1 hin with ⟨⟨f, k⟩, -, rfl⟩
      rfl
    · split at hin
      · rw [List.mem_singleton.1 hin]
        rfl
      · cases hin

/-- What is done with a class behind the passes leaves the decisions as they are. -/
theorem emitOne_silent (pass : Nat) (f : FoldedClass) :
    Ensures (fun s => s.log.decisions = decided) (emitOne pass f) fun _ => True := by
  -- Three steps, and what the first two note is no decision.
  have hprune : Ensures (fun s => s.log.decisions = decided) (prune pass f) fun _ => True := by
    unfold prune
    split
    · exact (forM_note_silent (pruneInitializer_silent f.folded pass)).bind fun _ _ =>
        ensures_pure trivial
    · exact ensures_pure trivial
  refine hprune.bind fun c _ => ?_
  have hstrip : Ensures (fun s => s.log.decisions = decided) (strip pass c) fun _ => True := by
    unfold strip
    dsimp only
    split
    · exact ensures_pure trivial
    · exact (note_silent rfl).bind fun _ _ => ensures_pure trivial
  refine hstrip.bind fun r _ => ?_
  dsimp only
  split
  · split
    · exact ensures_pure trivial
    · exact ensures_throw _
  · exact ensures_pure trivial

/-- Emitting decides nothing. -/
theorem emit_silent {classes : List FoldedClass} {pass : Nat} {s t : FoldState}
    {os : List (Option (String × Delivery))} (h : classes.mapM (emitOne pass) s = .ok os t) :
    t.log.decisions = s.log.decisions :=
  (ensures_mapM (fun f _ => emitOne_silent pass f) s os t rfl h).1

end Closing

end Folding

namespace Config

-- Nor delivering.
theorem deliver_silent {c : Config} {l : List (String × Delivery)} {s t : RunState}
    (h : c.deliver l s = .ok () t) : t.log.decisions = s.log.decisions := by
  unfold deliver at h
  split at h
  · cases h
    rfl
  · split at h
    · cases h
    · split at h
      · cases h
      · cases h
        refine EventLog.decisions_of_append Array.toList_append fun e he => ?_
        rcases List.mem_map.1 he with ⟨⟨name, d⟩, -, rfl⟩
        rfl

/-- The last pass of a run that starts with the given events: its classes with their replacements
    and the state behind it. -/
structure LastPass (c : Config) (log : EventLog) (pass : Nat) (ws : List ClassFold)
    (v : FoldState) : Prop where
  runs : ∃ u grown, Folding.weavePass (.ofConfig c) pass u = .ok (ws, grown) v
  kept : ∃ t, Folding.keepPass v = .ok ⟨⟩ t ∧
    Folding.weaves (.ofConfig c) { log } = .ok (ws, pass) t ∧
    Folding.passes (.ofConfig c) { log } = .ok (ws.map ClassFold.result, pass) t

/-- The decisions in the events of a run that succeeds are those of its last pass, behind those
    that were there before. Those for what was folded stand one to one for the replacements that
    were woven into the classes of that pass. -/
theorem run_decides {c : Config} {s t : RunState} {report : RunReport}
    (h : c.run s = .ok report t) :
    ∃ ws v, c.LastPass s.log report.passes ws v ∧
      t.log.decisions = s.log.decisions ++ v.passLog.toList ∧
      (∀ e ∈ v.passLog.toList, e.pass = some report.passes) ∧
      Event.foldedPlaces v.passLog.toList = ws.flatMap ClassFold.places := by
  unfold run at h
  split at h
  · cases h
  next outputs pass f hemit =>
    rcases Folding.emit_eq_ok hemit with ⟨classes, s₁, os, hpasses, hos, -⟩
    split at h
    · cases h
    next hdeliver =>
      cases h
      have hwoven := hpasses
      rw [Folding.passes_eq, map_eq_pure_bind] at hwoven
      rcases bind_eq_ok hwoven with ⟨⟨ws, pass⟩, s₂, hweaves, hresult⟩
      cases hresult
      rcases Folding.weaves_decides _ 1 hweaves with ⟨u, v, grown, hpass, hkept, hlog⟩
      rcases Folding.weavePass_decides hpass with ⟨-, hdecisions, hplaces⟩
      -- A pass notes nothing but decisions.
      have hall : v.passLog.decisions = v.passLog.toList :=
        List.filter_eq_self.2 fun e he => (hdecisions e he).1
      refine ⟨ws, v, ⟨⟨u, grown, hpass⟩, ⟨_, hkept, hweaves, hpasses⟩⟩, ?_,
        fun e he => (hdecisions e he).2, hplaces⟩
      rw [deliver_silent hdeliver, Folding.emit_silent hos, hlog, hall]

/-- The events of a run on a configuration that was just built account for its replacements. The
    events for what was folded stand one to one, in order and with their methods and starts, for the
    replacements that were woven into the classes of the last pass. The events about what was folded
    and what was not are those that this pass has noted, and so none is of another pass. -/
theorem run_accounts {setup : Setup} {c : Config} {log : EventLog}
    (hbuild : setup.build = .ok (c, log)) {storage : Storage} {report : RunReport} {t : RunState}
    (hrun : c.run { log, storage } = .ok report t) :
    ∃ ws v, c.LastPass log report.passes ws v ∧
      Event.foldedPlaces t.log.toList = ws.flatMap ClassFold.places ∧
      t.log.decisions = v.passLog.toList ∧
      ∀ e ∈ t.log.toList, e.isDecision = true → e.pass = some report.passes := by
  rcases run_decides hrun with ⟨ws, v, hlast, hlog, hpasses, hplaces⟩
  rw [Setup.decisions_build hbuild, List.nil_append] at hlog
  refine ⟨ws, v, hlast, ?_, hlog, fun e he hdecision => ?_⟩
  · rw [← EventLog.foldedPlaces_decisions, hlog, hplaces]
  · exact hpasses e (hlog ▸ List.mem_filter.2 ⟨he, hdecision⟩)

end Config

namespace NullCast

open ClassFile Pool Read

/-- The pool of the example. -/
def pool : Pool :=
  empty.appendAll [.utf8 "A" [65], .classRef 1, .utf8 "()V" [40, 41, 86],
    .utf8 "Code" [67, 111, 100, 101]]

/-- The bytes of the body. -/
def code : Bytes :=
  [0, 1, 0, 0, 0, 0, 0, 6, 0x01, 0xC0, 0, 2, 0x57, 0xB1, 0, 0, 0, 0]

/-- A body of it. -/
def body (instructions : List Instruction) : Body where
  maxStack := 1
  maxLocals := 0
  instructions := instructions
  modified := false

/-- Casts `null` and gives it up. -/
def cast : List Instruction :=
  [.simple .aconstNull, .typed .checkcast "A", .simple .pop, .simple .voidReturn]

/-- The body without the cast. -/
def afterwards : Body :=
  { body [.simple .aconstNull, .simple .pop, .simple .voidReturn] with modified := true }

/-- Its method, with or without the body. -/
def method (b : Option Body) : Method where
  access := ⟨8⟩
  name := "A"
  descriptor := "()V"
  body := b
  raw := some code

/-- Its class. -/
def withBody (b : Option Body) : ClassFile where
  pool := pool
  access := ⟨0x21⟩
  name := "A"
  superName := none
  methods := [method b]

-- The indices of a pool by text are hashed, and the code is decoded without them.
theorem decode_code (a v c : Bytes) (lookup : Std.HashMap PoolKey UInt16) :
    Body.decode code ⟨#[.unusable, .utf8 "A" a, .classRef 1, .utf8 "()V" v, .utf8 "Code" c],
      lookup⟩ ((method none).info "A") = .ok (body cast) := by
  cbv

/-- The body is read from its bytes. -/
theorem decode_body : Body.decode code pool ((method none).info "A") = .ok (body cast) :=
  decode_code _ _ _ pool.lookup

/-- The bytes of the method. -/
def methodWord : Bytes :=
  Bytes.ofU16 8 ++ (Bytes.ofU16 1 ++ (Bytes.ofU16 3 ++
    (Bytes.ofCount 1 ++ (Bytes.ofU16 4 ++ Bytes.lengthPrefixed code))))

/-- The bytes of the class with those of its pool. -/
def bytes (poolWord : Bytes) : Bytes :=
  Bytes.ofU32 magic ++ (Bytes.ofU16 0 ++ (Bytes.ofU16 52 ++ (poolWord ++ (Bytes.ofU16 0x21 ++
    (Bytes.ofU16 2 ++ (Bytes.ofU16 0 ++ (Bytes.ofCount 0 ++ (Bytes.ofCount 0 ++
    (Bytes.ofCount 1 ++ (methodWord ++ Bytes.ofCount 0))))))))))

/-- The method is read from its bytes, in both modes. -/
theorem takes_method {mode : ReadMode} {m : Method}
    (hm : Method.decodedIn pool "A" (method none) mode = .ok m) :
    Takes (readMethod pool "A" mode) methodWord m := by
  have hread : Takes (readAttribute pool) (Bytes.ofU16 4 ++ Bytes.lengthPrefixed code)
      ⟨"Code", code⟩ :=
    (takes_u16 4).bind ((takes_lift rfl).bind (z := Bytes.lengthPrefixed code)
      ((takes_lengthPrefixed (by decide)).map rfl))
  have hall := takes_readAttributes (List.Forall₂.cons hread .nil) (add_body pool (some code))
  rw [List.flatten_singleton] at hall
  -- The attribute of the body is the only one.
  have houtline : Takes (readMethod pool "A" .outline) methodWord (method none) := by
    refine (takes_u16 8).bind ((takes_u16 1).bind ((takes_lift rfl).bind (z := Bytes.ofU16 3
      ++ (Bytes.ofCount 1 ++ (Bytes.ofU16 4 ++ Bytes.lengthPrefixed code))) ?_))
    refine (takes_u16 3).bind ((takes_lift rfl).bind (z := Bytes.ofCount 1 ++
      (Bytes.ofU16 4 ++ Bytes.lengthPrefixed code)) ?_)
    exact (takes_counted (f := fun n => iterated (readAttributeInto pool rawBodyOf?) n {})
      (by decide) hall).map rfl
  exact takes_readMethod houtline hm

-- And the pool.
theorem takes_pool : Takes Pool.read pool.bytes pool := by
  have hlegible : pool.Legible := by
    refine ⟨_, ?_, rfl⟩
    simp only [List.forall_mem_cons]
    exact ⟨⟨by decide, rfl⟩, trivial, ⟨by decide, rfl⟩, ⟨by decide, rfl⟩, List.forall_mem_nil _⟩
  exact hlegible.takes_read (by decide)

-- So the class is read from the bytes of the input.
theorem parse_bytes {mode : ReadMode} {b : Option Body} {poolWord : Bytes}
    (hpool : Takes Pool.read poolWord pool)
    (hm : Method.decodedIn pool "A" (method none) mode = .ok (method b)) :
    parse (bytes poolWord) mode = .ok (withBody b) := by
  have hsuper : SuperAt pool 0 none := rfl
  have hattributes : Takes (readAttributes pool bootstrapsOf?) (Bytes.ofCount 0) {} :=
    (takes_u16 0).bind (takes_pure _)
  have hends := @read_ends pool mode 0 52 0x21 2 0 "A" none [] [] [] _ _ _ _ _ _ _ _ _ hpool rfl
    hsuper .nil (Nat.zero_le _) .nil (Nat.zero_le _) (.cons (takes_method hm) .nil)
    (show 1 ≤ 65535 by decide) rfl hattributes
  exact hends.parse

theorem parse_outline : parse (bytes pool.bytes) .outline = .ok (withBody none) :=
  parse_bytes takes_pool rfl

theorem parse_full : parse (bytes pool.bytes) .full = .ok (withBody (some (body cast))) :=
  parse_bytes takes_pool (congrArg (· >>= _) decode_body)

/-- The input of the run. -/
def input : ClassInput :=
  ⟨"A", bytes pool.bytes, none⟩

/-- The setup, which throws the output away. -/
def setup : Setup where
  primary := [input]
  outputs := [.sink]

def entry : ClassEntry where
  input := input
  primary := true
  outline := withBody none
  decoded := .mk fun _ => parse (bytes pool.bytes) .full

/-- What is built from it. -/
def config : Config :=
  setup.merge (some .sink) (({} : Universe).place entry) {}

theorem ofInput_input : ClassEntry.ofInput input true = .ok entry := by
  unfold ClassEntry.ofInput
  rw [show parse input.bytes .outline = .ok (withBody none) from parse_outline]
  rfl

/-- The class is read once more when it is folded. -/
theorem full_entry : entry.full = .ok (withBody (some (body cast))) :=
  (ClassEntry.full_of_ofInput ofInput_input).trans parse_full

/-- The input has one name only. -/
theorem checkKeys_eq (w : Bytes) : Setup.checkKeys [⟨"A", w, none⟩] = .ok () := by
  cbv

/-- Its class is the only one. -/
theorem readClasses_setup : setup.readClasses = .ok (({} : Universe).place entry) := by
  have hinsert : ({} : Universe).insert input true = .ok (({} : Universe).place entry) := by
    unfold Universe.insert
    rw [ofInput_input]
    rfl
  unfold Setup.readClasses
  rw [show setup.primary = [input] from rfl, List.foldlM_cons, hinsert]
  rfl

-- And declares nothing to the run.
theorem ofUniverse_setup : Scan.ofUniverse (({} : Universe).place entry) = .ok {} := by
  have hentries : (({} : Universe).place entry).entries = [entry] := rfl
  unfold Scan.ofUniverse
  rw [hentries]
  rfl

/-- The events of the setup. -/
def log : EventLog :=
  EventLog.info #[] (Setup.remark config)

/-- The setup is built. -/
theorem build_setup : setup.build = .ok (config, log) :=
  Setup.build_eq rfl (checkKeys_eq _) readClasses_setup ofUniverse_setup

def subject : Subject :=
  .ofBody config 1 (withBody (some (body cast))) (method (some (body cast))) (body cast)

/-- The null that is folded first. -/
def null : Fold :=
  { origin := .literal, start := 0, stop := 0, value := .null, type := .object objectClass }

/-- And the cast of it. -/
def fold : Fold :=
  { origin := .cast, start := 0, stop := 1, value := .null, type := .object "A",
    children := [null] }

/-- Which replaces the two instructions. -/
def span : Replacement :=
  ⟨0, 1, [.simple .aconstNull], 1⟩

/-- The cast folds what is beneath it. -/
theorem checkcast_gives (t : Tracker) (env : Env) (m : Machine) :
    Analysis.Gives (Analysis.advance 1 (.typed .checkcast "A")) subject
      { t with stack := [.known null] } env m ⟨⟩ { t with stack := [.known fold] } := by
  refine Analysis.gives_bind (a := ⟨⟩) (u := { t with stack := [.known fold] }) ?_ rfl
  refine Analysis.gives_bind (a := subject) rfl ?_
  refine Analysis.gives_bind (a := Operand.known null) (u := { t with stack := [] }) rfl ?_
  refine Analysis.gives_bind (a := m.heap) rfl ?_
  have hnext : subject.nextReal 1 = 1 := by
    rw [Subject.nextReal]
    rfl
  rw [if_pos (by simp [Analysis.passesCast, Subject.isContiguous, hnext, null])]
  rfl

-- So the body has one replacement.
theorem replacements_cast (t : Tracker) (env : Env) (m : Machine) :
    ∃ passLog, Analysis.replacements subject t env m
      = (([span], { t with passLog, stack := [], replacements := #[span] }), m) := by
  have hcast := Analysis.before_of_advance subject t env m (k := 1) rfl rfl
    (checkcast_gives { t with replacements := #[] } env m)
  have hpops : ∃ passLog, Analysis.Gives (Analysis.advance 2 (.simple .pop)) subject
      { t with stack := [.known fold], replacements := #[] } env m ⟨⟩
      { t with stack := [], replacements := #[span], passLog } := ⟨_, rfl⟩
  rcases hpops with ⟨log, hpop⟩
  have hpopped := Analysis.before_of_advance _ _ _ _ (k := 2) rfl hcast hpop
  have hreturn : Analysis.Gives (Analysis.advance 3 (.simple .voidReturn)) subject
      { t with stack := [], replacements := #[span], passLog := log } env m ⟨⟩
      { t with stack := [], replacements := #[span], passLog := log } := rfl
  exact ⟨log, Analysis.replacements_of_before _ _ _ _
    (Analysis.before_of_advance _ _ _ _ (k := 3) rfl hpopped hreturn) rfl⟩

-- And this is what it becomes.
theorem splice_cast : (body cast).splice [span] = afterwards := by
  simp only [Body.splice, byStart, List.mergeSort]
  rfl

/-- The class behind the pass. -/
def folded : FoldedClass where
  entry := entry
  folded := withBody (some afterwards)
  modified := true

/-- The method is folded. -/
theorem foldMethod_cast (s : FoldState) :
    ∃ passLog, Folding.foldMethod (.ofConfig config) 1 (withBody (some (body cast)))
      (method (some (body cast))) s
        = .ok (method (some afterwards), true) { s with passLog } := by
  rcases replacements_cast ⟨s.progress, s.log, s.passLog, [], #[]⟩ (FoldJob.ofConfig config).env
    s.machine with ⟨passLog, h⟩
  refine ⟨passLog, (bind_of_ok (Folding.analyse_eq (j := .ofConfig config) h)).trans ?_⟩
  dsimp only
  rw [Body.apply, splice_cast]
  rfl

-- With it the class.
theorem foldClass_entry (s : FoldState) :
    ∃ passLog, Folding.foldClass (.ofConfig config) 1 entry s = .ok folded { s with passLog } := by
  rcases foldMethod_cast s with ⟨passLog, hmethod⟩
  have hmethods : [method (some (body cast))].mapM (Folding.foldMethod (.ofConfig config) 1
      (withBody (some (body cast)))) s = .ok [(method (some afterwards), true)]
        { s with passLog } := mapM_cons_of_ok hmethod rfl
  unfold Folding.foldClass
  rw [full_entry]
  exact ⟨passLog, bind_of_ok hmethods⟩

-- And one pass is enough.
theorem passes_config (log : EventLog) :
    ∃ s, Folding.passes (.ofConfig config) { log } = .ok ([folded], 1) s := by
  refine Folding.passes_of_class (e := entry) rfl fun log' => ?_
  rcases foldClass_entry { log := log' } with ⟨passLog, hclass⟩
  exact ⟨_, hclass, rfl⟩

/-- The class that is folded has bytes. -/
theorem exists_toBytes : ∃ w, folded.folded.toBytes = .ok w := by
  have hcode (m : Member) : Edit.Fits 0 (afterwards.encode m) fun w => w.length = 15 :=
    fun p _ => ⟨_, p, rfl, Nat.le_add_right _ _, rfl⟩
  have hbody : Edit.Fits 0 (bodyAttribute "A" (method (some afterwards)))
      fun l => ∃ w, l = [⟨"Code", w⟩] ∧ w.length < UInt32.size :=
    (hcode _).bind (by decide) fun w hw => fits_pure ⟨w, rfl, hw ▸ by decide⟩
  have hmethod := methodBytes_fits (m := method (some afterwards)) (by decide) (by decide) rfl hbody
  have hmethods := fits_mapM (List.forall_mem_singleton.2 hmethod)
  refine toBytes_of_fits (n := 5) ?_ (show 10 ≤ 65535 by decide)
  exact bodyBytes_fits (k := 0) (n := 3) (by decide) rfl rfl rfl (Nat.zero_le _)
    (show 1 ≤ 65535 by decide) (fits_pure trivial) hmethods

-- So the run gives out that class.
theorem run_config : ∃ s, config.run { log } = .ok ⟨["A"], 1⟩ s := by
  rcases passes_config log with ⟨t, hpasses⟩
  rcases exists_toBytes with ⟨w, hw⟩
  have hemits : ∃ t', Folding.emitOne 1 folded t = .ok (some ("A", ⟨input, w⟩)) t' :=
    Folding.emitOne_of_modified (c := folded.folded) rfl rfl rfl hw t
  rcases hemits with ⟨t', hone⟩
  have hall : [folded].mapM (Folding.emitOne 1) t = .ok [some ("A", ⟨input, w⟩)] t' :=
    mapM_cons_of_ok hone rfl
  have hemit : Folding.emit (.ofConfig config) { log } = .ok ([("A", ⟨input, w⟩)], 1) t' :=
    (bind_of_ok hpasses).trans (bind_of_ok hall)
  rcases Config.run_of_emit (c := config) (s := { log }) rfl hemit with ⟨s, hrun, -⟩
  exact ⟨s, hrun⟩

end NullCast

/-- A cast that is folded in the one pass of a run: there is an event for it. -/
theorem Config.run_accounts_cast : ∃ t ws v,
    NullCast.setup.build = .ok (NullCast.config, NullCast.log) ∧
    NullCast.config.run { log := NullCast.log } = .ok ⟨["A"], 1⟩ t ∧
    NullCast.config.LastPass NullCast.log 1 ws v ∧
    Event.foldedPlaces t.log.toList = ws.flatMap ClassFold.places ∧
    t.log.decisions = v.passLog.toList ∧
    (∀ e ∈ t.log.toList, e.isDecision = true → e.pass = some 1) ∧
    Event.foldedPlaces t.log.toList ≠ [] := by
  rcases NullCast.run_config with ⟨t, hrun⟩
  rcases Config.run_accounts NullCast.build_setup hrun with ⟨ws, v, hlast, hplaces, hlog, hall⟩
  refine ⟨t, ws, v, NullCast.build_setup, hrun, hlast, hplaces, hlog, hall, ?_⟩
  rcases NullCast.passes_config NullCast.log with ⟨s, hpasses⟩
  rcases hlast.kept with ⟨s', -, -, hkept⟩
  rw [hpasses] at hkept
  have hresults : [NullCast.folded] = ws.map ClassFold.result :=
    congrArg Prod.fst (EStateM.Result.ok.inj hkept).1
  rcases List.map_eq_singleton_iff.1 hresults.symm with ⟨w, rfl, hw⟩
  rw [hplaces, List.flatMap_singleton]
  exact ClassFold.places_ne_nil (congrArg FoldedClass.modified hw)

end JvmFold
