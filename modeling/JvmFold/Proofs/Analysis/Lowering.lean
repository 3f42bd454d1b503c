import JvmFold.Proofs.Analysis.Overlap

/-!
# What a Replacement Takes Away

An analysis gives values to calls, casts and reads of fields, and to nothing
else but instructions that load a value. What it writes back without a way to
make objects again is one instruction that loads. So a replacement takes away
the call, cast or read at its end and puts none in its place, and a body holds
fewer of them afterwards.

There is one exception to look after: the class of a primitive type is loaded
by reading a field of its wrapper. Such reads do not count, and a configuration
must not give them values.

`Keeps` goes through the analysis like `Yields` does, but with an invariant of
the state that every operation keeps. What is known on the stack is a tree, and
each value in it ends in a call, cast or read unless it was loaded.

## Main definitions

* `Instruction.isFoldable`: Whether an instruction is a call, a cast or a read.
* `Config.LoadsOnly`: Values are written back by instructions that load them.
* `Fold.Grounded`: A value with those it was made from, and where they end.
* `Analysis.Tidy`: The invariant.
* `Replacement.Lowers`: A replacement that takes away more than it puts back.

## Theorems

* `Analysis.flush_keeps`: Giving up a value takes away.
* `Analysis.step_keeps`, `Analysis.advance_keeps`: An instruction keeps the invariant.
* `Analysis.replacements_lower`: Every replacement of a body takes away.
-/

namespace JvmFold

/-- Whether a field holds the class of a primitive type. -/
def Member.holdsPrimitive (f : Member) : Bool :=
  f.name == "TYPE" && f.descriptor == "Ljava/lang/Class;"
    && ("java/lang/Void" :: Wrapper.all.map Wrapper.className).contains f.owner

/-- Whether an instruction is a call, a cast or a read of a field. Reading the class of a primitive
    type only loads it. -/
def Instruction.isFoldable : Instruction → Bool
  | .typed .checkcast _ | .field .getfield _ | .invoke _ _ _ | .invokeDynamic _ _ _ => true
  | .field .getstatic f => !f.holdsPrimitive
  | _ => false

/-- No instruction that loads a literal can be folded again. -/
theorem isFoldable_literal (c : Constant) : (Instruction.literal c).isFoldable = false := by
  cases c with
  | int v =>
      simp only [Instruction.literal, Instruction.int]
      -- Each size of number has instructions of its own.
      repeat' split
      all_goals rfl
  | long v =>
      simp only [Instruction.literal]
      repeat' split
      all_goals rfl
  | float b =>
      simp only [Instruction.literal]
      repeat' split
      all_goals rfl
  | double b =>
      simp only [Instruction.literal]
      repeat' split
      all_goals rfl
  | _ => rfl

theorem holdsPrimitive_of_holder {keyword holder : String}
    (h : primitiveHolder? keyword = some holder) :
    (⟨holder, "TYPE", "Ljava/lang/Class;"⟩ : Member).holdsPrimitive = true := by
  have hmem : holder ∈ "java/lang/Void" :: Wrapper.all.map Wrapper.className := by
    unfold primitiveHolder? at h
    split at h
    · cases h
      exact List.mem_cons_self
    · rcases Option.map_eq_some_iff.1 h with ⟨w, hw, rfl⟩
      exact List.mem_cons_of_mem _ (List.mem_map_of_mem (List.mem_of_find?_eq_some hw))
  simpa [Member.holdsPrimitive] using hmem

theorem isFoldable_loadClass (name : String) : (loadClass name).isFoldable = false := by
  unfold loadClass
  split
  next holder h =>
    simp [Instruction.isFoldable, holdsPrimitive_of_holder h]
  · exact isFoldable_literal _

/-- An instruction that loads a value is no call, cast or read. -/
theorem isFoldable_encoding {h : Heap} {v : Value} {load : Instruction}
    (he : h.encoding v = .literal load) : load.isFoldable = false := by
  cases v with
  | ref r =>
      simp only [Heap.encoding, Heap.encodingOf] at he
      -- Of the objects only texts and classes are loaded by an instruction.
      split at he
      · split at he
        · cases he
        · split at he
          · cases he
            exact isFoldable_literal _
          · cases he
      · cases he
        exact isFoldable_loadClass _
      · cases he
  | null => cases he; rfl
  | _ => cases he; exact isFoldable_literal _

/-- Whether a class of the name is folded. -/
def Config.Folds (c : Config) (name : String) : Prop :=
  ∃ e ∈ c.classes.primaries, ∃ k, e.full = .ok k ∧ k.name = name

/-- Values are written back by instructions that load them: no class has a way to make its objects
    again, and the fields that hold the classes of the primitive types are not given values. -/
structure Config.LoadsOnly (c : Config) : Prop where
  selector?_eq_none : ∀ name, c.selector? name = none
  isConstantField_eq_false : ∀ f : Member, f.holdsPrimitive = true →
    c.isConstantField (c.classes.declaredField f) = false
  not_folds : ∀ f : Member, f.holdsPrimitive = true →
    ¬ c.Folds (c.classes.declaredField f).owner

/-- A call, cast or read stands at a position. -/
def Subject.FoldsAt (s : Subject) (p : Nat) : Prop :=
  ∃ i, s.code[p]? = some i ∧ i.isFoldable = true

/-- A replacement that ends in a call, cast or read and puts none in its place. -/
structure Replacement.Lowers (s : Subject) (r : Replacement) : Prop where
  last : s.FoldsAt r.stop
  code : ∀ i ∈ r.code, i.isFoldable = false

/-- A value that was loaded, or one that ends in a call, cast or read and was made from such
    values. -/
inductive Fold.Grounded (s : Subject) : Fold → Prop where
  | literal {f : Fold} (h : f.origin = .literal) : Grounded s f
  | made {f : Fold} (hlast : s.FoldsAt f.stop) (hchildren : ∀ g ∈ f.children, Grounded s g) :
      Grounded s f

theorem Fold.Grounded.stale {s : Subject} {f : Fold} (h : f.Grounded s) (stale : Bool) :
    Fold.Grounded s { f with stale } := by
  cases h with
  | literal h => exact .literal h
  | made hlast hchildren => exact .made hlast hchildren

namespace Analysis

/-- What holds of the state of an analysis throughout: the values on the stack are grounded, the
    replacements take away, and the fields that became known are of classes that are folded. -/
structure Tidy (s : Subject) (t : Tracker) : Prop where
  stack : ∀ g, Slot.known g ∈ t.stack → g.Grounded s
  replacements : ∀ r ∈ t.replacements.toList, r.Lowers s
  resolved : ∀ f ∈ t.progress.resolved, s.config.Folds f.owner

/-- A computation that keeps the invariant and whose answer meets a condition. -/
def Keeps {α : Type} (s : Subject) (x : Analysis α) (Q : α → Prop) : Prop :=
  ∀ t, Tidy s t → Yields x s t fun a t' => Tidy s t' ∧ Q a

section Rules

variable {α β : Type} {s : Subject} {Q : α → Prop} {R : β → Prop}

/-- A result leaves the state as it is. -/
theorem keeps_pure {a : α} (h : Q a) : Keeps s (pure a) Q :=
  fun _ ht => yields_pure ⟨ht, h⟩

/-- Parts that keep the state in order do so one after the other. -/
theorem Keeps.bind {x : Analysis α} {f : α → Analysis β} (hx : Keeps s x Q)
    (hf : ∀ a, Q a → Keeps s (f a) R) : Keeps s (x >>= f) R :=
  fun t ht => yields_bind ((hx t ht).mono fun a t' h => hf a h.2 t' h.1)

theorem Keeps.map {x : Analysis α} {f : α → β} (hx : Keeps s x fun a => R (f a)) :
    Keeps s (f <$> x) R :=
  fun t ht => yields_map (hx t ht)

theorem keeps_read_bind {f : Subject → Analysis β} (h : Keeps s (f s) R) :
    Keeps s (read >>= f) R :=
  fun t ht => yields_bind (yields_read (h t ht))

theorem keeps_get : Keeps s get (Tidy s) :=
  fun _ ht => yields_get ⟨ht, ht⟩

theorem keeps_modify {f : Tracker → Tracker} (h : ∀ t, Tidy s t → Tidy s (f t)) :
    Keeps s (modify f) fun _ => True :=
  fun t ht => yields_modify ⟨h t ht, trivial⟩

/-- The machine cannot spoil the order. -/
theorem keeps_probe (p : Probe α) : Keeps s (probe p) fun _ => True :=
  fun _ ht => yields_probe fun _ => ⟨ht, trivial⟩

theorem keeps_forM {f : α → Analysis PUnit} {l : List α}
    (h : ∀ a ∈ l, Keeps s (f a) fun _ => True) : Keeps s (l.forM f) fun _ => True := by
  induction l with
  | nil => exact keeps_pure trivial
  | cons a rest ih =>
      refine (h a List.mem_cons_self).bind fun _ _ => ?_
      exact ih fun b hb => h b (List.mem_cons_of_mem a hb)

end Rules

section Release

variable {s : Subject}

-- Nor can a note.
theorem note_keeps (kind : EventKind) (p : Nat) (m : Option Member) (text : String) :
    Keeps s (note kind p m text) fun _ => True :=
  keeps_read_bind (keeps_modify fun _ ht => ⟨ht.stack, ht.replacements, ht.resolved⟩)

theorem report_keeps (p : Nat) (m : Member) (f : Failure) :
    Keeps s (report p m f) fun _ => True := by
  cases f with
  | notConstant => exact keeps_pure trivial
  | rejected _ => exact note_keeps _ _ _ _
  | inaccessible _ _ => exact note_keeps _ _ _ _
  | failed _ => exact note_keeps _ _ _ _

/-- A replacement that ends in an instruction that can be folded, by code in which none can be. -/
theorem replace_keeps {f : Fold} {code : List Instruction} (hlast : s.FoldsAt f.stop)
    (hcode : ∀ i ∈ code, i.isFoldable = false) (kind : EventKind) (recipe : Option String) :
    Keeps s (replace f code kind recipe) fun _ => True := by
  refine keeps_read_bind ?_
  split
  · exact keeps_pure trivial
  · refine (keeps_probe _).bind fun h _ => ?_
    refine (note_keeps _ _ _ _).bind fun _ _ => ?_
    refine keeps_modify fun t ht => ⟨ht.stack, fun r hr => ?_, ht.resolved⟩
    rw [Array.toList_push, List.mem_append, List.mem_singleton] at hr
    rcases hr with hr | rfl
    · exact ht.replacements r hr
    · exact ⟨hlast, hcode⟩

/-- Without a way to make objects again there is no code for an object. -/
theorem rebuild_keeps (hs : s.config.LoadsOnly) (site : RebuildSite)
    (hsite : site.config = s.config) (r : HeapRef) :
    Keeps s (probe (Rebuild.run site r)) fun found => ∃ obstacle, found = .error obstacle := by
  intro t ht env m
  refine ⟨ht, ?_⟩
  change ∃ obstacle, (Rebuild.within site maxRebuildDepth [] r env _).1 = _
  have hnone := hs.selector?_eq_none
  rw [← hsite] at hnone
  rw [maxRebuildDepth, Rebuild.within, if_neg (by simp)]
  simp only [hnone]
  exact ⟨_, rfl⟩

theorem writeBack_keeps (hs : s.config.LoadsOnly) {f : Fold} (hlast : s.FoldsAt f.stop) :
    Keeps s (writeBack f) fun _ => True := by
  refine keeps_read_bind ?_
  refine (keeps_probe _).bind fun h _ => ?_
  split
  -- A literal is one instruction. Code that makes an object again does not come up, since nothing
  -- can be made.
  next load hload =>
    refine (replace_keeps hlast (fun i hi => ?_) _ _).bind fun _ _ => keeps_pure trivial
    rw [List.mem_singleton.1 hi]
    exact isFoldable_encoding hload
  · split
    · exact keeps_pure trivial
    · refine (rebuild_keeps hs _ rfl _).bind fun found hfound => ?_
      rcases hfound with ⟨obstacle, rfl⟩
      dsimp only
      split
      · exact (note_keeps _ _ _ _).bind fun _ _ => keeps_pure trivial
      · exact keeps_pure trivial

/-- Values are given up one after the other. -/
theorem flushAll_keeps_of {l : List Fold} (h : ∀ f ∈ l, Keeps s (flush f) fun _ => True) :
    Keeps s (flushAll l) fun _ => True := by
  induction l with
  | nil =>
      rw [flushAll]
      exact keeps_pure trivial
  | cons f rest ih =>
      rw [flushAll]
      refine (h f List.mem_cons_self).bind fun _ _ => ?_
      exact ih fun g hg => h g (List.mem_cons_of_mem f hg)

/-- Giving a value up writes back only values that end in a call, cast or read. -/
theorem flush_keeps (hs : s.config.LoadsOnly) {f : Fold} (hf : f.Grounded s) :
    Keeps s (flush f) fun _ => True := by
  induction hf with
  | literal h =>
      rw [flush_literal _ h]
      exact keeps_pure trivial
  | @made f hlast _ ih =>
      have hchildren : Keeps s (flushAll f.children) fun _ => True := flushAll_keeps_of ih
      by_cases horigin : f.origin = .literal
      · rw [flush_literal f horigin]
        exact keeps_pure trivial
      · -- A value that is not written back is given up for what it was made from.
        rw [flush_eq f horigin]
        dsimp only
        split
        · refine (keeps_pure (Q := fun written => written = false) rfl).bind fun _ hwritten => ?_
          rw [hwritten]
          exact hchildren
        · refine (writeBack_keeps hs hlast).bind fun written _ => ?_
          cases written with
          | true => exact keeps_pure trivial
          | false => exact hchildren

theorem flushAll_keeps (hs : s.config.LoadsOnly) {l : List Fold} (hl : ∀ f ∈ l, f.Grounded s) :
    Keeps s (flushAll l) fun _ => True :=
  flushAll_keeps_of fun f hf => flush_keeps hs (hl f hf)

/-- A slot with a value that is grounded, if it has one. -/
def Grounds (s : Subject) (slot : Slot) : Prop :=
  ∀ g, slot = .known g → g.Grounded s

/-- What is dropped was grounded. -/
theorem discard_keeps (hs : s.config.LoadsOnly) {slot : Slot} (h : Grounds s slot) :
    Keeps s (discard slot) fun _ => True := by
  cases slot with
  | known f => exact flush_keeps hs (h f rfl)
  | _ => exact keeps_pure trivial

/-- An operand with a value that is grounded, if it has one. -/
def GroundsOperand (s : Subject) (o : Operand) : Prop :=
  ∀ g, o = .known g → g.Grounded s

theorem release_keeps (hs : s.config.LoadsOnly) {l : List Operand}
    (h : ∀ o ∈ l, GroundsOperand s o) : Keeps s (release l) fun _ => True := by
  refine flushAll_keeps hs fun f hf => ?_
  rcases List.mem_filterMap.1 hf with ⟨o, ho, hof⟩
  cases o with
  | known g =>
      cases hof
      exact h _ ho f rfl
  | unknown => cases hof
  | uninitialized _ => cases hof

end Release

section Stack

variable {s : Subject}

/-- The stack may be exchanged for another one that is grounded. -/
theorem Tidy.withStack {t : Tracker} (h : Tidy s t) {stack : List Slot}
    (hstack : ∀ slot ∈ stack, Grounds s slot) : Tidy s { t with stack } :=
  ⟨fun g hg => hstack _ hg g rfl, h.replacements, h.resolved⟩

theorem Tidy.grounds {t : Tracker} (h : Tidy s t) {slot : Slot} (hslot : slot ∈ t.stack) :
    Grounds s slot := by
  rintro g rfl
  exact h.stack g hslot

theorem push_keeps {slot : Slot} (h : Grounds s slot) : Keeps s (push slot) fun _ => True := by
  refine keeps_modify fun t ht => ht.withStack fun other hother => ?_
  rcases List.mem_cons.1 hother with rfl | hother
  · exact h
  · exact ht.grounds hother

theorem pushUnknown_keeps (n : Nat) : Keeps s (pushUnknown n) fun _ => True := by
  refine keeps_modify fun t ht => ht.withStack fun slot hslot => ?_
  rcases List.mem_append.1 hslot with hslot | hslot
  · rw [List.eq_of_mem_replicate hslot]
    exact nofun
  · exact ht.grounds hslot

theorem pushFold_keeps {f : Fold} (hf : f.Grounded s) : Keeps s (pushFold f) fun _ => True := by
  refine (push_keeps fun g hg => ?_).bind fun _ _ => ?_
  · cases hg
    exact hf
  · split
    · exact push_keeps nofun
    · exact keeps_pure trivial

/-- What is popped is grounded. -/
theorem pop_keeps : Keeps s pop (Grounds s) := by
  intro t ht
  refine yields_modifyGet ?_
  cases hstack : t.stack with
  | nil => exact ⟨ht, nofun⟩
  | cons slot rest =>
      have hall : ∀ other ∈ slot :: rest, Grounds s other := fun other hother =>
        ht.grounds (hstack ▸ hother)
      exact ⟨ht.withStack fun other hother => hall other (List.mem_cons_of_mem slot hother),
        hall slot List.mem_cons_self⟩

-- So is an operand.
theorem popOperand_keeps (hs : s.config.LoadsOnly) (w : Nat) :
    Keeps s (popOperand w) (GroundsOperand s) := by
  unfold popOperand
  split
  · -- A wide value is the lower slot of two; anything else there is dropped.
    refine pop_keeps.bind fun high hhigh => pop_keeps.bind fun low hlow => ?_
    split
    next f =>
      refine keeps_pure fun g hg => ?_
      cases hg
      exact hlow f rfl
    · refine (discard_keeps hs hlow).bind fun _ _ => ?_
      exact (discard_keeps hs hhigh).bind fun _ _ => keeps_pure nofun
  · refine pop_keeps.bind fun slot hslot => ?_
    split
    next f =>
      refine keeps_pure fun g hg => ?_
      cases hg
      exact hslot f rfl
    · exact keeps_pure nofun
    · exact keeps_pure nofun

-- And all of several operands.
theorem popOperands_keeps (hs : s.config.LoadsOnly) (types : List FieldType) :
    Keeps s (popOperands types) fun l => ∀ o ∈ l, GroundsOperand s o := by
  induction types with
  | nil => exact keeps_pure nofun
  | cons type rest ih =>
      refine ih.bind fun following hfollowing => ?_
      refine (popOperand_keeps hs type.slots).bind fun o ho => ?_
      refine keeps_pure fun other hother => ?_
      rcases List.mem_cons.1 hother with rfl | hother
      · exact ho
      · exact hfollowing other hother

theorem endBlock_keeps (hs : s.config.LoadsOnly) : Keeps s endBlock fun _ => True := by
  refine keeps_get.bind fun t ht => ?_
  refine (keeps_modify fun u hu => hu.withStack (List.forall_mem_nil _)).bind fun _ _ => ?_
  refine keeps_forM fun slot hslot => discard_keeps hs ?_
  exact ht.grounds (List.mem_reverse.1 hslot)

theorem dropSlots_keeps (hs : s.config.LoadsOnly) (n : Nat) :
    Keeps s (dropSlots n) fun _ => True := by
  induction n with
  | zero => exact keeps_pure trivial
  | succ n ih =>
      refine pop_keeps.bind fun slot hslot => ?_
      exact (discard_keeps hs hslot).bind fun _ _ => ih

theorem generic_keeps (hs : s.config.LoadsOnly) (i : Instruction) :
    Keeps s (generic i) fun _ => True := by
  unfold generic
  split
  · exact endBlock_keeps hs
  · exact (dropSlots_keeps hs _).bind fun _ _ => pushUnknown_keeps _

end Stack

section Steps

variable {s : Subject} {p : Nat}

/-- The values among the operands are grounded. -/
theorem evaluable?_keeps {l : List Operand} (h : ∀ o ∈ l, GroundsOperand s o)
    (cursor : Option Nat) :
    Keeps s (evaluable? p cursor l) fun found =>
      ∀ fs, found = some fs → ∀ f ∈ fs, f.Grounded s := by
  unfold evaluable?
  split
  · exact keeps_pure nofun
  next folds hfolds =>
    refine keeps_read_bind ?_
    split
    · exact keeps_pure nofun
    · refine (keeps_read_bind ((keeps_probe _).bind fun heap _ =>
        keeps_pure (Q := fun _ => True) trivial)).bind fun touches _ => ?_
      split
      · exact keeps_pure nofun
      · -- Every value was one of the operands.
        refine keeps_pure fun fs hfs f hf => ?_
        cases hfs
        refine h (.known f) ?_ f rfl
        rw [eq_map_known hfolds]
        exact List.mem_map_of_mem hf

theorem evaluate_keeps (start stop : Nat) (e : Evaluation (Member × Value)) :
    Keeps s (evaluate start stop e) fun _ => True := by
  refine keeps_read_bind (keeps_get.bind fun t _ => ?_)
  split
  · exact keeps_pure trivial
  · refine (keeps_probe _).bind fun outcome _ => ?_
    refine Keeps.bind (keeps_modify fun u hu => ?_) fun _ _ => keeps_pure trivial
    exact ⟨hu.stack, hu.replacements, hu.resolved⟩

/-- Values stay grounded when they become stale. -/
theorem grounded_aged {heap : Heap} {fs : List Fold} (h : ∀ f ∈ fs, f.Grounded s) :
    ∀ g ∈ fs.map (Fold.aged heap), g.Grounded s := by
  intro g hg
  rcases List.mem_map.1 hg with ⟨f, hf, rfl⟩
  exact (h f hf).stale _

/-- A call gives a value that ends in it. -/
theorem call_keeps (hs : s.config.LoadsOnly) (hp : s.FoldsAt p) {l : List Operand}
    (hl : ∀ o ∈ l, GroundsOperand s o) (named : Member) (type : FieldType) (slots : Nat)
    (evaluation : List Value → Evaluation (Member × Value)) :
    Keeps s (call p l named type slots evaluation) fun _ => True := by
  refine (evaluable?_keeps hl none).bind fun found hfound => ?_
  cases found with
  | none => exact (release_keeps hs hl).bind fun _ _ => pushUnknown_keeps _
  | some folds =>
      refine (evaluate_keeps _ _ _).bind fun outcome _ => ?_
      cases outcome with
      | ok r =>
          refine (keeps_probe _).bind fun heap _ => pushFold_keeps ?_
          exact .made hp (grounded_aged (hfound folds rfl))
      | error failure =>
          refine (report_keeps _ _ _).bind fun _ _ => ?_
          exact (release_keeps hs hl).bind fun _ _ => pushUnknown_keeps _

theorem grounds_of_ne {slot : Slot} (h : ∀ g, slot ≠ .known g) : Grounds s slot :=
  fun g hg => absurd hg (h g)

/-- An object that is settled leaves the stack grounded. -/
theorem grounds_settle {u : Uninitialized} {top others : Slot} {stack : List Slot}
    (htop : Grounds s top) (hothers : Grounds s others) (h : ∀ slot ∈ stack, Grounds s slot) :
    ∀ slot ∈ settle u top others stack, Grounds s slot := by
  induction stack generalizing top with
  | nil => exact List.forall_mem_nil _
  | cons first rest ih =>
      have hfirst := h first List.mem_cons_self
      have hrest : ∀ slot ∈ rest, Grounds s slot := fun slot hslot =>
        h slot (List.mem_cons_of_mem first hslot)
      -- Only a reference to the object is exchanged.
      cases first with
      | uninitialized v =>
          rw [settle]
          split
          · exact List.forall_mem_cons.2 ⟨htop, ih hothers hrest⟩
          · refine List.forall_mem_cons.2 ⟨grounds_of_ne ?_, ih htop hrest⟩
            simp
      | unknown => exact List.forall_mem_cons.2 ⟨hfirst, ih htop hrest⟩
      | upper => exact List.forall_mem_cons.2 ⟨hfirst, ih htop hrest⟩
      | known g => exact List.forall_mem_cons.2 ⟨hfirst, ih htop hrest⟩

/-- A constructor call makes a value that ends at it. -/
theorem construct_keeps (hs : s.config.LoadsOnly) (hp : s.FoldsAt p) {l : List Operand}
    (hl : ∀ o ∈ l, GroundsOperand s o) (m : Member) (u : Uninitialized) :
    Keeps s (construct p m u l) fun _ => True := by
  have hgiveUp : Keeps s (do
      release l
      modify fun t => { t with stack := settle u .unknown .unknown t.stack } : Analysis Unit)
      fun _ => True := by
    refine (release_keeps hs hl).bind fun _ _ => keeps_modify fun t ht => ht.withStack ?_
    exact grounds_settle nofun nofun fun slot hslot => ht.grounds hslot
  refine keeps_read_bind ?_
  refine (evaluable?_keeps hl _).bind fun found hfound => ?_
  cases found with
  -- Whatever fails on the way, the arguments are released and the object stays unknown.
  | none => exact hgiveUp
  | some folds =>
      refine keeps_get.bind fun t _ => ?_
      dsimp only
      split
      · exact hgiveUp
      · refine (evaluate_keeps _ _ _).bind fun outcome _ => ?_
        cases outcome with
        | ok r =>
            refine (keeps_probe _).bind fun heap _ => keeps_modify fun v hv => hv.withStack ?_
            refine grounds_settle (fun g hg => ?_) nofun fun slot hslot => hv.grounds hslot
            cases hg
            exact .made hp (grounded_aged (hfound folds rfl))
        | error failure => exact (report_keeps _ _ _).bind fun _ _ => hgiveUp

theorem dup_keeps (hs : s.config.LoadsOnly) : Keeps s (dup p) fun _ => True := by
  refine keeps_get.bind fun t ht => ?_
  split
  next u rest hstack =>
    refine keeps_modify fun v hv => hv.withStack ?_
    refine List.forall_mem_cons.2 ⟨nofun, List.forall_mem_cons.2 ⟨nofun, fun slot hslot => ?_⟩⟩
    exact ht.grounds (hstack ▸ List.mem_cons_of_mem _ hslot)
  · exact generic_keeps hs _

/-- A read of a static field has a value only if the field is constant or became known. So the
    class of a primitive type is not read, and any other read counts. -/
theorem getStatic_keeps (hs : s.config.LoadsOnly) {f : Member}
    (hp : s.code[p]? = some (.field .getstatic f)) : Keeps s (getStatic p f) fun _ => True := by
  refine keeps_read_bind ?_
  split
  · exact pushUnknown_keeps _
  · refine keeps_get.bind fun t ht => ?_
    dsimp only
    split
    next hread =>
      have hfoldable : s.FoldsAt p := by
        refine ⟨_, hp, ?_⟩
        -- A class of a primitive type is foldable only as such, and then its field never became
        -- known.
        cases hprimitive : f.holdsPrimitive with
        | false => simp [Instruction.isFoldable, hprimitive]
        | true =>
            have hconstant := hs.isConstantField_eq_false f hprimitive
            simp only [hconstant, Bool.false_or, Bool.and_eq_true] at hread
            exact absurd (ht.resolved _ (Std.TreeSet.mem_iff_contains.2 hread.1))
              (hs.not_folds f hprimitive)
      refine (keeps_probe _).bind fun outcome _ => ?_
      cases outcome with
      | ok value => exact pushFold_keeps (.made hfoldable nofun)
      | error failure => exact (report_keeps _ _ _).bind fun _ _ => pushUnknown_keeps _
    · exact pushUnknown_keeps _

theorem getField_keeps (hs : s.config.LoadsOnly) (hp : s.FoldsAt p) (f : Member) :
    Keeps s (getField p f) fun _ => True := by
  refine keeps_read_bind ?_
  refine (popOperand_keeps hs 1).bind fun receiver hreceiver => ?_
  split
  · refine (release_keeps hs ?_).bind fun _ _ => pushUnknown_keeps _
    exact List.forall_mem_singleton.2 hreceiver
  · split
    next object =>
      have hobject := hreceiver object rfl
      dsimp only
      split
      · refine (keeps_probe _).bind fun outcome _ => ?_
        cases outcome with
        | ok value =>
            -- The value was made from the object that it was read from.
            exact pushFold_keeps (.made hp (List.forall_mem_singleton.2 hobject))
        | error failure =>
            refine (report_keeps _ _ _).bind fun _ _ => ?_
            exact (flush_keeps hs hobject).bind fun _ _ => pushUnknown_keeps _
      · exact (flush_keeps hs hobject).bind fun _ _ => pushUnknown_keeps _
    · exact pushUnknown_keeps _

/-- Only fields of the class itself become known. -/
theorem resolve_keeps (ho : s.config.Folds s.owner.name) (declared : Member) (v : Value) :
    Keeps s (resolve p declared v) fun _ => True := by
  refine keeps_read_bind ?_
  refine (keeps_probe _).bind fun heap _ => keeps_get.bind fun _ _ => ?_
  dsimp only
  split
  next hown =>
    simp only [Bool.and_eq_true, isOwnFinal, beq_iff_eq] at hown
    refine keeps_modify fun t ht => ⟨ht.stack, ht.replacements, fun f hf => ?_⟩
    rcases Std.TreeSet.mem_insert.1 hf with hf | hf
    · rw [← Std.LawfulEqCmp.eq_of_compare hf, hown.1.1.1]
      exact ho
    · exact ht.resolved f hf
  · exact keeps_pure trivial

/-- An assignment gives its value up. -/
theorem putStatic_keeps (hs : s.config.LoadsOnly) (ho : s.config.Folds s.owner.name)
    (f : Member) : Keeps s (putStatic p f) fun _ => True := by
  refine (popOperand_keeps hs _).bind fun operand hoperand => ?_
  have hrelease : Keeps s (release [operand]) fun _ => True :=
    release_keeps hs (List.forall_mem_singleton.2 hoperand)
  cases operand with
  | known fold =>
      refine keeps_read_bind ?_
      exact (resolve_keeps ho _ _).bind fun _ _ => hrelease
  | unknown => exact hrelease
  | uninitialized _ => exact hrelease

/-- A cast passes a value on or gives it up. -/
theorem checkCast_keeps (hs : s.config.LoadsOnly) (hp : s.FoldsAt p) (name : String) :
    Keeps s (checkCast p name) fun _ => True := by
  refine keeps_read_bind ?_
  refine (popOperand_keeps hs 1).bind fun operand hoperand => ?_
  split
  next f =>
    have hf := hoperand f rfl
    refine (keeps_probe _).bind fun heap _ => ?_
    split
    · exact pushFold_keeps (.made hp (List.forall_mem_singleton.2 hf))
    · exact (flush_keeps hs hf).bind fun _ _ => pushUnknown_keeps _
  · exact pushUnknown_keeps _

/-- The operands of a call are grounded, the receiver among them. -/
theorem popCall_keeps (hs : s.config.LoadsOnly) (kind : InvokeKind) (type : MethodType) :
    Keeps s (popCall kind type) fun taken =>
      (∀ o ∈ taken.1, GroundsOperand s o) ∧ ∀ o ∈ taken.2.toList, GroundsOperand s o := by
  refine (popOperands_keeps hs _).bind fun arguments harguments => ?_
  have hrest : ∀ receiver : Option Operand, (∀ o ∈ receiver.toList, GroundsOperand s o) →
      Keeps s (pure (arguments, receiver) : Analysis (List Operand × Option Operand)) fun taken =>
        (∀ o ∈ taken.1, GroundsOperand s o) ∧ ∀ o ∈ taken.2.toList, GroundsOperand s o :=
    fun _ hreceiver => keeps_pure ⟨harguments, hreceiver⟩
  -- A static call has no receiver.
  cases kind.hasReceiver with
  | true =>
      refine Keeps.bind (Keeps.map ?_) hrest
      intro t ht
      exact (popOperand_keeps hs 1 t ht).mono fun o u h =>
        ⟨h.1, List.forall_mem_singleton.2 h.2⟩
  | false => exact (keeps_pure (List.forall_mem_nil _)).bind hrest

/-- A call constructs the object below its arguments, releases them or is evaluated. -/
theorem followMethod_keeps (hs : s.config.LoadsOnly) (hp : s.FoldsAt p) (m : Member)
    (kind : InvokeKind) (type : MethodType) {arguments : List Operand}
    (harguments : ∀ o ∈ arguments, GroundsOperand s o) {receiver : Option Operand}
    (hreceiver : ∀ o ∈ receiver.toList, GroundsOperand s o) :
    Keeps s (followMethod p m kind type arguments receiver) fun _ => True := by
  have hoperands : ∀ o ∈ arguments ++ receiver.toList, GroundsOperand s o :=
    List.forall_mem_append.2 ⟨harguments, hreceiver⟩
  unfold followMethod
  split
  · split
    · exact construct_keeps hs hp harguments m _
    · exact release_keeps hs hoperands
  · split
    · exact release_keeps hs hoperands
    · refine keeps_read_bind (call_keeps hs hp ?_ _ _ _ _)
      exact List.forall_mem_append.2 ⟨hreceiver, harguments⟩

/-- A method call keeps the state in order. -/
theorem invoke_keeps (hs : s.config.LoadsOnly) (hp : s.FoldsAt p) (i : Instruction) (op : Opcode)
    (m : Member) : Keeps s (invoke p i op m) fun _ => True := by
  rcases invoke_cases p i op m with ⟨kind, type, -, -, heq⟩ | heq
  · rw [heq]
    exact (popCall_keeps hs kind type).bind fun taken htaken =>
      followMethod_keeps hs hp m kind type htaken.1 htaken.2
  · rw [heq]
    exact generic_keeps hs i

-- So does a call site.
theorem invokeDynamic_keeps (hs : s.config.LoadsOnly) (hp : s.FoldsAt p) (i : Instruction)
    (bootstrap : UInt16) (descriptor : String) :
    Keeps s (invokeDynamic p i bootstrap descriptor) fun _ => True := by
  refine keeps_read_bind ?_
  split
  · split
    · refine (popOperands_keeps hs _).bind fun operands hoperands => ?_
      exact call_keeps hs hp hoperands _ _ _ _
    · exact generic_keeps hs i
  · exact generic_keeps hs i

/-- An instruction keeps the invariant: it gives a value only if it loads one or is a call, cast or
    read. -/
theorem step_keeps (hs : s.config.LoadsOnly) (ho : s.config.Folds s.owner.name) {i : Instruction}
    (hi : s.code[p]? = some i) : Keeps s (step p i) fun _ => True := by
  unfold step
  split
  · refine (keeps_probe _).bind fun outcome _ => ?_
    cases outcome with
    -- A literal needs no ground.
    | ok value => exact pushFold_keeps (.literal rfl)
    | error _ => exact generic_keeps hs i
  · split
    · exact pushFold_keeps (.literal rfl)
    · exact dup_keeps hs
    · exact push_keeps nofun
    · exact checkCast_keeps hs ⟨_, hi, rfl⟩ _
    · exact getStatic_keeps hs hi
    · exact getField_keeps hs ⟨_, hi, rfl⟩ _
    · exact putStatic_keeps hs ho _
    · exact invoke_keeps hs ⟨_, hi, rfl⟩ _ _ _
    · exact invokeDynamic_keeps hs ⟨_, hi, rfl⟩ _ _ _
    · exact generic_keeps hs i

theorem advance_keeps (hs : s.config.LoadsOnly) (ho : s.config.Folds s.owner.name)
    {i : Instruction} (hi : s.code[p]? = some i) : Keeps s (advance p i) fun _ => True := by
  unfold advance
  split
  · refine keeps_read_bind ?_
    split
    · exact endBlock_keeps hs
    · exact keeps_pure trivial
  · exact keeps_pure trivial
  · exact keeps_pure trivial
  · refine (step_keeps hs ho hi).bind fun _ _ => ?_
    split
    · exact endBlock_keeps hs
    · exact keeps_pure trivial

end Steps

section Runs

variable (s : Subject) (t : Tracker) (env : Env) (m : Machine)

/-- The whole analysis keeps the state in order. -/
theorem followAll_keeps (hs : s.config.LoadsOnly) (ho : s.config.Folds s.owner.name) :
    Keeps s followAll fun _ => True := by
  refine keeps_read_bind ?_
  refine (keeps_forM fun x hx => ?_).bind fun _ _ => endBlock_keeps hs
  have hi := List.mem_zipIdx_iff_getElem?.1 hx
  rw [Array.getElem?_toList] at hi
  exact advance_keeps hs ho hi

/-- Every replacement of a body starts and ends inside it, ends in a call, cast or read and puts
    none in its place. The fields that are known behind it are of classes that are folded. -/
theorem replacements_lower (hs : s.config.LoadsOnly) (ho : s.config.Folds s.owner.name)
    (ht : ∀ f ∈ t.progress.resolved, s.config.Folds f.owner) :
    (∀ r ∈ (replacements s t env m).1.1, r.start ≤ r.stop ∧ r.Lowers s) ∧
      ∀ f ∈ (replacements s t env m).1.2.progress.resolved, s.config.Folds f.owner := by
  have hstart : Tidy s { t with stack := [], replacements := #[] } := ⟨nofun, nofun, ht⟩
  have hend := (followAll_keeps s hs ho _ hstart env m).1
  refine ⟨fun r hr => ⟨?_, hend.replacements r hr⟩, hend.resolved⟩
  rcases replacements_eq s t env m with ⟨t', hclears, heq⟩
  rcases before_settled s t env m (Nat.le_refl s.code.size) with ⟨hstacked, hsettled⟩
  rw [heq] at hr
  exact ((hsettled.clears hstacked.ordered hclears).within r hr).start_le

end Runs

end Analysis

end JvmFold
