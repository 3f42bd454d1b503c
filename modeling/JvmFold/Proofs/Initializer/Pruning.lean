import JvmFold.Proofs.Initializer.Leading
import JvmFold.Proofs.Machine.Starting

/-!
# Pruned Initializers

Pruning moves assignments from the front of an initializer into the fields. The
fields of the pruned class start with what the fields of the class have when the
front has been executed, and the initializer goes on from there with the
instructions that were behind the front.

The two runs do not come to the same state: the objects of the constants are
numbered in the order in which they are made, which is that of the fields in the
pruned class and that of the assignments in the other. They come to states in
which the same fields start, so the values match.

A constant is given to the first field of a name and descriptor, and a class
file may name a static field twice. Then the value of the second field replaces
the one that was given, whereas the assignment came behind both. So the static
fields have to be told apart by their names and descriptors.

## Main definitions

* `ClassFile.Pruned`: What pruning makes of a class.
* `Machine.StartsAs`: Two states in which the static fields of a class start alike.
* `ClassFile.StartsAs`: Two classes whose static fields start alike.

## Theorems

* `Emu.straight_assigns`: What the front of an initializer does.
* `ClassFile.pruned`: What pruning makes of a class.
* `ClassFile.pruneInitializer_keeps_start`: The static fields of the pruned class start alike.
-/

namespace JvmFold

/-- What became of a field: it is as it was, or it was final and had no value to start with, and now
    starts with a constant that was assigned to it. -/
inductive Field.Moved (c : ClassFile) (pairs : List (Member × Constant)) :
    Field → Field → Prop where
  | kept {f : Field} : Moved c pairs f f
  | given {f : Field} {k : Constant} (hfinal : f.isStaticFinal = true) (hnew : f.constant = none)
      (hk : (c.fieldMember f, k) ∈ pairs) : Moved c pairs f { f with constant := some k }

/-- What pruning makes of a class. The initializer has the body `b`, which is the assignments at the
    front and what is behind them, and the body `left` afterwards, unless it does nothing. -/
structure ClassFile.Pruned (c : ClassFile) (b : Body) (pairs : List (Member × Constant))
    (front rest : List Instruction) (left : Body) (d : ClassFile) : Prop where
  code : b.instructions = front ++ rest
  assigns : Initializer.Assigns pairs (front.filter (!·.isPseudo))
  left_eq : left = { b with
    instructions := front.filter Instruction.isPseudo ++ rest
    modified := b.modified || !pairs.isEmpty }
  eq : d = { c with fields := d.fields, methods := d.methods }
  fields : List.Forall₂ (Field.Moved c pairs) c.fields d.fields
  methods : ∃ before m behind, c.methods = before ++ m :: behind ∧
    (∀ n ∈ before, n.signature ≠ initializer) ∧ m.signature = initializer ∧ m.body = some b ∧
    d.methods = before ++
      (if left.handlers = [] ∧ left.real.map Instruction.opcode? = [some .voidReturn] then []
        else [{ m with body := some left }]) ++ behind

namespace Initializer

variable {c : ClassFile} {b : Body}

/-- A field that can be moved is the first of its name and descriptor, belongs to the class, and is
    final without a value to start with. -/
theorem field_of_isInlinable {counts : Std.HashMap Member Nat} {f : Member} {k : Constant}
    (h : isInlinable c counts f k = true) :
    f.owner = c.name ∧ (∀ i, k ≠ .pool i) ∧
      ∃ g, c.field? f.signature = some g ∧ g.isStaticFinal = true ∧ g.constant = none := by
  unfold isInlinable at h
  simp only [Bool.and_eq_true] at h
  rcases h with ⟨⟨⟨howner, hfield⟩, -⟩, htype⟩
  rcases (Option.any_eq_true _ _).mp hfield with ⟨g, hg, hfinal⟩
  rcases (Option.any_eq_true _ _).mp htype with ⟨t, -, hadmits⟩
  rw [Bool.and_eq_true] at hfinal
  refine ⟨eq_of_beq howner, fun i hk => ?_, g, hg, hfinal.1, Option.isNone_iff_eq_none.mp hfinal.2⟩
  subst hk
  cases t <;> cases hadmits

/-- A field that is static and final is static. -/
theorem isStatic_of_isStaticFinal {f : Field} (h : f.isStaticFinal = true) : f.isStatic = true := by
  have hboth : f.access.bits &&& 0x0018 = 0x0018 := eq_of_beq h
  have hone : f.access.bits &&& 0x0008 = 0x0008 :=
    calc f.access.bits &&& 0x0008
        = (f.access.bits &&& 0x0018) &&& 0x0008 := by rw [UInt16.and_assoc]; rfl
      _ = 0x0008 := by rw [hboth]; rfl
  exact beq_iff_eq.mpr hone

/-- What pruning makes of the body of an initializer. -/
theorem prune_eq (c : ClassFile) (b : Body) :
    ∃ front rest, b.instructions = front ++ rest ∧
      Assigns (prune c b).1 (front.filter (!·.isPseudo)) ∧
      (prune c b).2 = { b with
        instructions := front.filter Instruction.isPseudo ++ rest
        modified := b.modified || !(prune c b).1.isEmpty } ∧
      ∀ x ∈ (prune c b).1, isInlinable c (assignments b) x.1 x.2 = true := by
  rcases leading_eq (Std.HashSet.ofList b.referenced) (isInlinable c (assignments b)) b.instructions
    with ⟨front, rest, hcode, hleft, hassigns, htest⟩
  refine ⟨front, rest, hcode, hassigns, ?_, htest⟩
  unfold prune
  dsimp only
  rw [← hleft]
  cases hpairs : (leading (Std.HashSet.ofList b.referenced) (isInlinable c (assignments b))
      b.instructions).1 with
  | nil =>
      -- Without assignments the front is nothing but marks.
      rw [hpairs] at hassigns
      have hreal := hassigns.eq_nil
      have hmarks : front.filter Instruction.isPseudo = front := by
        rw [List.filter_eq_self]
        intro i hi
        simpa using List.filter_eq_nil_iff.mp hreal i hi
      rw [hleft, hmarks, ← hcode]
      simp
  | cons x pairs => simp

/-- A constant is moved into a field. -/
theorem moved_setConstant {pairs : List (Member × Constant)} {f : Member} {k : Constant}
    {l l' : List Field} (h : List.Forall₂ (Field.Moved c pairs) l l')
    (howner : f.owner = c.name) (hk : (f, k) ∈ pairs)
    (hfirst : ∃ g, l.find? (·.signature == f.signature) = some g ∧ g.isStaticFinal = true ∧
      g.constant = none) :
    List.Forall₂ (Field.Moved c pairs) l (setConstant f.signature k l') := by
  induction h with
  | nil => exact .nil
  | @cons g g' l l' hg hrest ih =>
      have hsame : g'.signature = g.signature := by cases hg <;> rfl
      rw [setConstant]
      split
      next hsignature =>
        rw [hsame] at hsignature
        rcases hfirst with ⟨found, hfound, hfinal, hnew⟩
        rw [List.find?_cons_of_pos (by simpa using hsignature)] at hfound
        cases hfound
        have hmember : c.fieldMember g = f := by
          unfold ClassFile.fieldMember
          rw [hsignature, ← howner]
          rfl
        -- A constant that the field had from the moves before is replaced.
        have hgiven : { g' with constant := some k } = { g with constant := some k } := by
          cases hg <;> rfl
        rw [hgiven]
        exact .cons (.given hfinal hnew (by rwa [hmember])) hrest
      next hsignature =>
        rw [hsame] at hsignature
        rw [List.find?_cons_of_neg (by simpa using hsignature)] at hfirst
        exact .cons hg (ih hfirst)

/-- So are several. -/
theorem moved_setConstants {pairs moved : List (Member × Constant)} {l l' : List Field}
    (h : List.Forall₂ (Field.Moved c pairs) l l') (hpairs : ∀ x ∈ moved, x ∈ pairs)
    (hmoved : ∀ x ∈ moved, x.1.owner = c.name ∧
      ∃ g, l.find? (·.signature == x.1.signature) = some g ∧ g.isStaticFinal = true ∧
        g.constant = none) :
    List.Forall₂ (Field.Moved c pairs) l (setConstants moved l') := by
  induction moved generalizing l' with
  | nil => exact h
  | cons x rest ih =>
      rcases List.forall_mem_cons.mp hpairs with ⟨hx, hrest⟩
      rcases List.forall_mem_cons.mp hmoved with ⟨⟨howner, hfirst⟩, hmoved⟩
      rw [setConstants_cons]
      exact ih (moved_setConstant h howner hx hfirst) hrest hmoved

end Initializer

namespace ClassFile

variable {c : ClassFile} {b : Body}

/-- Without an initializer there is nothing to prune. -/
theorem pruneInitializer_of_none (h : (c.method? initializer).bind (·.body) = none) (pass : Nat) :
    (c.pruneInitializer pass).1 = c := by
  unfold pruneInitializer
  rw [h]

theorem pruneInitializer_of_some (h : (c.method? initializer).bind (·.body) = some b)
    (pass : Nat) :
    (c.pruneInitializer pass).1 = { c with
      fields := Initializer.setConstants (Initializer.prune c b).1 c.fields
      methods := replaceMethodBody initializer
        (if Initializer.isEmpty (Initializer.prune c b).2 then none
          else some (Initializer.prune c b).2) c.methods } := by
  unfold pruneInitializer
  rw [h]
  rfl

/-- The first method of a signature gets another body or goes. -/
theorem replaceMethodBody_append {s : Signature} {body : Option Body} {before behind : List Method}
    {m : Method} (hbefore : ∀ n ∈ before, n.signature ≠ s) (hm : m.signature = s) :
    replaceMethodBody s body (before ++ m :: behind) =
      before ++ (body.map fun b => { m with body := some b }).toList ++ behind := by
  -- The methods in front have other signatures and are passed over.
  induction before with
  | nil =>
      unfold replaceMethodBody
      rw [List.nil_append]
      dsimp only
      rw [if_pos hm]
      cases body <;> rfl
  | cons n before ih =>
      rcases List.forall_mem_cons.mp hbefore with ⟨hn, hbefore⟩
      rw [List.cons_append]
      unfold replaceMethodBody
      rw [if_neg hn, ih hbefore]
      rfl

/-- An initializer is empty if it only returns. -/
theorem isEmpty_iff (b : Body) :
    Initializer.isEmpty b = true ↔
      b.handlers = [] ∧ b.real.map Instruction.opcode? = [some .voidReturn] := by
  unfold Initializer.isEmpty
  rw [Bool.and_eq_true, List.isEmpty_iff, beq_iff_eq]

/-- What pruning makes of a class. -/
theorem pruned (h : (c.method? initializer).bind (·.body) = some b) (pass : Nat) :
    ∃ front rest, c.Pruned b (Initializer.prune c b).1 front rest (Initializer.prune c b).2
      (c.pruneInitializer pass).1 := by
  rcases Initializer.prune_eq c b with ⟨front, rest, hcode, hassigns, hleft, htest⟩
  rcases Option.bind_eq_some_iff.mp h with ⟨m, hm, hbody⟩
  -- Only the first method of that name is pruned, so those in front of it are another.
  rcases List.find?_eq_some_iff_append.mp hm with ⟨hsignature, before, behind, hmethods, hbefore⟩
  refine ⟨front, rest, hcode, hassigns, hleft, ?_, ?_, before, m, behind, hmethods, ?_, ?_, hbody,
    ?_⟩
  · rw [pruneInitializer_of_some h]
  · rw [pruneInitializer_of_some h]
    refine Initializer.moved_setConstants (List.forall₂_same.mpr fun _ _ => .kept) (fun _ => id)
      fun x hx => ?_
    rcases Initializer.field_of_isInlinable (htest x hx) with ⟨howner, -, hfirst⟩
    exact ⟨howner, hfirst⟩
  · exact fun n hn => by simpa using hbefore n hn
  · exact eq_of_beq hsignature
  · rw [pruneInitializer_of_some h]
    dsimp only
    rw [hmethods, replaceMethodBody_append (fun n hn => by simpa using hbefore n hn)
      (eq_of_beq hsignature)]
    simp only [isEmpty_iff]
    split <;> rfl

end ClassFile

section Execution

variable {s t : Machine} {c : ClassFile} {l : List Field}

/-- A constant is assigned to a field. -/
theorem Machine.Starts.set (h : s.Starts c l t) (hl : (l.map (·.signature)).Nodup) {f : Member}
    {k : Constant} {v : Value} {heap : Heap} (howner : f.owner = c.name)
    (hheap : t.heap.Extends heap) (hv : heap.value? k = some v) (executed : Nat)
    (hf : ∃ g ∈ l, g.signature = f.signature) :
    s.Starts c (Initializer.setConstant f.signature k l)
      { t with heap, executed, statics := t.statics.insert f v } := by
  have hmember {g : Field} : c.fieldMember g = f ↔ g.signature = f.signature := by
    constructor
    · rintro rfl
      rfl
    · intro hg
      unfold ClassFile.fieldMember
      rw [hg, ← howner]
      rfl
  -- Only one field is assigned, since no two have the same signature.
  have hother {key : Member} (hkey : f ≠ key) :
      (t.statics.insert f v)[key]? = t.statics[key]? :=
    Std.HashMap.getElem?_insert.trans (if_neg fun heq => hkey (eq_of_beq heq))
  rw [Initializer.setConstant_eq_map hl]
  refine ⟨h.heap.trans hheap, h.initialized, h.answers, fun key hkey => ?_, fun g hg => ?_⟩
  · refine (hother ?_).trans (h.others key fun g hg => ?_)
    · rcases hf with ⟨g, hg, hsignature⟩
      have hne := hkey _ (List.mem_map_of_mem hg)
      rw [if_pos hsignature] at hne
      exact fun heq => hne ((hmember.mpr hsignature).trans heq)
    · have hne := hkey _ (List.mem_map_of_mem hg)
      split at hne <;> exact hne
  · rcases List.mem_map.mp hg with ⟨g', hg', rfl⟩
    refine ⟨_, List.mem_map_of_mem hg', rfl, ?_⟩
    split
    next hsignature =>
      have heq : c.fieldMember { g' with constant := some k } = f := hmember.mpr hsignature
      rw [heq]
      exact ⟨v, Std.HashMap.getElem?_insert_self, hv⟩
    next hsignature =>
      rcases h.valued_of_nodup hl hg' with ⟨w, hw, hvalue⟩
      refine ⟨w, (hother fun heq => hsignature (hmember.mp heq.symm)).trans hw, ?_⟩
      exact Field.valueIn?_of_extends hheap hvalue

namespace Emu

/-- An instruction that loads a constant does just that. -/
theorem step_of_literal? {owner : ClassFile} {i : Instruction} {k : Constant} {a : Activation}
    (h : i.literal? = some k) :
    step owner i a = constant k >>= fun v => pure (.next (v :: a.stack)) := by
  unfold Instruction.literal? at h
  split at h
  iterate 15
    next =>
      cases h
      rfl
  · cases h
  · cases h
    rfl
  · cases h

/-- An instruction within the limit is counted. -/
theorem tick_of_within {env : Env}
    (h : ∀ limit, env.limits.instructions = some limit → s.executed + 1 ≤ limit) :
    tick env s = .ok () s.ticked := by
  rw [tick_eq]
  split
  · rfl
  next limit hlimit =>
    exact if_neg (Nat.not_lt.mpr (h limit hlimit))

/-- What loads a constant is an instruction. -/
theorem isPseudo_of_literal? {i : Instruction} {k : Constant} (h : i.literal? = some k) :
    i.isPseudo = false := by
  cases i with
  | label | line | frame => cases h
  | _ => rfl

/-- A field of a class whose initialization is in progress is assigned. -/
theorem putStatic_of_inProgress {p : Program} {limits : Limits} {levels depth : Nat} {f : Member}
    (v : Value) (howner : p.classes.fieldOwner? f = some f.owner)
    (hprogress : t.initialized[f.owner]? = some .inProgress) :
    putStatic f v (Engine.inside p limits (levels + 1) depth) t =
      .ok () { t with statics := t.statics.insert f v } := by
  refine putStatic_of_initClass howner ?_
  rw [initClass_eq, useClass_of_inProgress hprogress]

/-- A constant is assigned to a field of a class whose initialization is in progress. -/
theorem straight_assign {f : Member} {k : Constant} {load : Instruction} {code : List Instruction}
    {v : Value} {heap : Heap} {p : Program} {limits : Limits} {levels depth : Nat}
    {owner : ClassFile} {a : Activation} (hload : load.literal? = some k)
    (hv : constant k (Engine.inside p limits (levels + 1) depth) t.ticked
      = .ok v { t.ticked with heap })
    (howner : p.classes.fieldOwner? f = some f.owner)
    (hprogress : t.initialized[f.owner]? = some .inProgress)
    (hlimit : ∀ limit, limits.instructions = some limit → t.executed + 2 ≤ limit) :
    straight owner (load :: .field .putstatic f :: code) a
        (Engine.inside p limits (levels + 1) depth) t =
      straight owner code a (Engine.inside p limits (levels + 1) depth)
        { t with heap, executed := t.executed + 2, statics := t.statics.insert f v } := by
  -- Two instructions are counted, one for the load and one for the assignment.
  have hfirst : tick (Engine.inside p limits (levels + 1) depth) t = .ok () t.ticked :=
    tick_of_within fun limit h => (Nat.le_succ _).trans (hlimit limit h)
  have hsecond : tick (Engine.inside p limits (levels + 1) depth) { t.ticked with heap } =
      .ok () { t.ticked with heap, executed := t.executed + 2 } :=
    tick_of_within hlimit
  have hput : putStatic f v (Engine.inside p limits (levels + 1) depth)
      { t.ticked with heap, executed := t.executed + 2 } =
        .ok () { t with heap, executed := t.executed + 2, statics := t.statics.insert f v } :=
    putStatic_of_inProgress v howner hprogress
  rw [straight_next (constant k >>= fun v => pure (v :: a.stack))
      (isPseudo_of_literal? hload) (by rw [step_of_literal? hload]; simp only [bind_assoc,
        pure_bind]), bind_apply, hfirst]
  dsimp only
  rw [bind_apply, bind_apply, hv]
  dsimp only
  change straight owner (.field .putstatic f :: code) (a.withStack (v :: a.stack))
    (Engine.inside p limits (levels + 1) depth) { t.ticked with heap } = _
  rw [straight_next (putStatic f v >>= fun _ => pure a.stack) rfl
    (by rw [step_putstatic (x := (v, a.stack)) rfl]; simp only [bind_assoc, pure_bind]),
    bind_apply, hsecond]
  dsimp only
  rw [bind_apply, bind_apply, hput]
  rfl

/-- The front of an initializer leaves the fields as if the constants had been their own. -/
theorem straight_assigns {pairs : List (Member × Constant)} {code : List Instruction}
    (hassigns : Initializer.Assigns pairs code) {p : Program} {limits : Limits}
    {levels depth : Nat} {owner : ClassFile} {a : Activation}
    (hstarts : s.Starts c l t) (hl : (l.map (·.signature)).Nodup)
    (hpairs : ∀ x ∈ pairs, x.1.owner = c.name ∧ p.classes.fieldOwner? x.1 = some c.name ∧
      (∀ i, x.2 ≠ .pool i) ∧ x.1.signature ∈ l.map (·.signature))
    (hprogress : t.initialized[c.name]? = some .inProgress)
    (hlimit : ∀ limit, limits.instructions = some limit →
      t.executed + 2 * pairs.length ≤ limit) :
    ∃ u, straight owner code a (Engine.inside p limits (levels + 1) depth) t = .ok (some a) u ∧
      s.Starts c (Initializer.setConstants pairs l) u := by
  induction hassigns generalizing t l with
  | nil => exact ⟨t, rfl, hstarts⟩
  | @cons f k load pairs code hload hrest ih =>
      rcases List.forall_mem_cons.mp hpairs with ⟨⟨howner, hdeclares, hpool, hfield⟩, hpairs⟩
      -- The limit has room for the two instructions of this assignment and for all that follow.
      have hwithin (limit : Nat) (h : limits.instructions = some limit) :
          t.executed + 2 * pairs.length + 2 ≤ limit := by
        have := hlimit limit h
        rw [List.length_cons] at this
        omega
      rcases constant_eq hpool t.ticked with ⟨v, heap, hv, hextends, hvalue⟩
      have hstored := hstarts.set hl howner hextends hvalue (t.executed + 2)
        (List.mem_map.mp hfield)
      rw [straight_assign hload (hv _) (by rw [hdeclares, howner]) (by rw [howner]; exact hprogress)
        fun limit h => (Nat.add_le_add_right (Nat.le_add_right _ _) 2).trans (hwithin limit h),
        Initializer.setConstants_cons]
      refine ih hstored ?_ (fun x hx => ?_) hprogress fun limit h => ?_
      · rwa [Initializer.signature_setConstant]
      · rw [Initializer.signature_setConstant]
        exact hpairs x hx
      · have := hwithin limit h
        change t.executed + 2 + 2 * pairs.length ≤ limit
        omega

end Emu

end Execution

/-- Two states that have come from one start the static fields of a class alike: these have
    matching values, and all other fields the same. -/
structure Machine.StartsAs (s : Machine) (c : ClassFile) (t u : Machine) : Prop where
  heaps : s.heap.Extends t.heap ∧ s.heap.Extends u.heap
  initialized : t.initialized = u.initialized
  answers : t.answers = u.answers
  fields : ∀ f ∈ c.fields, f.isStatic = true →
    ∃ v w, t.statics[c.fieldMember f]? = some v ∧ u.statics[c.fieldMember f]? = some w ∧
      s.heap.Matches t.heap u.heap v w
  others : ∀ key : Member, (∀ f ∈ c.fields, f.isStatic = true → c.fieldMember f ≠ key) →
    t.statics[key]? = u.statics[key]?

/-- The static fields of one class start like those of another when the front of its initializer
    has been executed, which takes two instructions for each of `count` assignments. Where the
    fields of the one cannot be given values to start with, those of the other cannot either. -/
structure ClassFile.StartsAs (c : ClassFile) (b : Body) (front : List Instruction) (count : Nat)
    (d : ClassFile) : Prop where
  fails : ∀ {env s e t}, Emu.startStatics c env s = .error e t →
    ∃ t', Emu.startStatics d env s = .error e t'
  starts : ∀ {env s t}, Emu.startStatics c env s = .ok () t →
    ∃ t', Emu.startStatics d env s = .ok () t' ∧
      ∀ {p : Program} {limits levels depth method},
        (p.classes.class? c.name).map (·.fields) = some c.fields →
        s.initialized[c.name]? = some .inProgress →
        Prepared.ofBody c (initializer.on c.name) b = .ok method →
        (∀ limit, limits.instructions = some limit → t.executed + 2 * count ≤ limit) →
        ∃ u, Emu.Reaches method (Engine.inside p limits (levels + 1) depth)
            (.start method.maxLocals []) 0 t (.start method.maxLocals []) front.length u ∧
          s.StartsAs c u t'

section Start

variable {c d : ClassFile} {s t u : Machine}

/-- States in which the same fields start do so alike. -/
theorem Machine.Starts.startsAs {l : List Field} (h : s.Starts c l t) (h' : s.Starts d l u)
    (hname : d.name = c.name)
    (hl : l.map (·.signature) = (c.fields.filter (·.isStatic)).map (·.signature))
    (hdistinct : (l.map (·.signature)).Nodup) : s.StartsAs c t u := by
  have hmember : d.fieldMember = c.fieldMember := by
    funext f
    unfold ClassFile.fieldMember
    rw [hname]
  -- Both start the same fields, as only the name of a class counts for its members.
  replace h' : s.Starts c l u :=
    ⟨h'.heap, h'.initialized, h'.answers, hmember ▸ h'.others, hmember ▸ h'.valued⟩
  have hsame {f : Field} (hf : f ∈ c.fields) (hstatic : f.isStatic = true) :
      ∃ g ∈ l, g.signature = f.signature := by
    have hmem := List.mem_map_of_mem (f := Field.signature) (List.mem_filter.mpr ⟨hf, hstatic⟩)
    rw [← hl] at hmem
    exact List.mem_map.mp hmem
  have hback {g : Field} (hg : g ∈ l) :
      ∃ f ∈ c.fields, f.isStatic = true ∧ f.signature = g.signature := by
    have hmem := List.mem_map_of_mem (f := Field.signature) hg
    rw [hl] at hmem
    rcases List.mem_map.mp hmem with ⟨f, hf, hsignature⟩
    exact ⟨f, List.mem_of_mem_filter hf, (List.mem_filter.mp hf).2, hsignature⟩
  refine ⟨⟨h.heap, h'.heap⟩, h.initialized.trans h'.initialized.symm,
    h.answers.trans h'.answers.symm, fun f hf hstatic => ?_, fun key hkey => ?_⟩
  · rcases hsame hf hstatic with ⟨g, hg, hsignature⟩
    rw [ClassFile.fieldMember_eq_of_signature hsignature.symm]
    exact h.valued_matches h' hdistinct hg
  · have hnone : ∀ g ∈ l, c.fieldMember g ≠ key := by
      intro g hg
      rcases hback hg with ⟨f, hf, hstatic, hsignature⟩
      rw [← ClassFile.fieldMember_eq_of_signature hsignature]
      exact hkey f hf hstatic
    rw [h.others key hnone, h'.others key hnone]

/-- No field comes to start with a constant of the pool, or ceases to. -/
theorem Initializer.findSome?_setConstant {σ : Signature} {k : Constant} {l : List Field}
    (hk : ∀ i, k ≠ .pool i)
    (h : ∀ g, l.find? (·.signature == σ) = some g → ∀ i, g.constant ≠ some (.pool i)) :
    (setConstant σ k l).findSome? Emu.poolStart? = l.findSome? Emu.poolStart? := by
  induction l with
  | nil => rfl
  | cons f rest ih =>
      rw [setConstant]
      split
      next hσ =>
        have hf := h f (List.find?_cons_of_pos (by simpa using hσ))
        -- Neither the old value nor the new one is an index into the pool.
        have hgiven : ∀ i, ({ f with constant := some k } : Field).constant ≠ some (.pool i) :=
          fun i hi => hk i (Option.some.inj hi)
        rw [List.findSome?_cons, List.findSome?_cons, Emu.poolStart?_eq_none.mpr hf,
          Emu.poolStart?_eq_none.mpr hgiven]
      next hσ =>
        rw [List.findSome?_cons, List.findSome?_cons,
          ih fun g hg => h g ((List.find?_cons_of_neg (by simpa using hσ)).trans hg)]

/-- Constants of the pool stay where they are. -/
theorem Initializer.findSome?_setConstants {pairs : List (Member × Constant)} {l : List Field}
    (h : ∀ x ∈ pairs, (∀ i, x.2 ≠ .pool i) ∧ ∀ g,
      l.find? (·.signature == x.1.signature) = some g → ∀ i, g.constant ≠ some (.pool i)) :
    (setConstants pairs l).findSome? Emu.poolStart? = l.findSome? Emu.poolStart? := by
  induction pairs generalizing l with
  | nil => rfl
  | cons x rest ih =>
      rcases List.forall_mem_cons.mp h with ⟨⟨hk, hx⟩, hrest⟩
      rw [setConstants_cons, ih fun y hy => ⟨(hrest y hy).1, fun g hg i hi => ?_⟩,
        findSome?_setConstant hk hx]
      rw [find?_setConstant] at hg
      rcases Option.map_eq_some_iff.mp hg with ⟨g', hg', rfl⟩
      split at hi
      · exact hk i (Option.some.inj hi)
      · exact (hrest y hy).2 g' hg' i hi

section Pruned

variable {pairs : List (Member × Constant)}
variable (hpairs : ∀ x ∈ pairs, x.1.owner = c.name ∧ (∀ i, x.2 ≠ .pool i) ∧
  ∃ g, c.field? x.1.signature = some g ∧ g.isStaticFinal = true ∧ g.constant = none)

include hpairs

/-- What is pruned assigns static fields without a value of their own. -/
theorem ClassFile.isStatic_of_pairs {x : Member × Constant} (hx : x ∈ pairs) {g : Field}
    (hg : c.fields.find? (·.signature == x.1.signature) = some g) :
    g.isStatic = true ∧ g.constant = none := by
  rcases hpairs x hx with ⟨-, -, g', hg', hfinal, hnone⟩
  cases hg.symm.trans hg'
  exact ⟨Initializer.isStatic_of_isStaticFinal hfinal, hnone⟩

-- So the static fields are given the same values alone.
theorem ClassFile.filter_setConstants_pairs :
    (Initializer.setConstants pairs c.fields).filter (·.isStatic)
      = Initializer.setConstants pairs (c.fields.filter (·.isStatic)) :=
  Initializer.filter_setConstants fun _ hx _ hg => (isStatic_of_pairs hpairs hx hg).1

/-- Moving constants to their fields gives none of them a constant by index. -/
theorem ClassFile.findSome?_pairs
    (hdistinct : ((c.fields.filter (·.isStatic)).map (·.signature)).Nodup) :
    (Initializer.setConstants pairs (c.fields.filter (·.isStatic))).findSome? Emu.poolStart?
      = (c.fields.filter (·.isStatic)).findSome? Emu.poolStart? := by
  -- Only one of the static fields has the name and descriptor, so it is the one that is found.
  have hfound {x : Member × Constant} (hx : x ∈ pairs) {g : Field}
      (hg : g ∈ c.fields.filter (·.isStatic)) (hsignature : g.signature = x.1.signature) :
      g.constant = none := by
    rcases hpairs x hx with ⟨-, -, g', hg', -, -⟩
    have hsignature' : g'.signature = x.1.signature := by simpa using List.find?_some hg'
    rcases isStatic_of_pairs hpairs hx hg' with ⟨hstatic', hnone⟩
    have hmem := List.mem_filter.mpr ⟨List.mem_of_find?_eq_some hg', hstatic'⟩
    rwa [List.inj_on_of_nodup_map hdistinct hg hmem (hsignature.trans hsignature'.symm)]
  refine Initializer.findSome?_setConstants fun x hx => ⟨(hpairs x hx).2.1, fun g hg i hi => ?_⟩
  rw [hfound hx (List.mem_of_find?_eq_some hg) (by simpa using List.find?_some hg)] at hi
  cases hi

/-- The fields that constants are moved to are found in the class, wherever a program has it. -/
theorem ClassFile.assigned_of_pairs {p : Program} {outline : ClassFile}
    (houtline : p.classes.class? c.name = some outline) (hsame : outline.fields = c.fields) :
    ∀ x ∈ pairs, x.1.owner = c.name ∧ p.classes.fieldOwner? x.1 = some c.name ∧
      (∀ i, x.2 ≠ .pool i) ∧
      x.1.signature ∈ (c.fields.filter (·.isStatic)).map (·.signature) := by
  intro x hx
  rcases hpairs x hx with ⟨howner, hk, g, hg, -, -⟩
  refine ⟨howner, ?_, hk, List.mem_map.mpr ⟨g, List.mem_filter.mpr
    ⟨List.mem_of_find?_eq_some hg, (isStatic_of_pairs hpairs hx hg).1⟩,
    by simpa using List.find?_some hg⟩⟩
  rw [← howner]
  refine Universe.fieldOwner?_of_field? (by rw [howner]; exact houtline) ?_
  unfold field? at hg ⊢
  rw [hsame, hg]
  rfl

/-- The static fields of the pruned class start like those of the class. -/
theorem ClassFile.startsAs_pruned {b : Body} {front rest : List Instruction} {left : Body}
    (h : c.Pruned b pairs front rest left d)
    (hfields : d.fields = Initializer.setConstants pairs c.fields)
    (hdistinct : ((c.fields.filter (·.isStatic)).map (·.signature)).Nodup) :
    c.StartsAs b front pairs.length d := by
  have hname : d.name = c.name := by rw [h.eq]
  have hstatics : d.fields.filter (·.isStatic) =
      Initializer.setConstants pairs (c.fields.filter (·.isStatic)) := by
    rw [hfields]
    exact filter_setConstants_pairs hpairs
  have hpool : (d.fields.filter (·.isStatic)).findSome? Emu.poolStart? =
      (c.fields.filter (·.isStatic)).findSome? Emu.poolStart? := by
    rw [hstatics]
    exact findSome?_pairs hpairs hdistinct
  cases hstart : (c.fields.filter (·.isStatic)).findSome? Emu.poolStart? with
  | some i =>
      -- A constant by index makes both fail, and with the same field.
      refine ⟨fun {env s e t} he => ?_, fun {env s t} ht => ?_⟩
      · rcases Emu.startStatics_of_pool hstart s with ⟨w, hw⟩
        rcases Emu.startStatics_of_pool (hpool.trans hstart) s with ⟨w', hw'⟩
        rw [hw] at he
        cases he
        exact ⟨w', hw' env⟩
      · rcases Emu.startStatics_of_pool hstart s with ⟨w, hw⟩
        rw [hw] at ht
        cases ht
  | none =>
      have hvalues {k : ClassFile}
          (hk : (k.fields.filter (·.isStatic)).findSome? Emu.poolStart? = none) :
          ∀ f ∈ k.fields, f.isStatic = true → ∀ i, f.constant ≠ some (.pool i) :=
        fun f hf hstatic =>
          Emu.constant_ne_of_poolStart? hk f (List.mem_filter.mpr ⟨hf, hstatic⟩)
      refine ⟨fun {env s e t} he => ?_, fun {env s t} ht => ?_⟩
      · rcases Emu.startStatics_eq (hvalues hstart) s with ⟨w, hw, -, -⟩
        rw [hw] at he
        cases he
      · rcases Emu.startStatics_eq (hvalues hstart) s with ⟨w, hw, -, hstarts⟩
        rw [hw] at ht
        cases ht
        rcases Emu.startStatics_eq (hvalues (hpool.trans hstart)) s with ⟨t', ht', -, hstarts'⟩
        refine ⟨t', ht' env, ?_⟩
        intro p limits levels depth method hclass hprogress hready hlimit
        rcases Option.map_eq_some_iff.mp hclass with ⟨outline, houtline, hsame⟩
        -- The front of the initializer is carried out from what the class starts with.
        have hassigns : ∃ u, Emu.straight method.owner (front.filter (!·.isPseudo))
            (.start method.maxLocals []) (Engine.inside p limits (levels + 1) depth) t =
              .ok (some (.start method.maxLocals [])) u ∧ s.Starts c _ u :=
          Emu.straight_assigns h.assigns hstarts hdistinct (assigned_of_pairs hpairs houtline hsame)
            (by rw [hstarts.initialized]; exact hprogress) hlimit
        rcases hassigns with ⟨u, hu, hustarts⟩
        rw [Emu.straight_filter] at hu
        have hcode : method.code.toList.drop 0 = front ++ rest := by
          rw [Prepared.code_of_ofBody hready, List.drop_zero, ← h.code]
        have hreaches := Emu.straight_reaches hcode hu
        rw [Nat.zero_add] at hreaches
        refine ⟨u, hreaches, hustarts.startsAs (hstatics ▸ hstarts') hname ?_ ?_⟩
        · exact Initializer.signature_setConstants _ _
        · rwa [Initializer.signature_setConstants]

end Pruned

/-- Pruning an initializer keeps what the class starts with, if no two static fields have the same
    name and descriptor. It changes the class only by moving assignments of constants from the front
    of the initializer into the fields, and takes the initializer away only if what remains does
    nothing but return. -/
theorem ClassFile.pruneInitializer_keeps_start (c : ClassFile) (pass : Nat)
    (hdistinct : ((c.fields.filter (·.isStatic)).map (·.signature)).Nodup) :
    ((c.method? initializer).bind (·.body) = none → (c.pruneInitializer pass).1 = c) ∧
    ∀ b, (c.method? initializer).bind (·.body) = some b → ∃ pairs front rest left,
      c.Pruned b pairs front rest left (c.pruneInitializer pass).1 ∧
      c.StartsAs b front pairs.length (c.pruneInitializer pass).1 := by
  refine ⟨fun hnone => pruneInitializer_of_none hnone pass, fun b hbody => ?_⟩
  rcases pruned hbody pass with ⟨front, rest, hpruned⟩
  refine ⟨_, front, rest, _, hpruned, startsAs_pruned (fun x hx => ?_) hpruned ?_ hdistinct⟩
  · rcases Initializer.prune_eq c b with ⟨-, -, -, -, -, htest⟩
    exact Initializer.field_of_isInlinable (htest x hx)
  · rw [pruneInitializer_of_some hbody]

end Start

namespace Initializer.Twice

/-- A field that the initializer assigns. -/
def level : Field where
  access := ⟨0x0018⟩
  name := "LEVEL"
  descriptor := "I"

/-- The field of the example. -/
def levelMember : Member :=
  ⟨"demo/A", "LEVEL", "I"⟩

/-- An initializer that gives the field its value. -/
def body : Body where
  maxStack := 1
  maxLocals := 0
  instructions := [.push .bipush 10, .field .putstatic levelMember, .simple .voidReturn]

/-- A class with some fields whose initializer assigns the field. -/
def classFile (fields : List Field) : ClassFile where
  name := "demo/A"
  superName := none
  fields := fields
  methods := [{ access := ⟨0x0008⟩, name := "<clinit>", descriptor := "()V", body := some body }]

/-- The assignment can be moved into the field. -/
theorem isInlinable_level (fields : List Field) :
    isInlinable (classFile (level :: fields)) (assignments body) levelMember (.int 10) = true := by
  have hcount : (assignments body).getD levelMember 0 = 1 := by
    change ((∅ : Std.HashMap Member Nat).alter levelMember _).getD levelMember 0 = 1
    simp
  have htype : FieldType.parse levelMember.descriptor = .ok .int := by
    cbv
  unfold isInlinable
  rw [hcount, htype]
  rfl

-- So it is taken out of the initializer.
theorem prune_body (fields : List Field) :
    prune (classFile (level :: fields)) body =
      ([(levelMember, .int 10)], { body with instructions := [.simple .voidReturn] }) := by
  have hleading (referenced : Std.HashSet Label) (test : Member → Constant → Bool)
      (htest : test levelMember (.int 10) = true) :
      leading referenced test body.instructions
        = ([(levelMember, .int 10)], [.simple .voidReturn]) := by
    -- A return ends the leading assignments.
    have hend : leading referenced test [.simple .voidReturn] = ([], [.simple .voidReturn]) := by
      rw [leading]
      rfl
    rw [show body.instructions
      = [.push .bipush 10, .field .putstatic levelMember, .simple .voidReturn] from rfl, leading]
    simp [nextReal?, Instruction.literal?, htest, hend]
  unfold prune
  rw [hleading _ _ (isInlinable_level fields)]
  rfl

/-- The field starts with what was assigned to it, and the initializer is gone. -/
theorem pruned_classFile (fields : List Field) (pass : Nat) :
    ((classFile (level :: fields)).pruneInitializer pass).1 =
      { classFile ({ level with constant := some (.int 10) } :: fields) with methods := [] } := by
  have hbody : ((classFile (level :: fields)).method? ClassFile.initializer).bind (·.body)
      = some body := rfl
  rw [ClassFile.pruneInitializer_of_some hbody, prune_body]
  rfl

/-- With the field there once, it starts with 10 in the pruned class, as it does when the
    initializer has assigned it. -/
theorem pruneInitializer_keeps_start_once :
    (((classFile [level]).fields.filter (·.isStatic)).map (·.signature)).Nodup ∧
      ∃ pairs front rest left,
        (classFile [level]).Pruned body pairs front rest left
          { classFile [{ level with constant := some (.int 10) }] with methods := [] } ∧
        (classFile [level]).StartsAs body front pairs.length
          { classFile [{ level with constant := some (.int 10) }] with methods := [] } := by
  have hdistinct : (((classFile [level]).fields.filter (·.isStatic)).map (·.signature)).Nodup := by
    decide
  rcases ClassFile.pruneInitializer_keeps_start (classFile [level]) 1 hdistinct with ⟨-, hsome⟩
  rw [pruned_classFile] at hsome
  exact ⟨hdistinct, hsome body rfl⟩

/-- A class that declares the field twice. -/
def program : Program :=
  .ofUniverse (.ofClasses [classFile [level, level]])

/-- A state in which the initialization of the class is in progress. -/
def begun : Machine where
  initialized := (∅ : Std.HashMap String InitState).insert "demo/A" .inProgress

/-- The state when a value was stored in the field and then the one the field starts with. -/
def stored (v : Value) : Machine :=
  { begun with statics := (begun.statics.insert levelMember v).insert levelMember (.int 0) }

/-- The initializer made ready. -/
def method : Prepared :=
  .unguarded (classFile [level, level]) (ClassFile.initializer.on "demo/A") body

/-- A field without a value of its own starts at zero. -/
theorem startValue_level (env : Env) (s : Machine) :
    Emu.startValue level env s = .ok (.int 0) s := by
  have hdefault : Value.defaultFor level.descriptor = .int 0 := by
    cbv
  rw [← hdefault]
  rfl

/-- The second of the fields is the last one to be given its value. -/
theorem startStatics_twice {f : Field} {v : Value} {c : ClassFile} {env : Env}
    (hf : Emu.startValue f env begun = .ok v begun) (hmember : c.fieldMember f = levelMember)
    (hlevel : c.fieldMember level = levelMember)
    (hfields : c.fields.filter (·.isStatic) = [f, level]) :
    Emu.startStatics c env begun = .ok () (stored v) := by
  rw [Emu.startStatics_def, hfields]
  change ((Emu.startValue f >>= Emu.setStatic (c.fieldMember f)) >>= fun _ =>
    (Emu.startValue level >>= Emu.setStatic (c.fieldMember level)) >>= fun _ => pure () : Emu Unit)
    env begun = _
  rw [Emu.bind_apply, Emu.bind_apply, hf, hmember, hlevel]
  change ((Emu.startValue level >>= Emu.setStatic levelMember) >>= fun _ => pure () : Emu Unit) env
    { begun with statics := begun.statics.insert levelMember v } = _
  rw [Emu.bind_apply, Emu.bind_apply, startValue_level]
  rfl

/-- With the field there twice, the initializer leaves 10 in it, and in the pruned class the value
    of the second field replaces the one that was moved. -/
theorem second_field_replaces :
    ∃ t u t',
      Emu.startStatics (classFile [level, level]) (Engine.inside program {} 1 0) begun = .ok () t ∧
      Prepared.ofBody (classFile [level, level]) (ClassFile.initializer.on "demo/A") body
        = .ok method ∧
      Emu.Reaches method (Engine.inside program {} 1 0) (.start 0 []) 0 t (.start 0 []) 2 u ∧
      u.statics[levelMember]? = some (.int 10) ∧
      Emu.startStatics ((classFile [level, level]).pruneInitializer 1).1
        (Engine.inside program {} 1 0) begun = .ok () t' ∧
      t'.statics[levelMember]? = some (.int 0) := by
  have hclass : program.classes.class? "demo/A" = some (classFile [level, level]) :=
    Universe.class?_ofClasses rfl
  have howner : program.classes.fieldOwner? levelMember = some "demo/A" :=
    Universe.fieldOwner?_of_field? hclass rfl
  have hstored (v : Value) : (stored v).statics[levelMember]? = some (.int 0) :=
    Std.HashMap.getElem?_insert_self
  have hfield : (stored (.int 0)).Starts (classFile [level, level]) [level] (stored (.int 0)) := by
    refine ⟨.refl _, rfl, rfl, fun _ _ => rfl, fun f hf => ?_⟩
    cases List.mem_singleton.mp hf
    rcases Emu.startValue_eq (f := level) nofun (stored (.int 0)) with ⟨v, heap, hv, -, hvalue⟩
    cases (hv (Engine.inside program {} 1 0)).symm.trans (startValue_level _ _)
    exact ⟨level, hf, rfl, _, hstored _, hvalue⟩
  have hpairs : ∀ x ∈ [(levelMember, Constant.int 10)], x.1.owner = "demo/A" ∧
      program.classes.fieldOwner? x.1 = some "demo/A" ∧ (∀ i, x.2 ≠ .pool i) ∧
      x.1.signature ∈ [level].map (·.signature) := by
    intro x hx
    cases List.mem_singleton.mp hx
    exact ⟨rfl, howner, nofun, by decide⟩
  -- The front of the initializer is carried out as for any class, with the field once.
  have hassigns : ∃ u, Emu.straight (classFile [level, level])
      [.push .bipush 10, .field .putstatic levelMember] (.start 0 [])
      (Engine.inside program {} 1 0) (stored (.int 0)) = .ok (some (.start 0 [])) u ∧
      (stored (.int 0)).Starts (classFile [level, level])
        [{ level with constant := some (.int 10) }] u :=
    Emu.straight_assigns (.cons rfl .nil) hfield (by decide) hpairs
      Std.HashMap.getElem?_insert_self fun limit h => by cases h
  rcases hassigns with ⟨u, hu, hstarts⟩
  have hcode : method.code.toList.drop 0 =
      [.push .bipush 10, .field .putstatic levelMember] ++ [.simple .voidReturn] := rfl
  refine ⟨stored (.int 0), u, stored (.int 10), ?_, rfl, Emu.straight_reaches hcode hu, ?_, ?_,
    hstored _⟩
  · exact startStatics_twice (startValue_level _ _) rfl rfl rfl
  · rcases hstarts.valued _ (List.mem_singleton_self _) with ⟨g, hg, -, v, hv, hvalue⟩
    cases List.mem_singleton.mp hg
    cases hvalue
    exact hv
  · rw [pruned_classFile]
    exact startStatics_twice rfl rfl rfl rfl

end Initializer.Twice

end JvmFold
