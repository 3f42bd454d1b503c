import JvmFold.Proofs.ClassFile.Reencoding

/-!
# Universes With a Class Encoded Again

A class of a universe is replaced by what it is written to with all bodies
encoded again. The machine sees the same hierarchy, fields and signatures as
before, and every method that it makes ready says what the one before did. So
operations come to the same, one after the other: the same values, the same
exceptions, and the same heap and static fields in between.

Marks take steps of their own, and the bodies that come back have marks in
other places. Programs are therefore compared by what operations come to with
steps enough, and the number of steps that makes up for the marks is the same
for all methods: no method of the two classes has more marks than that.

## Main definitions

* `Universe.replace`: A universe with a class in the place of another.

## Theorems

* `Universe.prepare_replace`: The methods of the two universes come to the same.
* `Universe.reencoding_preserves_runs`: Operations come to the same in both universes.
* `Universe.Linked.dangling_site_comes_to_another_fault`: They do not if a call site refers to what
  is behind the end of the pool.
-/

namespace JvmFold

/-- The number of instructions and marks in the body of the method. -/
def Method.codeSize (m : Method) : Nat :=
  (m.body.map fun b => b.instructions.length).getD 0

/-- The number of instructions and marks in all bodies of the class. -/
def ClassFile.codeSize (c : ClassFile) : Nat :=
  (c.methods.map Method.codeSize).sum

/-- Each body is a part of the code of its class. -/
theorem ClassFile.length_le_codeSize {c : ClassFile} {m : Method} {b : Body} (hm : m ∈ c.methods)
    (hb : m.body = some b) : b.instructions.length ≤ c.codeSize := by
  have hsize : m.codeSize = b.instructions.length := by
    rw [Method.codeSize, hb]
    rfl
  rw [← hsize]
  exact List.le_sum_of_mem (List.mem_map_of_mem hm)

namespace ClassEntry

/-- An entry is the class that its bytes are read as. -/
theorem full_of_ofInput {input : ClassInput} {primary : Bool} {e : ClassEntry}
    (h : ofInput input primary = .ok e) : e.full = ClassFile.parse input.bytes .full := by
  rcases except_bind_ok h with ⟨o, -, he⟩
  cases he
  rfl

/-- The outline of an entry is read from its bytes. -/
theorem outline_of_ofInput {input : ClassInput} {primary : Bool} {e : ClassEntry}
    (h : ofInput input primary = .ok e) :
    ClassFile.parse input.bytes .outline = .ok e.outline := by
  rcases except_bind_ok h with ⟨o, ho, he⟩
  cases he
  exact ho

end ClassEntry

namespace Universe

/-- The universe with another entry in the place of the one of its name. -/
def replace (u : Universe) (e : ClassEntry) : Universe :=
  { u with classes := u.classes.insert e.outline.name e }

section Replace

variable {u : Universe} {e e' : ClassEntry} {c d : ClassFile}

/-- The new entry is found under its name. -/
theorem entry?_replace_self : Universe.entry? (u.replace e) e.outline.name = some e :=
  Std.TreeMap.getElem?_insert_self

-- And the others under theirs.
theorem entry?_replace_of_ne {name : String} (h : name ≠ e.outline.name) :
    Universe.entry? (u.replace e) name = u.entry? name := by
  change (u.classes.insert e.outline.name e)[name]? = u.classes[name]?
  rw [Std.TreeMap.getElem?_insert, if_neg]
  exact fun heq => h (Std.LawfulEqCmp.eq_of_compare heq).symm

/-- The machine sees no difference if the entries have the same shapes. -/
theorem alike_replace (he : u.entry? e.outline.name = some e)
    (hname : e'.outline.name = e.outline.name) (hshape : e'.outline.shape = e.outline.shape) :
    u.Alike (u.replace e') where
  shapes := by
    intro name
    unfold class?
    by_cases h : name = e'.outline.name
    · rw [h, entry?_replace_self, hname, he]
      exact congrArg some hshape.symm
    · rw [entry?_replace_of_ne h]

/-- A method of the class is found in both classes or in none, with bodies that do the same. -/
theorem method?_restored {l k : List Method} (h : List.Forall₂ Method.Restored l k)
    (s : Signature) : Option.Rel Method.Restored (l.find? fun m => m.signature == s)
      (k.find? fun m => m.signature == s) := by
  induction h with
  | nil => exact .none
  | @cons m d l k hm _ ih =>
      have hsignature : d.signature = m.signature := by
        change d.shape.signature = m.shape.signature
        rw [hm.shape]
      rw [List.find?_cons, List.find?_cons, hsignature]
      split
      · exact .some hm
      · exact ih

/-- What is related to itself fails together with itself. -/
theorem together_refl {α : Type} {R : α → α → Prop} (h : ∀ a, R a a) (x : Except Fault α) :
    Together R x x := by
  cases x with
  | ok a => exact .ok (h a)
  | error e => exact .error

/-- The methods of the class come to the same in both universes. -/
theorem prepare_replace (he : u.entry? e.outline.name = some e)
    (hname : e'.outline.name = e.outline.name) (hfull : e.full = .ok c) (hfull' : e'.full = .ok d)
    (h : c.Restored d) (m : Member) :
    Together (Prepared.Answers (c.codeSize + d.codeSize + 1)) (u.prepare m)
      ((u.replace e').prepare m) := by
  by_cases howner : m.owner = e'.outline.name
  · have hentry : u.entry? m.owner = some e := by rw [howner, hname, he]
    have hentry' : Universe.entry? (u.replace e') m.owner = some e' := by
      rw [howner, entry?_replace_self]
    unfold prepare
    rw [hentry, hentry']
    dsimp only
    rw [hfull, hfull']
    dsimp only
    have hmethod := method?_restored h.methods m.signature
    unfold ClassFile.method?
    generalize hfound : c.methods.find? (fun k => k.signature == m.signature) = x at hmethod ⊢
    generalize hfound' : d.methods.find? (fun k => k.signature == m.signature) = x' at hmethod ⊢
    cases hmethod with
    | none => exact .error
    | @some k k' hrestored =>
        -- Neither body is longer than all the code of its class.
        have hle {b : Body} (hb : k.body = some b) : b.instructions.length ≤ c.codeSize :=
          ClassFile.length_le_codeSize (List.mem_of_find?_eq_some hfound) hb
        have hle' {b : Body} (hb : k'.body = some b) : b.instructions.length ≤ d.codeSize :=
          ClassFile.length_le_codeSize (List.mem_of_find?_eq_some hfound') hb
        have hbody := hrestored.body
        dsimp only
        generalize k.body = y, k'.body = y' at hbody hle hle' ⊢
        cases hbody with
        | none => exact .error
        | @some b b' hsame =>
            rcases Prepared.exists_alike m hsame.view hsame.once hsame.once' hsame.targets
              h.sites with ⟨p, p', hp, hp', halike⟩
            specialize hle rfl
            specialize hle' rfl
            dsimp only
            rw [hp, hp']
            refine .ok (.inr ⟨?_, ?_, _, _, halike⟩)
            · rw [Prepared.code_of_ofBody hp, List.toList_toArray]
              omega
            · rw [Prepared.code_of_ofBody hp', List.toList_toArray]
              omega
  · have hprepare : (u.replace e').prepare m = u.prepare m := by
      unfold prepare
      rw [entry?_replace_of_ne howner]
    rw [hprepare]
    exact together_refl (fun _ => .inl rfl) _

end Replace

/-- A class with all bodies encoded again is read in full, and in the universe with that class in
    its place every sequence of operations comes to the same. -/
theorem reencoding_preserves_runs {u : Universe} {input : ClassInput} {primary : Bool}
    {e : ClassEntry} {c : ClassFile} {out : Bytes}
    (he : ClassEntry.ofInput input primary = .ok e) (hu : u.entry? e.outline.name = some e)
    (hfull : e.full = .ok c) (hc : c.Reencodable) (hout : c.markModified.toBytes = .ok out) :
    ∃ d e', ClassFile.parse out .full = .ok d ∧
      ClassEntry.ofInput { input with bytes := out } primary = .ok e' ∧
      e'.outline.name = e.outline.name ∧
      (∀ limits operations s ends,
        Engine.ComesTo (.ofUniverse u) limits operations s ends ↔
          Engine.ComesTo (.ofUniverse (u.replace e')) limits operations s ends) ∧
      ∀ limits operations s,
        (∀ r ∈ Emu.outcomes (Engine.env (.ofUniverse u) limits) operations s,
          ∀ t, r ≠ .error .outOfSteps t) →
        (∀ r ∈ Emu.outcomes (Engine.env (.ofUniverse (u.replace e')) limits) operations s,
          ∀ t, r ≠ .error .outOfSteps t) →
        Emu.outcomes (Engine.env (.ofUniverse (u.replace e')) limits) operations s =
          Emu.outcomes (Engine.env (.ofUniverse u) limits) operations s := by
  have hparse : ClassFile.parse input.bytes .full = .ok c :=
    (ClassEntry.full_of_ofInput he).symm.trans hfull
  rcases ClassFile.exists_restored hparse hc hout with ⟨d, hd, hrestored⟩
  rcases ClassFile.fills_of_parse hparse with ⟨o, ho, hfills⟩
  rcases ClassFile.fills_of_parse hd with ⟨o', ho', hfills'⟩
  have houtline : o = e.outline :=
    Except.ok.inj (ho.symm.trans (ClassEntry.outline_of_ofInput he))
  -- The outlines have the same shape, as the classes in full do.
  have hshape : o'.shape = e.outline.shape := by
    rw [← hfills'.shape, hrestored.shape, hfills.shape, houtline]
  let e' : ClassEntry :=
    { input := { input with bytes := out }, primary, outline := o',
      decoded := .mk fun _ => ClassFile.parse out .full }
  have he' : ClassEntry.ofInput { input with bytes := out } primary = .ok e' :=
    congrArg (· >>= _) ho'
  have hname : e'.outline.name = e.outline.name := ClassFile.name_eq_of_shape hshape
  have hanswers : (Program.ofUniverse u).Answers (c.codeSize + d.codeSize + 1)
      (.ofUniverse (u.replace e')) := by
    refine ⟨alike_replace hu hname hshape, fun m => ?_⟩
    rw [Program.prepare_ofUniverse, Program.prepare_ofUniverse]
    exact prepare_replace hu hname hfull ((ClassEntry.full_of_ofInput he').trans hd) hrestored m
  have hiff (limits : Limits) (operations : List Emu.Operation) (s : Machine)
      (ends : List (Emu.Outcome (Option Value))) :
      Engine.ComesTo (.ofUniverse u) limits operations s ends ↔
        Engine.ComesTo (.ofUniverse (u.replace e')) limits operations s ends :=
    Engine.comesTo_iff hanswers (Nat.succ_pos _)
  refine ⟨d, e', hd, he', hname, hiff, fun limits operations s hends hends' => ?_⟩
  have hcomes := (hiff limits operations s _).1 (Engine.comesTo_outcomes hends)
  exact (Engine.comesTo_outcomes hends').unique hcomes

namespace Linked

open ClassFile.Linked

/-- The method that calls the site. -/
def call : Member :=
  ⟨"A", "m", "()V"⟩

/-- The universe has the class with its bootstrap method at the index. -/
def Holds (u : Universe) (p : Pool) (handle : UInt16) : Prop :=
  ∃ e, u.entry? "A" = some e ∧ e.full = .ok (linked p handle) ∧
    e.outline.shape = (linked p handle).shape

/-- The state in which the class is initialized. -/
def initialized : Machine where
  initialized := ((∅ : Std.HashMap String InitState).insert "A" .inProgress).insert "A" .done

section Run

variable {u : Universe} {p : Pool} {handle : UInt16} {levels depth : Nat} {what : Unsupported}

/-- The call of the example runs the method. -/
theorem directTarget_call (h : Holds u p handle) :
    (Engine.inside (.ofUniverse u) {} levels depth).directTarget call = .ok (.bytecode call) := by
  rcases h with ⟨e, he, -, hshape⟩
  have hclass : u.class? "A" = some e.outline := congrArg (Option.map _) he
  have hmethod : (e.outline.method? call.signature).isSome = true :=
    ClassFile.isSome_method?_of_shape hshape call.signature
  have howner : u.methodOwner? call = some "A" := methodOwner?_of_method? hclass hmethod
  have hclasses : (Engine.inside (.ofUniverse u) {} levels depth).program.classes = u := rfl
  unfold Env.directTarget
  rw [hclasses]
  dsimp only
  rw [howner]
  rfl

/-- Its class has nothing to initialize. -/
theorem initClass_linked (h : Holds u p handle) :
    Emu.initClass "A" (Engine.inside (.ofUniverse u) {} (levels + 1) depth) {} =
      .ok () initialized := by
  rcases h with ⟨e, he, -, hshape⟩
  have hclass : u.class? "A" = some e.outline := congrArg (Option.map _) he
  have hstart : Emu.startClass e.outline "A" (Engine.inside (.ofUniverse u) {} levels depth) {} =
      .ok () initialized := by
    rw [ClassFile.startClass_eq_of_shape hshape]
    rfl
  rw [Emu.initClass_eq, Emu.useClass_of_new Std.HashMap.getElem?_empty hclass, hstart]

/-- Where the call site is not supported, neither is the call. -/
theorem invoke_call (h : Holds u p handle)
    (hsite : ∀ a env s, Emu.step (linked p handle) (.invokeDynamic 0 "m" "()V") a env s =
      .error (.unsupported what) s) :
    Emu.invoke .static call [] (Engine.env (.ofUniverse u) {}) {} =
      .error (.unsupported what) initialized.ticked := by
  -- The method has one instruction, and that is the call site.
  have hrun {q : Prepared} (hq : Prepared.ofBody (linked p handle) call body = .ok q) (env : Env)
      (hlimit : env.limits.instructions = none) :
      Emu.run? q env 1 (.start q.maxLocals []) 0 initialized =
        some (.error (.unsupported what) initialized.ticked) := by
    cases hq
    rw [Emu.run?, Emu.advance_real (i := .invokeDynamic 0 "m" "()V") rfl rfl,
      Emu.tick_of_no_limit hlimit]
    dsimp only
    rw [hsite]
    rfl
  have hprepare : (Program.ofUniverse u).prepare call =
      Prepared.ofBody (linked p handle) call body := by
    rcases h with ⟨e, he, hfull, -⟩
    rw [Program.prepare_ofUniverse]
    unfold prepare
    rw [show u.entry? call.owner = some e from he]
    dsimp only
    rw [hfull]
    rfl
  have hcall : Emu.call (.bytecode call) [] (Engine.env (.ofUniverse u) {}) initialized =
      .error (.unsupported what) initialized.ticked := by
    change Engine.run (.ofUniverse u) {} (Engine.allowance - 1 + 1) 0 (.call (.bytecode call) [])
      initialized = _
    rw [Engine.run_call, if_neg (by decide), hprepare]
    exact Emu.execute_of_run? (Emu.run?_mono (hrun rfl _ rfl) (by decide))
  change (Emu.target .static call none >>= fun t => (if InvokeKind.static = .static then
    Emu.initClass t.member.owner else pure ()) >>= fun _ => Emu.call t []) _ {} = _
  rw [Emu.bind_apply, Emu.target_static, Engine.env_eq_inside, directTarget_call h]
  change (Emu.initClass "A" >>= fun _ => Emu.call (.bytecode call) []) _ {} = _
  rw [Emu.bind_apply, initClass_linked h]
  exact hcall

end Run

section Site

open ClassFile Pool

variable {p : Pool} {poolWord : Bytes} {index handle : UInt16}

/-- The bytes of the class as they come in. -/
def input (poolWord : Bytes) (index handle : UInt16) : ClassInput where
  key := "A.class"
  bytes := bytes poolWord index handle

/-- The entry of the class. -/
theorem exists_entry (hp : Grows pool p) (hpool : Read.Takes Pool.read poolWord p)
    (hname : p.className index = .ok "A") (handle : UInt16) :
    ∃ e, ClassEntry.ofInput (input poolWord index handle) true = .ok e ∧
      e.full = .ok (linked p handle) ∧ e.outline.shape = (linked p handle).shape ∧
      e.outline.name = "A" := by
  have hparse := parse_bytes hp hpool hname handle
  rcases fills_of_parse hparse with ⟨o, ho, hfills⟩
  have hshape : o.shape = (linked p handle).shape := hfills.shape.symm
  exact ⟨_, congrArg (· >>= _) ho, hparse, hshape, name_eq_of_shape hshape⟩

/-- The class as it was read first. -/
theorem exists_entry_pool (handle : UInt16) :
    ∃ e, ClassEntry.ofInput (input pool.bytes 3 handle) true = .ok e ∧
      e.full = .ok (linked pool handle) ∧ e.outline.shape = (linked pool handle).shape ∧
      e.outline.name = "A" :=
  exists_entry (grows_refl _) takes_pool rfl handle

-- And as it is read from what was written.
theorem exists_entry_settled (handle : UInt16) :
    ∃ e, ClassEntry.ofInput (input settled.bytes 10 handle) true = .ok e ∧
      e.full = .ok (linked settled handle) ∧ e.outline.shape = (linked settled handle).shape ∧
      e.outline.name = "A" :=
  exists_entry grows_append takes_settled rfl handle

/-- Every constant of the code takes one slot. -/
theorem loads_linked : ∀ m ∈ (linked p handle).methods, ∀ b ∈ m.body, ∀ i ∈ b.instructions,
    i.LoadsOneSlot p := by
  intro m hm b hb i hi
  rw [List.mem_singleton.1 hm] at hb
  cases hb
  simp only [body, List.mem_cons, List.not_mem_nil, or_false] at hi
  intro index bootstrap nat hload
  rcases hi with rfl | rfl <;> cases hload

/-- With its bootstrap method inside the pool the class is given back. -/
theorem reencodable_linked : (linked pool 1).Reencodable where
  annotations := ⟨⟨Nat.zero_le _, Nat.zero_le _⟩, fun _ hf => absurd hf List.not_mem_nil, by
    intro m hm
    rw [List.mem_singleton.1 hm]
    exact ⟨Nat.zero_le _, Nat.zero_le _⟩⟩
  bodies := by
    intro m hm b hb
    rw [List.mem_singleton.1 hm] at hb
    cases hb
    refine ⟨by decide, by decide, fun f hf => ?_⟩
    simp [body] at hf
  loads := loads_linked
  sites := by
    intro b hb i hi
    rw [List.mem_singleton.1 hb] at hi
    cases hi

/-- A call site whose bootstrap method is behind the end of the pool. -/
theorem step_dangling (a : Activation) (env : Env) (s : Machine) :
    Emu.step (linked pool 10) (.invokeDynamic 0 "m" "()V") a env s =
      .error (.unsupported (.bootstrapArguments (.malformed (.invalidPoolIndex 10)))) s :=
  rfl

/-- The same site with an entry at that index. -/
theorem step_settled (a : Activation) (env : Env) (s : Machine) :
    Emu.step (linked settled 10) (.invokeDynamic 0 "m" "()V") a env s =
      .error (.unsupported (.callSite "m" "()V")) s :=
  rfl

/-- The class with a call site inside its pool is encoded again and does the same in the
    universe. -/
theorem reencoding_preserves_runs_linked :
    ∃ e d e', ClassEntry.ofInput (input pool.bytes 3 1) true = .ok e ∧
      Universe.entry? (({} : Universe).place e) e.outline.name = some e ∧
      e.full = .ok (linked pool 1) ∧
      (linked pool 1).Reencodable ∧
      (linked pool 1).markModified.toBytes = .ok (bytes settled.bytes 10 1) ∧
      ClassFile.parse (bytes settled.bytes 10 1) .full = .ok d ∧
      ClassEntry.ofInput { input pool.bytes 3 1 with bytes := bytes settled.bytes 10 1 } true =
        .ok e' ∧
      ∀ limits operations s ends,
        Engine.ComesTo (.ofUniverse (({} : Universe).place e)) limits operations s ends ↔
          Engine.ComesTo (.ofUniverse ((({} : Universe).place e).replace e')) limits operations s
            ends := by
  rcases exists_entry_pool 1 with ⟨e, he, hfull, -, -⟩
  have hplace : Universe.entry? (({} : Universe).place e) e.outline.name = some e :=
    Std.TreeMap.getElem?_insert_self
  rcases reencoding_preserves_runs he hplace hfull reencodable_linked (toBytes_linked 1) with
    ⟨d, e', hd, he', -, hruns, -⟩
  exact ⟨e, d, e', he, hplace, hfull, reencodable_linked, toBytes_linked 1, hd, he', hruns⟩

/-- A call site whose bootstrap method is behind the end of the pool fails because of that. When the
    class has been encoded again there is an entry, and the call fails because it is another one. -/
theorem dangling_site_comes_to_another_fault :
    ∃ e e', ClassEntry.ofInput (input pool.bytes 3 10) true = .ok e ∧
      Universe.entry? (({} : Universe).place e) e.outline.name = some e ∧
      e.full = .ok (linked pool 10) ∧
      (∀ m ∈ (linked pool 10).methods, ∀ b ∈ m.body, ∀ i ∈ b.instructions, i.LoadsOneSlot pool) ∧
      (linked pool 10).markModified.toBytes = .ok (bytes settled.bytes 10 10) ∧
      ClassEntry.ofInput { input pool.bytes 3 10 with bytes := bytes settled.bytes 10 10 } true =
        .ok e' ∧
      Emu.outcomes (Engine.env (.ofUniverse (({} : Universe).place e)) {})
          [.invoke .static call []] {} =
        [.error (.unsupported (.bootstrapArguments (.malformed (.invalidPoolIndex 10))))
          initialized.ticked] ∧
      Emu.outcomes (Engine.env (.ofUniverse ((({} : Universe).place e).replace e')) {})
          [.invoke .static call []] {} =
        [.error (.unsupported (.callSite "m" "()V")) initialized.ticked] := by
  rcases exists_entry_pool 10 with ⟨e, he, hfull, hshape, hname⟩
  -- In the pool that was written, index 10 is no longer beyond the end.
  rcases exists_entry_settled 10 with ⟨e', he', hfull', hshape', hname'⟩
  have hplace : Universe.entry? (({} : Universe).place e) e.outline.name = some e :=
    Std.TreeMap.getElem?_insert_self
  have hreplace :
      Universe.entry? ((({} : Universe).place e).replace e') e'.outline.name = some e' :=
    entry?_replace_self
  have hholds : Holds (({} : Universe).place e) pool 10 := ⟨e, hname ▸ hplace, hfull, hshape⟩
  have hholds' : Holds ((({} : Universe).place e).replace e') settled 10 :=
    ⟨e', hname' ▸ hreplace, hfull', hshape'⟩
  have hcall := invoke_call hholds step_dangling
  have hcall' := invoke_call hholds' step_settled
  refine ⟨e, e', he, hplace, hfull, loads_linked, toBytes_linked 10, he', ?_, ?_⟩
  · exact congrArg (fun r => [r]) hcall
  · exact congrArg (fun r => [r]) hcall'

end Site

end Linked

end Universe

end JvmFold
