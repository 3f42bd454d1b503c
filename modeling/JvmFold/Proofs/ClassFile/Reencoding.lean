import JvmFold.Proofs.ClassFile.NormalForm
import JvmFold.Proofs.Machine.Replacing
import JvmFold.Proofs.Universe.Outline

/-!
# Classes With All Bodies Encoded Again

A class that was read is written with every body encoded anew, and what was
written is read. The class that comes back looks the same to the machine, and
each of its bodies says what the body before did, with labels and pool entries
of its own.

Call sites are the exception to this. The bootstrap methods that they name are
kept as they were read, so an index in one of them that lies behind the end of
the pool may be the index of an entry that writing has added. What was a fault
before can be something else then. Only indices inside the pool mean the same
in every pool that grows out of it.

## Main definitions

* `SameUnless`: Computations that come to the same, but for some faults.
* `ClassFile.SitesInPool`: No call site fails for an index behind the pool.
* `ClassFile.Reencodable`: What a class has to be like to be given back.
* `Body.Restored`, `Method.Restored`, `ClassFile.Restored`: What comes back.

## Theorems

* `ConcatRecipe.sameUnless_ofBootstrap`: Call sites are the same in a pool that has grown.
* `ClassFile.exists_restored`: What is written of a class with all bodies encoded again is read
  back.
-/

namespace JvmFold

open Read Pool

/-- The second computation comes to the same as the first, unless that fails in one of the ways that
    are excused. -/
def SameUnless {ε α : Type} (excused : ε → Prop) (x y : Except ε α) : Prop :=
  y = x ∨ ∃ e, excused e ∧ x = .error e

section SameUnless

variable {ε ε' α β : Type} {excused : ε → Prop} {x y : Except ε α}

theorem sameUnless_refl (x : Except ε α) : SameUnless excused x x :=
  .inl rfl

/-- Two parts give the same one after the other, unless one of them is excused. -/
theorem SameUnless.bind {f g : α → Except ε β} (h : SameUnless excused x y)
    (hf : ∀ a, SameUnless excused (f a) (g a)) : SameUnless excused (x >>= f) (y >>= g) := by
  rcases h with rfl | ⟨e, he, rfl⟩
  · cases y with
    | ok a => exact hf a
    | error e => exact .inl rfl
  · exact .inr ⟨e, he, rfl⟩

theorem sameUnless_mapM {f g : β → Except ε α} (h : ∀ b, SameUnless excused (f b) (g b))
    (l : List β) :
    SameUnless excused (l.mapM f) (l.mapM g) := by
  induction l with
  | nil => exact sameUnless_refl _
  | cons b l ih =>
      rw [List.mapM_cons, List.mapM_cons]
      exact (h b).bind fun a => ih.bind fun _ => sameUnless_refl _

/-- Where no fault is excused that occurs, the two come to the same. -/
theorem SameUnless.eq (h : SameUnless excused x y) (hnot : ∀ e, x = .error e → ¬excused e) :
    y = x :=
  h.resolve_right fun ⟨e, he, hx⟩ => hnot e hx he

end SameUnless

namespace Pool

/-- The fault of an index that is not in the pool. -/
def Beyond (p : Pool) (e : Error) : Prop :=
  ∃ i : UInt16, e = .malformed (.invalidPoolIndex i) ∧ p.size ≤ i.toNat

section Grows

variable {p q : Pool}

/-- What is in the pool stays as it is when the pool grows, and so does what is wrong with it. -/
theorem Grows.sameUnless_entry (h : Grows p q) (i : UInt16) :
    SameUnless p.Beyond (p.entry i) (q.entry i) := by
  by_cases hi : i.toNat < p.entries.size
  · have hp := Array.getElem?_eq_getElem hi
    refine .inl ?_
    unfold Pool.entry
    rw [hp, h _ _ hp]
  · refine .inr ⟨_, ⟨i, rfl, Nat.le_of_not_lt hi⟩, ?_⟩
    unfold Pool.entry
    rw [Array.getElem?_eq_none (Nat.le_of_not_lt hi)]

/-- A text of the pool stays, unless its index was beyond the end. -/
theorem Grows.sameUnless_text (h : Grows p q) (i : UInt16) :
    SameUnless p.Beyond (p.text i) (q.text i) :=
  (h.sameUnless_entry i).bind fun e => by
    cases e <;> exact sameUnless_refl _

-- So does the name of a class.
theorem Grows.sameUnless_className (h : Grows p q) (i : UInt16) :
    SameUnless p.Beyond (p.className i) (q.className i) :=
  (h.sameUnless_entry i).bind fun e => by
    cases e with
    | classRef name => exact h.sameUnless_text name
    | _ => exact sameUnless_refl _

-- And a name with a type.
theorem Grows.sameUnless_nameAndType (h : Grows p q) (i : UInt16) :
    SameUnless p.Beyond (p.nameAndType i) (q.nameAndType i) :=
  (h.sameUnless_entry i).bind fun e => by
    cases e with
    | nameAndType name descriptor =>
        exact (h.sameUnless_text name).bind fun _ => (h.sameUnless_text descriptor).bind fun _ =>
          sameUnless_refl _
    | _ => exact sameUnless_refl _

-- And a member.
theorem Grows.sameUnless_member (h : Grows p q) (i : UInt16) :
    SameUnless p.Beyond (p.member i) (q.member i) :=
  (h.sameUnless_entry i).bind fun e => by
    cases e with
    | fieldRef owner nat | methodRef owner nat | interfaceMethodRef owner nat =>
        exact (h.sameUnless_className owner).bind fun _ =>
          (h.sameUnless_nameAndType nat).bind fun _ => sameUnless_refl _
    | _ => exact sameUnless_refl _

end Grows

end Pool

namespace ConcatRecipe

variable {p q : Pool}

/-- What a machine asks of a pool is excused as the pool is. -/
theorem sameUnless_fromPool {α : Type} {excused : Error → Prop} {x y : Except Error α}
    (h : SameUnless excused x y) :
    SameUnless (fun fault => ∃ e, excused e ∧ fault = poolFault e) (fromPool x) (fromPool y) := by
  rcases h with rfl | ⟨e, he, rfl⟩
  · exact .inl rfl
  · exact .inr ⟨_, ⟨e, he, rfl⟩, rfl⟩

/-- A constant of a call site has the same text in a pool that has grown. -/
theorem sameUnless_constantText (h : Grows p q) (i : UInt16) :
    SameUnless (fun fault => ∃ e, p.Beyond e ∧ fault = poolFault e) (constantText p i)
      (constantText q i) :=
  (sameUnless_fromPool (h.sameUnless_entry i)).bind fun e => by
    cases e with
    | string utf8 =>
        exact (sameUnless_fromPool (h.sameUnless_text utf8)).bind fun _ => sameUnless_refl _
    | _ => exact sameUnless_refl _

/-- A call site has the same recipe in a pool that has grown. -/
theorem sameUnless_ofBootstrap (h : Grows p q) (b : BootstrapMethod) :
    SameUnless (fun fault => ∃ e, p.Beyond e ∧ fault = poolFault e) (ofBootstrap p b)
      (ofBootstrap q b) := by
  refine (sameUnless_fromPool (h.sameUnless_entry b.handle)).bind fun e => ?_
  -- Only a method handle names a bootstrap method; its arguments are texts of the pool.
  cases e with
  | methodHandle kind reference =>
      refine (sameUnless_fromPool (h.sameUnless_member reference)).bind fun found => ?_
      dsimp only
      split
      · exact sameUnless_refl _
      · split
        · exact sameUnless_refl _
        · split
          · cases b.arguments with
            | nil => exact sameUnless_refl _
            | cons first rest =>
                refine (sameUnless_constantText h first).bind fun _ => ?_
                exact (sameUnless_mapM (sameUnless_constantText h) rest).bind fun _ =>
                  sameUnless_refl _
          · exact sameUnless_refl _
  | _ => exact sameUnless_refl _

end ConcatRecipe

namespace ClassFile

/-- No call site of the class fails because an index lies behind the end of the pool. -/
def SitesInPool (c : ClassFile) : Prop :=
  ∀ b ∈ c.bootstraps, ∀ i : UInt16,
    ConcatRecipe.ofBootstrap c.pool b =
      .error (ConcatRecipe.poolFault (.malformed (.invalidPoolIndex i))) → i.toNat < c.pool.size

/-- Call sites are the same in a class with the same bootstrap methods and a pool that has grown. -/
theorem SitesInPool.ofCallSite_eq {c d : ClassFile} (h : c.SitesInPool)
    (hbootstraps : d.bootstraps = c.bootstraps) (hname : d.name = c.name)
    (hgrows : Grows c.pool d.pool) (bootstrap : UInt16) :
    ConcatRecipe.ofCallSite c bootstrap = ConcatRecipe.ofCallSite d bootstrap := by
  unfold ConcatRecipe.ofCallSite
  rw [hbootstraps, hname]
  cases hget : c.bootstraps[bootstrap.toNat]? with
  | none => rfl
  | some b =>
      refine ((ConcatRecipe.sameUnless_ofBootstrap hgrows b).eq ?_).symm
      rintro fault hfault ⟨e, ⟨i, rfl, hi⟩, rfl⟩
      exact absurd (h b (List.mem_of_getElem? hget) i hfault) (Nat.not_lt.2 hi)

end ClassFile

/-- The second body does what the first one does: it says the same, and both have the labels placed
    that a run goes on to. -/
structure Body.Restored (b b' : Body) : Prop where
  view : b'.view = b.view
  once : (b.instructions.filterMap Instruction.label?).Nodup
  once' : (b'.instructions.filterMap Instruction.label?).Nodup
  targets : b.TargetsPlaced

/-- The second method is the first to the machine, with a body that does the same. -/
structure Method.Restored (m d : Method) : Prop where
  shape : d.shape = m.shape
  body : Option.Rel Body.Restored m.body d.body

/-- The body is encoded in the same way whether it is marked as changed or not. -/
theorem Body.encode_modified (b : Body) (modified : Bool) (method : Member) :
    encode { b with modified } method = encode b method :=
  rfl

/-- The method with its body marked as changed. -/
def Method.marked (m : Method) : Method :=
  { m with body := m.body.map fun b => { b with modified := true } }

/-- A method whose body is written anew is read back with a body that does the same. -/
theorem Method.exists_restored {p q : Pool} {owner : String} {m o : Method}
    (hdecoded : Method.decodedIn p owner { m with body := none } .full = .ok m)
    (hbody : ∀ b ∈ m.body, b.CountsFit ∧ ∀ i ∈ b.instructions, i.LoadsOneSlot p)
    (ho : m.marked.Rewrites p q owner o) :
    ∃ d, o.decodedIn q owner .full = .ok d ∧ m.Restored d := by
  rcases ho with ⟨raw, hwrites, hshort, rfl⟩
  change Method.decodeBody p owner { m with body := none } = .ok m at hdecoded
  unfold Method.decodeBody at hdecoded
  cases hraw : m.raw with
  | none =>
      simp only [hraw] at hdecoded
      have hnone : m.body = none := (congrArg Method.body (Except.ok.inj hdecoded)).symm
      -- Without a body there is nothing to encode, and the bytes are kept.
      have hkept : raw = none := by
        rw [hwrites.kept (by rw [isModified, marked, hnone]; rfl)]
        exact hraw
      refine ⟨{ m.marked with
        body := none, raw := none, annotations := AnnotationRecord.grouped m.annotations },
        by rw [hkept]; rfl, rfl, ?_⟩
      rw [hnone]
      exact .none
  | some data =>
      simp only [hraw] at hdecoded
      rcases except_bind_ok hdecoded with ⟨b, hb, hm⟩
      have hsome : m.body = some b := (congrArg Method.body (Except.ok.inj hm)).symm
      have hmarked : m.marked.body = some { b with modified := true } := by
        rw [marked, hsome]
        rfl
      rcases hwrites.encoded _ hmarked rfl with ⟨w, rfl, u, v, hu, hgrows, hencode, hgrows'⟩
      rw [Body.encode_modified] at hencode
      rcases hbody b hsome with ⟨hfit, hloads⟩
      rcases Body.decode_reencoded hb hloads hfit hu hgrows hencode (hshort w rfl) hgrows' with
        ⟨b', hb', hview, hlabels⟩
      rcases Body.exists_layout hb with ⟨_, _, _, _, hlayout⟩
      rcases Body.exists_layout hb' with ⟨_, _, _, _, hlayout'⟩
      refine ⟨{ m.marked with
        body := some b', raw := some w, annotations := AnnotationRecord.grouped m.annotations },
        congrArg (· >>= _) hb', rfl, ?_⟩
      rw [hsome]
      exact .some ⟨hview, hlayout.placed_once, hlayout'.placed_once, hlabels.targets⟩

namespace ClassFile

/-- What a class has to be like to be given back with all bodies encoded again: there are no more
    annotations, lines, names and slots than their counts can say, no dynamic constant of two slots
    is loaded, and no call site refers to what is behind the pool. -/
structure Reencodable (c : ClassFile) : Prop where
  annotations : c.AnnotationsFit
  bodies : ∀ m ∈ c.methods, ∀ b ∈ m.body, b.CountsFit
  loads : ∀ m ∈ c.methods, ∀ b ∈ m.body, ∀ i ∈ b.instructions, i.LoadsOneSlot c.pool
  sites : c.SitesInPool

/-- The second class is the first to the machine, with bodies that do the same. -/
structure Restored (c d : ClassFile) : Prop where
  shape : d.shape = c.shape
  sites : ∀ bootstrap, ConcatRecipe.ofCallSite c bootstrap = ConcatRecipe.ofCallSite d bootstrap
  methods : List.Forall₂ Method.Restored c.methods d.methods

/-- Restoring methods keeps their shapes. -/
theorem shapes_of_restored {l k : List Method} (h : List.Forall₂ Method.Restored l k) :
    k.map Method.shape = l.map Method.shape := by
  induction h with
  | nil => rfl
  | cons hm _ ih => exact congrArg₂ List.cons hm.shape ih

/-- Marking changes nothing but the methods. -/
theorem markModified_eq (c : ClassFile) :
    c.markModified = { c with methods := c.methods.map Method.marked } :=
  rfl

/-- What is written of a class with all bodies encoded again is read back to a class that does the
    same. -/
theorem exists_restored {data out : Bytes} {c : ClassFile} (hparse : parse data .full = .ok c)
    (hc : c.Reencodable) (hout : c.markModified.toBytes = .ok out) :
    ∃ d, parse out .full = .ok d ∧ c.Restored d := by
  rcases of_parse (fun p owner => ensures_decodedIn p owner .full) hparse with ⟨hread, hmethods⟩
  have hlegible : c.markModified.Legible c.pool := by
    refine ⟨hread.parts.fields, ?_, hread.parts.annotations, hread.parts.attributes,
      hread.parts.bootstraps⟩
    rw [markModified_eq, List.forall_mem_map]
    intro m hm
    rcases hread.parts.methods m hm with ⟨hannotations, hattributes, hraw⟩
    exact ⟨hannotations, hattributes, fun h => Option.map_eq_none_iff.2 (hraw h)⟩
  have hfit : c.markModified.AnnotationsFit := by
    refine ⟨hc.annotations.own, hc.annotations.fields, ?_⟩
    rw [markModified_eq, List.forall_mem_map]
    exact hc.annotations.methods
  rcases parse_toBytes_decoded (c := c.markModified) hlegible hread.pool
    hread.reachable hfit hout with ⟨body, q, outlines, hbody, houtlines, hback⟩
  have hgrows : Grows c.pool q := (Edit.Adding.adds hbody).grows
  -- Method by method, what is read back does the same as what was there.
  have hrestored : List.Forall₂ (fun m o => ∃ d, m.Restored d ∧
      o.decodedIn q c.name .full = .ok d) c.methods outlines := by
    rw [markModified_eq, List.forall₂_map_left_iff] at houtlines
    have hboth := (List.forall₂_and_left _ _).2 ⟨fun m hm => hm, houtlines⟩
    refine hboth.imp fun m o ⟨hm, ho⟩ => ?_
    rcases Method.exists_restored (hmethods m hm).2
      (fun b hb => ⟨hc.bodies m hm b hb, hc.loads m hm b hb⟩) ho with ⟨d, hd, hrestored⟩
    exact ⟨d, hrestored, hd⟩
  rcases exists_forall₂ (hrestored.imp fun m o ⟨d, hd, ho⟩ => ⟨d, hd, ho⟩) with
    ⟨methods, hmethods', hdecoded⟩
  refine ⟨_, hback hdecoded.flip, ?_, ?_, hmethods'⟩
  · unfold shape
    dsimp only [markModified]
    rw [shapes_of_restored hmethods', List.map_map]
    rfl
  · exact hc.sites.ofCallSite_eq rfl rfl hgrows

namespace Linked

/-- The name of the class twice, and what its method needs. -/
def pool : Pool :=
  empty.appendAll [Marked.text "A", Marked.text "A", .classRef 2, Marked.text "m",
    Marked.text "()V", Marked.text "Code", Marked.text "BootstrapMethods", .nameAndType 4 5,
    .invokeDynamic 0 8]

/-- The pool with a class of the first text as well. -/
def settled : Pool :=
  pool.append (.classRef 1)

/-- A method that calls its site. -/
def body : Body where
  maxStack := 0
  maxLocals := 0
  instructions := [.invokeDynamic 0 "m" "()V", .simple .voidReturn]
  modified := false

/-- The bytes of the body. -/
def code : Bytes :=
  [0, 0, 0, 0, 0, 0, 0, 6, 0xBA, 0, 9, 0, 0, 0xB1, 0, 0, 0, 0]

/-- A method of one call site. -/
def method : Method where
  access := ⟨8⟩
  name := "m"
  descriptor := "()V"
  body := some body
  raw := some code

/-- A class with one call site, whose bootstrap method is at an index. -/
def linked (p : Pool) (handle : UInt16) : ClassFile where
  pool := p
  access := ⟨0x21⟩
  name := "A"
  superName := none
  methods := [method]
  bootstraps := [⟨handle, []⟩]

/-- Writing the class adds nothing but a class of the first text; the rest is found. -/
theorem lookup_settled :
    settled.lookup[PoolKey.utf8 "m"]? = some 4 ∧ settled.lookup[PoolKey.utf8 "()V"]? = some 5 ∧
    settled.lookup[PoolKey.utf8 "Code"]? = some 6 ∧
    settled.lookup[PoolKey.utf8 "BootstrapMethods"]? = some 7 ∧
    settled.lookup[PoolKey.nameAndType 4 5]? = some 8 ∧
    settled.lookup[PoolKey.invokeDynamic 0 8]? = some 9 := by
  simp [settled, pool, appendAll, append, record, size, PoolEntry.key?, PoolEntry.isWide,
    Marked.text, Pool.empty, Std.HashMap.getElem_insertIfNew]

/-- What writing the class adds to the pool of the example. -/
theorem addClass_pool : addClass "A" pool = .ok 10 settled := by
  have htext : pool.lookup[PoolKey.utf8 "A"]? = some 1 := by
    simp [pool, appendAll, append, record, size, PoolEntry.key?, PoolEntry.isWide, Marked.text,
      Pool.empty, Std.HashMap.getElem_insertIfNew]
  have hclass : pool.find? (.classRef 1) = none := by
    simp [find?, pool, appendAll, append, record, size, PoolEntry.key?, PoolEntry.isWide,
      Marked.text, Pool.empty, Std.HashMap.getElem?_insertIfNew]
  have hname : addUtf8 "A" pool = .ok 1 pool := by rw [addUtf8, htext]
  exact (bind_of_ok hname).trans (push_of_new hclass (by decide))

theorem addUtf8_settled {t : String} {i : UInt16}
    (h : settled.lookup[PoolKey.utf8 t]? = some i) : addUtf8 t settled = .ok i settled := by
  rw [addUtf8, h]

/-- Nothing more is added afterwards. -/
theorem push_settled {e : PoolEntry} {key : PoolKey} {i : UInt16} (hkey : e.key? = some key)
    (h : settled.lookup[key]? = some i) : push e settled = .ok i settled := by
  rw [push, find?, hkey, Option.bind_some, h]

/-- The passes over the body. -/
def passes : Body.Passes body ⟨"A", "m", "()V"⟩ settled where
  indices := [(.invokeDynamic 0 "m" "()V", 9), (.simple .voidReturn, 0)]
  pool := settled
  codes := [[0xBA, 0, 9, 0, 0], [0xB1]]
  indexed_eq := by
    rcases lookup_settled with ⟨hm, hv, -, -, hnat, hcall⟩
    refine mapM_cons_of_ok ?_ rfl
    refine bind_of_ok ((bind_of_ok ?_).trans (push_settled rfl hcall))
    exact (bind_of_ok (addUtf8_settled hm)).trans
      ((bind_of_ok (addUtf8_settled hv)).trans (push_settled rfl hnat))
  codes_eq := rfl

/-- The body has the bytes that it was read from. -/
theorem encode_body : body.encode ⟨"A", "m", "()V"⟩ settled = .ok code settled :=
  passes.encode_eq (by decide) (by decide) rfl rfl

/-- They are read back in any pool with these entries. -/
theorem decode_code (a m v c b : Bytes) (lookup : Std.HashMap PoolKey UInt16) :
    Body.decode code ⟨#[.unusable, .utf8 "A" a, .utf8 "A" a, .classRef 2, .utf8 "m" m,
      .utf8 "()V" v, .utf8 "Code" c, .utf8 "BootstrapMethods" b, .nameAndType 4 5,
      .invokeDynamic 0 8], lookup⟩ (method.info "A") = .ok body := by
  cbv

theorem decode_body : Body.decode code pool (method.info "A") = .ok body :=
  decode_code _ _ _ _ _ pool.lookup

/-- The bytes of the method. -/
def methodWord : Bytes :=
  Bytes.ofU16 8 ++ (Bytes.ofU16 4 ++ (Bytes.ofU16 5 ++
    (Bytes.ofCount 1 ++ (Bytes.ofU16 6 ++ Bytes.lengthPrefixed code))))

/-- The bytes of the bootstrap method. -/
def siteWord (handle : UInt16) : Bytes :=
  Bytes.ofCount 1 ++
    (Bytes.ofU16 7 ++ Bytes.lengthPrefixed (Body.tableBytes [bootstrapBytes ⟨handle, []⟩]))

/-- The bytes of the class, whose name is at an index of the pool. -/
def bytes (poolWord : Bytes) (index handle : UInt16) : Bytes :=
  Bytes.ofU32 magic ++ (Bytes.ofU16 0 ++ (Bytes.ofU16 52 ++ (poolWord ++ (Bytes.ofU16 0x21 ++
    (Bytes.ofU16 index ++ (Bytes.ofU16 0 ++ (Bytes.ofCount 0 ++ (Bytes.ofCount 0 ++
    (Bytes.ofCount 1 ++ (methodWord ++ siteWord handle))))))))))

section Parse

variable {p : Pool} {poolWord : Bytes} {index : UInt16}

/-- The method is read back in every later pool. -/
theorem takes_method (hp : Grows pool p) : Takes (readMethod p "A" .full) methodWord method := by
  have htext {i : UInt16} {t : String} (h : pool.text i = .ok t) : p.text i = .ok t := hp.text h
  have hread : Takes (readAttribute p) (Bytes.ofU16 6 ++ Bytes.lengthPrefixed code)
      ⟨"Code", code⟩ :=
    (takes_u16 6).bind ((takes_lift (htext rfl)).bind (z := Bytes.lengthPrefixed code)
      ((takes_lengthPrefixed (by decide)).map rfl))
  have hall := takes_readAttributes (List.Forall₂.cons hread .nil) (add_body p (some code))
  rw [List.flatten_singleton] at hall
  -- The method is read in outline first, and its body is decoded from there.
  have houtline : Takes (readMethod p "A" .outline) methodWord { method with body := none } := by
    refine (takes_u16 8).bind ((takes_u16 4).bind ((takes_lift (htext rfl)).bind (z := Bytes.ofU16 5
      ++ (Bytes.ofCount 1 ++ (Bytes.ofU16 6 ++ Bytes.lengthPrefixed code))) ?_))
    refine (takes_u16 5).bind ((takes_lift (htext rfl)).bind (z := Bytes.ofCount 1 ++
      (Bytes.ofU16 6 ++ Bytes.lengthPrefixed code)) ?_)
    exact (takes_counted (f := fun n => iterated (readAttributeInto p rawBodyOf?) n {})
      (by decide) hall).map rfl
  refine takes_readMethod houtline ?_
  exact congrArg (· >>= _) (Body.decode_of_grows hp decode_body)

/-- The attribute of the call site is short. -/
theorem length_sites_lt (handle : UInt16) :
    (Body.tableBytes [bootstrapBytes ⟨handle, []⟩]).length < UInt32.size := by
  change 6 < UInt32.size
  decide

-- And is read back.
theorem takes_site (hp : Grows pool p) (handle : UInt16) :
    Takes (readAttributes p bootstrapsOf?) (siteWord handle) { own := some [⟨handle, []⟩] } := by
  have hread : Takes (readAttribute p) (Bytes.ofU16 7 ++
      Bytes.lengthPrefixed (Body.tableBytes [bootstrapBytes ⟨handle, []⟩]))
      ⟨"BootstrapMethods", Body.tableBytes [bootstrapBytes ⟨handle, []⟩]⟩ :=
    (takes_u16 7).bind ((takes_lift (hp.text rfl)).bind
      (z := Bytes.lengthPrefixed (Body.tableBytes [bootstrapBytes ⟨handle, []⟩]))
      ((takes_lengthPrefixed (length_sites_lt handle)).map rfl))
  have hall := takes_readAttributes (List.Forall₂.cons hread .nil)
    (add_bootstrapAttribute (l := [⟨handle, []⟩]) ⟨Nat.le_of_ble_eq_true rfl, by simp⟩ {})
  rw [List.flatten_singleton] at hall
  exact takes_counted (f := fun n => iterated (readAttributeInto p bootstrapsOf?) n {})
    (by decide) hall

/-- The class is read with every pool that grows out of the first. -/
theorem parse_bytes (hp : Grows pool p) (hpool : Takes Pool.read poolWord p)
    (hname : p.className index = .ok "A") (handle : UInt16) :
    parse (bytes poolWord index handle) .full = .ok (linked p handle) := by
  have hsuper : SuperAt p 0 none := rfl
  -- The versions and the access bits are not found from the bytes.
  have hends := @read_ends p .full 0 52 0x21 index 0 "A" none [] [] [] _ _ _ _ _ _ _ _ _ hpool hname
    hsuper .nil (Nat.zero_le _) .nil (Nat.zero_le _) (.cons (takes_method hp) .nil) (by decide) rfl
    (takes_site hp handle)
  exact hends.parse

end Parse

theorem legible_pool : pool.Legible := by
  have htext {t : String} (h : IsShort t) : (Marked.text t).IsLegible :=
    ⟨h, ModifiedUtf8.decode_of_text t⟩
  refine ⟨_, ?_, rfl⟩
  simp only [List.forall_mem_cons]
  exact ⟨htext (by decide), htext (by decide), trivial, htext (by decide), htext (by decide),
    htext (by decide), htext (by decide), trivial, trivial, fun e he => absurd he List.not_mem_nil⟩

theorem takes_pool : Takes Pool.read pool.bytes pool :=
  legible_pool.takes_read (by decide)

theorem takes_settled : Takes Pool.read settled.bytes settled := by
  have hlegible : settled.Legible := legible_pool.append (e := .classRef 1) trivial
  exact hlegible.takes_read (by decide)

/-- The class is written with the pool that has a class of the first text. -/
theorem toBytes_linked (handle : UInt16) :
    (linked pool handle).markModified.toBytes = .ok (bytes settled.bytes 10 handle) := by
  rcases lookup_settled with ⟨hm, hv, hcode, hsites, -, -⟩
  have hheader : headerBytes ⟨8⟩ ⟨"m", "()V"⟩ settled =
      .ok (Bytes.ofU16 8 ++ Bytes.ofU16 4 ++ Bytes.ofU16 5) settled :=
    (bind_of_ok (addUtf8_settled hm)).trans ((bind_of_ok (addUtf8_settled hv)).trans rfl)
  have hattribute {name : String} {i : UInt16} {data : Bytes}
      (h : settled.lookup[PoolKey.utf8 name]? = some i) (hshort : data.length < UInt32.size) :
      attributesBytes [⟨name, data⟩] settled =
        .ok (Bytes.ofCount 1 ++ (Bytes.ofU16 i ++ Bytes.lengthPrefixed data)) settled := by
    -- All names are in the pool, so nothing is added.
    have hone : attributeBytes ⟨name, data⟩ settled =
        .ok (Bytes.ofU16 i ++ Bytes.lengthPrefixed data) settled := by
      unfold attributeBytes
      rw [if_neg (Nat.not_le.2 hshort)]
      exact (bind_of_ok (addUtf8_settled h)).trans rfl
    have hlist := mapM_cons_of_ok hone (l := []) rfl
    refine (bind_of_ok rfl).trans ((bind_of_ok hlist).trans ?_)
    exact congrArg (fun w => EStateM.Result.ok (Bytes.ofCount 1 ++ w) settled) (List.append_nil _)
  have hmethod : methodBytes "A" method.marked settled = .ok methodWord settled := by
    have hbody : bodyAttribute "A" method.marked settled = .ok [⟨"Code", code⟩] settled :=
      (bind_of_ok encode_body).trans rfl
    refine (bind_of_ok hheader).trans ((bind_of_ok hbody).trans ?_)
    exact (bind_of_ok (hattribute hcode (by decide))).trans rfl
  have hbody : (linked pool handle).markModified.bodyBytes pool =
      .ok (Bytes.ofU16 0x21 ++ Bytes.ofU16 10 ++ Bytes.ofU16 0 ++ Bytes.ofCount 0 ++ []
        ++ Bytes.ofCount 0 ++ [] ++ Bytes.ofCount 1 ++ (methodWord ++ []) ++ siteWord handle)
        settled := by
    refine (bind_of_ok addClass_pool).trans ?_
    have hmethods : [method.marked].mapM (methodBytes "A") settled = .ok [methodWord] settled :=
      mapM_cons_of_ok hmethod rfl
    refine (bind_of_ok hmethods).trans ?_
    exact (bind_of_ok (hattribute hsites (length_sites_lt handle))).trans rfl
  unfold toBytes
  rw [show (linked pool handle).markModified.pool = pool from rfl, hbody]
  simp [bytes, linked, markModified]

end Linked

end ClassFile

end JvmFold
