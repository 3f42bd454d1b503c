import JvmFold.Proofs.Body.Stability
import JvmFold.Proofs.ClassFile.Frame

/-!
# Class Files in Normal Form

There are many ways to write one class. Names can stand at any index and more
than once, attributes can come in any order, and annotations can be spread
over several of them. Writing a class that was read settles all that: what was
written is read back to the same class, with the visible annotations in front
and a pool that has grown, and is written again to the same bytes.

Two things make this so. Writing adds to the pool only what is not found
there, and what it adds it finds the next time at the index it has given it,
since an index is never taken back. And the bytes that a class keeps, bodies
among them, mean the same with the pool that has grown.

## Main definitions

* `ClassFile.grouped`: The class with the visible annotations in front.

## Theorems

* `ClassFile.bodyBytes_settled`: Writing a class a second time adds nothing.
* `ClassFile.bodyBytes_grouped`: The order of annotations makes no difference to what is written.
* `ClassFile.toBytes_normal_form`: What was written is read back and written in the same way.
-/

namespace JvmFold

open Read Pool

/-- No body is decoded as changed. -/
theorem Body.modified_of_decode {data : Bytes} {p : Pool} {method : MethodInfo} {b : Body}
    (h : decode data p method = .ok b) : b.modified = false := by
  rcases except_bind_ok h with ⟨read, -, h⟩
  rcases except_bind_ok h with ⟨instructions, -, h⟩
  cases h
  rfl

/-- The method with its visible annotations in front. -/
def Method.grouped (m : Method) : Method :=
  { m with annotations := AnnotationRecord.grouped m.annotations }

namespace AnnotationRecord

/-- Grouping keeps the order of the visible annotations. -/
theorem filter_visible_grouped (l : List AnnotationRecord) :
    (grouped l).filter (·.visible) = l.filter (·.visible) := by
  simp [grouped, List.filter_append]

-- And that of the others.
theorem filter_invisible_grouped (l : List AnnotationRecord) :
    (grouped l).filter (!·.visible) = l.filter (!·.visible) := by
  simp [grouped, List.filter_append]

end AnnotationRecord

namespace ClassFile

/-- The class with the visible annotations in front, on itself and on its members. -/
def grouped (c : ClassFile) : ClassFile :=
  { c with
    fields := c.fields.map Field.grouped
    methods := c.methods.map Method.grouped
    annotations := AnnotationRecord.grouped c.annotations }

section Settled

instance (count : Nat) (what : String) : Edit.Settled (countBytes count what) := by
  unfold countBytes
  infer_instance

instance (a : Attribute) : Edit.Settled (attributeBytes a) := by
  unfold attributeBytes Body.attributeBytes
  infer_instance

instance (l : List Attribute) : Edit.Settled (attributesBytes l) := by
  unfold attributesBytes
  infer_instance

instance (f : Field) : Edit.Settled (fieldConstantAttribute f) := by
  unfold fieldConstantAttribute
  split
  · infer_instance
  · split <;> infer_instance

instance (access : Access) (s : Signature) : Edit.Settled (headerBytes access s) := by
  unfold headerBytes
  infer_instance

instance (f : Field) : Edit.Settled (fieldBytes f) := by
  unfold fieldBytes
  infer_instance

/-- A method is written in the same way again unless its body is encoded for that. -/
theorem methodBytes_settled (owner : String) {m : Method} (hm : m.isModified = false)
    (hraw : m.raw = none → m.body = none) : Edit.Settled (methodBytes owner m) := by
  have hbody : Edit.Settled (bodyAttribute owner m) := by
    unfold bodyAttribute
    -- A body that is unchanged is written as it was read.
    cases hb : m.body with
    | none => cases m.raw <;> infer_instance
    | some b =>
        rw [Method.isModified, hb, Option.any_some] at hm
        cases hr : m.raw with
        | none => exact absurd (hb.symm.trans (hraw hr)) (Option.some_ne_none b)
        | some raw =>
            dsimp only
            rw [hm, if_neg Bool.false_ne_true]
            infer_instance
  unfold methodBytes
  infer_instance

/-- Writing a class whose bodies are unchanged adds nothing the second time. -/
theorem bodyBytes_settled {c : ClassFile}
    (hc : ∀ m ∈ c.methods, m.isModified = false ∧ (m.raw = none → m.body = none)) :
    Edit.Settled c.bodyBytes := by
  have hmethods : Edit.Settled (c.methods.mapM (methodBytes c.name)) :=
    settled_mapM fun m hm => methodBytes_settled c.name (hc m hm).1 (hc m hm).2
  unfold bodyBytes
  cases c.superName <;> dsimp only
  all_goals
    refine Edit.Settled.bind inferInstance (fun name => ?_) inferInstance
    refine Edit.Settled.bind inferInstance (fun superName => ?_) inferInstance
    refine Edit.Settled.bind inferInstance (fun interfaceCount => ?_) inferInstance
    refine Edit.Settled.bind inferInstance (fun interfaces => ?_) inferInstance
    infer_instance

end Settled

section Grouped

-- So grouping changes no attribute that is written.
theorem annotationAttributes_grouped (l : List AnnotationRecord) :
    annotationAttributes (AnnotationRecord.grouped l) = annotationAttributes l := by
  unfold annotationAttributes
  rw [AnnotationRecord.filter_visible_grouped, AnnotationRecord.filter_invisible_grouped]

-- And no field.
theorem fieldBytes_grouped (f : Field) : fieldBytes f.grouped = fieldBytes f := by
  unfold fieldBytes
  rw [show f.grouped.annotations = AnnotationRecord.grouped f.annotations from rfl,
    annotationAttributes_grouped]
  rfl

-- And no method.
theorem methodBytes_grouped (owner : String) (m : Method) :
    methodBytes owner m.grouped = methodBytes owner m := by
  unfold methodBytes
  rw [show m.grouped.annotations = AnnotationRecord.grouped m.annotations from rfl,
    annotationAttributes_grouped]
  rfl

/-- The annotations of either visibility are written in one attribute, so it makes no difference in
    which order the visibilities come. -/
theorem bodyBytes_grouped (c : ClassFile) (p : Pool) :
    { c.grouped with pool := p }.bodyBytes = c.bodyBytes := by
  have hfields : (c.fields.map Field.grouped).mapM fieldBytes = c.fields.mapM fieldBytes := by
    rw [List.mapM_map]
    exact congrArg (c.fields.mapM ·) (funext fieldBytes_grouped)
  have hmethods : (c.methods.map Method.grouped).mapM (methodBytes c.name) =
      c.methods.mapM (methodBytes c.name) := by
    rw [List.mapM_map]
    exact congrArg (c.methods.mapM ·) (funext (methodBytes_grouped c.name))
  unfold bodyBytes
  dsimp only [grouped]
  rw [hfields, hmethods, annotationAttributes_grouped, List.length_map, List.length_map]

end Grouped

/-- A method is read with its body decoded if the mode asks for that, and no body is read as
    changed. -/
theorem ensures_decodedIn (p : Pool) (owner : String) (mode : ReadMode) :
    Ensures (readMethod p owner mode) fun m => m.isModified = false ∧
      Method.decodedIn p owner { m with body := none } mode = .ok m := by
  refine (ensures_any _).bind fun _ _ => (ensures_any _).bind fun _ _ => ?_
  refine (ensures_any _).bind fun _ _ => (ensures_any _).bind fun _ _ => ?_
  refine (ensures_any _).bind fun _ _ => (ensures_any _).bind fun t _ => ?_
  cases mode with
  | outline => exact ensures_pure ⟨rfl, rfl⟩
  | full =>
      refine ensures_lift.imp fun m hm => ?_
      -- In full the body is decoded from the attribute, and is unchanged then.
      cases hown : t.own with
      | none =>
          rw [hown] at hm
          cases hm
          exact ⟨rfl, rfl⟩
      | some raw =>
          rw [hown] at hm
          rcases except_bind_ok hm with ⟨b, hb, hm⟩
          cases hm
          exact ⟨Body.modified_of_decode hb, congrArg (· >>= _) hb⟩

/-- A method that is decoded is decoded in the same way with a pool that has grown and with its
    annotations in another order. -/
theorem decodedIn_grouped {p q : Pool} {owner : String} {mode : ReadMode} {m : Method}
    (hg : Grows p q) (h : Method.decodedIn p owner { m with body := none } mode = .ok m) :
    Method.decodedIn q owner { m.grouped with body := none } mode = .ok m.grouped := by
  -- Decoding gives a body and touches nothing else.
  have hbody (x : Option Body) (h : Except.ok { m with body := x } = Except.ok (ε := Error) m) :
      Except.ok { m.grouped with body := x } = Except.ok (ε := Error) m.grouped := by
    rw [show x = m.body from congrArg Method.body (Except.ok.inj h)]
    rfl
  cases mode with
  | outline => exact hbody none h
  | full =>
      change Method.decodeBody p owner { m with body := none } = .ok m at h
      change Method.decodeBody q owner { m.grouped with body := none } = .ok m.grouped
      unfold Method.decodeBody at h ⊢
      cases hraw : m.raw with
      | none =>
          simp only [hraw, Method.grouped] at h hbody ⊢
          exact hbody none h
      | some raw =>
          simp only [hraw, Method.grouped] at h hbody ⊢
          rcases except_bind_ok h with ⟨b, hb, hm⟩
          exact (congrArg (· >>= _) (Body.decode_of_grows hg hb)).trans (hbody (some b) hm)

/-- Whatever is written of a class that was read is read back in the same mode to the same class,
    with the visible annotations in front and a pool that has grown, and is written in the same way
    again. -/
theorem toBytes_normal_form {data out : Bytes} {mode : ReadMode} {c : ClassFile}
    (hparse : parse data mode = .ok c) (hfit : c.AnnotationsFit) (hout : c.toBytes = .ok out) :
    ∃ q, c.pool.entries.toList <+: q.entries.toList ∧
      parse out mode = .ok { c.grouped with pool := q } ∧
      { c.grouped with pool := q }.toBytes = .ok out := by
  rcases of_parse (fun p owner => ensures_decodedIn p owner mode) hparse with ⟨hread, hmethods⟩
  rcases parse_toBytes_decoded hread.parts hread.pool hread.reachable hfit hout with
    ⟨body, q, outlines, hbody, houtlines, hback⟩
  have hgrows : Grows c.pool q := (Edit.Adding.adds hbody).grows
  have hdecoded : List.Forall₂ (fun o m => o.decodedIn q c.name mode = .ok m) outlines
      (c.methods.map Method.grouped) := by
    rw [List.forall₂_map_right_iff]
    have hboth := (List.forall₂_and_left _ _).2 ⟨hmethods, houtlines⟩
    refine hboth.flip.imp fun o m ⟨⟨hm, hdecoded⟩, ho⟩ => ?_
    rcases ho with ⟨raw, hraw, -, rfl⟩
    rw [hraw.kept hm]
    exact decodedIn_grouped hgrows hdecoded
  refine ⟨q, prefix_of_grows hgrows, hback hdecoded, ?_⟩
  -- Writing once more finds every entry in the pool, so the pool and the bytes stay as they are.
  have hsettled : Edit.Settled c.bodyBytes :=
    bodyBytes_settled fun m hm => ⟨(hmethods m hm).1, (hread.parts.methods m hm).raw⟩
  have hagain : { c.grouped with pool := q }.bodyBytes q = .ok body q := by
    rw [bodyBytes_grouped]
    exact hsettled.again hbody .refl
  unfold toBytes at hout ⊢
  rw [hbody] at hout
  dsimp only
  rw [hagain]
  exact hout

namespace NamedTwice

/-- The text of a name twice, and a class with the second. -/
def names : Pool :=
  empty.appendAll [.utf8 "A" [65], .utf8 "A" [65], .classRef 2]

/-- The bytes of a class whose name is the second of two equal texts. -/
def bytes : Bytes :=
  bareBytes names.bytes 3 (Bytes.ofCount 0)

/-- The pool with a class of the first text as well. -/
def settled : Pool :=
  names.append (.classRef 1)

theorem takes_noAttributes (p : Pool) :
    Takes (readAttributes p bootstrapsOf?) (Bytes.ofCount 0)
      { own := none, annotations := [].toArray } :=
  (takes_u16 0).bind (takes_pure _)

/-- The class of the example is read back. -/
theorem parse_bytes : parse bytes .full = .ok (bare names []) := by
  have htext : (PoolEntry.utf8 "A" [65]).IsLegible := ⟨by decide, rfl⟩
  have hlegible : names.Legible := by
    refine ⟨_, ?_, rfl⟩
    simp only [List.forall_mem_cons]
    exact ⟨htext, htext, trivial, fun e he => absurd he List.not_mem_nil⟩
  exact parse_bareBytes .full (hlegible.takes_read (by decide)) rfl (takes_noAttributes names)

/-- The name is found by its first text, of which there is no class yet. -/
theorem toBytes_bare_names :
    (bare names []).toBytes = .ok (bareBytes settled.bytes 4 (Bytes.ofCount 0)) := by
  have htext : names.lookup[PoolKey.utf8 "A"]? = some 1 :=
    lookup_appendAll_of_some (p := empty.append (.utf8 "A" [65]))
      (lookup_append_of_none rfl Std.HashMap.getElem?_empty)
  have hclass : names.lookup[PoolKey.classRef 1]? = none :=
    (lookup_appendAll_of_ne (by decide)).trans Std.HashMap.getElem?_empty
  have hname : addUtf8 "A" names = .ok 1 names := by rw [addUtf8, htext]
  exact toBytes_of_addClass ((bind_of_ok hname).trans (push_of_new hclass (by decide)))

/-- The first time the class is written it gets another index for its name, the second time it is
    written in the same way. -/
theorem toBytes_normal_form_named_twice :
    parse bytes .full = .ok (bare names []) ∧
      (bare names []).toBytes = .ok (bareBytes settled.bytes 4 (Bytes.ofCount 0)) ∧
      ∃ q, names.entries.toList <+: q.entries.toList ∧
        parse (bareBytes settled.bytes 4 (Bytes.ofCount 0)) .full =
          .ok { (bare names []).grouped with pool := q } ∧
        { (bare names []).grouped with pool := q }.toBytes =
          .ok (bareBytes settled.bytes 4 (Bytes.ofCount 0)) :=
  ⟨parse_bytes, toBytes_bare_names,
    toBytes_normal_form parse_bytes annotationsFit_bare toBytes_bare_names⟩

end NamedTwice

end ClassFile

end JvmFold
