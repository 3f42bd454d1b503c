import JvmFold.Proofs.ClassFile.Attributes

/-!
# Classes and Their Bytes

What is written of a class is read back, in outline, to the class itself,
apart from two things. The annotations come back with the visible ones in
front, and a body that was marked as changed has new bytes. All else that is
kept as bytes comes back as it was.

Each part of a class is written by a computation that adds to the pool, so
what is said of a part is said for every pool that grows out of the one it
leaves. The bytes that a class keeps must be legible in the pool that it
starts with, and a class that was read has them so: nothing is written that
does not come from reading or from the pool.

## Main definitions

* `Method.Outlines`, `Method.Rewrites`: A method and what is read of it again.
* `Field.Legible`, `Method.Legible`, `ClassFile.Legible`: What is kept as bytes can be read again.
* `ClassFile.ReadsBack`: Bytes behind the pool that are read back to a class.
* `ClassFile.Readable`: A class with its pool as they are read.

## Theorems

* `ClassFile.fieldBytes_gives`, `ClassFile.methodBytes_gives`: Members are read back.
* `ClassFile.read_ends`: A class is read from the bytes of its parts.
* `ClassFile.bodyBytes_gives`: What is written behind the pool is read back.
* `ClassFile.ensures_read`: What was read can be read again.
* `ClassFile.parse_toBytes_decoded`: Whatever is written is read back where its bodies can be
  decoded.
* `ClassFile.parse_toBytes`: Whatever is written is read back in outline.
-/

namespace JvmFold

open Read Pool

section Adding

open Body

instance {α : Type} (x : Except Error α) : Edit.Adding (liftEdit x) := by
  unfold liftEdit
  split <;> infer_instance

instance (i : Instruction) : Edit.Adding (poolIndex i) := by
  unfold poolIndex
  split <;> infer_instance

instance (offsetOf : Label → Except Error Nat) (h : Handler) :
    Edit.Adding (handlerBytes offsetOf h) := by
  unfold handlerBytes
  cases h.catchType <;> infer_instance

instance (offsetOf : Label → Except Error Nat) (v : LocalVariable) :
    Edit.Adding (localBytes offsetOf v) := by
  unfold localBytes
  infer_instance

instance (offsetOf : Label → Except Error Nat) (t : SlotType) :
    Edit.Adding (slotBytes offsetOf t) := by
  cases t <;> (unfold slotBytes; infer_instance)

instance (offsetOf : Label → Except Error Nat) (frames : List (Nat × Frame)) :
    Edit.Adding (framesBytes offsetOf frames) := by
  unfold framesBytes frameBytes
  infer_instance

instance (name : String) (contents : Bytes) : Edit.Adding (Body.attributeBytes name contents) := by
  unfold Body.attributeBytes
  infer_instance

instance (offsetOf : Label → Except Error Nat) (placed : List Placed)
    (locals : List LocalVariable) : Edit.Adding (attributes offsetOf placed locals) := by
  unfold attributes
  dsimp only
  split
  · split <;> infer_instance
  · refine Edit.Adding.bind inferInstance fun lineTable => ?_
    split <;> infer_instance

instance (b : Body) (method : Member) : Edit.Adding (b.encode method) := by
  unfold encode indexed
  infer_instance

instance (count : Nat) (what : String) : Edit.Adding (ClassFile.countBytes count what) := by
  unfold ClassFile.countBytes
  infer_instance

instance (a : Attribute) : Edit.Adding (ClassFile.attributeBytes a) := by
  unfold ClassFile.attributeBytes
  infer_instance

instance (l : List Attribute) : Edit.Adding (ClassFile.attributesBytes l) := by
  unfold ClassFile.attributesBytes
  infer_instance

instance (f : Field) : Edit.Adding (ClassFile.fieldConstantAttribute f) := by
  unfold ClassFile.fieldConstantAttribute
  split
  · infer_instance
  · split <;> infer_instance

instance (access : Access) (s : Signature) : Edit.Adding (ClassFile.headerBytes access s) := by
  unfold ClassFile.headerBytes
  infer_instance

instance (f : Field) : Edit.Adding (ClassFile.fieldBytes f) := by
  unfold ClassFile.fieldBytes
  infer_instance

instance (owner : String) (m : Method) : Edit.Adding (ClassFile.bodyAttribute owner m) := by
  unfold ClassFile.bodyAttribute
  dsimp only
  split <;> infer_instance

instance (owner : String) (m : Method) : Edit.Adding (ClassFile.methodBytes owner m) := by
  unfold ClassFile.methodBytes
  infer_instance

instance (c : ClassFile) : Edit.Adding c.bodyBytes := by
  unfold ClassFile.bodyBytes
  cases c.superName <;> infer_instance

end Adding

/-- The field with its visible annotations in front. -/
def Field.grouped (f : Field) : Field :=
  { f with annotations := AnnotationRecord.grouped f.annotations }

/-- What is kept of the field as bytes can be read again. -/
structure Field.Legible (p : Pool) (f : Field) : Prop where
  annotations : ∀ a ∈ f.annotations, a.Legible p
  attributes : ∀ a ∈ f.attributes, a.IsPlain "ConstantValue"

/-- Whether the body of the method is marked as changed. -/
def Method.isModified (m : Method) : Bool :=
  m.body.any (·.modified)

/-- The second method is the first in outline, with its visible annotations in front and the same
    bytes of its body unless that is marked as changed. -/
def Method.Outlines (m o : Method) : Prop :=
  ∃ raw, (m.isModified = false → raw = m.raw) ∧
    o = { m with body := none, raw, annotations := AnnotationRecord.grouped m.annotations }

/-- The body is encoded to the bytes from a pool between the two. -/
def Body.EncodedBetween (p r : Pool) (method : Member) (b : Body) (w : Bytes) : Prop :=
  ∃ u v, Consistent u ∧ Grows p u ∧ b.encode method u = .ok w v ∧ Grows v r

/-- The bytes are written of the body of the method, between the two pools: those that it was read
    from, or those that it is encoded to if it is marked as changed. -/
structure Method.Writes (p r : Pool) (owner : String) (m : Method) (raw : Option Bytes) :
    Prop where
  kept : m.isModified = false → raw = m.raw
  encoded : ∀ b, m.body = some b → b.modified = true →
    ∃ w, raw = some w ∧ b.EncodedBetween p r (m.signature.on owner) w

/-- The second method is read of what is written of the first, between the two pools. -/
def Method.Rewrites (p r : Pool) (owner : String) (m o : Method) : Prop :=
  ∃ raw, m.Writes p r owner raw ∧ (∀ w, raw = some w → w.length < UInt32.size) ∧
    o = { m with body := none, raw, annotations := AnnotationRecord.grouped m.annotations }

/-- A method that is written again has the same outline. -/
theorem Method.Rewrites.outlines {p r : Pool} {owner : String} {m o : Method}
    (h : m.Rewrites p r owner o) : m.Outlines o := by
  rcases h with ⟨raw, hraw, -, ho⟩
  exact ⟨raw, hraw.kept, ho⟩

/-- The method with its body decoded if the mode asks for that. -/
def Method.decodedIn (p : Pool) (owner : String) (o : Method) : ReadMode → Except Error Method
  | .full => o.decodeBody p owner
  | .outline => .ok o

/-- What is kept of the method as bytes can be read again, and a body has the bytes that it was
    read from. -/
structure Method.Legible (p : Pool) (m : Method) : Prop where
  annotations : ∀ a ∈ m.annotations, a.Legible p
  attributes : ∀ a ∈ m.attributes, a.IsPlain "Code"
  raw : m.raw = none → m.body = none

namespace ClassFile

variable {p : Pool}

/-- The access flags, name and descriptor are read back in front of what follows them. -/
theorem headerBytes_gives (access : Access) (s : Signature) :
    Edit.Gives (headerBytes access s) fun w r =>
      ∀ {β : Type} {f : UInt16 → String → String → Read β} {z : Bytes} {v : β},
        Takes (f access.bits s.name s.descriptor) z v →
        Takes (u16 >>= fun bits => u16 >>= fun i => lift (r.text i) >>= fun name =>
          u16 >>= fun j => lift (r.text j) >>= fun descriptor => f bits name descriptor)
          (w ++ z) v := by
  refine (addUtf8_gives s.name).bind fun name => ?_
  refine (addUtf8_gives s.descriptor).bind fun descriptor => ?_
  refine gives_pure fun r hdescriptor hname β f z v hf => ?_
  rw [List.append_assoc, List.append_assoc]
  refine (takes_u16 access.bits).bind ((takes_u16 name).bind ?_)
  refine (takes_lift hname).bind (z := Bytes.ofU16 descriptor ++ z) ?_
  exact (takes_u16 descriptor).bind ((takes_lift hdescriptor).bind (z := z) hf)

theorem constantOf?_eq_none {field : String} {a : Attribute} (h : a.name ≠ "ConstantValue") :
    constantOf? p field a = none :=
  if_neg h

/-- The constant of a field is read back. -/
theorem fieldConstantAttribute_gives (f : Field) :
    Edit.Gives (fieldConstantAttribute f) fun l r =>
      l.foldlM (AttributeTable.add r (constantOf? r f.name)) {} = .ok { own := f.constant } := by
  -- It is enough that the index leads to the constant.
  have hread {r : Pool} {index : UInt16} {c : Constant}
      (h : constantOf? r f.name ⟨"ConstantValue", Bytes.ofU16 index⟩ = some (.ok c)) :
      [⟨"ConstantValue", Bytes.ofU16 index⟩].foldlM
        (AttributeTable.add r (constantOf? r f.name)) {} = .ok { own := some c } := by
    rw [List.foldlM_cons, add_own h]
    rfl
  unfold fieldConstantAttribute
  cases f.constant with
  | none => exact gives_pure fun _ => rfl
  | some c =>
      cases c with
      | classRef _ | pool _ => exact gives_throw _
      | int v | float b | long v | double b =>
          refine (push_gives_entry rfl rfl).bind fun index => gives_pure fun r h => hread ?_
          unfold constantOf?
          rw [if_pos rfl, (takes_u16 index).parse]
          change some (r.entry index >>= _) = _
          rw [h]
          rfl
      | string t =>
          refine (addString_gives t).bind fun index => gives_pure fun r ⟨n, h, htext⟩ => hread ?_
          unfold constantOf?
          rw [if_pos rfl, (takes_u16 index).parse]
          change some (r.entry index >>= _) = _
          rw [h]
          change some (r.text n >>= _) = _
          rw [htext]
          rfl

/-- A field is read back with its visible annotations in front. -/
theorem fieldBytes_gives {f : Field} (hf : f.Legible p)
    (hfit : AnnotationRecord.Fit f.annotations) :
    Edit.Gives (fieldBytes f) fun w r => Grows p r → Takes (readField r) w f.grouped := by
  refine (headerBytes_gives f.access f.signature).bind fun header => ?_
  refine (fieldConstantAttribute_gives f).bind fun constant => ?_
  refine (attributesBytes_gives _).bind fun attributes => ?_
  refine gives_pure fun r hattributes hconstant hheader hgrows => ?_
  have htable := add_member hconstant (fun a ha => (hf.annotations a ha).mono hgrows) hfit
    hf.attributes (fun a ha => constantOf?_eq_none ha) (by decide)
  refine hheader (z := attributes) (f := fun bits name descriptor =>
    readAttributes r (constantOf? r name) >>= fun t => pure (Field.mk ⟨bits⟩ name descriptor t.own
      t.annotations.toList t.others.toList)) ?_
  exact (hattributes htable).map rfl

/-- The bytes of a body, encoded in some pool between the two. -/
theorem encode_between (b : Body) (method : Member) :
    Edit.GivesFrom p (b.encode method) fun w r => b.EncodedBetween p r method w := by
  intro u hu hpu w v h
  have hadds : u.Adds v := Edit.Adding.adds h
  exact ⟨hadds.consistent hu, hadds.grows, fun r _ hr => ⟨u, v, hu, hpu, h, hr⟩⟩

/-- The attribute of a body is the one it was read from unless the body was changed. -/
theorem bodyAttribute_gives (owner : String) {m : Method} (hm : m.raw = none → m.body = none) :
    Edit.GivesFrom p (bodyAttribute owner m) fun l r => ∃ raw, m.Writes p r owner raw ∧
      l = (raw.map (Attribute.mk "Code")).toList := by
  -- In all cases but one the bytes are those that were read.
  have hkept {r : Pool} (h : m.isModified = false) : m.Writes p r owner m.raw := by
    refine ⟨fun _ => rfl, fun b hb hmodified => ?_⟩
    rw [Method.isModified, hb, Option.any_some, hmodified] at h
    cases h
  unfold bodyAttribute
  cases hbody : m.body with
  | none =>
      have hunmodified : m.isModified = false := by rw [Method.isModified, hbody, Option.any_none]
      cases hraw : m.raw with
      | none => exact (gives_pure fun r => ⟨none, hraw ▸ hkept hunmodified, rfl⟩).from p
      | some raw => exact (gives_pure fun r => ⟨some raw, hraw ▸ hkept hunmodified, rfl⟩).from p
  | some b =>
      cases hraw : m.raw with
      | none => exact absurd (hbody.symm.trans (hm hraw)) (Option.some_ne_none b)
      | some raw =>
          dsimp only
          split
          next hmodified =>
            refine (encode_between b (m.signature.on owner)).bind fun w => ?_
            refine (gives_pure fun r hencoded => ⟨some w, ⟨fun hkept => ?_, ?_⟩, rfl⟩).from p
            · rw [Method.isModified, hbody, Option.any_some, hmodified] at hkept
              cases hkept
            · intro b' hb' _
              cases hbody.symm.trans hb'
              exact ⟨w, rfl, hencoded⟩
          next hunmodified =>
            have hunmodified : m.isModified = false := by
              rw [Method.isModified, hbody, Option.any_some]
              exact Bool.eq_false_of_not_eq_true hunmodified
            exact (gives_pure fun r => ⟨some raw, hraw ▸ hkept hunmodified, rfl⟩).from p

/-- The attribute of a body makes a table that holds its bytes. -/
theorem add_body (r : Pool) (raw : Option Bytes) :
    (raw.map (Attribute.mk "Code")).toList.foldlM (AttributeTable.add r rawBodyOf?) {} =
      .ok { own := raw } := by
  cases raw with
  | none => rfl
  | some w =>
      change [Attribute.mk "Code" w].foldlM _ _ = _
      rw [List.foldlM_cons, add_own (v := w) (by rfl)]
      rfl

/-- A method is read back in outline. -/
theorem methodBytes_gives (owner : String) {m : Method} (hm : m.Legible p)
    (hfit : AnnotationRecord.Fit m.annotations) :
    Edit.GivesFrom p (methodBytes owner m) fun w r => Grows p r →
      ∃ o, m.Rewrites p r owner o ∧ Takes (readMethod r owner .outline) w o := by
  refine ((headerBytes_gives m.access m.signature).from p).bind fun header => ?_
  refine (bodyAttribute_gives owner hm.raw).bind fun body => ?_
  refine (((attributesBytes_gives _).and (attributesBytes_short _)).from p).bind
    fun attributes => ?_
  refine (gives_pure fun r ⟨hattributes, hshort⟩ ⟨raw, hraw, hbody⟩ hheader hgrows => ?_).from p
  -- The body is among the attributes, so its length fits as theirs do.
  have hlength (w : Bytes) (hw : raw = some w) : w.length < UInt32.size := by
    refine hshort ⟨"Code", w⟩ (List.mem_append_left _ (List.mem_append_left _ ?_))
    rw [hbody, hw]
    exact List.mem_singleton_self _
  have htable := add_member (hbody ▸ add_body r raw)
    (fun a ha => (hm.annotations a ha).mono hgrows) hfit hm.attributes (fun a ha => if_neg ha)
    (by decide)
  refine ⟨_, ⟨raw, hraw, hlength, rfl⟩, hheader (z := attributes) (f := fun bits name descriptor =>
    readAttributes r rawBodyOf? >>= fun t => pure (Method.mk ⟨bits⟩ name descriptor none t.own
      t.annotations.toList t.others.toList)) ?_⟩
  exact (hattributes htable).map rfl

/-- A method is read in every mode as it is read in outline, but for its body. -/
theorem takes_readMethod {owner : String} {mode : ReadMode} {w : Bytes} {o m : Method}
    (ho : Takes (readMethod p owner .outline) w o) (hm : o.decodedIn p owner mode = .ok m) :
    Takes (readMethod p owner mode) w m := by
  cases mode with
  | outline =>
      cases hm
      exact ho
  | full =>
      have hbind : Takes (readMethod p owner .outline >>= fun o => lift (o.decodeBody p owner))
          (w ++ []) m := ho.bind (takes_lift hm)
      rw [List.append_nil] at hbind
      refine (congrArg (Takes · w m) ?_).mp hbind
      simp only [readMethod, bind_assoc, pure_bind]

/-- Two bytes are enough for the number of bootstrap methods and for those of their arguments. -/
def BootstrapsFit (l : List BootstrapMethod) : Prop :=
  l.length ≤ 65535 ∧ ∀ b ∈ l, b.arguments.length ≤ 65535

/-- What is kept of the class as bytes can be read again. -/
structure Legible (p : Pool) (c : ClassFile) : Prop where
  fields : ∀ f ∈ c.fields, f.Legible p
  methods : ∀ m ∈ c.methods, m.Legible p
  annotations : ∀ a ∈ c.annotations, a.Legible p
  attributes : ∀ a ∈ c.attributes, a.IsPlain "BootstrapMethods"
  bootstraps : BootstrapsFit c.bootstraps

/-- Two bytes are enough for the annotations of each visibility on the class, its fields and its
    methods. -/
structure AnnotationsFit (c : ClassFile) : Prop where
  own : AnnotationRecord.Fit c.annotations
  fields : ∀ f ∈ c.fields, AnnotationRecord.Fit f.annotations
  methods : ∀ m ∈ c.methods, AnnotationRecord.Fit m.annotations

theorem takes_repeated_u16 (l : List UInt16) :
    Takes (repeated l.length u16) (l.flatMap Bytes.ofU16) l := by
  rw [List.flatMap_def]
  refine takes_repeated ?_
  rw [List.forall₂_map_right_iff, List.forall₂_same]
  exact fun n _ => takes_u16 n

/-- The bytes of a bootstrap method. -/
def bootstrapBytes (b : BootstrapMethod) : Bytes :=
  Bytes.ofU16 b.handle ++ Bytes.ofCount b.arguments.length ++ b.arguments.flatMap Bytes.ofU16

/-- A bootstrap method is read back from its bytes. -/
theorem takes_readBootstrap {b : BootstrapMethod} (h : b.arguments.length ≤ 65535) :
    Takes readBootstrap (bootstrapBytes b) b := by
  have harguments : Takes (repeated b.arguments.length u16 >>= fun l =>
      pure (BootstrapMethod.mk b.handle l)) (b.arguments.flatMap Bytes.ofU16) b :=
    (takes_repeated_u16 b.arguments).map rfl
  rw [bootstrapBytes, List.append_assoc]
  exact (takes_u16 b.handle).bind (takes_counted (f := fun n => repeated n u16 >>= fun l =>
    pure (BootstrapMethod.mk b.handle l)) h harguments)

theorem bootstrapsOf?_eq_none {a : Attribute} (h : a.name ≠ "BootstrapMethods") :
    bootstrapsOf? a = none :=
  if_neg h

/-- Bootstrap methods are read back into the table, if there are any. -/
theorem add_bootstrapAttribute {l : List BootstrapMethod} (hl : BootstrapsFit l)
    (t : AttributeTable (List BootstrapMethod)) :
    (bootstrapAttribute l).foldlM (AttributeTable.add p bootstrapsOf?) t =
      .ok { t with own := if l.isEmpty then t.own else some l } := by
  -- Without bootstrap methods no attribute is written at all.
  cases hempty : l.isEmpty with
  | true =>
      rw [bootstrapAttribute, if_pos hempty]
      rfl
  | false =>
      have hmany : List.Forall₂ (fun b w => Takes readBootstrap w b) l (l.map bootstrapBytes) := by
        rw [List.forall₂_map_right_iff, List.forall₂_same]
        exact fun b hb => takes_readBootstrap (hl.2 b hb)
      have hread : Takes (u16 >>= fun n => repeated n.toNat readBootstrap)
          (Body.tableBytes (l.map bootstrapBytes)) l := by
        rw [Body.tableBytes, List.length_map]
        exact takes_counted (f := fun n => repeated n readBootstrap) hl.1 (takes_repeated hmany)
      have hfound : bootstrapsOf? ⟨"BootstrapMethods", Body.tableBytes (l.map bootstrapBytes)⟩ =
          some (.ok l) :=
        congrArg some hread.parse
      rw [bootstrapAttribute, if_neg (by rw [hempty]; decide)]
      change [(⟨"BootstrapMethods", Body.tableBytes (l.map bootstrapBytes)⟩ : Attribute)].foldlM
        _ t = _
      rw [List.foldlM_cons, add_own hfound]
      rfl

/-- The index of a class that may be missing. -/
def SuperAt (p : Pool) (index : UInt16) : Option String → Prop
  | none => index = 0
  | some name => index ≠ 0 ∧ p.className index = .ok name

section Read

variable {mode : ReadMode} {minor major bits nameIndex superIndex : UInt16} {name : String}
  {superName : Option String} {interfaces : List String} {interfaceIndices : List UInt16}
  {fields : List Field} {methods : List Method} {annotations : List AnnotationRecord}
  {bootstraps : List BootstrapMethod} {attributes : List Attribute}
  {fieldWords methodWords : List Bytes} {own : Option (List BootstrapMethod)}
  {poolWord attributeWord : Bytes}

/-- A class is read from the bytes of its parts. -/
theorem read_ends (hpool : Takes Pool.read poolWord p) (hname : p.className nameIndex = .ok name)
    (hsuper : SuperAt p superIndex superName)
    (hinterfaces : List.Forall₂ (fun s i => p.className i = .ok s) interfaces interfaceIndices)
    (hinterfaceCount : interfaces.length ≤ 65535)
    (hfields : List.Forall₂ (fun f w => Takes (readField p) w f) fields fieldWords)
    (hfieldCount : fields.length ≤ 65535)
    (hmethods : List.Forall₂ (fun m w => Takes (readMethod p name mode) w m) methods methodWords)
    (hmethodCount : methods.length ≤ 65535)
    (hown : own.getD [] = bootstraps)
    (hattributes : Takes (readAttributes p bootstrapsOf?) attributeWord
      { own, annotations := annotations.toArray, others := attributes.toArray }) :
    Ends (read mode) (Bytes.ofU32 magic ++ (Bytes.ofU16 minor ++ (Bytes.ofU16 major ++ (poolWord ++
        (Bytes.ofU16 bits ++ (Bytes.ofU16 nameIndex ++ (Bytes.ofU16 superIndex ++
        (Bytes.ofCount interfaces.length ++ (interfaceIndices.flatMap Bytes.ofU16 ++
        (Bytes.ofCount fields.length ++ (fieldWords.flatten ++
        (Bytes.ofCount methods.length ++ (methodWords.flatten ++ attributeWord)))))))))))))
      { minor, major, pool := p, access := ⟨bits⟩, name, superName, interfaces, fields, methods,
        annotations, bootstraps, attributes } := by
  subst hown
  refine (takes_u32 magic).bindEnds ?_
  rw [if_neg (by simp)]
  refine (takes_u16 minor).bindEnds ((takes_u16 major).bindEnds (hpool.bindEnds ?_))
  refine (takes_u16 bits).bindEnds ((takes_u16 nameIndex).bindEnds ?_)
  refine (takes_lift hname).bindEnds ((takes_u16 superIndex).bindEnds ?_)
  -- Each index takes no bytes but its own, as the name comes from the pool.
  have hclasses : List.Forall₂ (fun s w => Takes (u16 >>= fun i => lift (p.className i)) w s)
      interfaces (interfaceIndices.map Bytes.ofU16) := by
    rw [List.forall₂_map_right_iff]
    refine hinterfaces.imp fun s i hclass => ?_
    have hread : Takes (u16 >>= fun i => lift (p.className i)) (Bytes.ofU16 i ++ []) s :=
      (takes_u16 i).bind (takes_lift hclass)
    rwa [List.append_nil] at hread
  extract_lets behind
  -- The rest is read alike with and without a superclass.
  have hbehind : Ends (behind superName) (Bytes.ofCount interfaces.length ++
      (interfaceIndices.flatMap Bytes.ofU16 ++ (Bytes.ofCount fields.length ++
      (fieldWords.flatten ++ (Bytes.ofCount methods.length ++
      (methodWords.flatten ++ attributeWord))))))
      { minor, major, pool := p, access := ⟨bits⟩, name, superName, interfaces, fields, methods,
        annotations, bootstraps := own.getD [], attributes } := by
    rw [List.flatMap_def]
    refine ends_counted hinterfaceCount hclasses (ends_counted hfieldCount hfields
      (ends_counted hmethodCount hmethods ?_))
    rw [← List.append_nil attributeWord]
    exact hattributes.bindEnds fun data pos => rfl
  cases superName with
  | none =>
      have hzero : superIndex = 0 := hsuper
      rw [if_pos hzero]
      exact hbehind
  | some s =>
      have hnamed : superIndex ≠ 0 ∧ p.className superIndex = .ok s := hsuper
      rcases hnamed with ⟨hzero, hclass⟩
      rw [if_neg hzero, hclass]
      exact hbehind

/-- Choices for the elements of a list make up a list. -/
theorem exists_forall₂ {α β γ : Type} {R : α → γ → Prop} {S : γ → β → Prop} {l : List α}
    {k : List β} (h : List.Forall₂ (fun a b => ∃ c, R a c ∧ S c b) l k) :
    ∃ m, List.Forall₂ R l m ∧ List.Forall₂ S m k := by
  induction h with
  | nil => exact ⟨[], .nil, .nil⟩
  | cons hab _ ih =>
      rcases hab with ⟨c, hR, hS⟩
      rcases ih with ⟨m, hRs, hSs⟩
      exact ⟨c :: m, .cons hR hRs, .cons hS hSs⟩

/-- Behind the pool, the bytes are read back to the class, whose methods are read in outline before
    their bodies are decoded. -/
def ReadsBack (c : ClassFile) (p : Pool) (w : Bytes) (r : Pool) : Prop :=
  ∃ outlines, List.Forall₂ (Method.Rewrites p r c.name) c.methods outlines ∧
    ∀ {mode : ReadMode} {methods : List Method} {poolWord : Bytes},
      List.Forall₂ (fun o m => o.decodedIn r c.name mode = .ok m) outlines methods →
      Takes Pool.read poolWord r →
      Ends (read mode) (Bytes.ofU32 magic ++ (Bytes.ofU16 c.minor ++ (Bytes.ofU16 c.major ++
          (poolWord ++ w))))
        { c with
          pool := r, fields := c.fields.map Field.grouped, methods,
          annotations := AnnotationRecord.grouped c.annotations }

/-- Where one list makes another, whatever goes with its elements goes with theirs. -/
theorem forall₂_of_made {α β γ : Type} {R : α → β → Prop} {S : α → γ → Prop} {T : β → γ → Prop}
    {l : List α} {k : List β} {m : List γ} (hk : List.Forall₂ R l k) (hm : List.Forall₂ S l m)
    (h : ∀ a b c, R a b → S a c → T b c) : List.Forall₂ T k m := by
  induction hk generalizing m with
  | nil =>
      cases hm
      exact .nil
  | cons hab _ ih =>
      cases hm with
      | cons hac hm => exact .cons (h _ _ _ hab hac) (ih hm)

/-- What is written behind the pool is read back. -/
theorem bodyBytes_gives {c : ClassFile} (hc : c.Legible p) (hfit : c.AnnotationsFit) :
    Edit.GivesFrom p c.bodyBytes fun w r => Grows p r → c.ReadsBack p w r := by
  refine ((addClass_gives c.name).from p).bind fun name => ?_
  extract_lets behind
  have hbehind (superIndex : UInt16) :
      Edit.GivesFrom p (behind superIndex) fun w r => SuperAt r superIndex c.superName →
        r.className name = .ok c.name → Grows p r → c.ReadsBack p w r := by
    refine ((countBytes_gives _ _).from p).bind fun interfaceCount => ?_
    refine ((gives_mapM fun s _ => addClass_gives s).from p).bind fun interfaces => ?_
    refine ((countBytes_gives _ _).from p).bind fun fieldCount => ?_
    refine ((gives_mapM fun f hf => fieldBytes_gives (hc.fields f hf) (hfit.fields f hf)).from
      p).bind fun fields => ?_
    refine ((countBytes_gives _ _).from p).bind fun methodCount => ?_
    refine (givesFrom_mapM fun m hm =>
      methodBytes_gives c.name (hc.methods m hm) (hfit.methods m hm)).bind fun methods => ?_
    refine ((attributesBytes_gives _).from p).bind fun attributes => ?_
    refine (gives_pure fun r hattributes hmethods ⟨hmethodCount, hmethodLe⟩ hfields
      ⟨hfieldCount, hfieldLe⟩ hinterfaces ⟨hinterfaceCount, hinterfaceLe⟩ hsuper hname
      hgrows => ?_).from p
    rcases exists_forall₂ (hmethods.imp fun m w h => h hgrows) with ⟨outlines, houtlines, hread⟩
    refine ⟨outlines, houtlines, fun hdecoded hpool => ?_⟩
    have htable : (annotationAttributes c.annotations ++ bootstrapAttribute c.bootstraps ++
        c.attributes).foldlM (AttributeTable.add r bootstrapsOf?) {} =
          .ok { own := if c.bootstraps.isEmpty then none else some c.bootstraps,
                annotations := (AnnotationRecord.grouped c.annotations).toArray,
                others := c.attributes.toArray } := by
      rw [List.foldlM_append, List.foldlM_append, add_annotationAttributes
        (fun a ha => (hc.annotations a ha).mono hgrows) hfit.own
        (fun a ha => bootstrapsOf?_eq_none ha) (by decide)]
      change ((bootstrapAttribute c.bootstraps).foldlM _ _ >>= _) = _
      rw [add_bootstrapAttribute hc.bootstraps]
      refine (add_plain hc.attributes (fun a ha => bootstrapsOf?_eq_none ha) _).trans ?_
      simp
    have hgrouped : List.Forall₂ (fun f w => Takes (readField r) w f)
        (c.fields.map Field.grouped) fields := by
      rw [List.forall₂_map_left_iff]
      exact hfields.imp fun f w h => h hgrows
    have hread := forall₂_of_made hdecoded hread fun o m w hm ho => takes_readMethod ho hm
    have hcount := houtlines.length_eq.trans hdecoded.length_eq
    have hown : (if c.bootstraps.isEmpty then none else some c.bootstraps).getD [] =
        c.bootstraps := by
      cases c.bootstraps <;> rfl
    rw [hcount] at hmethodCount hmethodLe
    rw [hinterfaceCount, hfieldCount, hmethodCount, ← List.length_map Field.grouped]
    simp only [List.append_assoc]
    exact read_ends hpool hname hsuper hinterfaces hinterfaceLe hgrouped
      (by rwa [List.length_map]) hread hmethodLe hown (hattributes htable)
  split
  next s hs =>
    -- Index zero would be read as no superclass at all, but a class never has it.
    have hsuper := (addClass_gives s).imp_consistent (Q := fun index r =>
      SuperAt r index c.superName) fun index r hr hclass =>
        hs ▸ ⟨fun hzero => hr.className_zero (hzero ▸ hclass), hclass⟩
    exact (hsuper.from p).bind hbehind
  next hs =>
    have hsuper : Edit.Gives (pure 0) fun index r => SuperAt r index c.superName :=
      gives_pure fun r => hs ▸ rfl
    exact (hsuper.from p).bind hbehind

end Read

section Parse

variable {c : ClassFile} {m m' : Method} {owner : String}

/-- An attribute that is not taken as one of a name has another name. -/
theorem name_ne_of_none {β : Type} {a : Attribute} {own : String} {taken : β}
    (h : (if a.name = own then some taken else none) = none) : a.name ≠ own := by
  intro hname
  rw [if_pos hname] at h
  cases h

/-- A field starts with a constant that is a value. -/
theorem ne_pool_of_constantOf? {p : Pool} {field : String} {a : Attribute} {k : Constant}
    (h : constantOf? p field a = some (.ok k)) (i : UInt16) : k ≠ .pool i := by
  rintro rfl
  unfold constantOf? at h
  split at h
  · have h := Option.some.inj h
    rcases except_bind_ok h with ⟨index, -, h⟩
    rcases except_bind_ok h with ⟨e, -, h⟩
    cases e with
    | string t =>
        rcases except_bind_ok h with ⟨text, -, h⟩
        cases h
    | _ => cases h
  · cases h

/-- A field that is read can be written and read again. -/
theorem ensures_readField (p : Pool) :
    Ensures (readField p) fun f => f.Legible p ∧ ∀ i, f.constant ≠ some (.pool i) := by
  refine (ensures_any _).bind fun _ _ => (ensures_any _).bind fun _ _ => ?_
  refine (ensures_any _).bind fun name _ => (ensures_any _).bind fun _ _ => ?_
  refine (ensures_any _).bind fun _ _ => ?_
  have hown (a : Attribute) (ha : constantOf? p name a = none) : a.name ≠ "ConstantValue" :=
    name_ne_of_none ha
  exact (ensures_readAttributes hown fun _ _ h => ne_pool_of_constantOf? h).bind fun t ht =>
    ensures_pure ⟨⟨ht.annotations, ht.others⟩, fun i hi => ht.holds _ hi i rfl⟩

/-- Decoding the body of a method changes nothing but the body. -/
theorem legible_decodeBody (hm : m.Legible p) (h : m.decodeBody p owner = .ok m') :
    m'.Legible p := by
  unfold Method.decodeBody at h
  split at h
  next raw hbody hraw =>
    rcases except_bind_ok h with ⟨b, -, h⟩
    cases h
    exact ⟨hm.annotations, hm.attributes, fun hnone => absurd (hraw.symm.trans hnone)
      (Option.some_ne_none raw)⟩
  · cases h
    exact hm

/-- A method that is read can be written and read again. -/
theorem ensures_readMethod (p : Pool) (owner : String) (mode : ReadMode) :
    Ensures (readMethod p owner mode) (Method.Legible p) := by
  refine (ensures_any _).bind fun _ _ => (ensures_any _).bind fun _ _ => ?_
  refine (ensures_any _).bind fun _ _ => (ensures_any _).bind fun _ _ => ?_
  refine (ensures_any _).bind fun _ _ => ?_
  have hown (a : Attribute) (ha : rawBodyOf? a = none) : a.name ≠ "Code" :=
    name_ne_of_none ha
  refine (ensures_readAttributes (P := fun _ => True) hown fun _ _ _ => trivial).bind
    fun t ht => ?_
  cases mode with
  | full =>
      exact ensures_lift.imp fun m hm =>
        legible_decodeBody ⟨ht.annotations, ht.others, fun _ => rfl⟩ hm
  | outline => exact ensures_pure ⟨ht.annotations, ht.others, fun _ => rfl⟩

/-- The counts of a bootstrap method come from two bytes. -/
theorem ensures_readBootstrap : Ensures readBootstrap fun b => b.arguments.length ≤ 65535 := by
  refine (ensures_any _).bind fun _ _ => (ensures_any _).bind fun count _ => ?_
  refine (ensures_repeated _ (ensures_any u16)).bind fun l hl => ensures_pure ?_
  change l.length ≤ 65535
  rw [hl.1]
  exact Nat.le_of_lt_succ count.toNat_lt

/-- Bootstrap methods that were read have counts of two bytes. -/
theorem bootstrapsFit_of_bootstrapsOf? (a : Attribute) (l : List BootstrapMethod)
    (h : bootstrapsOf? a = some (.ok l)) : BootstrapsFit l := by
  have hread : Ensures (u16 >>= fun count => repeated count.toNat readBootstrap) BootstrapsFit := by
    refine (ensures_any _).bind fun count _ =>
      (ensures_repeated _ ensures_readBootstrap).imp fun l hl => ⟨?_, hl.2⟩
    rw [hl.1]
    exact Nat.le_of_lt_succ count.toNat_lt
  unfold bootstrapsOf? at h
  split at h
  · exact hread.parse (Option.some.inj h)
  · cases h

/-- The class and its pool can be read again, and the pool was read. -/
structure Readable (c : ClassFile) : Prop where
  parts : c.Legible c.pool
  pool : c.pool.Legible
  reachable : c.pool.Reachable
  values : ∀ f ∈ c.fields, ∀ i, f.constant ≠ some (.pool i)

/-- What was read can be read again, and its methods are what reading a method answers. -/
theorem ensures_read (mode : ReadMode) {P : Pool → String → Method → Prop}
    (hP : ∀ p owner, Ensures (readMethod p owner mode) (P p owner)) :
    Ensures (read mode) fun c => c.Readable ∧ ∀ m ∈ c.methods, P c.pool c.name m := by
  have hpool : Ensures Pool.read fun p => p.Legible ∧ p.Reachable :=
    fun c p c' h => ⟨Pool.ensures_read c p c' h, .read h⟩
  have hmethod (p : Pool) (owner : String) :
      Ensures (readMethod p owner mode) fun m => m.Legible p ∧ P p owner m :=
    fun c m c' h => ⟨ensures_readMethod p owner mode c m c' h, hP p owner c m c' h⟩
  have hown (a : Attribute) (ha : bootstrapsOf? a = none) : a.name ≠ "BootstrapMethods" :=
    name_ne_of_none ha
  refine (ensures_any _).bind fun found _ => ?_
  extract_lets behindMagic
  -- The checks that can fail branch, and what follows them is the same on both branches.
  suffices h : Ensures (behindMagic ()) fun c => c.Readable ∧ ∀ m ∈ c.methods, P c.pool c.name m by
    split
    · exact (ensures_throw _).bind (P := fun _ => True) fun _ _ => h
    · exact h
  refine (ensures_any _).bind fun minor _ => (ensures_any _).bind fun major _ => ?_
  refine hpool.bind fun p hp => (ensures_any _).bind fun bits _ => ?_
  refine (ensures_any _).bind fun _ _ => (ensures_any _).bind fun name _ => ?_
  refine (ensures_any _).bind fun superIndex _ => ?_
  extract_lets behindSuper
  suffices h : ∀ superName, Ensures (behindSuper superName) fun c =>
      c.Readable ∧ ∀ m ∈ c.methods, P c.pool c.name m by
    split
    · exact (ensures_any _).bind fun superName _ => h superName
    · exact (ensures_any _).bind fun superName _ => h superName
  intro superName
  refine (ensures_any _).bind fun _ _ => (ensures_any _).bind fun interfaces _ => ?_
  refine (ensures_any _).bind fun _ _ => ?_
  refine (ensures_repeated _ (ensures_readField p)).bind fun fields hfields => ?_
  refine (ensures_any _).bind fun _ _ => ?_
  refine (ensures_repeated _ (hmethod p name)).bind fun methods hmethods => ?_
  refine (ensures_readAttributes hown bootstrapsFit_of_bootstrapsOf?).bind fun t ht => ?_
  refine (ensures_any _).bind fun cursor _ => ?_
  have hlegible (f : Field) (hf : f ∈ fields) : f.Legible p := (hfields.2 f hf).1
  have hvalues (f : Field) (hf : f ∈ fields) := (hfields.2 f hf).2
  have hlegible' (m : Method) (hm : m ∈ methods) : m.Legible p := (hmethods.2 m hm).1
  have hread (m : Method) (hm : m ∈ methods) : P p name m := (hmethods.2 m hm).2
  have hbootstraps : BootstrapsFit (t.own.getD []) := by
    cases hown : t.own with
    | none => exact ⟨Nat.zero_le _, fun b hb => absurd hb List.not_mem_nil⟩
    | some l => exact ht.holds l hown
  dsimp only
  split
  · exact (ensures_throw _).bind (P := fun _ => True) fun _ _ => ensures_pure
      ⟨⟨⟨hlegible, hlegible', ht.annotations, ht.others, hbootstraps⟩, hp.1, hp.2, hvalues⟩, hread⟩
  · exact ensures_pure
      ⟨⟨⟨hlegible, hlegible', ht.annotations, ht.others, hbootstraps⟩, hp.1, hp.2, hvalues⟩, hread⟩

/-- What reading one method ensures holds of all methods of a class. -/
theorem of_parse {data : Bytes} {mode : ReadMode} {P : Pool → String → Method → Prop}
    (hP : ∀ p owner, Ensures (readMethod p owner mode) (P p owner))
    (h : parse data mode = .ok c) : c.Readable ∧ ∀ m ∈ c.methods, P c.pool c.name m := by
  unfold parse at h
  split at h
  · cases h
  · exact (ensures_read mode hP).parse h

/-- A class that is parsed can be written and read again. -/
theorem readable_of_parse {data : Bytes} {mode : ReadMode} (h : parse data mode = .ok c) :
    c.Readable :=
  (of_parse (fun p owner => ensures_any (readMethod p owner mode)) h).1

end Parse

/-- Whatever is written of a class that can be read again is read back with a pool to which entries
    were added, in outline and then in any mode in which the bodies can be decoded. -/
theorem parse_toBytes_decoded {c : ClassFile} (hc : c.Legible c.pool) (hpool : c.pool.Legible)
    (hreachable : c.pool.Reachable) (hfit : c.AnnotationsFit) {w : Bytes}
    (h : c.toBytes = .ok w) :
    ∃ body q outlines, c.bodyBytes c.pool = .ok body q ∧
      List.Forall₂ (Method.Rewrites c.pool q c.name) c.methods outlines ∧
      ∀ {mode : ReadMode} {methods : List Method},
        List.Forall₂ (fun o m => o.decodedIn q c.name mode = .ok m) outlines methods →
        parse w mode = .ok
          { c with
            pool := q, fields := c.fields.map Field.grouped, methods,
            annotations := AnnotationRecord.grouped c.annotations } := by
  unfold toBytes at h
  split at h
  · cases h
  next body q hbody =>
    cases h
    have hadds : c.pool.Adds q := Edit.Adding.adds hbody
    -- The body is written first, and the pool then as the body has left it.
    rcases bodyBytes_gives hc hfit c.pool hreachable.consistent (grows_refl _) body q hbody with
      ⟨hq, hgrows, hback⟩
    rcases hback q hq (grows_refl q) hgrows with ⟨outlines, houtlines, hends⟩
    refine ⟨body, q, outlines, hbody, houtlines, fun hdecoded => ?_⟩
    have hsize : q.size ≤ 65535 := hadds.size_le hreachable.size_le
    have hread := (hends hdecoded ((hadds.legible hpool).takes_read hsize)).parse
    simp only [List.append_assoc]
    unfold parse
    rw [if_neg (by exact Bool.false_ne_true)]
    exact hread

/-- Whatever is written of a class that can be read again is read back in outline, with a pool to
    which entries were added. -/
theorem parse_toBytes {c : ClassFile} (hc : c.Legible c.pool) (hpool : c.pool.Legible)
    (hreachable : c.pool.Reachable) (hfit : c.AnnotationsFit) {w : Bytes}
    (h : c.toBytes = .ok w) :
    ∃ q outlines, c.pool.Adds q ∧ List.Forall₂ Method.Outlines c.methods outlines ∧
      parse w .outline = .ok
        { c with
          pool := q, fields := c.fields.map Field.grouped, methods := outlines,
          annotations := AnnotationRecord.grouped c.annotations } := by
  rcases parse_toBytes_decoded hc hpool hreachable hfit h with
    ⟨body, q, outlines, hbody, houtlines, hback⟩
  exact ⟨q, outlines, Edit.Adding.adds hbody, houtlines.imp fun _ _ h => h.outlines,
    hback (List.forall₂_same.2 fun _ _ => rfl)⟩

end ClassFile

end JvmFold
