import JvmFold.ClassFile.Reader
import JvmFold.ClassFile.Writer
import JvmFold.Proofs.Pool.Format

/-!
# Attributes and Annotations

The attributes of a class, field or method are read into a table: annotations
by their records, what only such a thing has by its value, and all others as
they are. Written again they come in another order, so the question is what a
table holds behind a list of attributes, and this is settled for each part of
the list on its own.

An annotation is kept as bytes that refer to the pool. They are read again to
the same record wherever they come up and with every pool that has grown out
of the first, because finding the end of an annotation takes no look at the
pool but for the type. What is skipped may nest: a value can be an array or
another annotation, with values of its own.

## Main definitions

* `AnnotationRecord.Legible`: The bytes of a record are read to it.
* `AnnotationRecord.grouped`: The visible records, then the others.
* `ClassFile.AttributeTable.add`: A table with one more attribute.
* `Attribute.IsPlain`: An attribute that is kept as bytes.

## Theorems

* `AnnotationRecord.ensures_readOne`, `AnnotationRecord.Legible.takes`: Annotations.
* `ClassFile.attributesBytes_gives`: A list of attributes is read back into a table.
* `ClassFile.add_annotationAttributes`: What the annotations put into a table.
* `Annotations.read_survives`: Annotations are written as they were read, and read as they were
  written.
-/

namespace JvmFold

open Read Pool

namespace AnnotationRecord

/-- The bytes of the record are the index of its type and named values that nest no deeper than is
    read. -/
def Legible (p : Pool) (a : AnnotationRecord) : Prop :=
  ∃ head values index, a.raw = head ++ values ∧ Takes u16 head index ∧
    p.text index = .ok a.descriptor ∧
    Takes (Annotations.skipPairs (Annotations.skipValue (Annotations.maxNesting + 1))) values ()

/-- The visible annotations, then the others, each in order. -/
def grouped (l : List AnnotationRecord) : List AnnotationRecord :=
  l.filter (·.visible) ++ l.filter (!·.visible)

/-- Two bytes are enough for the number of annotations of each visibility. -/
def Fit (l : List AnnotationRecord) : Prop :=
  (l.filter (·.visible)).length ≤ 65535 ∧ (l.filter (!·.visible)).length ≤ 65535

variable {p q : Pool} {a : AnnotationRecord} {l : List AnnotationRecord} {visible : Bool}

/-- An annotation that can be read in a pool can be read in every later one. -/
theorem Legible.mono (h : Legible p a) (hg : Grows p q) : Legible q a := by
  rcases h with ⟨head, values, index, hraw, hindex, htext, hvalues⟩
  exact ⟨head, values, index, hraw, hindex, hg.text htext, hvalues⟩

instance {value : Read Unit} [Local value] : Local (Annotations.skipPairs value) := by
  unfold Annotations.skipPairs
  infer_instance

instance (room : Nat) : Local (Annotations.skipValue room) := by
  induction room with
  | zero => exact inferInstanceAs (Local (throw _))
  | succ room ih =>
      unfold Annotations.skipValue
      refine Local.bind inferInstance fun tag => ?_
      split <;> infer_instance

/-- The bytes that an annotation took are read to it again. -/
theorem ensures_readOne (p : Pool) (visible : Bool) :
    Ensures (Annotations.readOne p visible) fun a => a.visible = visible ∧ Legible p a := by
  intro c a c' h
  rcases bind_eq_ok h with ⟨⟨descriptor, raw⟩, c₀, hconsumed, h⟩
  cases h
  unfold consumed at hconsumed
  split at hconsumed
  next found c₁ hread =>
    cases hconsumed
    rcases bind_eq_ok hread with ⟨index, c₂, hindex, hread⟩
    rcases bind_eq_ok hread with ⟨descriptor', c₃, hdescriptor, hread⟩
    rcases bind_eq_ok hread with ⟨_, c₄, hvalues, hread⟩
    cases hread
    rcases lift_eq_ok hdescriptor with ⟨htext, rfl⟩
    rcases Local.takes hindex with ⟨head, hrest, hpos, hhead⟩
    rcases Local.takes hvalues with ⟨values, hrest', hpos', hvalues⟩
    refine ⟨rfl, head, values, index, ?_, hhead, htext, hvalues⟩
    -- What was consumed is cut out of the input by its length, which is that of the two parts.
    have hlength : c'.pos - c.pos = (head ++ values).length := by
      rw [List.length_append]
      omega
    dsimp only
    rw [hlength, hrest, hrest', ← List.append_assoc, List.take_left]
  · cases hconsumed

/-- It is taken from exactly the bytes that it was read from. -/
theorem Legible.takes (h : Legible p a) : Takes (Annotations.readOne p a.visible) a.raw a := by
  rcases h with ⟨head, values, index, hraw, hhead, htext, hvalues⟩
  have hread : Takes (u16 >>= fun index => lift (p.text index) >>= fun descriptor =>
      Annotations.skipPairs (Annotations.skipValue (Annotations.maxNesting + 1)) >>= fun _ =>
        pure descriptor) (head ++ ([] ++ values)) a.descriptor :=
    hhead.bind ((takes_lift htext).bind (hvalues.map rfl))
  rw [List.nil_append, ← hraw] at hread
  exact (takes_consumed hread).map rfl

/-- All annotations of an attribute are of its kind. -/
theorem ensures_read (p : Pool) (visible : Bool) :
    Ensures (Annotations.read p visible) fun l => ∀ a ∈ l, a.visible = visible ∧ Legible p a :=
  (ensures_any u16).bind fun count _ =>
    (ensures_repeated count.toNat (ensures_readOne p visible)).imp fun _ h => h.2

/-- Annotations of one visibility are read back. -/
theorem takes_read (h : ∀ a ∈ l, a.visible = visible ∧ Legible p a) (hcount : l.length ≤ 65535) :
    Takes (Annotations.read p visible) (Annotations.bytes l) l := by
  have hraws : List.Forall₂ (fun a w => Takes (Annotations.readOne p visible) w a) l
      (l.map AnnotationRecord.raw) := by
    rw [List.forall₂_map_right_iff, List.forall₂_same]
    intro a ha
    rcases h a ha with ⟨rfl, hlegible⟩
    exact hlegible.takes
  rw [Annotations.bytes, List.flatMap_def]
  exact takes_counted hcount (takes_repeated hraws)

end AnnotationRecord

/-- The attribute is neither one of annotations nor the one of the name. -/
def Attribute.IsPlain (own : String) (a : Attribute) : Prop :=
  a.name ≠ own ∧ a.name ≠ "RuntimeVisibleAnnotations" ∧ a.name ≠ "RuntimeInvisibleAnnotations"

namespace ClassFile

variable {α : Type} {p r : Pool} {own? : Attribute → Option (Except Error α)}

/-- The table with one more attribute. -/
def AttributeTable.add (pool : Pool) (own? : Attribute → Option (Except Error α))
    (t : AttributeTable α) (a : Attribute) : Except Error (AttributeTable α) :=
  match own? a with
  | some found => found.map fun v => { t with own := some v }
  | none =>
    match annotationsOf? pool a with
    | some found => found.map fun (l : List AnnotationRecord) =>
        { t with annotations := t.annotations ++ l }
    | none => .ok { t with others := t.others.push a }

/-- An attribute is read first and sorted into the table then. -/
theorem readAttributeInto_eq (t : AttributeTable α) :
    readAttributeInto p own? t = readAttribute p >>= fun a => lift (t.add p own? a) := by
  unfold readAttributeInto
  congr 1
  funext a
  -- The attribute is of the own kind, holds annotations, or is kept as it is.
  cases hown : own? a with
  | some found =>
      simp only [AttributeTable.add, hown]
      cases found <;> rfl
  | none =>
      cases hannotations : annotationsOf? p a with
      | some found =>
          simp only [AttributeTable.add, hown, hannotations]
          cases found <;> rfl
      | none =>
          simp only [AttributeTable.add, hown, hannotations]
          rfl

/-- Attributes that can be sorted in one by one are read one by one. -/
theorem takes_readAttributes {l : List Attribute} {ws : List Bytes} {t t' : AttributeTable α}
    (h : List.Forall₂ (fun a w => Takes (readAttribute p) w a) l ws)
    (ht : l.foldlM (AttributeTable.add p own?) t = .ok t') :
    Takes (iterated (readAttributeInto p own?) l.length t) ws.flatten t' := by
  induction h generalizing t with
  | nil =>
      cases ht
      exact takes_pure _
  | @cons a w l ws ha _ ih =>
      rw [List.foldlM_cons] at ht
      rcases except_bind_ok ht with ⟨u, hadd, ht⟩
      have hone : Takes (readAttributeInto p own? t) (w ++ []) u := by
        rw [readAttributeInto_eq]
        exact ha.bind (takes_lift hadd)
      rw [List.append_nil] at hone
      exact hone.bind (ih ht)

/-- An attribute is read back. -/
theorem attributeBytes_gives (a : Attribute) :
    Edit.Gives (attributeBytes a) fun w r => Takes (readAttribute r) w a := by
  unfold attributeBytes
  split
  · exact gives_throw _
  next hlength =>
    refine (addUtf8_gives a.name).bind fun index => ?_
    refine gives_pure fun r htext => ?_
    exact (takes_u16 index).bind ((takes_lift htext).bind (z := Bytes.lengthPrefixed a.data)
      ((takes_lengthPrefixed (Nat.not_le.1 hlength)).map rfl))

/-- A count is written only if it fits in two bytes. -/
theorem countBytes_gives (count : Nat) (what : String) :
    Edit.Gives (countBytes count what) fun w _ => w = Bytes.ofCount count ∧ count ≤ 65535 := by
  unfold countBytes
  split
  · exact gives_throw _
  next hcount =>
    exact gives_pure fun _ => ⟨rfl, Nat.not_lt.1 hcount⟩

/-- A list of attributes is read back into what it makes of the empty table. -/
theorem attributesBytes_gives (l : List Attribute) :
    Edit.Gives (attributesBytes l) fun w r =>
      ∀ {α : Type} {own? : Attribute → Option (Except Error α)} {t : AttributeTable α},
        l.foldlM (AttributeTable.add r own?) {} = .ok t → Takes (readAttributes r own?) w t := by
  refine (countBytes_gives _ _).bind fun count => ?_
  refine (gives_mapM fun a _ => attributeBytes_gives a).bind fun ws => ?_
  refine gives_pure fun r hws ⟨hcount, hle⟩ α own? t ht => ?_
  rw [hcount]
  exact takes_counted (f := fun n => iterated (readAttributeInto r own?) n {}) hle
    (takes_readAttributes hws ht)

/-- The length of every attribute that was written fits four bytes. -/
theorem attributesBytes_short (l : List Attribute) :
    Edit.Gives (attributesBytes l) fun _ _ => ∀ a ∈ l, a.data.length < UInt32.size := by
  have hone (a : Attribute) :
      Edit.Gives (attributeBytes a) fun _ _ => a.data.length < UInt32.size := by
    unfold attributeBytes
    split
    · exact gives_throw _
    next hlength =>
      exact (addUtf8_gives a.name).bind fun _ => gives_pure fun _ _ => Nat.not_le.1 hlength
  refine (countBytes_gives _ _).bind fun count => ?_
  refine (gives_mapM fun a _ => hone a).bind fun ws => ?_
  refine gives_pure fun r hshort _ a ha => ?_
  rcases List.mem_iff_get.1 ha with ⟨i, rfl⟩
  exact hshort.get i.isLt (hshort.length_eq ▸ i.isLt)

section Add

variable {a : Attribute} {t : AttributeTable α}

/-- An attribute of the own kind replaces what was found before. -/
theorem add_own {v : α} (h : own? a = some (.ok v)) :
    t.add p own? a = .ok { t with own := some v } := by
  simp only [AttributeTable.add, h]
  rfl

/-- Annotations are added behind the others. -/
theorem add_annotations {l : List AnnotationRecord} (hown : own? a = none)
    (h : annotationsOf? p a = some (.ok l)) :
    t.add p own? a = .ok { t with annotations := t.annotations ++ l } := by
  simp only [AttributeTable.add, hown, h]
  rfl

theorem annotationsOf?_plain {own : String} (h : a.IsPlain own) : annotationsOf? p a = none := by
  rw [annotationsOf?, if_neg h.2.1, if_neg h.2.2]

/-- Attributes that are kept as bytes are put into the table as they are. -/
theorem add_plain {own : String} {l : List Attribute} (hl : ∀ a ∈ l, a.IsPlain own)
    (hown : ∀ a : Attribute, a.name ≠ own → own? a = none) (t : AttributeTable α) :
    l.foldlM (AttributeTable.add p own?) t = .ok { t with others := t.others ++ l } := by
  induction l generalizing t with
  | nil => simp [pure, Except.pure]
  | cons a l ih =>
      rw [List.forall_mem_cons] at hl
      have hadd : t.add p own? a = .ok { t with others := t.others.push a } := by
        simp only [AttributeTable.add, hown a hl.1.1, annotationsOf?_plain hl.1]
      rw [List.foldlM_cons, hadd]
      refine (ih hl.2 _).trans ?_
      simp

/-- The attribute of the annotations of one visibility, if there are any, puts them into the
    table. -/
theorem add_annotationGroup {l : List AnnotationRecord} {name : String} {visible : Bool}
    (hname : annotationsOf? p ⟨name, Annotations.bytes l⟩ =
      some ((Annotations.read p visible).parse (Annotations.bytes l)))
    (hown : own? ⟨name, Annotations.bytes l⟩ = none)
    (hl : ∀ a ∈ l, a.visible = visible ∧ a.Legible p) (hcount : l.length ≤ 65535)
    (t : AttributeTable α) :
    (if l.isEmpty then [] else [⟨name, Annotations.bytes l⟩]).foldlM
        (AttributeTable.add p own?) t =
      .ok { t with annotations := t.annotations ++ l } := by
  cases l with
  | nil => simp [pure, Except.pure]
  | cons a l =>
      rw [(AnnotationRecord.takes_read hl hcount).parse] at hname
      rw [List.isEmpty_cons, if_neg Bool.false_ne_true, List.foldlM_cons,
        add_annotations hown hname]
      rfl

/-- The attributes of annotations put them into the table, the visible ones first. -/
theorem add_annotationAttributes {own : String} {l : List AnnotationRecord}
    (hl : ∀ a ∈ l, a.Legible p) (hfit : AnnotationRecord.Fit l)
    (hown : ∀ a : Attribute, a.name ≠ own → own? a = none)
    (hnames : "RuntimeVisibleAnnotations" ≠ own ∧ "RuntimeInvisibleAnnotations" ≠ own)
    (t : AttributeTable α) :
    (annotationAttributes l).foldlM (AttributeTable.add p own?) t =
      .ok { t with annotations := t.annotations ++ AnnotationRecord.grouped l } := by
  have hvisible : ∀ a ∈ l.filter (·.visible), a.visible = true ∧ a.Legible p := fun a ha =>
    ⟨(List.mem_filter.1 ha).2, hl a (List.mem_filter.1 ha).1⟩
  have hinvisible : ∀ a ∈ l.filter (!·.visible), a.visible = false ∧ a.Legible p := fun a ha =>
    ⟨Bool.not_eq_true' _ ▸ (List.mem_filter.1 ha).2, hl a (List.mem_filter.1 ha).1⟩
  unfold annotationAttributes AnnotationRecord.grouped
  dsimp only
  rw [List.foldlM_append, add_annotationGroup (by rfl) (hown _ hnames.1) hvisible hfit.1]
  refine (add_annotationGroup (by rfl) (hown _ hnames.2) hinvisible hfit.2 _).trans ?_
  have happend : t.annotations ++ l.filter (·.visible) ++ l.filter (!·.visible) =
      t.annotations ++ (l.filter (·.visible) ++ l.filter (!·.visible)) :=
    Array.toList_inj.1 (by simp)
  exact congrArg (fun l => Except.ok { t with annotations := l }) happend

/-- What is written of a field or method makes a table of the same things. -/
theorem add_member {own : String} {known others : List Attribute} {l : List AnnotationRecord}
    {v : Option α} (hknown : known.foldlM (AttributeTable.add p own?) {} = .ok { own := v })
    (hl : ∀ a ∈ l, a.Legible p) (hfit : AnnotationRecord.Fit l)
    (hothers : ∀ a ∈ others, a.IsPlain own)
    (hown : ∀ a : Attribute, a.name ≠ own → own? a = none)
    (hnames : "RuntimeVisibleAnnotations" ≠ own ∧ "RuntimeInvisibleAnnotations" ≠ own) :
    (known ++ annotationAttributes l ++ others).foldlM (AttributeTable.add p own?) {} =
      .ok { own := v, annotations := (AnnotationRecord.grouped l).toArray,
            others := others.toArray } := by
  rw [List.foldlM_append, List.foldlM_append, hknown]
  change ((annotationAttributes l).foldlM _ _ >>= _) = _
  rw [add_annotationAttributes hl hfit hown hnames]
  refine (add_plain hothers hown _).trans ?_
  simp

end Add

/-- The annotations in the table are legible, the attributes that are kept as bytes plain, and what
    only such a thing has meets a condition. -/
structure AttributeTable.Sorted (p : Pool) (own : String) (P : α → Prop) (t : AttributeTable α) :
    Prop where
  holds : ∀ v, t.own = some v → P v
  annotations : ∀ a ∈ t.annotations.toList, a.Legible p
  others : ∀ a ∈ t.others.toList, a.IsPlain own

section Sorted

variable {own : String} {P : α → Prop} {a : Attribute} {t t' : AttributeTable α}

/-- Annotations that were read can be read again. -/
theorem legible_of_annotationsOf? {l : List AnnotationRecord}
    (h : annotationsOf? p a = some (.ok l)) : ∀ a ∈ l, a.Legible p := by
  have hread {visible : Bool} (hr : (Annotations.read p visible).parse a.data = .ok l) :
      ∀ a ∈ l, a.Legible p :=
    fun a ha => ((AnnotationRecord.ensures_read p visible).parse hr a ha).2
  unfold annotationsOf? at h
  split at h
  · exact hread (Option.some.inj h)
  · split at h
    · exact hread (Option.some.inj h)
    · cases h

/-- An attribute of neither kind is kept as it is. -/
theorem isPlain_of_annotationsOf? (hown : a.name ≠ own) (h : annotationsOf? p a = none) :
    a.IsPlain own := by
  unfold annotationsOf? at h
  split at h
  · cases h
  next hvisible =>
    split at h
    · cases h
    next hinvisible =>
      exact ⟨hown, hvisible, hinvisible⟩

/-- One attribute more keeps the table sorted. -/
theorem AttributeTable.Sorted.add (ht : t.Sorted p own P)
    (hown : ∀ a : Attribute, own? a = none → a.name ≠ own)
    (hP : ∀ a v, own? a = some (.ok v) → P v) (h : t.add p own? a = .ok t') :
    t'.Sorted p own P := by
  unfold AttributeTable.add at h
  split at h
  next found hfound =>
    cases found with
    | error e => cases h
    | ok v =>
        cases h
        refine ⟨fun u hu => ?_, ht.annotations, ht.others⟩
        cases hu
        exact hP a _ hfound
  next hnone =>
    split at h
    next found hfound =>
      cases found with
      | error e => cases h
      | ok l =>
          cases h
          refine ⟨ht.holds, fun b hb => ?_, ht.others⟩
          rw [Array.toList_appendList, List.mem_append] at hb
          exact hb.elim (ht.annotations b) (legible_of_annotationsOf? hfound b)
    next hplain =>
      cases h
      refine ⟨ht.holds, ht.annotations, fun b hb => ?_⟩
      rw [Array.toList_push, List.mem_append, List.mem_singleton] at hb
      rcases hb with hb | rfl
      · exact ht.others b hb
      · -- Only what is neither of the two kinds is kept with the others.
        exact isPlain_of_annotationsOf? (hown b hnone) hplain

/-- Whatever is read into a table is sorted. -/
theorem ensures_readAttributes (hown : ∀ a : Attribute, own? a = none → a.name ≠ own)
    (hP : ∀ a v, own? a = some (.ok v) → P v) :
    Ensures (readAttributes p own?) (AttributeTable.Sorted p own P) := by
  have hstart : AttributeTable.Sorted p own P {} :=
    ⟨fun _ h => (by cases h), fun _ h => absurd h List.not_mem_nil,
      fun _ h => absurd h List.not_mem_nil⟩
  refine (ensures_any _).bind fun count _ => ensures_iterated (fun t ht => ?_) _ hstart
  rw [readAttributeInto_eq]
  exact (ensures_any _).bind fun a _ => ensures_lift.imp fun t' h => ht.add hown hP h

end Sorted

end ClassFile

namespace Annotations

variable {p q : Pool} {visible : Bool} {l kept : List AnnotationRecord}

/-- An annotation is written as the bytes that it was read from. -/
theorem writtenAs_readOne (p : Pool) (visible : Bool) :
    WrittenAs (readOne p visible) AnnotationRecord.raw := by
  intro c a c' h
  rcases bind_eq_ok h with ⟨⟨descriptor, raw⟩, c₁, hconsumed, h⟩
  cases h
  exact writtenAs_consumed _ _ _ hconsumed

/-- The number of annotations comes from two bytes. -/
theorem ensures_length_le (p : Pool) (visible : Bool) :
    Ensures (read p visible) fun l => l.length ≤ 65535 := by
  refine (ensures_any u16).bind fun count _ => ?_
  refine (ensures_repeated count.toNat (ensures_any _)).imp fun l hl => ?_
  rw [hl.1]
  exact Nat.le_of_lt_succ count.toNat_lt

/-- Annotations that were read are written as the bytes that they took, and any of them, in order,
    are read back from their bytes with every pool that has grown out of the first. -/
theorem read_survives {body : Bytes} {c : Cursor}
    (h : read p visible (Cursor.start body) = .ok l c) :
    bytes l = body.take c.pos ∧
      ∀ kept, kept.Sublist l → ∀ q, Grows p q →
        read q visible (Cursor.start (bytes kept)) =
          .ok kept ⟨bytes kept, (bytes kept).length, []⟩ := by
  constructor
  · -- The bytes are those of the count and of each annotation, as it was read.
    rcases writtenAs_counted (writtenAs_readOne p visible) _ _ _ h with ⟨hrest, hpos⟩
    have hbody : body = bytes l ++ c.rest := hrest
    have hlength : c.pos = (bytes l).length := hpos.trans (Nat.zero_add _)
    rw [hlength, hbody, List.take_left]
  · intro kept hkept q hgrows
    have hlegible : ∀ a ∈ kept, a.visible = visible ∧ a.Legible q := by
      intro a ha
      rcases AnnotationRecord.ensures_read p visible _ _ _ h a (hkept.subset ha) with
        ⟨hvisible, hlegible⟩
      exact ⟨hvisible, hlegible.mono hgrows⟩
    have hcount : kept.length ≤ 65535 :=
      hkept.length_le.trans (ensures_length_le p visible _ _ _ h)
    have hread := (AnnotationRecord.takes_read hlegible hcount).ends (bytes kept) 0
    rwa [Nat.zero_add] at hread

namespace Nested

/-- The names of an annotation, of another one inside it, of its value, and of one without
    values. -/
def pool : Pool :=
  empty.appendAll [.utf8 "Ldemo/Outer;" [], .utf8 "Ldemo/Inner;" [], .utf8 "value" [],
    .utf8 "Ldemo/Marker;" []]

/-- An annotation whose value is an array of an annotation and an enumeration constant. -/
def outer : AnnotationRecord :=
  ⟨"Ldemo/Outer;", true, [0, 1, 0, 1, 0, 3, 91, 0, 2, 64, 0, 2, 0, 0, 101, 0, 1, 0, 1]⟩

/-- An annotation without values. -/
def marker : AnnotationRecord :=
  ⟨"Ldemo/Marker;", true, [0, 4, 0, 0]⟩

/-- Both annotations with one more byte behind them. -/
def body : Bytes :=
  [0, 2, 0, 1, 0, 1, 0, 3, 91, 0, 2, 64, 0, 2, 0, 0, 101, 0, 1, 0, 1, 0, 4, 0, 0, 7]

/-- The second annotation alone is read back with a pool of one more entry. -/
theorem read_survives_nested :
    read pool true (Cursor.start body) = .ok [outer, marker] ⟨body, 25, [7]⟩ ∧
      bytes [outer, marker] = body.take 25 ∧
      read (pool.append (.integer 5)) true (Cursor.start (bytes [marker])) =
        .ok [marker] ⟨bytes [marker], 6, []⟩ := by
  have hread : read pool true (Cursor.start body) = .ok [outer, marker] ⟨body, 25, [7]⟩ := by rfl
  have hkept : [marker].Sublist [outer, marker] := .cons _ (.refl _)
  rcases read_survives hread with ⟨hbytes, hback⟩
  exact ⟨hread, hbytes, hback _ hkept _ grows_append⟩

end Nested

end Annotations

end JvmFold
