import JvmFold.Config.Marker
import JvmFold.Fold.Initializer
import JvmFold.Fold.Splice
import JvmFold.Proofs.ClassFile.Emission

/-!
# What Edits and Emission Leave Alone

A class is edited in three ways before it is written: new code is spliced into
bodies, its initializer is pruned, and its markers are removed. Whatever is
edited, in any order and any number of times, the pool is left as it is, no
attribute that is kept as bytes is touched, no annotation but a marker goes,
and the methods that remain stand in order. Writing adds to the pool at its
end only, so bytes that refer to it mean the same as before.

## Main definitions

* `ClassEdit`, `ClassFile.edit`: The edits.
* `ClassFile.Edited`: What edits leave alone.
* `ClassFile.Frame`: What edits and emission leave alone.

## Theorems

* `ClassFile.edited_foldl`: Any edits leave alone what one of them does.
* `ClassFile.emission_frame`: What is written of an edited class is read back within its frame.
-/

namespace JvmFold

open Read Pool

/-- A change to a class before it is written. -/
inductive ClassEdit where
  /-- New code in the place of spans of the body of the method at a position. -/
  | splice (position : Nat) (found : List Replacement)
  /-- The initializer without the assignments at its front. -/
  | prune (pass : Nat)
  /-- The markers removed. -/
  | strip

/-- Whether the markers are removed. -/
def ClassEdit.isStrip : ClassEdit → Bool
  | .strip => true
  | _ => false

/-- The class with a change. -/
def ClassFile.edit (c : ClassFile) : ClassEdit → ClassFile
  | .splice position found =>
      { c with
        methods := c.methods.modify position fun m =>
          { m with body := m.body.map fun b => b.splice found } }
  | .prune pass => (c.pruneInitializer pass).1
  | .strip => c.withoutMarkers

/-- The annotations that are left: all of them, or those that are not markers. -/
def Marker.left (stripped : Bool) (l : List AnnotationRecord) : List AnnotationRecord :=
  if stripped then strip l else l

/-- Markers are stripped only once. -/
theorem Marker.strip_left (stripped : Bool) (l : List AnnotationRecord) :
    strip (left stripped l) = left true l := by
  cases stripped with
  | false => rfl
  | true =>
      change (l.filter _).filter _ = l.filter _
      rw [List.filter_filter]
      simp only [Bool.and_self]

theorem Marker.mem_of_mem_left {stripped : Bool} {l : List AnnotationRecord} {a : AnnotationRecord}
    (h : a ∈ left stripped l) : a ∈ l := by
  cases stripped with
  | false => exact h
  | true => exact List.mem_of_mem_filter h

/-- Nothing of the field is changed but its constant and its annotations. -/
def Field.Edited (stripped : Bool) (f e : Field) : Prop :=
  e = { f with constant := e.constant, annotations := Marker.left stripped f.annotations }

/-- Nothing of the method is changed but its body, if it has one, and its annotations. -/
structure Method.Edited (stripped : Bool) (e m : Method) : Prop where
  eq : e = { m with body := e.body, annotations := Marker.left stripped m.annotations }
  body : m.body = none → e.body = none

namespace ClassFile

/-- Nothing of the class is changed but its fields, methods and annotations, and these only as
    edits do. -/
structure Edited (stripped : Bool) (c e : ClassFile) : Prop where
  eq : e = { c with
    fields := e.fields, methods := e.methods,
    annotations := Marker.left stripped c.annotations }
  fields : List.Forall₂ (Field.Edited stripped) c.fields e.fields
  methods : List.SublistForall₂ (Method.Edited stripped) e.methods c.methods

section Edit

variable {c e : ClassFile} {stripped : Bool}

/-- A class that nothing was done to. -/
theorem edited_refl (c : ClassFile) : Edited false c c where
  eq := rfl
  fields := List.forall₂_same.2 fun _ _ => rfl
  methods := List.sublistForall₂_iff.2
    ⟨c.methods, List.forall₂_same.2 fun _ _ => ⟨rfl, id⟩, List.Sublist.refl _⟩

/-- New code in one body is a change to that method alone. -/
theorem edited_modify {l k : List Method} (h : List.SublistForall₂ (Method.Edited stripped) l k)
    (position : Nat) (found : List Replacement) :
    List.SublistForall₂ (Method.Edited stripped)
      (l.modify position fun m => { m with body := m.body.map fun b => b.splice found }) k := by
  -- The position counts the methods of the class as it is now, so one that is gone is not counted.
  induction h generalizing position with
  | nil =>
      rw [List.modify_nil]
      exact .nil
  | cons hm hrest ih =>
      cases position with
      | zero =>
          rw [List.modify_zero_cons]
          refine .cons ⟨?_, fun hnone => ?_⟩ hrest
          · rw [hm.eq]
          · rw [hm.body hnone]
            rfl
      | succ position =>
          rw [List.modify_succ_cons]
          exact .cons hm (ih position)
  | cons_right _ ih => exact .cons_right (ih position)

/-- Giving a field its value leaves the rest of it. -/
theorem edited_setConstant {l k : List Field} (h : List.Forall₂ (Field.Edited stripped) l k)
    (s : Signature) (v : Constant) :
    List.Forall₂ (Field.Edited stripped) l (Initializer.setConstant s v k) := by
  induction h with
  | nil => exact .nil
  | cons hf hrest ih =>
      rw [Initializer.setConstant]
      split
      · refine .cons ?_ hrest
        unfold Field.Edited at hf ⊢
        rw [hf]
      · exact .cons hf ih

/-- The initializer has another body or goes; it had one before. -/
theorem edited_replaceMethodBody {l k : List Method} {s : Signature} {old : Body}
    (h : List.SublistForall₂ (Method.Edited stripped) l k)
    (hold : (l.find? fun m => m.signature == s).bind (·.body) = some old) (new : Option Body) :
    List.SublistForall₂ (Method.Edited stripped) (replaceMethodBody s new l) k := by
  induction h with
  | nil => exact .nil
  | @cons m n l k hm hrest ih =>
      unfold replaceMethodBody
      split
      -- The first method of that signature is the one that is replaced.
      next hsignature =>
        rw [List.find?_cons_of_pos (by simpa using hsignature), Option.bind_some] at hold
        cases new with
        | none => exact .cons_right hrest
        | some b =>
            refine .cons ⟨?_, fun hnone => ?_⟩ hrest
            · rw [hm.eq]
            · rw [hm.body hnone] at hold
              cases hold
      next hsignature =>
        rw [List.find?_cons_of_neg (by simpa using hsignature)] at hold
        exact .cons hm (ih hold)
  | cons_right _ ih => exact .cons_right (ih hold)

/-- Taking off the markers is an edit that strips. -/
theorem edited_withoutMarkers (h : Edited stripped c e) : Edited true c e.withoutMarkers where
  eq := by
    have hleft : e.annotations = Marker.left stripped c.annotations :=
      congrArg ClassFile.annotations h.eq
    have hannotations : Marker.strip e.annotations = Marker.left true c.annotations := by
      rw [hleft, Marker.strip_left]
    refine (congrArg (fun k : ClassFile =>
      { k with
        annotations := Marker.strip e.annotations
        fields := e.withoutMarkers.fields
        methods := e.withoutMarkers.methods }) h.eq).trans ?_
    dsimp only
    rw [hannotations]
  fields := by
    refine List.forall₂_map_right_iff.2 (h.fields.imp fun f g hf => ?_)
    unfold Field.Edited at hf ⊢
    rw [hf]
    dsimp only
    rw [Marker.strip_left]
  methods := by
    refine List.sublistForall₂_map_left_iff.2 ?_
    -- Methods may be gone, so those that are left are matched with some of the class.
    rcases List.sublistForall₂_iff.1 h.methods with ⟨kept, hkept, hsublist⟩
    refine List.sublistForall₂_iff.2 ⟨kept, hkept.imp fun m n hm => ⟨?_, hm.body⟩, hsublist⟩
    rw [hm.eq]
    dsimp only
    rw [Marker.strip_left]

/-- Pruning the initializer is an edit. -/
theorem edited_pruneInitializer (h : Edited stripped c e) (pass : Nat) :
    Edited stripped c (e.pruneInitializer pass).1 := by
  unfold pruneInitializer
  split
  · exact h
  next b hbody =>
    refine ⟨?_, ?_, edited_replaceMethodBody h.methods hbody _⟩
    · exact congrArg (fun k : ClassFile =>
        { k with
          fields := (Initializer.prune e b).1.foldl
            (fun l (x : Member × Constant) => Initializer.setConstant x.1.signature x.2 l) e.fields
          methods := replaceMethodBody initializer
            (if Initializer.isEmpty (Initializer.prune e b).2 then none
              else some (Initializer.prune e b).2) e.methods }) h.eq
    · dsimp only
      -- The fields are given their values one by one.
      generalize (Initializer.prune e b).1 = pairs
      have hfields := h.fields
      generalize e.fields = fields at hfields
      induction pairs generalizing fields with
      | nil => exact hfields
      | cons x pairs ih => exact ih _ (edited_setConstant hfields _ _)

/-- One more edit leaves alone what those before it did. -/
theorem Edited.edit (h : Edited stripped c e) (x : ClassEdit) :
    Edited (stripped || x.isStrip) c (e.edit x) := by
  cases x with
  | splice position found =>
      change Edited (stripped || false) c _
      rw [Bool.or_false]
      refine ⟨?_, h.fields, edited_modify h.methods position found⟩
      exact congrArg (fun k : ClassFile =>
        { k with methods := (e.edit (.splice position found)).methods }) h.eq
  | prune pass =>
      change Edited (stripped || false) c _
      rw [Bool.or_false]
      exact edited_pruneInitializer h pass
  | strip =>
      change Edited (stripped || true) c _
      rw [Bool.or_true]
      exact edited_withoutMarkers h

/-- Any edits leave alone what one of them does. -/
theorem edited_foldl (c : ClassFile) (edits : List ClassEdit) :
    Edited (edits.any ClassEdit.isStrip) c (edits.foldl ClassFile.edit c) := by
  have hfold {e : ClassFile} {stripped : Bool} (h : Edited stripped c e) :
      Edited (stripped || edits.any ClassEdit.isStrip) c (edits.foldl ClassFile.edit e) := by
    induction edits generalizing e stripped with
    | nil =>
        rw [List.any_nil, Bool.or_false]
        exact h
    | cons x edits ih =>
        rw [List.any_cons, ← Bool.or_assoc]
        exact ih (h.edit x)
  exact hfold (edited_refl c)

theorem legible_left {p : Pool} {l : List AnnotationRecord} (h : ∀ a ∈ l, a.Legible p) :
    ∀ a ∈ Marker.left stripped l, a.Legible p :=
  fun a ha => h a (Marker.mem_of_mem_left ha)

/-- Edits leave what is kept as bytes legible. -/
theorem Edited.legible {p : Pool} (h : Edited stripped c e) (hc : c.Legible p) : e.Legible p := by
  have hfields : ∀ g ∈ e.fields, g.Legible p := by
    have hlegible := hc.fields
    have hedited := h.fields
    generalize c.fields = l, e.fields = k at hlegible hedited ⊢
    induction hedited with
    | nil => exact fun g hg => absurd hg List.not_mem_nil
    | cons hf _ ih =>
        rw [List.forall_mem_cons] at hlegible ⊢
        refine ⟨?_, ih hlegible.2⟩
        rw [hf]
        exact ⟨legible_left hlegible.1.annotations, hlegible.1.attributes⟩
  have hmethods : ∀ m ∈ e.methods, m.Legible p := by
    have hlegible := hc.methods
    have hedited := h.methods
    generalize c.methods = l, e.methods = k at hlegible hedited ⊢
    induction hedited with
    | nil => exact fun m hm => absurd hm List.not_mem_nil
    | cons hm _ ih =>
        rw [List.forall_mem_cons] at hlegible ⊢
        refine ⟨⟨?_, ?_, fun hnone => ?_⟩, ih hlegible.2⟩
        · rw [hm.eq]
          exact legible_left hlegible.1.annotations
        · rw [hm.eq]
          exact hlegible.1.attributes
        · rw [hm.eq] at hnone
          exact hm.body (hlegible.1.raw hnone)
    -- A method that was left out has nothing to keep legible.
    | cons_right _ ih => exact ih (List.forall_mem_cons.1 hlegible).2
  have hannotations : e.annotations = Marker.left stripped c.annotations := by rw [h.eq]
  have hattributes : e.attributes = c.attributes := by rw [h.eq]
  have hbootstraps : e.bootstraps = c.bootstraps := by rw [h.eq]
  refine ⟨hfields, hmethods, ?_, ?_, ?_⟩
  · rw [hannotations]
    exact legible_left hc.annotations
  · rw [hattributes]
    exact hc.attributes
  · rw [hbootstraps]
    exact hc.bootstraps

end Edit

end ClassFile

/-- What is read again of a field that may have got a constant. -/
structure Field.Kept (stripped : Bool) (f d : Field) : Prop where
  access : d.access = f.access
  signature : d.signature = f.signature
  annotations : d.annotations = AnnotationRecord.grouped (Marker.left stripped f.annotations)
  attributes : d.attributes = f.attributes

/-- What is read again of a method that was edited to `e`. -/
structure Method.Kept (stripped : Bool) (m e d : Method) : Prop where
  access : d.access = m.access
  signature : d.signature = m.signature
  annotations : d.annotations = AnnotationRecord.grouped (Marker.left stripped m.annotations)
  attributes : d.attributes = m.attributes
  raw : e.isModified = false → d.raw = m.raw

namespace ClassFile

/-- What is read again of a class that was edited to `e`. The methods that remain are some of those
    that there were, in order. -/
structure Frame (stripped : Bool) (c e d : ClassFile) : Prop where
  pool : c.pool.entries.toList <+: d.pool.entries.toList
  version : d.minor = c.minor ∧ d.major = c.major
  access : d.access = c.access
  name : d.name = c.name
  superName : d.superName = c.superName
  interfaces : d.interfaces = c.interfaces
  fields : List.Forall₂ (Field.Kept stripped) c.fields d.fields
  methodCount : d.methods.length = e.methods.length
  methods : List.SublistForall₂ (fun x m => Method.Kept stripped m x.1 x.2)
    (e.methods.zip d.methods) c.methods
  annotations : d.annotations = AnnotationRecord.grouped (Marker.left stripped c.annotations)
  bootstraps : d.bootstraps = c.bootstraps
  attributes : d.attributes = c.attributes

section Frame

variable {c e : ClassFile} {stripped : Bool} {p q : Pool}

/-- The entries of a pool come first in every pool that has grown out of it. -/
theorem prefix_of_grows (h : Grows p q) : p.entries.toList <+: q.entries.toList := by
  rw [List.prefix_iff_getElem?]
  intro i hi
  rw [Array.getElem?_toList]
  exact h i _ (Array.getElem?_eq_getElem (by simpa using hi))

/-- Edited methods have the outlines of the methods that they come from. -/
theorem kept_of_outlines {l k : List Method} {outlines : List Method}
    (h : List.SublistForall₂ (Method.Edited stripped) l k)
    (houtlines : List.Forall₂ Method.Outlines l outlines) :
    List.SublistForall₂ (fun x m => Method.Kept stripped m x.1 x.2) (l.zip outlines) k := by
  induction h generalizing outlines with
  | nil => exact .nil
  | @cons n m l k hm _ ih =>
      cases houtlines with
      | cons hd hrest =>
          rcases hd with ⟨raw, hraw, rfl⟩
          refine .cons ?_ (ih hrest)
          have heq := hm.eq
          exact ⟨by rw [heq], by rw [heq]; rfl, by rw [heq], by rw [heq], fun hkept => by
            rw [hraw hkept, heq]⟩
  | cons_right _ ih => exact .cons_right (ih houtlines)

/-- What is written of an edited class is read back within its frame. -/
theorem emission_frame {data out : Bytes} {c : ClassFile} (edits : List ClassEdit)
    (hparse : parse data .full = .ok c) (hfit : (edits.foldl edit c).AnnotationsFit)
    (hout : (edits.foldl edit c).toBytes = .ok out) :
    ∃ d, parse out .outline = .ok d ∧
      Frame (edits.any ClassEdit.isStrip) c (edits.foldl edit c) d := by
  have hedited := edited_foldl c edits
  generalize edits.foldl edit c = e at hedited hfit hout ⊢
  generalize edits.any ClassEdit.isStrip = stripped at hedited ⊢
  have hread : c.Readable := readable_of_parse hparse
  have hpool : e.pool = c.pool := by rw [hedited.eq]
  -- The class is written in the pool it was read from, and what is read back is told field by
  -- field.
  rcases parse_toBytes (hpool ▸ hedited.legible hread.parts) (hpool ▸ hread.pool)
    (hpool ▸ hread.reachable) hfit hout with ⟨q, outlines, hadds, houtlines, hback⟩
  refine ⟨_, hback, ?_⟩
  constructor
  case pool => exact prefix_of_grows (hpool ▸ hadds.grows)
  case version => exact ⟨by rw [hedited.eq], by rw [hedited.eq]⟩
  case fields =>
    refine List.forall₂_map_right_iff.2 (hedited.fields.imp fun f g hf => ?_)
    rw [hf]
    exact ⟨rfl, rfl, rfl, rfl⟩
  case methodCount => exact houtlines.length_eq.symm
  case methods => exact kept_of_outlines hedited.methods houtlines
  all_goals rw [hedited.eq]

end Frame

/-- A class without members. -/
def bare (p : Pool) (annotations : List AnnotationRecord) : ClassFile where
  pool := p
  name := "A"
  superName := none
  annotations := annotations

/-- The bytes of a class without members whose name has an index. -/
def bareBytes (poolWord : Bytes) (index : UInt16) (attributes : Bytes) : Bytes :=
  Bytes.ofU32 magic ++ (Bytes.ofU16 0 ++ (Bytes.ofU16 52 ++ (poolWord ++ (Bytes.ofU16 0x21 ++
    (Bytes.ofU16 index ++ (Bytes.ofU16 0 ++ (Bytes.ofCount 0 ++ (Bytes.ofCount 0 ++
    (Bytes.ofCount 0 ++ attributes)))))))))

section Bare

variable {p : Pool} {poolWord w : Bytes} {i n : UInt16} {annotations : List AnnotationRecord}

theorem parse_eq (mode : ReadMode) :
    parse (bareBytes poolWord i w) mode = (read mode).parse (bareBytes poolWord i w) :=
  if_neg (by exact Bool.false_ne_true)

/-- A class without members is read back. -/
theorem parse_bareBytes (mode : ReadMode) (hpool : Takes Pool.read poolWord p)
    (hname : p.className i = .ok "A")
    (hattributes : Takes (readAttributes p bootstrapsOf?) w
      { own := none, annotations := annotations.toArray }) :
    parse (bareBytes poolWord i w) mode = .ok (bare p annotations) := by
  rw [parse_eq]
  have hsuper : SuperAt p 0 none := rfl
  exact (read_ends hpool hname hsuper .nil (Nat.zero_le _) .nil (Nat.zero_le _) .nil
    (Nat.zero_le _) rfl hattributes).parse

/-- A class without members is written behind the pool in which its name has an index. -/
theorem toBytes_of_addClass {q : Pool} (hadd : addClass "A" p = .ok i q) :
    (bare p []).toBytes = .ok (bareBytes q.bytes i (Bytes.ofCount 0)) := by
  have hbody : (bare p []).bodyBytes p = .ok (Bytes.ofU16 0x21 ++ Bytes.ofU16 i ++ Bytes.ofU16 0
      ++ Bytes.ofCount 0 ++ [] ++ Bytes.ofCount 0 ++ [] ++ Bytes.ofCount 0 ++ []
      ++ (Bytes.ofCount 0 ++ [])) q :=
    (bind_of_ok hadd).trans rfl
  unfold toBytes
  rw [show (bare p []).pool = p from rfl, hbody]
  simp [bareBytes, bare]

-- And these are its bytes.
theorem toBytes_bare (hname : p.lookup[PoolKey.utf8 "A"]? = some n)
    (hclass : p.lookup[PoolKey.classRef n]? = some i) :
    (bare p []).toBytes = .ok (bareBytes p.bytes i (Bytes.ofCount 0)) := by
  have htext : addUtf8 "A" p = .ok n p := by
    rw [addUtf8, hname]
  have hpush : push (.classRef n) p = .ok i p := by
    unfold push find?
    rw [show (PoolEntry.classRef n).key? = some (.classRef n) from rfl, Option.bind_some, hclass]
  exact toBytes_of_addClass ((bind_of_ok htext).trans hpush)

theorem annotationsFit_bare : (bare p []).AnnotationsFit :=
  ⟨⟨Nat.zero_le _, Nat.zero_le _⟩, fun _ hf => absurd hf List.not_mem_nil,
    fun _ hm => absurd hm List.not_mem_nil⟩

end Bare

namespace Marked

/-- A text as it is added. -/
def text (t : String) : PoolEntry :=
  .utf8 t (ModifiedUtf8.encode t)

/-- The name of the class, and what its marker needs. -/
def pool : Pool :=
  empty.appendAll [text "A", .classRef 1, text "Lclassfold/annotations/ConstantType;",
    text "RuntimeVisibleAnnotations"]

/-- The marker of the class. -/
def marker : AnnotationRecord :=
  ⟨"Lclassfold/annotations/ConstantType;", true, Bytes.ofU16 3 ++ Bytes.ofU16 0⟩

/-- The bytes of the class. -/
def bytes : Bytes :=
  bareBytes pool.bytes 2
    (Bytes.ofCount 1 ++ (Bytes.ofU16 4 ++ Bytes.lengthPrefixed (Annotations.bytes [marker])))

/-- The pool of the example can be read. -/
theorem legible_pool : pool.Legible := by
  have htext {t : String} (h : IsShort t) : (text t).IsLegible :=
    ⟨h, ModifiedUtf8.decode_of_text t⟩
  refine ⟨_, ?_, rfl⟩
  simp only [List.forall_mem_cons]
  exact ⟨htext (by decide), trivial, htext (by decide), htext (by decide),
    fun e he => absurd he List.not_mem_nil⟩

-- So can its annotation.
theorem legible_marker : marker.Legible pool :=
  ⟨Bytes.ofU16 3, Bytes.ofU16 0, 3, rfl, takes_u16 3, rfl, (takes_u16 0).bind (takes_pure ())⟩

/-- The annotation is read from the attribute. -/
theorem takes_attributes :
    Takes (readAttributes pool bootstrapsOf?)
      (Bytes.ofCount 1 ++ (Bytes.ofU16 4 ++ Bytes.lengthPrefixed (Annotations.bytes [marker])))
      { own := none, annotations := [marker].toArray } := by
  have hread : Takes (readAttribute pool)
      (Bytes.ofU16 4 ++ Bytes.lengthPrefixed (Annotations.bytes [marker]))
      ⟨"RuntimeVisibleAnnotations", Annotations.bytes [marker]⟩ :=
    (takes_u16 4).bind ((takes_lift rfl).bind
      (z := Bytes.lengthPrefixed (Annotations.bytes [marker]))
      ((takes_lengthPrefixed (by decide)).map rfl))
  have hadd : [(⟨"RuntimeVisibleAnnotations", Annotations.bytes [marker]⟩ : Attribute)].foldlM
      (AttributeTable.add pool bootstrapsOf?) {} = .ok { annotations := [marker].toArray } := by
    have hlegible : ∀ a ∈ [marker], a.visible = true ∧ a.Legible pool :=
      List.forall_mem_singleton.2 ⟨rfl, legible_marker⟩
    have hfound : annotationsOf? pool
        ⟨"RuntimeVisibleAnnotations", Annotations.bytes [marker]⟩ = some (.ok [marker]) :=
      congrArg some (AnnotationRecord.takes_read hlegible (by decide)).parse
    have hown : bootstrapsOf? ⟨"RuntimeVisibleAnnotations", Annotations.bytes [marker]⟩ = none :=
      rfl
    -- The marker is not bootstrap methods, so it goes to the annotations.
    rw [List.foldlM_cons, add_annotations hown hfound]
    rfl
  have hall := takes_readAttributes (List.Forall₂.cons hread .nil) hadd
  rw [List.flatten_singleton] at hall
  exact takes_counted (f := fun n => iterated (readAttributeInto pool bootstrapsOf?) n {})
    (by decide) hall

theorem parse_bytes : parse bytes .full = .ok (bare pool [marker]) :=
  parse_bareBytes .full (legible_pool.takes_read (by decide)) rfl takes_attributes

theorem toBytes_stripped :
    (bare pool []).toBytes = .ok (bareBytes pool.bytes 2 (Bytes.ofCount 0)) := by
  have hstart : (empty.append (text "A")).lookup[PoolKey.utf8 "A"]? = some 1 :=
    lookup_append_of_none rfl Std.HashMap.getElem?_empty
  have hnone : (empty.append (text "A")).lookup[PoolKey.classRef 1]? = none :=
    (lookup_append_of_ne (by decide)).trans Std.HashMap.getElem?_empty
  have hclass : ((empty.append (text "A")).append (.classRef 1)).lookup[PoolKey.classRef 1]? =
      some 2 :=
    lookup_append_of_none rfl hnone
  exact toBytes_bare (lookup_appendAll_of_some (p := empty.append (text "A")) hstart)
    (lookup_appendAll_of_some (p := (empty.append (text "A")).append (.classRef 1)) hclass)

/-- A class whose marker is removed has none when it is read again. -/
theorem emission_frame_marked :
    parse bytes .full = .ok (bare pool [marker]) ∧
      (bare pool []).toBytes = .ok (bareBytes pool.bytes 2 (Bytes.ofCount 0)) ∧
      ∃ d, parse (bareBytes pool.bytes 2 (Bytes.ofCount 0)) .outline = .ok d ∧
        Frame true (bare pool [marker]) (bare pool []) d := by
  have hstrip : [ClassEdit.strip].foldl edit (bare pool [marker]) = bare pool [] := rfl
  have hframe := emission_frame [.strip] parse_bytes (hstrip ▸ annotationsFit_bare)
    (hstrip ▸ toBytes_stripped)
  rw [hstrip] at hframe
  exact ⟨parse_bytes, toBytes_stripped, hframe⟩

end Marked

end ClassFile

end JvmFold
