import JvmFold.Proofs.ClassFile.Emission
import JvmFold.Proofs.Universe.Shape

/-!
# Reading in Outline and in Full

A class comes into the universe in outline, and whoever asks for its bodies
gets a class that was read from the same bytes a second time. The two readings
take the same bytes at every step; the second one only decodes, of every
method, what the first one keeps. So reading in full is reading in outline and
decoding the bodies after that. It fails where either of them does, although
it comes to a damaged body before it has seen what is behind the methods. And
the class in full has the shape of the outline, so what the machine finds by
the outlines it finds in the class that it runs.

## Main definitions

* `Read.Completes`: A reading that completes the answers of another one.
* `ClassFile.Fills`: A class in full with the outline that it was read in before.
* `Universe.Faithful`: Classes in full have the shapes of their outlines.

## Theorems

* `ClassFile.full_iff_outline_decoded`: Reading in full is reading in outline and decoding.
* `Universe.Faithful.insert`: A universe stays faithful when a class is added.
-/

namespace JvmFold

namespace Read

/-- The first reading is the second one, completed: it succeeds where the second does with an answer
    that can be completed, takes the same bytes, and answers what completes that answer. -/
def Completes {α β : Type} (x : Read α) (y : Read β) (R : α → β → Prop) : Prop :=
  ∀ c a c', x c = .ok a c' ↔ ∃ b, y c = .ok b c' ∧ R a b

section Rules

variable {α β γ δ : Type} {R : α → β → Prop} {Q : γ → δ → Prop}

theorem completes_pure {a : α} {b : β} (h : ∀ u, R u b ↔ u = a) :
    Completes (pure a) (pure b) R := by
  intro c u c'
  constructor
  · intro hu
    cases hu
    exact ⟨b, rfl, (h _).2 rfl⟩
  · rintro ⟨_, hb, hub⟩
    cases hb
    rw [(h u).1 hub]
    rfl

/-- Both readings start with the same. -/
theorem Completes.after {x : Read α} {f : α → Read γ} {g : α → Read δ}
    (hf : ∀ a, Completes (f a) (g a) Q) : Completes (x >>= f) (x >>= g) Q := by
  intro c d c''
  constructor
  · intro hd
    rcases bind_eq_ok hd with ⟨a, c', ha, hd⟩
    rcases (hf a c' d c'').1 hd with ⟨e, he, hde⟩
    exact ⟨e, (bind_of_ok ha).trans he, hde⟩
  · rintro ⟨e, he, hde⟩
    rcases bind_eq_ok he with ⟨a, c', ha, he⟩
    exact (bind_of_ok ha).trans ((hf a c' d c'').2 ⟨e, he, hde⟩)

/-- What goes on from two answers is completed by what completes the first of them, if the last
    answer tells what the first one was. -/
theorem Completes.bind {x : Read α} {y : Read β} {f : α → Read γ} {g : β → Read δ}
    {P : β → δ → Prop} {S : α → γ → δ → Prop} (h : Completes x y R)
    (hg : ∀ b, Ensures (g b) (P b)) (hf : ∀ a b, R a b → Completes (f a) (g b) (S a))
    (hQ : ∀ b d e, P b e → (Q d e ↔ ∃ a, R a b ∧ S a d e)) :
    Completes (x >>= f) (y >>= g) Q := by
  intro c d c''
  constructor
  · intro hd
    rcases bind_eq_ok hd with ⟨a, c', ha, hd⟩
    rcases (h c a c').1 ha with ⟨b, hb, hab⟩
    rcases (hf a b hab c' d c'').1 hd with ⟨e, he, hde⟩
    exact ⟨e, (bind_of_ok hb).trans he, (hQ b d e (hg b c' e c'' he)).2 ⟨a, hab, hde⟩⟩
  · rintro ⟨e, he, hde⟩
    rcases bind_eq_ok he with ⟨b, c', hb, he⟩
    rcases (hQ b d e (hg b c' e c'' he)).1 hde with ⟨a, hab, hde⟩
    exact (bind_of_ok ((h c a c').2 ⟨b, hb, hab⟩)).trans ((hf a b hab c' d c'').2 ⟨e, he, hde⟩)

/-- What is computed from an answer completes it. -/
theorem completes_lift (f : β → Except Error α) (b : β) :
    Completes (Read.lift (f b)) (pure b) fun a b => f b = .ok a := by
  -- What is left to do succeeds with one value, or fails.
  cases h : f b with
  | ok a =>
      refine completes_pure fun a' => ?_
      rw [h]
      constructor
      · rintro ⟨⟩
        rfl
      · rintro rfl
        rfl
  | error e =>
      intro c a c'
      constructor
      · intro ha
        cases ha
      · rintro ⟨_, hb, ha⟩
        cases hb
        rw [h] at ha
        cases ha

/-- Parts that complete each other do so repeatedly. -/
theorem completes_repeated {x : Read α} {y : Read β} (n : Nat) (h : Completes x y R) :
    Completes (repeated n x) (repeated n y) (List.Forall₂ R) := by
  induction n with
  | zero =>
      refine completes_pure fun l => ?_
      exact List.forall₂_nil_right_iff
  | succ n ih =>
      rw [repeated_succ, repeated_succ]
      -- An element is read in the one way if it is read in the other, each behind the one before.
      intro c l c'
      constructor
      · intro hl
        rcases bind_eq_ok hl with ⟨a, c₁, ha, hl⟩
        rcases bind_eq_ok hl with ⟨l, c₂, hl, hpure⟩
        cases hpure
        rcases (h _ _ _).1 ha with ⟨b, hb, hab⟩
        rcases (ih _ _ _).1 hl with ⟨k, hk, hlk⟩
        exact ⟨b :: k, (bind_of_ok hb).trans (bind_of_ok hk), .cons hab hlk⟩
      · rintro ⟨k, hk, hlk⟩
        rcases bind_eq_ok hk with ⟨b, c₁, hb, hk⟩
        rcases bind_eq_ok hk with ⟨k, c₂, hk, hpure⟩
        cases hpure
        cases hlk with
        | cons hab hlk =>
            have ha := (h _ _ _).2 ⟨b, hb, hab⟩
            exact (bind_of_ok ha).trans (bind_of_ok ((ih _ _ _).2 ⟨k, hk, hlk⟩))

end Rules

end Read

namespace ClassFile

open Read

/-- The first class is the second one with decoded bodies. -/
def Fills (k o : ClassFile) : Prop :=
  List.Forall₂ (fun m n => n.decodeBody o.pool o.name = .ok m) k.methods o.methods ∧
    k = { o with methods := k.methods }

/-- A method read in full is its outline with the body decoded. -/
theorem completes_readMethod (p : Pool) (owner : String) :
    Completes (readMethod p owner .full) (readMethod p owner .outline)
      fun m n => n.decodeBody p owner = .ok m := by
  refine .after fun bits => .after fun _ => .after fun name => .after fun _ => ?_
  exact .after fun descriptor => .after fun t => completes_lift (Method.decodeBody p owner) _

/-- Reading in full is reading in outline, completed by the bodies. -/
theorem completes_read : Completes (read .full) (read .outline) Fills := by
  refine .after fun found => ?_
  extract_lets full outline
  suffices h : Completes (full ()) (outline ()) Fills by
    split
    · exact .after fun _ => h
    · exact h
  refine .after fun minor => .after fun major => .after fun p => .after fun bits => ?_
  refine .after fun _ => .after fun name => .after fun superIndex => ?_
  extract_lets full outline
  suffices h : ∀ superName, Completes (full superName) (outline superName) Fills by
    split
    · exact .after h
    · exact .after h
  intro superName
  refine .after fun _ => .after fun interfaces => .after fun _ => .after fun fields => ?_
  refine .after fun count => ?_
  -- What is behind the methods does not look at them, and the class that comes out has them as
  -- they were read.
  refine (completes_repeated _ (completes_readMethod p name)).bind
    (P := fun l o => o.methods = l ∧ o.pool = p ∧ o.name = name)
    (S := fun l k o => k = { o with methods := l }) ?_ ?_ ?_
  · intro methods
    refine (ensures_any _).bind fun t _ => (ensures_any _).bind fun cursor _ => ?_
    dsimp only
    split
    · exact (ensures_any _).bind fun _ _ => ensures_pure ⟨rfl, rfl, rfl⟩
    · exact ensures_pure ⟨rfl, rfl, rfl⟩
  · intro methods outlines _
    refine .after fun t => .after fun cursor => ?_
    dsimp only
    split
    · exact .after fun _ => completes_pure fun _ => Iff.rfl
    · exact completes_pure fun _ => Iff.rfl
  · rintro _ k o ⟨rfl, rfl, rfl⟩
    constructor
    · intro h
      exact ⟨k.methods, h⟩
    · rintro ⟨l, hl, rfl⟩
      exact ⟨hl, rfl⟩

/-- What can be read in full is what can be read in outline with bodies that can be decoded. -/
theorem parse_full_iff_fills {data : Bytes} {k : ClassFile} :
    parse data .full = .ok k ↔ ∃ o, parse data .outline = .ok o ∧ k.Fills o := by
  have hparse (mode : ReadMode) (c : ClassFile) : parse data mode = .ok c ↔
      data.isEmpty = false ∧ ∃ c', read mode (Cursor.start data) = .ok c c' := by
    unfold parse
    cases data.isEmpty with
    | true => simp
    | false => simp [Read.parse_eq_ok]
  simp only [hparse, completes_read _ _ _]
  constructor
  · rintro ⟨hdata, c', o, ho, hfills⟩
    exact ⟨o, ⟨hdata, c', ho⟩, hfills⟩
  · rintro ⟨o, ⟨hdata, c', ho⟩, hfills⟩
    exact ⟨hdata, c', o, ho, hfills⟩

-- So a class that is read in full fills its outline.
theorem fills_of_parse {data : Bytes} {k : ClassFile} (h : parse data .full = .ok k) :
    ∃ o, parse data .outline = .ok o ∧ k.Fills o :=
  parse_full_iff_fills.1 h

/-- Methods are decoded without a failure exactly if each of them is. -/
theorem decodeMethods_eq_iff {p : Pool} {owner : String} {l k : List Method} :
    decodeMethods p owner l = (k, none) ↔
      List.Forall₂ (fun m n => n.decodeBody p owner = .ok m) k l := by
  induction l generalizing k with
  | nil => simp [decodeMethods, eq_comm]
  | cons n l ih =>
      unfold decodeMethods
      cases hn : n.decodeBody p owner with
      | error e => simp [List.forall₂_cons_right_iff, hn]
      | ok m =>
          -- The rest has been decoded as far as it goes.
          cases hl : decodeMethods p owner l with
          | mk rest failure =>
              cases k with
              | nil => simp
              | cons m' k =>
                  simp only [List.forall₂_cons, ← ih, hl, hn, Prod.mk.injEq, List.cons.injEq,
                    Except.ok.injEq, and_assoc]

/-- A class with decoded bodies is what decoding the bodies of the outline answers. -/
theorem fills_iff {k o : ClassFile} : k.Fills o ↔ o.decodeBodies = (k, none) := by
  unfold Fills decodeBodies
  rw [← decodeMethods_eq_iff]
  constructor
  · rintro ⟨hmethods, hk⟩
    rw [hmethods]
    exact congrArg (·, none) hk.symm
  · intro h
    have hk := congrArg Prod.fst h
    have hfailure := congrArg Prod.snd h
    dsimp only at hk hfailure
    rw [← hk]
    exact ⟨Prod.ext rfl hfailure, rfl⟩

/-- A class is read in full exactly if it is read in outline and all of its bodies are decoded, and
    then it is the outline with these bodies. -/
theorem full_iff_outline_decoded {data : Bytes} {k : ClassFile} :
    parse data .full = .ok k ↔
      ∃ o, parse data .outline = .ok o ∧ o.decodeBodies = (k, none) := by
  simp only [parse_full_iff_fills, fills_iff]

/-- Decoding the body changes nothing of the shape. -/
theorem shape_of_decodeBody {p : Pool} {owner : String} {m n : Method}
    (h : n.decodeBody p owner = .ok m) : m.shape = n.shape := by
  unfold Method.decodeBody at h
  split at h
  · rcases except_bind_ok h with ⟨b, -, h⟩
    cases h
    rfl
  · cases h
    rfl

-- Nor of the shapes of all methods.
theorem shapes_of_decodeBody {p : Pool} {owner : String} {l l' : List Method}
    (h : List.Forall₂ (fun m n => n.decodeBody p owner = .ok m) l l') :
    l.map Method.shape = l'.map Method.shape := by
  induction h with
  | nil => rfl
  | cons hm _ ih => exact congrArg₂ List.cons (shape_of_decodeBody hm) ih

/-- The machine sees the same of both. -/
theorem Fills.shape {k o : ClassFile} (h : k.Fills o) : k.shape = o.shape := by
  rcases h with ⟨hmethods, hk⟩
  have hshapes := shapes_of_decodeBody hmethods
  rw [hk]
  unfold ClassFile.shape
  rw [hshapes]

end ClassFile

/-- A class that can be read in full has the shape of its outline. -/
def ClassEntry.Faithful (e : ClassEntry) : Prop :=
  ∀ k, e.full = .ok k → k.shape = e.outline.shape

/-- The classes that can be read in full have the shapes of their outlines. -/
def Universe.Faithful (u : Universe) : Prop :=
  ∀ e ∈ u.entries, e.Faithful

/-- An entry made from an input has the outline of its bytes. -/
theorem ClassEntry.faithful_of_ofInput {input : ClassInput} {primary : Bool} {e : ClassEntry}
    (h : ClassEntry.ofInput input primary = .ok e) : e.Faithful := by
  rcases except_bind_ok h with ⟨o, ho, he⟩
  cases he
  intro k hk
  rcases ClassFile.fills_of_parse (k := k) hk with ⟨o', ho', hfills⟩
  rw [ho] at ho'
  cases ho'
  exact hfills.shape

namespace Universe

variable {u v : Universe} {e e' : ClassEntry}

theorem faithful_empty : ({} : Universe).Faithful := by
  intro e he
  cases he

/-- The entries are those found by some name. -/
theorem mem_entries {u : Universe} : e ∈ u.entries ↔ ∃ name, u.entry? name = some e := by
  unfold entries entry?
  simp only [List.mem_map, Prod.exists, exists_eq_right]
  exact exists_congr fun name => Std.TreeMap.mem_toList_iff_getElem?_eq_some

/-- A class that is placed is the only new entry. -/
theorem mem_entries_place (he : e' ∈ (u.place e).entries) : e' = e ∨ e' ∈ u.entries := by
  rcases mem_entries.mp he with ⟨name, hname⟩
  unfold entry? Universe.place at hname
  change (u.classes.insert e.outline.name e)[name]? = some e' at hname
  rw [Std.TreeMap.getElem?_insert] at hname
  split at hname
  · exact .inl (Option.some.inj hname).symm
  · exact .inr (mem_entries.mpr ⟨name, hname⟩)

-- So the universe stays faithful with it.
theorem Faithful.place (h : u.Faithful) (he : e.Faithful) : (u.place e).Faithful := by
  intro e' he'
  rcases mem_entries_place he' with rfl | he'
  · exact he
  · exact h e' he'

/-- A universe stays faithful when a class is added. -/
theorem Faithful.insert (h : u.Faithful) {input : ClassInput} {primary : Bool}
    (hv : u.insert input primary = .ok v) : v.Faithful := by
  rcases except_bind_ok hv with ⟨e, he, hv⟩
  have hplace := h.place (ClassEntry.faithful_of_ofInput he)
  rcases eq_of_insertEntry hv with rfl | rfl
  · exact hplace
  · exact h

end Universe

end JvmFold
