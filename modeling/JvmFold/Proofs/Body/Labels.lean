import JvmFold.Body.Decode
import JvmFold.Proofs.Bytes.Reading

/-!
# Reading With Labels

Decoding hands out labels as offsets come up, so what is read in the middle of
a body names its positions by labels whose numbers depend on all that was read
before. What does not depend on it is which offset each label stands for. So a
result is given as a function of the names of offsets, and it is that function
of the names in every table that comes after, since a name never changes.

Offsets that come up are offsets of instructions, or the end of the code. Any
other would make the body malformed, and which ones those are is a parameter
here.

## Main definitions

* `LabelTable.Extends`: A table with more names.
* `LabelTable.Valid`: Different offsets have different names.
* `Decode.Yields`: What is read, by the names of offsets.
* `Decode.YieldsBefore`: What is read with certain bytes behind it.

## Theorems

* `Decode.Yields.bind`: One after the other.
* `Decode.yields_repeated`, `Decode.yields_iterated`: Many in a row.
-/

namespace JvmFold

namespace LabelTable

/-- The second table has the names of the first. -/
def Extends (t t' : LabelTable) : Prop :=
  ∀ (o : Nat) (l : Label), t[o]? = some l → t'[o]? = some l

/-- The names are numbered and different, and only offsets of a kind have one. -/
structure Valid (B : Nat → Prop) (t : LabelTable) : Prop where
  lt : ∀ (o : Nat) (l : Label), t[o]? = some l → l.id < t.size
  inj : ∀ (o o' : Nat) (l : Label), t[o]? = some l → t[o']? = some l → o = o'
  known : ∀ (o : Nat) (l : Label), t[o]? = some l → B o

/-- The name of an offset. -/
def name (t : LabelTable) (o : Nat) : Label :=
  (t[o]?).getD default

variable {B : Nat → Prop} {t t' t'' : LabelTable} {o : Nat}

theorem extends_refl (t : LabelTable) : Extends t t :=
  fun _ _ h => h

/-- A table that extends another keeps whatever that one kept. -/
theorem Extends.trans (h : Extends t t') (h' : Extends t' t'') : Extends t t'' :=
  fun o l ho => h' o l (h o l ho)

theorem valid_empty : Valid B ∅ where
  lt := by
    intro o l h
    rw [Std.TreeMap.getElem?_emptyc] at h
    cases h
  inj := by
    intro o o' l h
    rw [Std.TreeMap.getElem?_emptyc] at h
    cases h
  known := by
    intro o l h
    rw [Std.TreeMap.getElem?_emptyc] at h
    cases h

/-- One offset more has a label, and the others keep theirs. -/
theorem getElem?_insert {o' : Nat} {l : Label} :
    (t.insert o l)[o']? = if o = o' then some l else t[o']? := by
  rw [Std.TreeMap.getElem?_insert]
  simp only [Std.compare_eq_iff_eq]

/-- A label that is counted on from the size is a new one. -/
theorem Valid.insert (h : Valid B t) (ho : t[o]? = none) (hB : B o) :
    Valid B (t.insert o ⟨t.size⟩) := by
  have hsize : (t.insert o ⟨t.size⟩).size = t.size + 1 := by
    rw [Std.TreeMap.size_insert, if_neg]
    rw [Std.TreeMap.contains_eq_isSome_getElem?, ho]
    decide
  -- A name in use is not the new one, whose number is the size of the table.
  have hold (o' : Nat) (l : Label) (hget : (t.insert o ⟨t.size⟩)[o']? = some l) :
      (o' = o ∧ l = ⟨t.size⟩) ∨ (t[o']? = some l ∧ l.id < t.size) := by
    rw [getElem?_insert] at hget
    split at hget
    next heq =>
      cases hget
      exact Or.inl ⟨heq.symm, rfl⟩
    · exact Or.inr ⟨hget, h.lt o' l hget⟩
  constructor
  · intro o' l hget
    rw [hsize]
    rcases hold o' l hget with ⟨_, rfl⟩ | ⟨_, hlt⟩
    · exact Nat.lt_succ_self _
    · omega
  · intro o₁ o₂ l h₁ h₂
    rcases hold o₁ l h₁ with ⟨rfl, rfl⟩ | ⟨hget₁, hlt₁⟩
    · rcases hold o₂ _ h₂ with ⟨rfl, _⟩ | ⟨_, hlt₂⟩
      · rfl
      · exact absurd hlt₂ (Nat.lt_irrefl _)
    · rcases hold o₂ l h₂ with ⟨_, rfl⟩ | ⟨hget₂, _⟩
      · exact absurd hlt₁ (Nat.lt_irrefl _)
      · exact h.inj o₁ o₂ l hget₁ hget₂
  · intro o' l hget
    rcases hold o' l hget with ⟨rfl, _⟩ | ⟨hget', _⟩
    · exact hB
    · exact h.known o' l hget'

theorem extends_insert {l : Label} (ho : t[o]? = none) : Extends t (t.insert o l) := by
  intro o' l' hget
  rw [getElem?_insert, if_neg]
  · exact hget
  · intro heq
    rw [← heq, ho] at hget
    cases hget

/-- A table names an offset by its label. -/
theorem name_eq {l : Label} (h : t[o]? = some l) : t.name o = l := by
  unfold name
  rw [h]
  rfl

/-- An offset whose name is the same in all tables that come after has one. -/
theorem exists_of_stable {t : LabelTable} {o : Nat}
    (h : ∀ t', Extends t t' → t'.name o = t.name o) : ∃ l, t[o]? = some l := by
  cases ho : t[o]? with
  | some l => exact ⟨l, rfl⟩
  | none =>
      have hname := h (t.insert o ⟨1⟩) (extends_insert ho)
      rw [name_eq (by rw [getElem?_insert, if_pos rfl])] at hname
      unfold name at hname
      rw [ho] at hname
      cases hname

end LabelTable

namespace Decode

open LabelTable

/-- Reading from a position on gives a function of the names of offsets, from the bytes `w` with
    `rest` behind them, and stops behind `w`. The function is of the names in any table that extends
    the one that is left. -/
def YieldsBefore {α : Type} (rest : Bytes) (B : Nat → Prop) (pos : Nat) (d : Decode α) (w : Bytes)
    (g : (Nat → Label) → α) : Prop :=
  ∀ data t, Valid B t → ∃ v t',
    d t ⟨data, pos, w ++ rest⟩ = .ok (v, t') ⟨data, pos + w.length, rest⟩ ∧
    Valid B t' ∧ Extends t t' ∧ ∀ t'', Extends t' t'' → v = g t''.name

/-- Reading gives that function whatever is behind the bytes. -/
def Yields {α : Type} (B : Nat → Prop) (pos : Nat) (d : Decode α) (w : Bytes)
    (g : (Nat → Label) → α) : Prop :=
  ∀ rest, YieldsBefore rest B pos d w g

section Yields

variable {α β : Type} {B : Nat → Prop} {pos : Nat} {d : Decode α} {rest w z : Bytes}
variable {g : (Nat → Label) → α}

theorem yields_pure (v : α) : Yields B pos (pure v) [] fun _ => v := by
  intro rest data t ht
  exact ⟨v, t, rfl, ht, extends_refl t, fun _ _ => rfl⟩

/-- A second part reads on where the first one stopped, with the bytes behind both in front. -/
theorem YieldsBefore.bind {f : α → Decode β} {k : α → (Nat → Label) → β}
    (h : YieldsBefore (z ++ rest) B pos d w g)
    (hf : ∀ v, (∃ name, v = g name) → YieldsBefore rest B (pos + w.length) (f v) z (k v)) :
    YieldsBefore rest B pos (d >>= f) (w ++ z) fun name => k (g name) name := by
  intro data t ht
  rcases h data t ht with ⟨v, t₁, hd, ht₁, hext₁, hv⟩
  have hname : v = g t₁.name := hv t₁ (extends_refl t₁)
  rcases hf v ⟨_, hname⟩ data t₁ ht₁ with ⟨u, t₂, hfv, ht₂, hext₂, hu⟩
  refine ⟨u, t₂, ?_, ht₂, hext₁.trans hext₂, ?_⟩
  · rw [List.append_assoc, List.length_append, ← Nat.add_assoc, ← hfv]
    change EStateM.bind (d t) (fun x => f x.1 x.2) _ = _
    unfold EStateM.bind
    rw [hd]
  · intro t'' hext
    rw [hu t'' hext, hv t'' (hext₂.trans hext)]

/-- The same where the first part gives a value that no name goes into. -/
theorem YieldsBefore.andThen {f : α → Decode β} {k : (Nat → Label) → β} {v : α}
    (h : YieldsBefore (z ++ rest) B pos d w fun _ => v)
    (hf : YieldsBefore rest B (pos + w.length) (f v) z k) :
    YieldsBefore rest B pos (d >>= f) (w ++ z) k := by
  refine h.bind (k := fun _ => k) ?_
  rintro _ ⟨_, rfl⟩
  exact hf

/-- Two parts that take their bytes whatever follows take both, one behind the other. -/
theorem Yields.bind {f : α → Decode β} {k : α → (Nat → Label) → β} (h : Yields B pos d w g)
    (hf : ∀ v, (∃ name, v = g name) → Yields B (pos + w.length) (f v) z (k v)) :
    Yields B pos (d >>= f) (w ++ z) fun name => k (g name) name :=
  fun rest => (h (z ++ rest)).bind fun v hv => hf v hv rest

/-- Going on with a value that has no labels in it. -/
theorem Yields.andThen {f : α → Decode β} {k : (Nat → Label) → β} {v : α}
    (h : Yields B pos d w fun _ => v) (hf : Yields B (pos + w.length) (f v) z k) :
    Yields B pos (d >>= f) (w ++ z) k :=
  fun rest => (h (z ++ rest)).andThen (hf rest)

theorem YieldsBefore.congr {g' : (Nat → Label) → α} (h : YieldsBefore rest B pos d w g)
    (hg : ∀ name, g name = g' name) : YieldsBefore rest B pos d w g' := by
  rw [← funext hg]
  exact h

theorem Yields.congr {g' : (Nat → Label) → α} (h : Yields B pos d w g)
    (hg : ∀ name, g name = g' name) : Yields B pos d w g' :=
  fun rest => (h rest).congr hg

/-- Going on without reading more. -/
theorem Yields.bindLast {f : α → Decode β} {k : α → (Nat → Label) → β} (h : Yields B pos d w g)
    (hf : ∀ v, (∃ name, v = g name) → Yields B (pos + w.length) (f v) [] (k v)) :
    Yields B pos (d >>= f) w fun name => k (g name) name := by
  have hbind := h.bind hf
  rw [List.append_nil] at hbind
  exact hbind

/-- A last part that takes no bytes changes only the value. -/
theorem Yields.finish {f : α → Decode β} {k : (Nat → Label) → β} {v : α}
    (h : Yields B pos d w fun _ => v) (hf : Yields B (pos + w.length) (f v) [] k) :
    Yields B pos (d >>= f) w k := by
  refine h.bindLast (k := fun _ => k) ?_
  rintro _ ⟨_, rfl⟩
  exact hf

theorem Yields.map {f : α → β} (h : Yields B pos d w g) :
    Yields B pos (d >>= fun x => pure (f x)) w fun name => f (g name) :=
  h.bindLast (k := fun v _ => f v) fun v _ => yields_pure (f v)

/-- What takes bytes and asks for no label yields the value it reads. -/
theorem yields_read {r : Read α} {v : α} (h : Read.Takes r w v) :
    Yields B pos (liftM r) w fun _ => v := by
  intro rest data t ht
  refine ⟨v, t, ?_, ht, extends_refl t, fun _ _ => rfl⟩
  change EStateM.bind r (fun x => pure (x, t)) _ = _
  unfold EStateM.bind
  rw [h]
  rfl

theorem yields_position : Yields B pos (liftM Read.position) [] fun _ => pos := by
  intro rest data t ht
  exact ⟨pos, t, rfl, ht, extends_refl t, fun _ _ => rfl⟩

theorem yields_ofExcept {x : Except Error α} {v : α} (h : x = .ok v) :
    Yields B pos (ofExcept x) [] fun _ => v := by
  rw [h]
  intro rest data t ht
  exact ⟨v, t, rfl, ht, extends_refl t, fun _ _ => rfl⟩

/-- An offset gets the next label the first time that it is asked for. -/
theorem labelAt_apply (o : Nat) (t : LabelTable) (c : Cursor) :
    labelAt o t c =
      match t[o]? with
      | some l => .ok (l, t) c
      | none => .ok (⟨t.size⟩, t.insert o ⟨t.size⟩) c := by
  change (match t[o]? with | some l => _ | none => _ : Decode Label) t c = _
  cases t[o]? <;> rfl

/-- Asking for a label takes no bytes and yields the name of the offset. -/
theorem yields_labelAt {o : Nat} (hB : B o) : Yields B pos (labelAt o) [] fun name => name o := by
  intro rest data t ht
  -- The offset has a label already, or it gets the next one.
  cases hget : t[o]? with
  | some l =>
      refine ⟨l, t, ?_, ht, extends_refl t, fun t'' hext => (name_eq (hext o l hget)).symm⟩
      rw [labelAt_apply, hget]
      rfl
  | none =>
      refine ⟨⟨t.size⟩, t.insert o ⟨t.size⟩, ?_, ht.insert hget hB, extends_insert hget, ?_⟩
      · rw [labelAt_apply, hget]
        rfl
      · intro t'' hext
        refine (name_eq (hext o ⟨t.size⟩ ?_)).symm
        rw [getElem?_insert, if_pos rfl]

/-- A displacement names the offset that it leads to. -/
theorem yields_labelFrom {pc o : Nat} {displacement : Int} (ho : (pc : Int) + displacement = o)
    (hB : B o) : Yields B pos (labelFrom pc displacement) [] fun name => name o := by
  unfold labelFrom
  simp only [ho]
  rw [if_neg (by omega)]
  exact yields_labelAt hB

/-- A whole byte string is read. -/
theorem YieldsBefore.parse {data : Bytes} (h : YieldsBefore [] B 0 d data g) {t : LabelTable}
    (ht : Valid B t) :
    ∃ v t', Read.parse (d.run t) data = .ok (v, t') ∧ Valid B t' ∧ Extends t t' ∧
      ∀ t'', Extends t' t'' → v = g t''.name := by
  rcases h data t ht with ⟨v, t', hd, ht', hext, hv⟩
  rw [List.append_nil] at hd
  exact ⟨v, t', Read.parse_eq_ok.2 ⟨_, hd⟩, ht', hext, hv⟩

/-- A byte string of its own is read from its start, and nothing of the one around it. -/
theorem yields_within {data : Bytes} (h : YieldsBefore [] B 0 d data g) :
    Yields B pos (within data d) [] g := by
  intro rest data' t ht
  rcases h.parse ht with ⟨v, t', hparse, ht', hext, hv⟩
  refine ⟨v, t', ?_, ht', hext, hv⟩
  unfold within
  rw [hparse]
  rfl

/-- What a list was written to is read by as many runs of the reader of its elements. -/
theorem yields_repeated {xs : List β} {ws : List Bytes} {G : β → (Nat → Label) → α}
    (h : List.Forall₂ (fun x w => ∀ pos, Yields B pos d w (G x)) xs ws) :
    Yields B pos (repeated xs.length d) ws.flatten fun name => xs.map (G · name) := by
  induction h generalizing pos with
  | nil => exact yields_pure []
  | @cons x w xs ws hx _ ih =>
      rw [List.length_cons, repeated_succ, List.flatten_cons]
      exact (hx pos).bind (k := fun v name => v :: xs.map (G · name)) fun v _ => ih.map

/-- Rounds that each take their bytes take all of them, and yield what was folded up. -/
theorem yields_iterated {step : α → Decode α} {xs : List β} {ws : List Bytes}
    {G : β → (Nat → Label) → α → α}
    (h : List.Forall₂ (fun x w => ∀ pos s, Yields B pos (step s) w fun name => G x name s) xs ws)
    (s : α) :
    Yields B pos (iterated step xs.length s) ws.flatten
      fun name => xs.foldl (fun s x => G x name s) s := by
  induction h generalizing pos s with
  | nil => exact yields_pure s
  | @cons x w xs ws hx _ ih =>
      rw [List.flatten_cons, List.length_cons, iterated]
      exact (hx pos s).bind (k := fun v name => xs.foldl (fun s x => G x name s) v) fun v _ => ih v

end Yields

end Decode

end JvmFold
