import JvmFold.Pool.Format
import JvmFold.Proofs.Bytes.Reading

/-!
# Growing Pools

Adding to a pool puts entries behind those that are there, so whatever an
index stood for it stands for after that. An entry that is there already is
not added again but found by its key, and this is right only as long as the
table of keys is: each key must lead to an entry of that key. Reading a pool
keeps it so, since the index that it counts is the number of the entries so far
and never leaves its 16 bits, and adding stays below.

What a computation that adds gives is said for all pools that grow out of the
one it leaves, since more is added before anything is read. It can fail only
where the indices run out or a text is too long.

## Main definitions

* `Pool.Grows`: A pool with more entries behind the same ones.
* `Pool.Consistent`: Every key leads to an entry of that key, and none to index zero.
* `Pool.Reachable`: A pool that was read, with entries added.
* `Pool.Edit.Gives`: What holds of an answer in every pool that grows out.
* `Pool.Edit.GivesFrom`: The same for computations that start from a pool that has grown.
* `Pool.Edit.Fits`: How much room is enough.

## Theorems

* `Pool.of_read`: What every entry that is read leaves alone holds of a pool that was read.
* `Pool.Reachable.size_le`: The indices of a pool fit 16 bits.
* `Pool.Reachable.consistent`: The table of keys of a pool is right.
* `Pool.addClass_gives` and its companions: What is added is read back.
* `Pool.addClass_fits` and its companions: Where there is room, adding succeeds.
-/

namespace JvmFold

/-- The only entry of a key, unless it is the key of a text. -/
def PoolKey.entry? : PoolKey → Option PoolEntry
  | .utf8 _ => none
  | .integer v => some (.integer v)
  | .float b => some (.float b)
  | .long v => some (.long v)
  | .double b => some (.double b)
  | .classRef n => some (.classRef n)
  | .string t => some (.string t)
  | .fieldRef c n => some (.fieldRef c n)
  | .methodRef c n => some (.methodRef c n)
  | .interfaceMethodRef c n => some (.interfaceMethodRef c n)
  | .nameAndType n d => some (.nameAndType n d)
  | .invokeDynamic b n => some (.invokeDynamic b n)

/-- Only one entry has a key. -/
theorem PoolKey.eq_of_key? {e e' : PoolEntry} {key : PoolKey} (he : key.entry? = some e)
    (hkey : e'.key? = some key) : e' = e := by
  cases e' with
  | utf8 t raw =>
      cases hkey
      cases he
  | unusable | methodHandle k r | methodType d | dynamic b n | moduleName n | packageName n =>
      cases hkey
  | _ =>
      cases hkey
      cases he
      rfl

/-- The number of indices that the entry takes. -/
def PoolEntry.width (e : PoolEntry) : Nat :=
  if e.isWide then 2 else 1

namespace Pool

/-- The entries of the first pool are there in the second with the same indices. -/
def Grows (p q : Pool) : Prop :=
  ∀ (i : Nat) (e : PoolEntry), p.entries[i]? = some e → q.entries[i]? = some e

/-- Every key leads to an entry of that key, and index zero is unusable. -/
structure Consistent (p : Pool) : Prop where
  keyed : ∀ key (i : UInt16), p.lookup[key]? = some i →
    ∃ e, p.entries[i.toNat]? = some e ∧ e.key? = some key
  zero : p.entries[0]? = some .unusable

section Growth

variable {p q r : Pool} {i : UInt16} {e : PoolEntry}

theorem grows_refl (p : Pool) : Grows p p :=
  fun _ _ h => h

/-- A pool grows step by step. -/
theorem Grows.trans (h : Grows p q) (h' : Grows q r) : Grows p r :=
  fun i e hi => h' i e (h i e hi)

/-- An entry is found at its index. -/
theorem entry_of_getElem? (h : p.entries[i.toNat]? = some e) (he : e ≠ .unusable) :
    p.entry i = .ok e := by
  unfold entry
  rw [h]
  cases e with
  | unusable => exact absurd rfl he
  | _ => rfl

-- And only there.
theorem getElem?_of_entry (h : p.entry i = .ok e) : p.entries[i.toNat]? = some e := by
  unfold entry at h
  split at h
  · cases h
  · cases h
  next hget =>
    cases h
    exact hget

/-- An entry stays what it is while the pool grows. -/
theorem Grows.entry (hg : Grows p q) (h : p.entry i = .ok e) : q.entry i = .ok e := by
  refine entry_of_getElem? (hg _ _ (getElem?_of_entry h)) ?_
  intro he
  unfold Pool.entry at h
  rw [getElem?_of_entry h, he] at h
  cases h

theorem Grows.text {t : String} (hg : Grows p q) (h : p.text i = .ok t) : q.text i = .ok t := by
  rcases except_bind_ok h with ⟨e, hentry, h⟩
  unfold Pool.text
  rw [hg.entry hentry]
  exact h

theorem Grows.nameAndType {s : Signature} (hg : Grows p q) (h : p.nameAndType i = .ok s) :
    q.nameAndType i = .ok s := by
  rcases except_bind_ok h with ⟨e, hentry, h⟩
  unfold Pool.nameAndType
  rw [hg.entry hentry]
  cases e with
  | nameAndType n d =>
      rcases except_bind_ok h with ⟨name, hn, h⟩
      rcases except_bind_ok h with ⟨descriptor, hd, h⟩
      change (q.text n >>= fun name => q.text d >>= fun descriptor => _) = _
      rw [hg.text hn, hg.text hd]
      exact h
  | _ => cases h

/-- An entry adds the slots that it takes. -/
theorem size_append : (p.append e).size = p.size + e.width := by
  unfold append record size PoolEntry.width
  split
  · rw [Array.size_push, Array.size_push]
  · rw [Array.size_push]

theorem size_append_le : p.size < (p.append e).size := by
  rw [size_append, PoolEntry.width]
  split <;> omega

theorem grows_append : Grows p (p.append e) := by
  intro i e' hi
  have hlt : i < p.entries.size := (Array.getElem?_eq_some_iff.mp hi).1
  unfold append record
  simp only
  split
  · rw [Array.getElem?_push_lt (by rw [Array.size_push]; omega), Array.getElem_push_lt hlt]
    exact (Array.getElem?_eq_some_iff.mp hi).2 ▸ rfl
  · rw [Array.getElem?_push_lt hlt]
    exact (Array.getElem?_eq_some_iff.mp hi).2 ▸ rfl

/-- The new entry is found at the end. -/
theorem getElem?_append_size : (p.append e).entries[p.size]? = some e := by
  unfold append record size
  simp only
  split
  · rw [Array.getElem?_push_lt (by rw [Array.size_push]; omega), Array.getElem_push_eq]
  · exact Array.getElem?_push_size

/-- No class has index zero. -/
theorem Consistent.className_zero (h : Consistent p) {name : String} :
    p.className 0 ≠ .ok name := by
  intro hname
  unfold className entry at hname
  rw [show (0 : UInt16).toNat = 0 from rfl, h.zero] at hname
  cases hname

theorem size_toUInt16 (h : p.size ≤ 65535) : p.size.toUInt16.toNat = p.size :=
  Nat.mod_eq_of_lt (Nat.lt_succ_of_le h)

/-- An entry that is read or added is found by its key, if its index fits 16 bits. -/
theorem Consistent.append (h : Consistent p) (hsize : p.size ≤ 65535) :
    Consistent (p.append e) := by
  refine ⟨fun key i hi => ?_, grows_append _ _ h.zero⟩
  have hold (hp : p.lookup[key]? = some i) :
      ∃ e', (p.append e).entries[i.toNat]? = some e' ∧ e'.key? = some key := by
    rcases h.keyed key i hp with ⟨e', hget, hkey⟩
    exact ⟨e', grows_append _ _ hget, hkey⟩
  unfold Pool.append record at hi
  cases hkey : e.key? with
  | none =>
      simp only [hkey] at hi
      exact hold hi
  | some k =>
      -- The key leads to the new entry only if it led nowhere before.
      simp only [hkey, Std.HashMap.getElem?_insertIfNew] at hi
      split at hi
      next hnew =>
        cases hi
        refine ⟨e, ?_, ?_⟩
        · rw [size_toUInt16 hsize]
          exact getElem?_append_size
        · rw [hkey, eq_of_beq hnew.1]
      · exact hold hi

end Growth

/-- A pool that was read, with entries added. -/
inductive Reachable : Pool → Prop where
  | empty : Reachable empty
  | read {p : Pool} {c c' : Cursor} : Pool.read c = .ok p c' → Reachable p
  | push {p q : Pool} {e : PoolEntry} {i : UInt16} :
      Reachable p → Pool.push e p = .ok i q → Reachable q

section Reachable

variable {p q : Pool} {e : PoolEntry} {i : UInt16}

theorem consistent_empty : Consistent empty := by
  refine ⟨fun key i hi => ?_, rfl⟩
  change (∅ : Std.HashMap PoolKey UInt16)[key]? = some i at hi
  rw [Std.HashMap.getElem?_empty] at hi
  cases hi

/-- Adding an entry changes nothing or puts it behind the others where there is room. -/
theorem push_cases (h : push e p = .ok i q) :
    (p.find? e = some i ∧ q = p) ∨
    ((p.append e).size ≤ 65535 ∧ i = p.size.toUInt16 ∧ q = p.append e) := by
  unfold push at h
  split at h
  next j hfind =>
    cases h
    exact Or.inl ⟨hfind, rfl⟩
  · by_cases hsize : 65535 < p.size + (if e.isWide then 2 else 1)
    · rw [if_pos hsize] at h
      cases h
    · rw [if_neg hsize] at h
      cases h
      rw [size_append]
      exact Or.inr ⟨Nat.not_lt.mp hsize, rfl, rfl⟩

/-- An entry that is not there is added where there is room. -/
theorem push_of_new (h : p.find? e = none)
    (hsize : p.size + (if e.isWide then 2 else 1) ≤ 65535) :
    push e p = .ok p.size.toUInt16 (p.append e) := by
  unfold push
  rw [h]
  exact if_neg (Nat.not_lt.mpr hsize)

/-- A text that is not there is added at the end. -/
theorem addUtf8_of_new {text : String} (h : p.lookup[PoolKey.utf8 text]? = none)
    (hlength : (ModifiedUtf8.encode text).length ≤ ModifiedUtf8.maxLength)
    (hsize : p.size < 65535) :
    addUtf8 text p = .ok p.size.toUInt16 (p.append (.utf8 text (ModifiedUtf8.encode text))) := by
  unfold addUtf8
  rw [h]
  simp only
  rw [if_neg (Nat.not_lt.mpr hlength)]
  exact push_of_new h hsize

/-- There is an index behind all but the last. -/
theorem nextIndex_of_lt (h : i.toNat < 65535) : nextIndex i = .ok (i + 1) := by
  refine if_neg ?_
  rintro rfl
  exact absurd h (by decide)

/-- Where there is no index behind one, the whole program ends. -/
theorem nextIndex_fails_iff {x : Error} :
    nextIndex i = .error x ↔ x = .aborted ∧ i.toNat = 65535 := by
  constructor
  · intro h
    unfold nextIndex at h
    split at h
    · next hlast =>
        cases h
        exact ⟨rfl, hlast ▸ rfl⟩
    · cases h
  · rintro ⟨rfl, hlast⟩
    exact if_pos (UInt16.toNat.inj hlast)

/-- An index behind one is the next number. -/
theorem toNat_of_nextIndex {j : UInt16} (h : nextIndex i = .ok j) : j.toNat = i.toNat + 1 := by
  unfold nextIndex at h
  split at h
  · cases h
  next hne =>
    cases h
    have hlt : i.toNat < 65535 :=
      Nat.lt_of_le_of_ne (Nat.le_of_lt_succ i.toNat_lt) fun heq => hne (UInt16.toNat.inj heq)
    exact Nat.mod_eq_of_lt (Nat.succ_lt_succ hlt)

/-- An index behind those of an entry is as many further as the entry has. -/
theorem toNat_of_indexBehind {j : UInt16} (h : indexBehind i e = .ok j) :
    j.toNat = i.toNat + e.width := by
  rcases except_bind_ok h with ⟨next, hnext, h⟩
  have hone := toNat_of_nextIndex hnext
  unfold PoolEntry.width
  by_cases hwide : e.isWide = true
  · rw [if_pos hwide] at h ⊢
    rw [toNat_of_nextIndex h, hone]
  · rw [if_neg hwide] at h ⊢
    cases h
    exact hone

/-- An entry that is recorded under the number of the indices is put in as any other. -/
theorem record_eq_append (hi : i.toNat = p.size) : p.record i e = p.append e := by
  have heq : i = p.size.toUInt16 := by rw [← hi, Nat.toUInt16_eq, UInt16.ofNat_toNat]
  rw [heq, append]

/-- What an entry leaves alone holds of all that is read, if the first index is the number of those
    that are there. -/
theorem of_readEntries {good : Pool → Prop} {count : UInt16} {rounds : Nat} {c c' : Cursor}
    (happend : ∀ p index e c c', good p → p.size ≤ 65535 → PoolEntry.read index c = .ok e c' →
      good (p.append e))
    (h : readEntries count rounds i p c = .ok q c') (hi : i.toNat = p.size) (hp : good p) :
    good q ∧ q.size ≤ 65535 := by
  induction rounds generalizing i p c with
  | zero =>
      cases h
      exact ⟨hp, hi ▸ Nat.le_of_lt_succ i.toNat_lt⟩
  | succ rounds ih =>
      have hsize : p.size ≤ 65535 := hi ▸ Nat.le_of_lt_succ i.toNat_lt
      rw [readEntries] at h
      split at h
      · rcases bind_eq_ok h with ⟨e, c₁, hread, h⟩
        rcases bind_eq_ok h with ⟨next, c₂, hnext, h⟩
        rw [record_eq_append hi] at h
        refine ih h ?_ (happend p i e c c₁ hp hsize hread)
        -- The next index is the size again, so the induction goes on.
        rw [size_append, toNat_of_indexBehind (Read.lift_eq_ok hnext).1, hi]
      · cases h
        exact ⟨hp, hsize⟩

/-- What holds of the empty pool and of every pool with one entry more holds of a pool that was
    read. Its indices fit 16 bits. -/
theorem of_read {good : Pool → Prop} {c c' : Cursor} (hempty : good empty)
    (happend : ∀ p index e c c', good p → p.size ≤ 65535 → PoolEntry.read index c = .ok e c' →
      good (p.append e))
    (h : Pool.read c = .ok p c') : good p ∧ p.size ≤ 65535 := by
  rcases bind_eq_ok h with ⟨count, _, _, h⟩
  split at h
  · cases h
  · exact of_readEntries happend h rfl hempty

theorem consistent_of_read {c c' : Cursor} (h : Pool.read c = .ok p c') :
    Consistent p ∧ p.size ≤ 65535 :=
  of_read consistent_empty (fun _ _ _ _ _ hp hsize _ => hp.append hsize) h

/-- The indices of a pool fit 16 bits. -/
theorem Reachable.size_le (h : Reachable p) : p.size ≤ 65535 := by
  induction h with
  | empty => exact Nat.succ_le_succ (Nat.zero_le _)
  | read h => exact (consistent_of_read h).2
  | push _ h ih =>
      rcases push_cases h with ⟨_, rfl⟩ | ⟨hsize, _, rfl⟩
      · exact ih
      · exact hsize

/-- The table of keys is right. -/
theorem Reachable.consistent (h : Reachable p) : Consistent p := by
  induction h with
  | empty => exact consistent_empty
  | read h => exact (consistent_of_read h).1
  | push hp h ih =>
      rcases push_cases h with ⟨_, rfl⟩ | ⟨_, _, rfl⟩
      · exact ih
      · exact ih.append hp.size_le

end Reachable

/-- A computation that does not fail leaves a consistent pool that has grown, and what it answers
    has the property in every pool that grows out of that one. -/
def Edit.Gives {α : Type} (m : Edit α) (P : α → Pool → Prop) : Prop :=
  ∀ p, Consistent p → ∀ a q, m p = .ok a q →
    Consistent q ∧ Grows p q ∧ ∀ r, Consistent r → Grows q r → P a r

section Gives

variable {α β : Type} {m : Edit α} {P Q : α → Pool → Prop}

/-- What an edit gives may be weakened, as long as the table is right. -/
theorem Edit.Gives.imp_consistent (h : Edit.Gives m P)
    (himp : ∀ a r, Consistent r → P a r → Q a r) : Edit.Gives m Q := by
  intro p hp a q hm
  rcases h p hp a q hm with ⟨hq, hgrows, hP⟩
  exact ⟨hq, hgrows, fun r hc hr => himp a r hc (hP r hc hr)⟩

theorem Edit.Gives.imp (h : Edit.Gives m P) (himp : ∀ a r, P a r → Q a r) : Edit.Gives m Q :=
  h.imp_consistent fun a r _ => himp a r

theorem gives_pure {a : α} (h : ∀ r, P a r) : Edit.Gives (pure a) P := by
  intro p hp b q hm
  cases hm
  exact ⟨hp, grows_refl p, fun r _ _ => h r⟩

/-- A part that fails gives anything. -/
theorem gives_throw (e : Error) : Edit.Gives (throw e : Edit α) P := by
  intro p hp a q hm
  cases hm

/-- What one edit gives holds still behind the next one. -/
theorem Edit.Gives.bind {f : α → Edit β} {R : β → Pool → Prop} (h : Edit.Gives m P)
    (hf : ∀ a, Edit.Gives (f a) fun b r => P a r → R b r) : Edit.Gives (m >>= f) R := by
  intro p hp b q hm
  rcases bind_eq_ok hm with ⟨a, u, hma, hfa⟩
  rcases h p hp a u hma with ⟨hu, hgrows, hP⟩
  rcases hf a u hu b q hfa with ⟨hq, hgrows', hR⟩
  exact ⟨hq, hgrows.trans hgrows', fun r hc hr => hR r hc hr (hP r hc (hgrows'.trans hr))⟩

/-- Answers for the elements of a list, one after the other. -/
theorem gives_mapM {f : α → Edit β} {l : List α} {R : α → β → Pool → Prop}
    (h : ∀ a ∈ l, Edit.Gives (f a) (R a)) :
    Edit.Gives (l.mapM f) fun bs r => List.Forall₂ (fun a b => R a b r) l bs := by
  induction l with
  | nil => exact gives_pure fun _ => List.Forall₂.nil
  | cons a l ih =>
      rw [List.mapM_cons]
      refine (h a List.mem_cons_self).bind fun b => ?_
      refine (ih fun a' ha' => h a' (List.mem_cons_of_mem _ ha')).bind fun bs => ?_
      exact gives_pure fun _ hbs hb => List.Forall₂.cons hb hbs

/-- Two facts that an edit gives. -/
theorem Edit.Gives.and (h : Edit.Gives m P) (h' : Edit.Gives m Q) :
    Edit.Gives m fun a r => P a r ∧ Q a r := by
  intro p hp a q hm
  rcases h p hp a q hm with ⟨hq, hgrows, hP⟩
  exact ⟨hq, hgrows, fun r hc hr => ⟨hP r hc hr, (h' p hp a q hm).2.2 r hc hr⟩⟩

end Gives

/-- Where the computation starts from a consistent pool that has grown out of `p`, what it answers
    has the property in every pool that grows out of the one it leaves. -/
def Edit.GivesFrom {α : Type} (p : Pool) (m : Edit α) (P : α → Pool → Prop) : Prop :=
  ∀ u, Consistent u → Grows p u → ∀ a q, m u = .ok a q →
    Consistent q ∧ Grows u q ∧ ∀ r, Consistent r → Grows q r → P a r

section GivesFrom

variable {α β : Type} {p : Pool} {m : Edit α} {P : α → Pool → Prop}

theorem Edit.Gives.from (h : Edit.Gives m P) (p : Pool) : Edit.GivesFrom p m P :=
  fun u hu _ => h u hu

/-- The same where the pool that it starts from is known. -/
theorem Edit.GivesFrom.bind {f : α → Edit β} {R : β → Pool → Prop} (h : Edit.GivesFrom p m P)
    (hf : ∀ a, Edit.GivesFrom p (f a) fun b r => P a r → R b r) :
    Edit.GivesFrom p (m >>= f) R := by
  intro u hu hpu b q hm
  rcases bind_eq_ok hm with ⟨a, v, hma, hfa⟩
  rcases h u hu hpu a v hma with ⟨hv, hgrows, hP⟩
  rcases hf a v hv (hpu.trans hgrows) b q hfa with ⟨hq, hgrows', hR⟩
  exact ⟨hq, hgrows.trans hgrows', fun r hc hr => hR r hc hr (hP r hc (hgrows'.trans hr))⟩

/-- Answers for the elements of a list, one after the other. -/
theorem givesFrom_mapM {f : α → Edit β} {l : List α} {R : α → β → Pool → Prop}
    (h : ∀ a ∈ l, Edit.GivesFrom p (f a) (R a)) :
    Edit.GivesFrom p (l.mapM f) fun bs r => List.Forall₂ (fun a b => R a b r) l bs := by
  induction l with
  | nil => exact (gives_pure fun _ => List.Forall₂.nil).from p
  | cons a l ih =>
      rw [List.mapM_cons]
      refine (h a List.mem_cons_self).bind fun b => ?_
      refine (ih fun a' ha' => h a' (List.mem_cons_of_mem _ ha')).bind fun bs => ?_
      exact (gives_pure fun _ hbs hb => List.Forall₂.cons hb hbs).from p

end GivesFrom

section Add

/-- An entry with a key is found or added, and an entry of that key has the index. -/
theorem push_gives {e : PoolEntry} {key : PoolKey} (hkey : e.key? = some key) :
    Edit.Gives (push e) fun i r => ∃ e', r.entry i = .ok e' ∧ e'.key? = some key := by
  intro p hp i q hm
  have hread {q r : Pool} {e' : PoolEntry} (hget : q.entries[i.toNat]? = some e')
      (hkey' : e'.key? = some key) (hr : Grows q r) :
      ∃ e', r.entry i = .ok e' ∧ e'.key? = some key := by
    refine ⟨e', entry_of_getElem? (hr _ _ hget) ?_, hkey'⟩
    intro he
    rw [he] at hkey'
    cases hkey'
  -- The entry was found by its key, or it has been added.
  rcases push_cases hm with ⟨hfind, rfl⟩ | ⟨hlt, rfl, rfl⟩
  · rw [find?, hkey] at hfind
    rcases hp.keyed key i hfind with ⟨e', hget, hkey'⟩
    exact ⟨hp, grows_refl _, fun r _ hr => hread hget hkey' hr⟩
  · have hsize : p.size ≤ 65535 := Nat.le_trans (Nat.le_of_lt size_append_le) hlt
    refine ⟨hp.append hsize, grows_append, fun r _ hr => hread ?_ hkey hr⟩
    rw [size_toUInt16 hsize]
    exact getElem?_append_size

/-- The index that a text gets denotes the text. -/
theorem addUtf8_gives (text : String) :
    Edit.Gives (addUtf8 text) fun i r => r.text i = .ok text := by
  have hread {r : Pool} {i : UInt16} {e : PoolEntry} (hentry : r.entry i = .ok e)
      (hkey : e.key? = some (.utf8 text)) : r.text i = .ok text := by
    unfold Pool.text
    rw [hentry]
    cases e with
    | utf8 t raw =>
        cases hkey
        rfl
    | _ => cases hkey
  -- The text is found or added; in both cases its entry has the key, and so the text.
  intro p hp i q hm
  unfold addUtf8 at hm
  split at hm
  next j hfind =>
    cases hm
    rcases hp.keyed _ _ hfind with ⟨e, hget, hkey⟩
    refine ⟨hp, grows_refl _, fun r _ hr => hread (entry_of_getElem? (hr _ _ hget) ?_) hkey⟩
    intro he
    rw [he] at hkey
    cases hkey
  · simp only at hm
    split at hm
    · cases hm
    · rcases push_gives rfl p hp i q hm with ⟨hq, hgrows, hP⟩
      refine ⟨hq, hgrows, fun r hc hr => ?_⟩
      rcases hP r hc hr with ⟨e, hentry, hkey⟩
      exact hread hentry hkey

theorem push_gives_entry {e : PoolEntry} {key : PoolKey} (hkey : e.key? = some key)
    (he : key.entry? = some e) : Edit.Gives (push e) fun i r => r.entry i = .ok e := by
  refine (push_gives hkey).imp fun i r ⟨e', hentry, hkey'⟩ => ?_
  rw [hentry, PoolKey.eq_of_key? he hkey']

/-- A class is added behind its name. -/
theorem addClass_gives_entry (name : String) :
    Edit.Gives (addClass name) fun i r =>
      ∃ n, r.entry i = .ok (.classRef n) ∧ r.text n = .ok name := by
  refine (addUtf8_gives name).bind fun n => ?_
  exact (push_gives_entry rfl rfl).imp fun i r hentry htext => ⟨n, hentry, htext⟩

-- So its index denotes the class.
theorem addClass_gives (name : String) :
    Edit.Gives (addClass name) fun i r => r.className i = .ok name := by
  refine (addClass_gives_entry name).imp fun i r ⟨n, hentry, htext⟩ => ?_
  unfold className
  rw [hentry]
  exact htext

/-- A string is added behind its text. -/
theorem addString_gives (text : String) :
    Edit.Gives (addString text) fun i r =>
      ∃ t, r.entry i = .ok (.string t) ∧ r.text t = .ok text := by
  refine (addUtf8_gives text).bind fun t => ?_
  exact (push_gives_entry rfl rfl).imp fun i r hentry htext => ⟨t, hentry, htext⟩

/-- A name and a type are added behind their two texts. -/
theorem addNameAndType_gives (name descriptor : String) :
    Edit.Gives (addNameAndType name descriptor)
      fun i r => r.nameAndType i = .ok ⟨name, descriptor⟩ := by
  refine (addUtf8_gives name).bind fun n => ?_
  refine (addUtf8_gives descriptor).bind fun d => ?_
  refine (push_gives_entry rfl rfl).imp fun i r hentry hdescriptor hname => ?_
  unfold nameAndType
  rw [hentry]
  change (r.text n >>= fun name => r.text d >>= fun descriptor => _) = _
  rw [hname, hdescriptor]
  rfl

/-- A member is read through the entries of its class and of its name and descriptor. -/
theorem member_of_entry {r : Pool} {i c n : UInt16} {e : PoolEntry} {m : Member}
    {isInterface : Bool}
    (he : e = .fieldRef c n ∧ isInterface = false ∨ e = .methodRef c n ∧ isInterface = false ∨
      e = .interfaceMethodRef c n ∧ isInterface = true)
    (hentry : r.entry i = .ok e) (howner : r.className c = .ok m.owner)
    (hnat : r.nameAndType n = .ok ⟨m.name, m.descriptor⟩) :
    r.member i = .ok (m, isInterface) := by
  have hresolve : (r.className c >>= fun owner => r.nameAndType n >>= fun signature =>
      pure (signature.on owner, isInterface)) = .ok (m, isInterface) := by
    rw [howner, hnat]
    rfl
  unfold Pool.member
  rw [hentry]
  rcases he with ⟨rfl, rfl⟩ | ⟨rfl, rfl⟩ | ⟨rfl, rfl⟩ <;> exact hresolve

/-- A field is added behind its class and signature. -/
theorem addField_gives (m : Member) :
    Edit.Gives (addField m) fun i r => r.member i = .ok (m, false) := by
  refine (addClass_gives m.owner).bind fun c => ?_
  refine (addNameAndType_gives m.name m.descriptor).bind fun n => ?_
  refine (push_gives_entry rfl rfl).imp fun i r hentry hnat howner => ?_
  exact member_of_entry (Or.inl ⟨rfl, rfl⟩) hentry howner hnat

-- So is a method, of an interface or not.
theorem addMethod_gives (m : Member) (isInterface : Bool) :
    Edit.Gives (addMethod m isInterface) fun i r => r.member i = .ok (m, isInterface) := by
  refine (addClass_gives m.owner).bind fun c => ?_
  refine (addNameAndType_gives m.name m.descriptor).bind fun n => ?_
  cases isInterface with
  | true =>
      refine (push_gives_entry rfl rfl).imp fun i r hentry hnat howner => ?_
      exact member_of_entry (Or.inr (Or.inr ⟨rfl, rfl⟩)) hentry howner hnat
  | false =>
      refine (push_gives_entry rfl rfl).imp fun i r hentry hnat howner => ?_
      exact member_of_entry (Or.inr (Or.inl ⟨rfl, rfl⟩)) hentry howner hnat

/-- A call site is added with its bootstrap method. -/
theorem addInvokeDynamic_gives (bootstrap : UInt16) (name descriptor : String) :
    Edit.Gives (addInvokeDynamic bootstrap name descriptor) fun i r =>
      ∃ n, r.entry i = .ok (.invokeDynamic bootstrap n) ∧
        r.nameAndType n = .ok ⟨name, descriptor⟩ := by
  refine (addNameAndType_gives name descriptor).bind fun n => ?_
  exact (push_gives_entry rfl rfl).imp fun i r hentry hnat => ⟨n, hentry, hnat⟩

end Add

/-- Where a pool has room for `n` more indices, the computation succeeds, takes no more of them, and
    what it answers meets a condition. -/
def Edit.Fits {α : Type} (n : Nat) (m : Edit α) (Q : α → Prop) : Prop :=
  ∀ p, p.size + n ≤ 65535 → ∃ a q, m p = .ok a q ∧ q.size ≤ p.size + n ∧ Q a

/-- A text takes no more bytes than its length can tell. -/
def IsShort (text : String) : Prop :=
  (ModifiedUtf8.encode text).length ≤ ModifiedUtf8.maxLength

instance (text : String) : Decidable (IsShort text) :=
  inferInstanceAs (Decidable (_ ≤ _))

section Room

variable {α β : Type} {k n : Nat} {Q : α → Prop} {R : β → Prop}

theorem fits_pure {a : α} (h : Q a) : Edit.Fits n (pure a) Q :=
  fun p _ => ⟨a, p, rfl, Nat.le_add_right _ _, h⟩

/-- Two edits fit one after the other if their room adds up. -/
theorem Edit.Fits.bind {m : Edit α} {f : α → Edit β} (hm : Edit.Fits k m Q) (hk : k ≤ n)
    (hf : ∀ a, Q a → Edit.Fits (n - k) (f a) R) : Edit.Fits n (m >>= f) R := by
  intro p hp
  rcases hm p (by omega) with ⟨a, q, ha, hq, hQ⟩
  rcases hf a hQ q (by omega) with ⟨b, r, hb, hr, hR⟩
  exact ⟨b, r, (bind_of_ok ha).trans hb, by omega, hR⟩

theorem fits_mapM {f : α → Edit β} {l : List α}
    (hf : ∀ a ∈ l, Edit.Fits n (f a) fun _ => True) :
    Edit.Fits (l.length * n) (l.mapM f) fun _ => True := by
  induction l with
  | nil => exact fits_pure trivial
  | cons a l ih =>
      rw [List.mapM_cons, List.length_cons, Nat.succ_mul]
      refine (hf a List.mem_cons_self).bind (Nat.le_add_left _ _) fun _ _ => ?_
      rw [Nat.add_sub_cancel]
      refine (ih fun a' ha' => hf a' (List.mem_cons_of_mem a ha')).bind (Nat.le_refl _) ?_
      exact fun _ _ => fits_pure trivial

/-- An entry of one slot needs room for one. -/
theorem push_fits {e : PoolEntry} (he : e.isWide = false) :
    Edit.Fits 1 (push e) fun _ => True := by
  intro p hp
  cases hfind : p.find? e with
  | some i => exact ⟨i, p, by rw [push, hfind], Nat.le_add_right _ _, trivial⟩
  | none =>
      refine ⟨_, _, push_of_new hfind (by simpa [he] using hp), ?_, trivial⟩
      rw [size_append, PoolEntry.width, he]
      exact Nat.le_refl _

-- So does a text that is short enough.
theorem addUtf8_fits {text : String} (h : IsShort text) :
    Edit.Fits 1 (addUtf8 text) fun _ => True := by
  intro p hp
  cases hfind : p.lookup[PoolKey.utf8 text]? with
  | some i => exact ⟨i, p, by rw [addUtf8, hfind], Nat.le_add_right _ _, trivial⟩
  | none =>
      refine ⟨_, _, addUtf8_of_new hfind h (by omega), ?_, trivial⟩
      rw [size_append]
      exact Nat.le_refl _

/-- A class needs room for its name as well. -/
theorem addClass_fits {name : String} (h : IsShort name) :
    Edit.Fits 2 (addClass name) fun _ => True :=
  (addUtf8_fits h).bind (by decide) fun _ _ => push_fits rfl

/-- A signature needs room for three entries. -/
theorem addNameAndType_fits {name descriptor : String} (hname : IsShort name)
    (hdescriptor : IsShort descriptor) :
    Edit.Fits 3 (addNameAndType name descriptor) fun _ => True :=
  (addUtf8_fits hname).bind (by decide) fun _ _ =>
    (addUtf8_fits hdescriptor).bind (by decide) fun _ _ => push_fits rfl

-- And a field for six.
theorem addField_fits {m : Member} (howner : IsShort m.owner) (hname : IsShort m.name)
    (hdescriptor : IsShort m.descriptor) : Edit.Fits 6 (addField m) fun _ => True :=
  (addClass_fits howner).bind (by decide) fun _ _ =>
    (addNameAndType_fits hname hdescriptor).bind (by decide) fun _ _ => push_fits rfl

end Room

end Pool

end JvmFold
