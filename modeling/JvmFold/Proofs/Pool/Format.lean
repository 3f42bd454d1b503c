import JvmFold.Proofs.Bytes.Answers
import JvmFold.Proofs.Pool.Growth
import JvmFold.Proofs.Text.Units

/-!
# Pools and Their Bytes

A pool is read back from its bytes: not only with the same entries but with
the same table of keys, since reading puts the entries in one by one, and so
they were put in when the pool came about. What it takes is that each entry
can be told from its bytes. The entries of a pool that was read can, and so
can those that are added, for an added text is given back by its bytes.

Reading counts the indices in 16 bits, and a pool that was read has no more of
them than that. Adding keeps it so.

## Main definitions

* `PoolEntry.IsLegible`: An entry that can be told from its bytes.
* `Pool.appendAll`: A pool with entries put in one by one.
* `Pool.Legible`: A pool of legible entries.
* `Pool.Adds`: A pool with legible entries added where there was room.
* `Pool.Edit.Adding`: Computations that change a pool in no other way.
* `Pool.Edit.Settled`: Computations that add nothing more when they are run again.

## Theorems

* `PoolEntry.takes_read`: An entry is read back.
* `Pool.takes_readEntries`: Entries are read back if their indices are what the count tells.
* `Pool.Legible.takes_read`: A pool is read back.
* `Pool.legible_of_read`: A pool that was read can be read back.
-/

namespace JvmFold

open Read

namespace PoolEntry

/-- The entry can be told from its bytes: it is not the second index of another, and a text is the
    one that its bytes stand for, of which there are not too many. -/
def IsLegible : PoolEntry → Prop
  | .unusable => False
  | .utf8 text raw => raw.length ≤ ModifiedUtf8.maxLength ∧ ModifiedUtf8.decode raw = .ok text
  | _ => True

variable {e : PoolEntry} {index : UInt16}

/-- An entry takes at least its tag. -/
theorem bytes_ne_nil (h : e.IsLegible) : e.bytes ≠ [] := by
  cases e with
  | unusable => exact absurd h id
  | _ => exact List.cons_ne_nil _ _

/-- An entry is read back. -/
theorem takes_read (h : e.IsLegible) : Takes (PoolEntry.read index) e.bytes e := by
  -- Each kind of entry is read by its tag and its operands.
  cases e with
  | unusable => exact absurd h id
  | utf8 text raw =>
      have hraw : Takes (Read.bytes raw.length >>= fun raw =>
          lift (ModifiedUtf8.decode raw) >>= fun text => pure (utf8 text raw)) (raw ++ [])
          (utf8 text raw) := (takes_bytes raw).bind ((takes_lift h.2).map rfl)
      rw [List.append_nil] at hraw
      exact (takes_u8 1).bind (takes_counted (f := fun n => Read.bytes n >>= fun raw =>
        lift (ModifiedUtf8.decode raw) >>= fun text => pure (utf8 text raw)) h.1 hraw)
  | integer v => exact (takes_u8 3).bind ((takes_i32 v).map rfl)
  | float b => exact (takes_u8 4).bind ((takes_u32 b).map rfl)
  | long v => exact (takes_u8 5).bind ((takes_u64 v.toUInt64).map rfl)
  | double b => exact (takes_u8 6).bind ((takes_u64 b).map rfl)
  | classRef n => exact (takes_u8 7).bind ((takes_u16 n).map rfl)
  | string n => exact (takes_u8 8).bind ((takes_u16 n).map rfl)
  | fieldRef c n => exact (takes_u8 9).bind ((takes_u16 c).bind ((takes_u16 n).map rfl))
  | methodRef c n => exact (takes_u8 10).bind ((takes_u16 c).bind ((takes_u16 n).map rfl))
  | interfaceMethodRef c n => exact (takes_u8 11).bind ((takes_u16 c).bind ((takes_u16 n).map rfl))
  | nameAndType n d => exact (takes_u8 12).bind ((takes_u16 n).bind ((takes_u16 d).map rfl))
  | methodHandle k r => exact (takes_u8 15).bind ((takes_u8 k).bind ((takes_u16 r).map rfl))
  | methodType d => exact (takes_u8 16).bind ((takes_u16 d).map rfl)
  | dynamic b n => exact (takes_u8 17).bind ((takes_u16 b).bind ((takes_u16 n).map rfl))
  | invokeDynamic b n => exact (takes_u8 18).bind ((takes_u16 b).bind ((takes_u16 n).map rfl))
  | moduleName n => exact (takes_u8 19).bind ((takes_u16 n).map rfl)
  | packageName n => exact (takes_u8 20).bind ((takes_u16 n).map rfl)

/-- An entry that was read can be told from its bytes. -/
theorem ensures_read (index : UInt16) : Ensures (PoolEntry.read index) IsLegible := by
  refine (ensures_any u8).bind fun tag _ => ?_
  split
  · refine (ensures_any u16).bind fun length _ => ?_
    refine (ensures_bytes length.toNat).bind fun raw hraw => ensures_lift.bind fun text htext => ?_
    exact ensures_pure ⟨hraw ▸ Nat.le_of_lt_succ length.toNat_lt, htext⟩
  all_goals first
    | exact (ensures_any _).bind fun _ _ => ensures_pure trivial
    | exact (ensures_any _).bind fun _ _ => (ensures_any _).bind fun _ _ => ensures_pure trivial
    | exact ensures_throw _

end PoolEntry

namespace Pool

variable {p q r : Pool} {e : PoolEntry} {l : List PoolEntry}

/-- The pool with entries put in one by one. -/
def appendAll (p : Pool) (l : List PoolEntry) : Pool :=
  l.foldl append p

/-- Entries may be appended in two goes. -/
theorem appendAll_append (p : Pool) (l k : List PoolEntry) :
    p.appendAll (l ++ k) = (p.appendAll l).appendAll k :=
  List.foldl_append

theorem size_le_appendAll : p.size ≤ (p.appendAll l).size := by
  induction l generalizing p with
  | nil => exact Nat.le_refl _
  | cons e l ih => exact Nat.le_trans (Nat.le_of_lt size_append_le) ih

/-- The bytes of the entries behind index zero. -/
def entryBytes (p : Pool) : Bytes :=
  (p.entries.toList.drop 1).flatMap PoolEntry.bytes

/-- The bytes of an entry more come behind the others. -/
theorem entryBytes_append (h : 0 < p.size) : (p.append e).entryBytes = p.entryBytes ++ e.bytes := by
  have hlength : 1 ≤ p.entries.toList.length := h
  have hone : PoolEntry.unusable.bytes = [] := rfl
  unfold append record entryBytes
  split
  · rw [Array.toList_push, Array.toList_push, List.append_assoc,
      List.drop_append_of_le_length hlength, List.flatMap_append]
    simp [hone]
  · rw [Array.toList_push, List.drop_append_of_le_length hlength, List.flatMap_append,
      List.flatMap_singleton]

theorem entryBytes_appendAll (h : 0 < p.size) :
    (p.appendAll l).entryBytes = p.entryBytes ++ l.flatMap PoolEntry.bytes := by
  induction l generalizing p with
  | nil => rw [List.flatMap_nil, List.append_nil]; rfl
  | cons e l ih =>
      change ((p.append e).appendAll l).entryBytes = _
      rw [ih (Nat.lt_trans h size_append_le), entryBytes_append h, List.append_assoc,
        List.flatMap_cons]

/-- Behind an index there is room for those of an entry, if 16 bits hold them. -/
theorem exists_indexBehind {index : UInt16} (h : index.toNat + e.width ≤ 65535) :
    ∃ j, indexBehind index e = .ok j := by
  -- The first step is within the range, and the second one is taken only behind two slots.
  have hfirst : nextIndex index = .ok (index + 1) := by
    unfold PoolEntry.width at h
    refine nextIndex_of_lt ?_
    split at h <;> omega
  unfold indexBehind
  rw [hfirst]
  by_cases hwide : e.isWide = true
  · rw [PoolEntry.width, if_pos hwide] at h
    have hone := toNat_of_nextIndex hfirst
    exact ⟨_, (if_pos hwide).trans (nextIndex_of_lt (by omega))⟩
  · exact ⟨_, if_neg hwide⟩

/-- Entries are read back if their indices are what the count tells. -/
theorem takes_readEntries {count index : UInt16} {rounds : Nat} (hrounds : l.length ≤ rounds)
    (hl : ∀ e ∈ l, e.IsLegible) (hindex : index.toNat = p.size)
    (hcount : count.toNat = (p.appendAll l).size) :
    Takes (readEntries count rounds index p) (l.flatMap PoolEntry.bytes) (p.appendAll l) := by
  induction l generalizing p rounds index with
  | nil =>
      cases rounds with
      | zero => exact takes_pure p
      | succ rounds =>
          have hdone : ¬index < count := Nat.not_lt_of_le (Nat.le_of_eq (hcount.trans hindex.symm))
          rw [readEntries, if_neg hdone]
          exact takes_pure p
  | cons e l ih =>
      rcases Nat.exists_eq_add_of_lt (Nat.lt_of_lt_of_le l.length.succ_pos hrounds) with
        ⟨rounds, rfl⟩
      rw [List.forall_mem_cons] at hl
      rw [List.length_cons] at hrounds
      -- The indices of the entry are among those that the count tells.
      have hcount' : count.toNat = ((p.append e).appendAll l).size := hcount
      have hle : (p.append e).size ≤ count.toNat := hcount' ▸ size_le_appendAll
      rw [size_append] at hle
      have hpos : 0 < e.width := by
        unfold PoolEntry.width
        split <;> decide
      have hlt : index < count := by
        change index.toNat < count.toNat
        omega
      rcases exists_indexBehind (Nat.le_trans (hindex ▸ hle) (Nat.le_of_lt_succ count.toNat_lt))
        with ⟨next, hnext⟩
      rw [Nat.zero_add, readEntries, if_pos hlt, List.flatMap_cons]
      refine (PoolEntry.takes_read hl.1).bind ((takes_lift hnext).bind ?_)
      rw [record_eq_append hindex]
      refine ih (by omega) hl.2 ?_ hcount'
      rw [toNat_of_indexBehind hnext, size_append, hindex]

section Keys

variable {key : PoolKey} {i : UInt16}

/-- A key that is found stays where it was. -/
theorem lookup_append_of_some (h : p.lookup[key]? = some i) :
    (p.append e).lookup[key]? = some i := by
  unfold append record
  cases hkey : e.key? with
  | none => exact h
  | some k =>
      dsimp only
      rw [Std.HashMap.getElem?_insertIfNew]
      split
      next hnew =>
        rw [eq_of_beq hnew.1, Std.HashMap.mem_iff_isSome_getElem?, h] at hnew
        exact absurd rfl hnew.2
      · exact h

-- And other keys are not touched.
theorem lookup_append_of_ne (h : e.key? ≠ some key) :
    (p.append e).lookup[key]? = p.lookup[key]? := by
  unfold append record
  cases hkey : e.key? with
  | none => rfl
  | some k =>
      dsimp only
      rw [Std.HashMap.getElem?_insertIfNew, if_neg]
      rintro ⟨hsame, -⟩
      exact h (hkey.trans (congrArg some (eq_of_beq hsame)))

/-- A new key gets the index of its entry. -/
theorem lookup_append_of_none (hkey : e.key? = some key) (h : p.lookup[key]? = none) :
    (p.append e).lookup[key]? = some p.size.toUInt16 := by
  unfold append record
  rw [hkey]
  dsimp only
  rw [Std.HashMap.getElem?_insertIfNew, if_pos]
  exact ⟨beq_self_eq_true key, by rw [Std.HashMap.mem_iff_isSome_getElem?, h]; decide⟩

theorem lookup_appendAll_of_some (h : p.lookup[key]? = some i) :
    (p.appendAll l).lookup[key]? = some i := by
  induction l generalizing p with
  | nil => exact h
  | cons e l ih => exact ih (lookup_append_of_some h)

theorem lookup_appendAll_of_ne (h : ∀ e ∈ l, e.key? ≠ some key) :
    (p.appendAll l).lookup[key]? = p.lookup[key]? := by
  induction l generalizing p with
  | nil => rfl
  | cons e l ih =>
      rw [List.forall_mem_cons] at h
      exact (ih h.2).trans (lookup_append_of_ne h.1)

end Keys

/-- The pool consists of entries that can be told from their bytes. -/
def Legible (p : Pool) : Prop :=
  ∃ l, (∀ e ∈ l, e.IsLegible) ∧ p = empty.appendAll l

theorem legible_empty : Legible empty :=
  ⟨[], fun _ he => absurd he List.not_mem_nil, rfl⟩

/-- A pool that can be read can be read with one entry more. -/
theorem Legible.append (h : Legible p) (he : e.IsLegible) : Legible (p.append e) := by
  rcases h with ⟨l, hl, rfl⟩
  refine ⟨l ++ [e], List.forall_mem_append.2 ⟨hl, List.forall_mem_singleton.2 he⟩, ?_⟩
  rw [appendAll_append]
  rfl

/-- Entries take at least a byte each. -/
theorem length_le_flatMap_bytes (hl : ∀ e ∈ l, e.IsLegible) :
    l.length ≤ (l.flatMap PoolEntry.bytes).length := by
  induction l with
  | nil => exact Nat.le_refl _
  | cons e l ih =>
      rw [List.forall_mem_cons] at hl
      have hbytes := List.length_pos_iff.2 (PoolEntry.bytes_ne_nil hl.1)
      have hrest := ih hl.2
      rw [List.flatMap_cons, List.length_append, List.length_cons]
      omega

/-- A pool is read back from its bytes, the table of its keys included. -/
theorem Legible.takes_read (h : Legible p) (hsize : p.size ≤ 65535) :
    Takes Pool.read p.bytes p := by
  rcases h with ⟨l, hl, rfl⟩
  have hpos : 1 ≤ (empty.appendAll l).size := size_le_appendAll (p := empty)
  have hbytes : (empty.appendAll l).bytes =
      Bytes.ofU16 (empty.appendAll l).size.toUInt16 ++ l.flatMap PoolEntry.bytes :=
    congrArg (Bytes.ofU16 (empty.appendAll l).size.toUInt16 ++ ·)
      (entryBytes_appendAll (p := empty) Nat.one_pos)
  rw [hbytes]
  have hcount : (empty.appendAll l).size.toUInt16.toNat = (empty.appendAll l).size :=
    size_toUInt16 hsize
  refine (takes_u16 _).bind ?_
  rw [if_neg fun hzero => ?_]
  · intro data pos rest
    refine takes_readEntries ?_ hl rfl hcount data pos rest
    change l.length ≤ (l.flatMap PoolEntry.bytes ++ rest).length + 1
    -- Each entry takes bytes, so there are rounds enough for all of them.
    have hle := length_le_flatMap_bytes hl
    rw [List.length_append]
    omega
  · rw [hzero] at hcount
    change 0 = _ at hcount
    omega

/-- A pool that was read can be read back. -/
theorem ensures_read : Ensures Pool.read Legible := by
  intro c p c' h
  refine (of_read legible_empty (fun p index e c c' hp _ hread => ?_) h).1
  exact hp.append (PoolEntry.ensures_read index c e c' hread)

/-- Legible entries were added where there was room. -/
inductive Adds (p : Pool) : Pool → Prop where
  | refl : Adds p p
  | append {q : Pool} {e : PoolEntry} :
      Adds p q → e.IsLegible → (q.append e).size ≤ 65535 → Adds p (q.append e)

/-- Additions may be made in two goes. -/
theorem Adds.trans (h : Adds p q) (h' : Adds q r) : Adds p r := by
  induction h' with
  | refl => exact h
  | append _ he hsize ih => exact ih.append he hsize

theorem Adds.grows (h : Adds p q) : Grows p q := by
  induction h with
  | refl => exact grows_refl p
  | append _ _ _ ih => exact ih.trans grows_append

/-- They keep the table right. -/
theorem Adds.consistent (h : Adds p q) (hp : Consistent p) : Consistent q := by
  induction h with
  | refl => exact hp
  | append _ _ hsize ih => exact ih.append (Nat.le_trans (Nat.le_of_lt size_append_le) hsize)

-- And the pool such that it can be read.
theorem Adds.legible (h : Adds p q) (hp : Legible p) : Legible q := by
  induction h with
  | refl => exact hp
  | append _ he _ ih => exact ih.append he

-- And within its limit.
theorem Adds.size_le (h : Adds p q) (hp : p.size ≤ 65535) : q.size ≤ 65535 := by
  cases h with
  | refl => exact hp
  | append _ _ hsize => exact hsize

theorem Adds.push {i : UInt16} (he : e.IsLegible) (h : push e p = .ok i q) : Adds p q := by
  unfold Pool.push at h
  -- The entry is found, does not fit, or is appended.
  split at h
  · cases h
    exact .refl
  · change (if 65535 < p.size + e.width then EStateM.Result.error (Error.poolOverflow p.size) p
      else .ok p.size.toUInt16 (p.append e)) = _ at h
    split at h
    · cases h
    next hsize =>
      cases h
      refine .append .refl he ?_
      rw [size_append]
      exact Nat.not_lt.1 hsize

/-- The computation adds legible entries and changes the pool in no other way. -/
class Edit.Adding {α : Type} (m : Edit α) : Prop where
  adds : ∀ {p a q}, m p = .ok a q → Adds p q

section Adding

variable {α β : Type} {m : Edit α}

/-- Adding keeps a pool consistent and growing, whatever it answers. -/
theorem Edit.Adding.gives (m : Edit α) [Edit.Adding m] : Edit.Gives m fun _ _ => True :=
  fun _ hp _ _ h =>
    have hadds := Edit.Adding.adds h
    ⟨hadds.consistent hp, hadds.grows, fun _ _ _ => trivial⟩

instance (a : α) : Edit.Adding (pure a) where
  adds h := by
    cases h
    exact .refl

instance (e : Error) : Edit.Adding (throw e : Edit α) where
  adds h := by cases h

instance : Edit.Adding (get : Edit Pool) where
  adds h := by
    cases h
    exact .refl

/-- Two edits only add one after the other. -/
theorem Edit.Adding.bind {f : α → Edit β} (hm : Edit.Adding m) (hf : ∀ a, Edit.Adding (f a)) :
    Edit.Adding (m >>= f) where
  adds h := by
    rcases bind_eq_ok h with ⟨a, q, ha, hb⟩
    exact (hm.adds ha).trans ((hf a).adds hb)

instance {f : α → Edit β} [Edit.Adding m] [∀ a, Edit.Adding (f a)] : Edit.Adding (m >>= f) :=
  Edit.Adding.bind inferInstance inferInstance

instance (c : Prop) [Decidable c] {m' : Edit α} [Edit.Adding m] [Edit.Adding m'] :
    Edit.Adding (if c then m else m') := by
  split <;> infer_instance

instance {f : α → Edit β} [∀ a, Edit.Adding (f a)] (l : List α) : Edit.Adding (l.mapM f) := by
  induction l with
  | nil => exact inferInstanceAs (Edit.Adding (pure []))
  | cons a l ih =>
      rw [List.mapM_cons]
      infer_instance

theorem adding_push (he : e.IsLegible) : Edit.Adding (push e) :=
  ⟨Adds.push he⟩

instance (text : String) : Edit.Adding (addUtf8 text) where
  adds {p i q} h := by
    unfold addUtf8 at h
    split at h
    · cases h
      exact .refl
    · dsimp only at h
      split at h
      · cases h
      next hlength =>
        have hlegible : (PoolEntry.utf8 text (ModifiedUtf8.encode text)).IsLegible :=
          ⟨Nat.not_lt.1 hlength, ModifiedUtf8.decode_of_text text⟩
        exact Adds.push hlegible h

instance (name : String) : Edit.Adding (addClass name) :=
  have (n : UInt16) : Edit.Adding (push (.classRef n)) := adding_push trivial
  inferInstanceAs (Edit.Adding (addUtf8 name >>= fun n => push (.classRef n)))

instance (text : String) : Edit.Adding (addString text) :=
  have (t : UInt16) : Edit.Adding (push (.string t)) := adding_push trivial
  inferInstanceAs (Edit.Adding (addUtf8 text >>= fun t => push (.string t)))

instance (name descriptor : String) : Edit.Adding (addNameAndType name descriptor) := by
  have (n d : UInt16) : Edit.Adding (push (.nameAndType n d)) := adding_push trivial
  unfold addNameAndType
  infer_instance

instance (m : Member) : Edit.Adding (addField m) := by
  have (c n : UInt16) : Edit.Adding (push (.fieldRef c n)) := adding_push trivial
  unfold addField
  infer_instance

instance (m : Member) (isInterface : Bool) : Edit.Adding (addMethod m isInterface) := by
  have (c n : UInt16) :
      Edit.Adding (push (if isInterface then .interfaceMethodRef c n else .methodRef c n)) :=
    adding_push (by split <;> trivial)
  unfold addMethod
  infer_instance

instance (bootstrap : UInt16) (name descriptor : String) :
    Edit.Adding (addInvokeDynamic bootstrap name descriptor) := by
  have (n : UInt16) : Edit.Adding (push (.invokeDynamic bootstrap n)) := adding_push trivial
  unfold addInvokeDynamic
  infer_instance

instance (c : Constant) : Edit.Adding (addConstant c) := by
  cases c with
  | int v | float b | long v | double b => exact adding_push trivial
  | string t => exact inferInstanceAs (Edit.Adding (addString t))
  | classRef n => exact inferInstanceAs (Edit.Adding (addClass n))
  | pool index => exact inferInstanceAs (Edit.Adding (pure index))

end Adding

/-- What the computation answered once it answers again, and it adds nothing then. -/
class Edit.Settled {α : Type} (m : Edit α) : Prop where
  again : ∀ {p a q r}, m p = .ok a q → Adds q r → m r = .ok a r

section Settled

variable {α β : Type} {m : Edit α}

/-- What was found is found in the same place. -/
theorem Adds.lookup {p q : Pool} {key : PoolKey} {i : UInt16} (h : Adds p q)
    (hi : p.lookup[key]? = some i) : q.lookup[key]? = some i := by
  induction h with
  | refl => exact hi
  | append _ _ _ ih => exact lookup_append_of_some ih

instance (a : α) : Edit.Settled (pure a) where
  again h _ := by
    cases h
    rfl

instance (e : Error) : Edit.Settled (throw e : Edit α) where
  again h := by cases h

/-- Two edits that settle do so one after the other. -/
theorem Edit.Settled.bind {f : α → Edit β} (hm : Edit.Settled m) (hf : ∀ a, Edit.Settled (f a))
    (hadd : ∀ a, Edit.Adding (f a)) : Edit.Settled (m >>= f) where
  again {p b q r} h hr := by
    rcases bind_eq_ok h with ⟨a, u, ha, hb⟩
    rw [bind_of_ok (hm.again ha (((hadd a).adds hb).trans hr))]
    exact (hf a).again hb hr

instance {f : α → Edit β} [Edit.Settled m] [∀ a, Edit.Settled (f a)] [∀ a, Edit.Adding (f a)] :
    Edit.Settled (m >>= f) :=
  Edit.Settled.bind inferInstance inferInstance inferInstance

instance (c : Prop) [Decidable c] {m' : Edit α} [Edit.Settled m] [Edit.Settled m'] :
    Edit.Settled (if c then m else m') := by
  split <;> infer_instance

theorem settled_mapM {f : α → Edit β} {l : List α} (h : ∀ a ∈ l, Edit.Settled (f a))
    [∀ a, Edit.Adding (f a)] : Edit.Settled (l.mapM f) := by
  induction l with
  | nil => exact inferInstanceAs (Edit.Settled (pure []))
  | cons a l ih =>
      have ha := h a List.mem_cons_self
      have hl := ih fun a' ha' => h a' (List.mem_cons_of_mem _ ha')
      rw [List.mapM_cons]
      infer_instance

instance {f : α → Edit β} [∀ a, Edit.Settled (f a)] [∀ a, Edit.Adding (f a)] (l : List α) :
    Edit.Settled (l.mapM f) :=
  settled_mapM fun _ _ => inferInstance

/-- An entry with a key is found by it afterwards, whether it was there before or not. -/
theorem lookup_of_push {p q : Pool} {e : PoolEntry} {key : PoolKey} {i : UInt16}
    (hkey : e.key? = some key) (h : push e p = .ok i q) : q.lookup[key]? = some i := by
  rcases push_cases h with ⟨hfind, rfl⟩ | ⟨hsize, rfl, rfl⟩
  · rwa [find?, hkey] at hfind
  · refine lookup_append_of_none hkey ?_
    -- Had it been there before, nothing would have been added.
    cases hlookup : p.lookup[key]? with
    | none => rfl
    | some j =>
        rw [push, find?, hkey, Option.bind_some, hlookup] at h
        have hsame : p = p.append e := (EStateM.Result.ok.inj h).2
        exact absurd (congrArg Pool.size hsame) (Nat.ne_of_lt size_append_le)

/-- An entry with a key is found the next time. -/
theorem settled_push {e : PoolEntry} {key : PoolKey} (hkey : e.key? = some key) :
    Edit.Settled (push e) where
  again h hr := by
    unfold push
    rw [find?, hkey, Option.bind_some, hr.lookup (lookup_of_push hkey h)]

instance (text : String) : Edit.Settled (addUtf8 text) where
  again {p i q r} h hr := by
    have hfound : q.lookup[PoolKey.utf8 text]? = some i := by
      unfold addUtf8 at h
      split at h
      next hfind =>
        cases h
        exact hfind
      · dsimp only at h
        split at h
        · cases h
        · exact lookup_of_push rfl h
    rw [addUtf8, hr.lookup hfound]

instance (name : String) : Edit.Settled (addClass name) := by
  have (n : UInt16) : Edit.Settled (push (.classRef n)) := settled_push rfl
  have (n : UInt16) : Edit.Adding (push (.classRef n)) := adding_push trivial
  unfold addClass
  infer_instance

instance (text : String) : Edit.Settled (addString text) := by
  have (t : UInt16) : Edit.Settled (push (.string t)) := settled_push rfl
  have (t : UInt16) : Edit.Adding (push (.string t)) := adding_push trivial
  unfold addString
  infer_instance

instance (c : Constant) : Edit.Settled (addConstant c) := by
  cases c with
  | int v | float b | long v | double b => exact settled_push rfl
  | string t => exact inferInstanceAs (Edit.Settled (addString t))
  | classRef n => exact inferInstanceAs (Edit.Settled (addClass n))
  | pool index => exact inferInstanceAs (Edit.Settled (pure index))

end Settled

end Pool

end JvmFold
