import JvmFold.Proofs.Pool.Spelling

/-!
# Counting the Indices of a Pool

The entries of a pool are read in a loop. It counts the index of the next entry
in 16 bits and goes on while that index is below the number of indices that the
pool says it has. An entry of eight bytes takes two indices, so the loop can
end one index behind that number.

The index is always the number of indices so far, and every key leads to its
entry. But the loop need not end with a pool or with malformed bytes. If the
pool says that it has all 65535 indices, and an entry of eight bytes is read at
the last but one, its second index would be the number 65536, for which 16 bits
are too few. This ends the whole program, and nothing else does.

## Main definitions

* `Pool.Reading`: How the loop stands in front of an entry.
* `Pool.Reading.Rounds`: How the loop stands after a number of rounds.
* `Pool.Reading.Ends`: What the loop answers where it stops.
* `Pool.Reading.StepsOver`: The entry behind which there is no index.
* `Pool.Tracked`: The loop keeps track of the indices.

## Theorems

* `Pool.Reading.Rounds.index_eq`: The index is the number of indices so far.
* `Pool.Reading.Rounds.length_le`: Every round takes bytes.
* `Pool.Reading.exists_ends`: The loop ends, with what reading a pool answers.
* `Pool.Reading.indexBehind_fails_iff`: When there is no index behind an entry.
* `Pool.read_tracked`: The indices of a pool that is read.
-/

namespace JvmFold

open Read

instance (index : UInt16) : Local (PoolEntry.read index) := by
  unfold PoolEntry.read
  refine Local.bind inferInstance fun tag => ?_
  split <;> infer_instance

/-- An entry takes bytes, since it begins with its tag. -/
theorem PoolEntry.length_lt_of_read {index : UInt16} {c c' : Cursor} {e : PoolEntry}
    (h : PoolEntry.read index c = .ok e c') : c'.rest.length < c.rest.length := by
  rcases Local.takes h with ⟨w, hrest, -, htakes⟩
  cases w with
  | nil =>
      -- There is no entry without bytes.
      have hempty := htakes [] 0 []
      cases hempty
  | cons b w =>
      rw [hrest, List.length_append, List.length_cons]
      omega

/-- Whatever the reader meets, it does not end the whole program. -/
class Read.Survives {α : Type} (r : Read α) : Prop where
  ne_aborted : ∀ {c c' : Cursor}, r c ≠ .error .aborted c'

section Survives

variable {α β : Type} {r : Read α}

instance (a : α) : Survives (pure a : Read α) where
  ne_aborted h := by cases h

instance (m : Malformed) : Survives (malformed m : Read α) where
  ne_aborted h := by cases h

/-- Two parts that do not end the program do not do so one after the other. -/
theorem Read.Survives.bind {f : α → Read β} (hr : Survives r) (hf : ∀ a, Survives (f a)) :
    Survives (r >>= f) where
  ne_aborted {c c'} h := by
    cases hread : r c with
    | ok a d =>
        rw [bind_of_ok hread] at h
        exact (hf a).ne_aborted h
    | error e d =>
        rw [bind_of_error hread] at h
        cases h
        exact hr.ne_aborted hread

instance {f : α → Read β} [Survives r] [∀ a, Survives (f a)] : Survives (r >>= f) :=
  Survives.bind inferInstance inferInstance

instance : Survives u8 where
  ne_aborted h := by
    unfold u8 at h
    split at h <;> cases h

instance : Survives u16 where
  ne_aborted h := by
    unfold u16 at h
    split at h <;> cases h

instance : Survives u32 where
  ne_aborted h := by
    unfold u32 at h
    split at h <;> cases h

instance : Survives u64 := by
  unfold u64
  infer_instance

instance : Survives i32 := by
  unfold i32
  infer_instance

instance (n : Nat) : Survives (bytes n) where
  ne_aborted h := by
    unfold bytes at h
    split at h <;> cases h

instance (w : Bytes) : Survives (lift (ModifiedUtf8.decode w)) where
  ne_aborted {c c'} h := by
    -- Bytes that stand for no text are malformed.
    have hgo (acc : List UInt16) (w : Bytes) :
        ModifiedUtf8.decodeUnits.go acc w ≠ .error .aborted := by
      fun_induction ModifiedUtf8.decodeUnits.go acc w <;> simp_all
    unfold ModifiedUtf8.decode ModifiedUtf8.decodeUnits at h
    cases hunits : ModifiedUtf8.decodeUnits.go [] w with
    | ok units =>
        rw [hunits] at h
        cases h
    | error e =>
        rw [hunits] at h
        cases h
        exact hgo [] w hunits

instance (index : UInt16) : Survives (PoolEntry.read index) := by
  unfold PoolEntry.read
  refine Survives.bind inferInstance fun tag => ?_
  split <;> infer_instance

end Survives

namespace Pool

/-- How the loop stands in front of an entry. -/
structure Reading where
  /-- The index of the entry, counted in 16 bits. -/
  index : UInt16
  /-- What has been read. -/
  pool : Pool
  /-- Where the entry begins. -/
  cursor : Cursor

namespace Reading

/-- The loop in front of the first entry. -/
def start (c : Cursor) : Reading :=
  ⟨1, empty, c⟩

/-- The loop behind an entry, at the next index. -/
def next (s : Reading) (e : PoolEntry) (j : UInt16) (c : Cursor) : Reading :=
  ⟨j, s.pool.record s.index e, c⟩

/-- The loop reads an entry. -/
def Reads (count : UInt16) (s : Reading) (e : PoolEntry) (c : Cursor) : Prop :=
  s.index < count ∧ PoolEntry.read s.index s.cursor = .ok e c

/-- How the loop stands after a number of rounds. -/
inductive Rounds (count : UInt16) (c : Cursor) : Nat → Reading → Prop where
  | start : Rounds count c 0 (start c)
  | next {n : Nat} {s : Reading} {e : PoolEntry} {j : UInt16} {c' : Cursor} :
      Rounds count c n s → s.Reads count e c' → indexBehind s.index e = .ok j →
        Rounds count c (n + 1) (s.next e j c')

/-- An entry of eight bytes is read at the last but one of all indices. -/
def StepsOver (count : UInt16) (s : Reading) : Prop :=
  count = 65535 ∧ s.index = 65534 ∧ ∃ e c, s.Reads count e c ∧ e.isWide

/-- What the loop answers where it stops. -/
inductive Ends (count : UInt16) (s : Reading) : EStateM.Result Error Cursor Pool → Prop where
  | done : ¬ s.index < count → Ends count s (.ok s.pool s.cursor)
  | failed {e : Error} {c : Cursor} :
      s.index < count → PoolEntry.read s.index s.cursor = .error e c → Ends count s (.error e c)
  | aborted {c : Cursor} : s.StepsOver count → Ends count s (.error .aborted c)

variable {count : UInt16} {c c' : Cursor} {n : Nat} {s : Reading} {e : PoolEntry} {j : UInt16}

/-- The index is the number of indices so far. -/
theorem Rounds.index_eq (h : Rounds count c n s) : s.index.toNat = s.pool.size := by
  induction h with
  | start => rfl
  | @next n s e j c' _ _ hbehind ih =>
      change j.toNat = (s.pool.record s.index e).size
      rw [record_eq_append ih, size_append, toNat_of_indexBehind hbehind, ih]

/-- What was read so far can be read again. -/
theorem Rounds.legible (h : Rounds count c n s) : Legible s.pool := by
  induction h with
  | start => exact legible_empty
  | @next n s e j c' hrounds hreads _ ih =>
      change Legible (s.pool.record s.index e)
      rw [record_eq_append hrounds.index_eq]
      exact ih.append (PoolEntry.ensures_read _ _ _ _ hreads.2)

/-- Every round takes bytes, so there are no more rounds than bytes. -/
theorem Rounds.length_le (h : Rounds count c n s) : n + s.cursor.rest.length ≤ c.rest.length := by
  induction h with
  | start => exact Nat.le_of_eq (Nat.zero_add _)
  | @next n s e j c' _ hreads _ ih =>
      have hlt := PoolEntry.length_lt_of_read hreads.2
      change n + 1 + c'.rest.length ≤ _
      omega

/-- There is no index behind an entry that is read exactly if it steps over the last one, and this
    ends the whole program. -/
theorem indexBehind_fails_iff (hreads : s.Reads count e c') {x : Error} :
    indexBehind s.index e = .error x ↔
      x = .aborted ∧ count = 65535 ∧ s.index = 65534 ∧ e.isWide := by
  have hlt : s.index.toNat < count.toNat := hreads.1
  have hcount : count.toNat < 65536 := count.toNat_lt
  have hfirst : nextIndex s.index = .ok (s.index + 1) := nextIndex_of_lt (by omega)
  unfold indexBehind
  rw [hfirst]
  change (if e.isWide then nextIndex (s.index + 1) else .ok (s.index + 1)) = .error x ↔ _
  by_cases hwide : e.isWide = true
  · -- The first index is below the count, so only the second one can be behind the last.
    rw [if_pos hwide, nextIndex_fails_iff, toNat_of_nextIndex hfirst]
    constructor
    · rintro ⟨hx, hlast⟩
      refine ⟨hx, UInt16.toNat.inj ?_, UInt16.toNat.inj ?_, hwide⟩
      · change count.toNat = 65535
        omega
      · change s.index.toNat = 65534
        omega
    · rintro ⟨hx, -, hindex, -⟩
      exact ⟨hx, by rw [hindex]; rfl⟩
  · rw [if_neg hwide]
    exact iff_of_false nofun fun h => hwide h.2.2.2

/-- Behind the count the entries are read, from index one. -/
theorem read_eq_readEntries {c₀ : Cursor} (hcount : u16 c = .ok count c₀) (hzero : count ≠ 0) :
    Pool.read c = readEntries count (c₀.rest.length + 1) 1 empty c₀ := by
  unfold Pool.read
  rw [bind_of_ok hcount, if_neg hzero]
  rfl

/-- The rounds that the loop has gone through need not be gone through again. -/
theorem Rounds.readEntries_eq (h : Rounds count c n s) (rounds : Nat) :
    readEntries count (n + rounds) 1 empty c =
      readEntries count rounds s.index s.pool s.cursor := by
  induction h generalizing rounds with
  | start => rw [Nat.zero_add]; rfl
  | @next n s e j c' _ hreads hbehind ih =>
      have hnext : lift (indexBehind s.index e) c' = .ok j c' := hbehind ▸ rfl
      rw [Nat.add_assoc, Nat.add_comm 1, ih (rounds + 1), readEntries, if_pos hreads.1,
        bind_of_ok hreads.2, bind_of_ok hnext]
      rfl

/-- The loop ends with what is read in as many rounds as there are bytes, and one more. -/
theorem Rounds.exists_ends {rounds : Nat} (h : Rounds count c n s)
    (hrounds : s.cursor.rest.length < rounds) :
    ∃ m r, Rounds count c m r ∧
      r.Ends count (readEntries count rounds s.index s.pool s.cursor) := by
  induction rounds generalizing n s with
  | zero => exact absurd hrounds (Nat.not_lt_zero _)
  | succ rounds ih =>
      rw [readEntries]
      -- The round is the last one, fails, steps over the end of the indices, or goes on.
      by_cases hlt : s.index < count
      · rw [if_pos hlt]
        cases hread : PoolEntry.read s.index s.cursor with
        | error e c' =>
            rw [bind_of_error hread]
            exact ⟨n, s, h, .failed hlt hread⟩
        | ok e c' =>
            rw [bind_of_ok hread]
            cases hbehind : indexBehind s.index e with
            | error x =>
                rcases (indexBehind_fails_iff ⟨hlt, hread⟩).1 hbehind with
                  ⟨rfl, hcount, hindex, hwide⟩
                exact ⟨n, s, h, .aborted ⟨hcount, hindex, e, c', ⟨hlt, hread⟩, hwide⟩⟩
            | ok j =>
                have hfewer := PoolEntry.length_lt_of_read hread
                exact ih (h.next ⟨hlt, hread⟩ hbehind)
                  (Nat.lt_of_lt_of_le hfewer (Nat.le_of_lt_succ hrounds))
      · rw [if_neg hlt]
        exact ⟨n, s, h, .done hlt⟩

/-- The loop ends, with what reading a pool answers behind the number of its indices. -/
theorem exists_ends {c₀ : Cursor} (hcount : u16 c = .ok count c₀) (hzero : count ≠ 0) :
    ∃ n s, Rounds count c₀ n s ∧ s.Ends count (Pool.read c) := by
  rw [read_eq_readEntries hcount hzero]
  exact Rounds.start.exists_ends (Nat.lt_succ_self _)

/-- Where an entry steps over the last index, reading a pool ends the whole program. -/
theorem Rounds.aborts {c₀ : Cursor} (hcount : u16 c = .ok count c₀) (hzero : count ≠ 0)
    (h : Rounds count c₀ n s) (hsteps : s.StepsOver count) :
    ∃ c', Pool.read c = .error .aborted c' := by
  rcases hsteps with ⟨hall, hindex, e, c', hreads, hwide⟩
  have hbehind : indexBehind s.index e = .error .aborted :=
    (indexBehind_fails_iff hreads).2 ⟨rfl, hall, hindex, hwide⟩
  -- There are fewer rounds than bytes, so the loop does not stop in front of the entry.
  rcases Nat.exists_eq_add_of_le (Nat.le_trans (Nat.le_add_right _ _) h.length_le) with ⟨k, hk⟩
  refine ⟨c', ?_⟩
  rw [read_eq_readEntries hcount hzero, hk, Nat.add_assoc, h.readEntries_eq, readEntries,
    if_pos hreads.1, bind_of_ok hreads.2]
  exact bind_of_error (congrArg (fun x => lift x c') hbehind)

end Reading

open Reading

variable {count : UInt16} {c c₀ c' : Cursor} {n : Nat} {s : Reading} {e : PoolEntry} {p : Pool}

/-- The key of every entry is recorded under an index not behind its own, and at that index there
    is an entry of the same key. -/
def Keyed (p : Pool) : Prop :=
  ∀ i e key, p.entries[i]? = some e → e.key? = some key →
    ∃ j e', p.lookup[key]? = some j ∧ j.toNat ≤ i ∧ p.entry j = .ok e' ∧ e'.key? = some key

/-- A pool that can be read has each of its keys in the table. -/
theorem Legible.keyed (hp : Legible p) (hsize : p.size ≤ 65535) : p.Keyed := by
  intro i e key he hkey
  have hhas : hasKey key e = true := by simp [hasKey, hkey]
  rcases Array.getElem?_eq_some_iff.1 he with ⟨hi, rfl⟩
  cases hfirst : p.entries.findIdx? (hasKey key) with
  | none =>
      rw [Array.findIdx?_eq_none_iff] at hfirst
      rw [hfirst _ (Array.getElem_mem hi)] at hhas
      cases hhas
  | some j =>
      have hlookup := hp.lookup_eq key
      rw [hfirst] at hlookup
      rcases Array.findIdx?_eq_some_iff_getElem.1 hfirst with ⟨hj, hhasj, hbefore⟩
      -- The table leads to the first entry with the key, and this one has the key as well.
      have hle : j ≤ i := Nat.le_of_not_lt fun hlt => hbefore i hlt hhas
      have hnat : j.toUInt16.toNat = j :=
        Nat.mod_eq_of_lt (Nat.lt_of_lt_of_le hj (Nat.le_succ_of_le hsize))
      have hkeyj : p.entries[j].key? = some key := by simpa [hasKey] using hhasj
      refine ⟨j.toUInt16, p.entries[j], hlookup, hnat.trans_le hle, entry_of_getElem? ?_ ?_, hkeyj⟩
      · rw [hnat]
        exact Array.getElem?_eq_getElem hj
      · intro hunusable
        rw [hunusable] at hkeyj
        cases hkeyj

/-- The loop keeps track of the indices. -/
structure Tracked (count : UInt16) (c : Cursor) : Prop where
  /-- There are no more rounds than bytes. -/
  length_le : ∀ n s, Rounds count c n s → n ≤ c.rest.length
  /-- In front of every entry the index is the number of indices so far. -/
  index_eq : ∀ n s, Rounds count c n s → s.index.toNat = s.pool.size
  /-- An entry behind which the loop goes on is at its index. -/
  found : ∀ n s e j c', Rounds count c n s → s.Reads count e c' → indexBehind s.index e = .ok j →
    (s.next e j c').pool.entry s.index = .ok e
  /-- Every key leads to its entry. -/
  keyed : ∀ n s, Rounds count c n s → s.pool.Keyed

/-- Whatever the bytes are, the loop keeps track. -/
theorem tracked (count : UInt16) (c : Cursor) : Tracked count c where
  length_le n s h := Nat.le_trans (Nat.le_add_right _ _) h.length_le
  index_eq n s h := h.index_eq
  found n s e j c' h hreads _ := by
    change (s.pool.record s.index e).entry s.index = .ok e
    rw [record_eq_append h.index_eq]
    refine entry_of_getElem? ?_ ?_
    · rw [h.index_eq]
      exact getElem?_append_size
    · rintro rfl
      exact PoolEntry.ensures_read _ _ _ _ hreads.2
  keyed n s h := h.legible.keyed (h.index_eq ▸ Nat.le_of_lt_succ s.index.toNat_lt)

/-- Where the loop stops there are as many indices as the pool says, or one more. -/
theorem size_of_rounds (h : Rounds count c n s) (hdone : ¬s.index < count) :
    count.toNat ≤ s.pool.size ∧ s.pool.size ≤ count.toNat + 1 := by
  refine ⟨h.index_eq ▸ Nat.le_of_not_lt hdone, ?_⟩
  cases h with
  | start => exact Nat.le_add_left 1 _
  | @next n s e j c' hrounds hreads hbehind =>
      have hlt : s.index.toNat < count.toNat := hreads.1
      have hwidth : e.width ≤ 2 := by
        unfold PoolEntry.width
        split <;> decide
      have hsize := (hrounds.next hreads hbehind).index_eq
      change j.toNat = _ at hsize
      rw [toNat_of_indexBehind hbehind] at hsize
      omega

/-- Where reading a pool neither runs out of bytes nor finds that it has no indices, it has got to
    its entries. -/
theorem exists_count_of_read {a : EStateM.Result Error Cursor Pool} (hread : Pool.read c = a)
    (hbytes : ∀ c', a ≠ .error .outOfBounds c')
    (hempty : ∀ c', a ≠ .error (.malformed .emptyPool) c') :
    ∃ count c₀, u16 c = .ok count c₀ ∧ count ≠ 0 := by
  -- The count could be read, as the reading has not failed for want of bytes.
  cases hcount : u16 c with
  | error x c₀ =>
      unfold Pool.read at hread
      rw [bind_of_error hcount] at hread
      unfold u16 at hcount
      split at hcount
      · cases hcount
      · cases hcount
        exact absurd hread.symm (hbytes c)
  | ok count c₀ =>
      refine ⟨count, c₀, rfl, ?_⟩
      rintro rfl
      unfold Pool.read at hread
      rw [bind_of_ok hcount, if_pos rfl] at hread
      exact absurd hread.symm (hempty c₀)

/-- Reading a pool goes through a loop that keeps track of the indices and ends. It ends the whole
    program exactly if an entry of eight bytes is read at the last but one of all 65535 indices. A
    pool that was read has as many indices as it says, or one more. -/
theorem read_tracked (c : Cursor) :
    (∀ count c₀, u16 c = .ok count c₀ → count ≠ 0 →
      Tracked count c₀ ∧ ∃ n s, Rounds count c₀ n s ∧ s.Ends count (Pool.read c)) ∧
    ((∃ c', Pool.read c = .error .aborted c') ↔
      ∃ count c₀ n s, u16 c = .ok count c₀ ∧ Rounds count c₀ n s ∧ s.StepsOver count) ∧
    ∀ p c', Pool.read c = .ok p c' → ∃ count c₀, u16 c = .ok count c₀ ∧
      count.toNat ≤ p.size ∧ p.size ≤ count.toNat + 1 := by
  refine ⟨fun count c₀ hcount hzero => ⟨tracked count c₀, exists_ends hcount hzero⟩, ?_, ?_⟩
  · constructor
    · rintro ⟨c', hread⟩
      rcases exists_count_of_read hread nofun nofun with ⟨count, c₀, hcount, hzero⟩
      -- How the reading has ended says which of the rounds was the last.
      rcases exists_ends hcount hzero with ⟨n, s, h, hends⟩
      rw [hread] at hends
      cases hends with
      | failed _ hfailed => exact absurd hfailed Survives.ne_aborted
      | aborted hsteps => exact ⟨count, c₀, n, s, hcount, h, hsteps⟩
    · rintro ⟨count, c₀, n, s, hcount, h, hsteps⟩
      have hzero : count ≠ 0 := by
        rw [hsteps.1]
        decide
      exact h.aborts hcount hzero hsteps
  · intro p c' hread
    rcases exists_count_of_read hread nofun nofun with ⟨count, c₀, hcount, hzero⟩
    rcases exists_ends hcount hzero with ⟨n, s, h, hends⟩
    rw [hread] at hends
    cases hends with
    | done hdone => exact ⟨count, c₀, hcount, size_of_rounds h hdone⟩

/-- The bytes of a pool with one entry of eight bytes, which says that it has two indices. -/
def longBytes : Bytes :=
  [0, 2, 5, 0, 0, 0, 0, 0, 0, 0, 0]

/-- It is read with one index more than it says, which the loop has kept track of. -/
theorem read_tracked_long :
    ∃ c₀ p c', u16 (.start longBytes) = .ok 2 c₀ ∧ Tracked 2 c₀ ∧
      Pool.read (.start longBytes) = .ok p c' ∧ p.size = 3 ∧ p.size ≤ (2 : UInt16).toNat + 1 := by
  have hcount : u16 (.start longBytes) = .ok 2 ⟨longBytes, 2, longBytes.drop 2⟩ := rfl
  have hread : ∃ p c', Pool.read (.start longBytes) = .ok p c' ∧ p.size = 3 := ⟨_, _, rfl, rfl⟩
  rcases hread with ⟨p, c', hread, hsize⟩
  rcases read_tracked (.start longBytes) with ⟨hloop, -, hpool⟩
  rcases hpool p c' hread with ⟨count, c₀, hcount', -, hle⟩
  cases hcount.symm.trans hcount'
  exact ⟨_, p, c', hcount, (hloop _ _ hcount (by decide)).1, hread, hsize, hle⟩

/-- Equal entries take a multiple of their slots. -/
theorem size_appendAll_replicate (n : Nat) (e : PoolEntry) :
    (p.appendAll (List.replicate n e)).size = p.size + n * e.width := by
  induction n generalizing p with
  | zero =>
      rw [Nat.zero_mul]
      rfl
  | succ n ih =>
      change ((p.append e).appendAll (List.replicate n e)).size = _
      rw [ih, size_append, Nat.succ_mul]
      omega

/-- The loop goes through entries whose indices are among those that the pool says it has. -/
theorem exists_rounds_of_legible {l : List PoolEntry} (hl : ∀ e ∈ l, e.IsLegible)
    (hsize : (empty.appendAll l).size ≤ count.toNat) (data : Bytes) (pos : Nat) (rest : Bytes) :
    ∃ s, Rounds count ⟨data, pos, l.flatMap PoolEntry.bytes ++ rest⟩ l.length s ∧
      s.pool = empty.appendAll l ∧
      s.cursor = ⟨data, pos + (l.flatMap PoolEntry.bytes).length, rest⟩ := by
  -- The loop gets to the last entry last, and so the induction is on that one.
  induction l using List.reverseRecOn generalizing rest with
  | nil => exact ⟨_, .start, rfl, rfl⟩
  | append_singleton l e ih =>
      rw [List.forall_mem_append, List.forall_mem_singleton] at hl
      rw [appendAll_append] at hsize
      change ((empty.appendAll l).append e).size ≤ _ at hsize
      rcases ih hl.1 (Nat.le_trans (Nat.le_of_lt size_append_le) hsize) (e.bytes ++ rest) with
        ⟨s, hrounds, hpool, hcursor⟩
      have hindex := hrounds.index_eq
      rw [hpool] at hindex
      have hreads : s.Reads count e ⟨data, s.cursor.pos + e.bytes.length, rest⟩ := by
        refine ⟨?_, ?_⟩
        · change s.index.toNat < count.toNat
          exact hindex ▸ Nat.lt_of_lt_of_le size_append_le hsize
        · rw [hcursor]
          exact PoolEntry.takes_read hl.2 data _ rest
      rw [size_append, ← hindex] at hsize
      rcases exists_indexBehind (Nat.le_trans hsize (Nat.le_of_lt_succ count.toNat_lt)) with
        ⟨j, hbehind⟩
      rw [List.flatMap_append, List.flatMap_singleton, List.append_assoc, List.length_append,
        appendAll_append]
      refine ⟨_, hrounds.next hreads hbehind, ?_, ?_⟩
      · change s.pool.record s.index e = _
        rw [record_eq_append hrounds.index_eq, hpool]
        rfl
      · change (⟨data, s.cursor.pos + e.bytes.length, rest⟩ : Cursor) = _
        rw [hcursor, List.length_append, Nat.add_assoc]

/-- Classes up to the last but one of all indices, and an entry of eight bytes there. -/
def steppingBytes : Bytes :=
  Bytes.ofU16 65535 ++ ((List.replicate 65533 (PoolEntry.classRef 0)).flatMap PoolEntry.bytes
    ++ (PoolEntry.long 0).bytes)

/-- Reading a pool can end the whole program: there is no index behind the entry of eight bytes. -/
theorem read_steppingBytes_aborts :
    ∃ c', Pool.read (.start steppingBytes) = .error .aborted c' := by
  have hcount := takes_u16 65535 steppingBytes 0
    ((List.replicate 65533 (PoolEntry.classRef 0)).flatMap PoolEntry.bytes
      ++ (PoolEntry.long 0).bytes)
  have hsize : (empty.appendAll (List.replicate 65533 (.classRef 0))).size = 65534 := by
    rw [size_appendAll_replicate]
    rfl
  have hclasses : ∀ e ∈ List.replicate 65533 (PoolEntry.classRef 0), e.IsLegible := by
    intro e he
    rw [List.eq_of_mem_replicate he]
    trivial
  have hroom : (empty.appendAll (List.replicate 65533 (.classRef 0))).size
      ≤ (65535 : UInt16).toNat := hsize ▸ by decide
  rcases exists_rounds_of_legible hclasses hroom steppingBytes (0 + (Bytes.ofU16 65535).length)
    (PoolEntry.long 0).bytes with ⟨s, hrounds, hpool, hcursor⟩
  -- After these entries the next index is 65534, and the two slots of the last one step over the
  -- end.
  have hindex : s.index = 65534 := by
    refine UInt16.toNat.inj ?_
    rw [hrounds.index_eq, hpool, hsize]
    rfl
  have hlong : (PoolEntry.read 65534).Takes (PoolEntry.long 0).bytes (.long 0) :=
    PoolEntry.takes_read trivial
  have hread : ∃ c', PoolEntry.read s.index s.cursor = .ok (.long 0) c' := by
    rw [hindex, hcursor]
    exact ⟨_, hlong steppingBytes _ []⟩
  rcases hread with ⟨c', hread⟩
  exact hrounds.aborts hcount (by decide)
    ⟨rfl, hindex, .long 0, c', ⟨hindex ▸ by decide, hread⟩, rfl⟩

end Pool

end JvmFold
