import JvmFold.Proofs.Pool.Format

/-!
# The Discipline of a Pool

A pool is only ever added to. Whatever is asked of it, and whether that
succeeds or fails halfway, the entries that are there keep their indices, and
the pool does not pass 65535 indices by growing. Asking for the same thing
again, at once or after other additions, answers the same index and adds
nothing, because the table of keys leads to the entry from then on.

That the index stands for what was asked for needs a table of keys that is
right. Reading leaves it so, since a pool that was read has no more indices
than 16 bits hold, and adding keeps it.

## Main definitions

* `Pool.Addition`: Something that a pool is asked to add.
* `Pool.Addition.run`: The computation that adds it.
* `Pool.Addition.Stored`: What is read at the index of something that was added.
* `Pool.addAll`: The pool after additions, those that fail included.
* `Pool.IsOrigin`: The pools that additions start from.
* `Pool.answers`: What a pool answers to additions.
* `Pool.Paired`: Each entry of eight bytes is followed by an unusable index.

## Theorems

* `Pool.Addition.keeping`: An addition that fails keeps what it has added before.
* `Pool.Addition.settled`: An addition is found when it is made again.
* `Pool.Addition.stored`: What was added is read at its index.
* `Pool.adds_addAll`: A sequence of additions puts entries behind those that are there.
* `Pool.additions_disciplined`: All of this along any sequence of additions.
* `Pool.addAll_read_back`: A pool that was added to is read back and answers as before.
-/

namespace JvmFold

namespace Pool

/-- The pool that a computation leaves, whether it succeeds or not. -/
def Edit.leaves {α : Type} (m : Edit α) (p : Pool) : Pool :=
  match m p with
  | .ok _ q => q
  | .error _ q => q

/-- The computation adds legible entries and changes the pool in no other way, also where it
    fails. -/
class Edit.Keeping {α : Type} (m : Edit α) : Prop where
  adds : ∀ p, Adds p (m.leaves p)

section Keeping

variable {α β : Type} {m : Edit α} {p q : Pool} {e : PoolEntry}

theorem Edit.leaves_of_ok {a : α} (h : m p = .ok a q) : m.leaves p = q := by
  unfold leaves
  rw [h]

theorem Edit.leaves_of_error {error : Error} (h : m p = .error error q) : m.leaves p = q := by
  unfold leaves
  rw [h]

/-- An edit that keeps the pool on failure does so on success. -/
theorem Edit.Keeping.adding (hm : Edit.Keeping m) : Edit.Adding m where
  adds h := Edit.leaves_of_ok h ▸ hm.adds _

/-- Two edits keep the pool one after the other. -/
theorem Edit.Keeping.bind {f : α → Edit β} (hm : Edit.Keeping m) (hf : ∀ a, Edit.Keeping (f a)) :
    Edit.Keeping (m >>= f) where
  adds p := by
    have hfirst := hm.adds p
    cases h : m p with
    | error error q =>
        rw [Edit.leaves_of_error h] at hfirst
        rwa [Edit.leaves_of_error (bind_of_error h)]
    | ok a q =>
        rw [Edit.leaves_of_ok h] at hfirst
        have hsame : (m >>= f).leaves p = (f a).leaves q := by
          unfold Edit.leaves
          rw [bind_of_ok h]
        rw [hsame]
        exact hfirst.trans ((hf a).adds q)

instance {f : α → Edit β} [Edit.Keeping m] [∀ a, Edit.Keeping (f a)] : Edit.Keeping (m >>= f) :=
  Edit.Keeping.bind inferInstance inferInstance

instance (a : α) : Edit.Keeping (pure a) where
  adds _ := .refl

instance : Edit.Keeping (get : Edit Pool) where
  adds _ := .refl

/-- An entry that does not fit leaves the pool as it is. -/
theorem keeping_push (he : e.IsLegible) : Edit.Keeping (push e) where
  adds p := by
    -- On failure the pool is full, and it is left as it was.
    cases h : push e p with
    | ok i q =>
        rw [Edit.leaves_of_ok h]
        exact Adds.push he h
    | error error q =>
        rw [Edit.leaves_of_error h]
        unfold push at h
        split at h
        · cases h
        · change (if 65535 < p.size + e.width then
              EStateM.Result.error (Error.poolOverflow p.size) p
            else .ok p.size.toUInt16 (p.append e)) = _ at h
          split at h
          · cases h
            exact .refl
          · cases h

instance (text : String) : Edit.Keeping (addUtf8 text) where
  adds p := by
    -- The text is there already, is too long, or is pushed.
    cases h : addUtf8 text p with
    | ok i q =>
        rw [Edit.leaves_of_ok h]
        exact Edit.Adding.adds h
    | error error q =>
        rw [Edit.leaves_of_error h]
        unfold addUtf8 at h
        split at h
        · cases h
        · dsimp only at h
          split at h
          · cases h
            exact .refl
          next hlength =>
            have hlegible : (PoolEntry.utf8 text (ModifiedUtf8.encode text)).IsLegible :=
              ⟨Nat.not_lt.1 hlength, ModifiedUtf8.decode_of_text text⟩
            exact Edit.leaves_of_error h ▸ (keeping_push hlegible).adds p

instance (name : String) : Edit.Keeping (addClass name) := by
  have (n : UInt16) : Edit.Keeping (push (.classRef n)) := keeping_push trivial
  unfold addClass
  infer_instance

instance (text : String) : Edit.Keeping (addString text) := by
  have (t : UInt16) : Edit.Keeping (push (.string t)) := keeping_push trivial
  unfold addString
  infer_instance

instance (name descriptor : String) : Edit.Keeping (addNameAndType name descriptor) := by
  have (n d : UInt16) : Edit.Keeping (push (.nameAndType n d)) := keeping_push trivial
  unfold addNameAndType
  infer_instance

instance (m : Member) : Edit.Keeping (addField m) := by
  have (c n : UInt16) : Edit.Keeping (push (.fieldRef c n)) := keeping_push trivial
  unfold addField
  infer_instance

instance (m : Member) (isInterface : Bool) : Edit.Keeping (addMethod m isInterface) := by
  have (c n : UInt16) :
      Edit.Keeping (push (if isInterface then .interfaceMethodRef c n else .methodRef c n)) :=
    keeping_push (by split <;> trivial)
  unfold addMethod
  infer_instance

instance (bootstrap : UInt16) (name descriptor : String) :
    Edit.Keeping (addInvokeDynamic bootstrap name descriptor) := by
  have (n : UInt16) : Edit.Keeping (push (.invokeDynamic bootstrap n)) := keeping_push trivial
  unfold addInvokeDynamic
  infer_instance

end Keeping

/-- Something that a pool is asked to add. -/
inductive Addition where
  | utf8 (text : String)
  | classRef (name : String)
  | string (text : String)
  | integer (value : Int32)
  | float (bits : Bits32)
  | long (value : Int64)
  | double (bits : Bits64)
  | nameAndType (name descriptor : String)
  | field (m : Member)
  | method (m : Member) (isInterface : Bool)
  | methodHandle (kind : UInt8) (m : Member) (isInterface : Bool)
  | invokeDynamic (bootstrap : UInt16) (name descriptor : String)
deriving DecidableEq, Repr

namespace Addition

/-- The computation that adds it. -/
def run : Addition → Edit UInt16
  | .utf8 text => addUtf8 text
  | .classRef name => addClass name
  | .string text => addString text
  | .integer v => push (.integer v)
  | .float b => push (.float b)
  | .long v => push (.long v)
  | .double b => push (.double b)
  | .nameAndType name descriptor => addNameAndType name descriptor
  | .field m => addField m
  | .method m isInterface => addMethod m isInterface
  | .methodHandle kind m isInterface => addMethodHandle kind m isInterface
  | .invokeDynamic bootstrap name descriptor => addInvokeDynamic bootstrap name descriptor

/-- What is read at the index of something that was added. -/
def Stored (p : Pool) (i : UInt16) : Addition → Prop
  | .utf8 text => p.text i = .ok text
  | .classRef name => p.className i = .ok name
  | .string text => ∃ t, p.entry i = .ok (.string t) ∧ p.text t = .ok text
  | .integer v => p.entry i = .ok (.integer v)
  | .float b => p.entry i = .ok (.float b)
  | .long v => p.entry i = .ok (.long v)
  | .double b => p.entry i = .ok (.double b)
  | .nameAndType name descriptor => p.nameAndType i = .ok ⟨name, descriptor⟩
  | .field m => (∃ c n, p.entry i = .ok (.fieldRef c n)) ∧ p.member i = .ok (m, false)
  | .method m isInterface =>
    (∃ c n, p.entry i =
      .ok (if isInterface then .interfaceMethodRef c n else .methodRef c n)) ∧
      p.member i = .ok (m, isInterface)
  | .methodHandle kind m isInterface =>
    ∃ r, p.entry i = .ok (.methodHandle kind r) ∧ p.member r = .ok (m, isInterface)
  | .invokeDynamic bootstrap name descriptor =>
    ∃ n, p.entry i = .ok (.invokeDynamic bootstrap n) ∧ p.nameAndType n = .ok ⟨name, descriptor⟩

end Addition

section Again

instance (name descriptor : String) : Edit.Settled (addNameAndType name descriptor) := by
  have (n d : UInt16) : Edit.Settled (push (.nameAndType n d)) := settled_push rfl
  have (n d : UInt16) : Edit.Adding (push (.nameAndType n d)) := adding_push trivial
  unfold addNameAndType
  infer_instance

instance (m : Member) : Edit.Settled (addField m) := by
  have (c n : UInt16) : Edit.Settled (push (.fieldRef c n)) := settled_push rfl
  have (c n : UInt16) : Edit.Adding (push (.fieldRef c n)) := adding_push trivial
  unfold addField
  infer_instance

instance (m : Member) (isInterface : Bool) : Edit.Settled (addMethod m isInterface) := by
  have (c n : UInt16) :
      Edit.Settled (push (if isInterface then .interfaceMethodRef c n else .methodRef c n)) := by
    split <;> exact settled_push rfl
  have (c n : UInt16) :
      Edit.Adding (push (if isInterface then .interfaceMethodRef c n else .methodRef c n)) :=
    adding_push (by split <;> trivial)
  unfold addMethod
  infer_instance

instance (bootstrap : UInt16) (name descriptor : String) :
    Edit.Settled (addInvokeDynamic bootstrap name descriptor) := by
  have (n : UInt16) : Edit.Settled (push (.invokeDynamic bootstrap n)) := settled_push rfl
  have (n : UInt16) : Edit.Adding (push (.invokeDynamic bootstrap n)) := adding_push trivial
  unfold addInvokeDynamic
  infer_instance

end Again

section Search

variable {p q : Pool} {e : PoolEntry} {j : Nat} {i : UInt16}

/-- Answers the index of the first entry that is the same, or adds the entry at the end. Handles are
    added in this way, since they have no key. -/
def findOrPush (e : PoolEntry) : Edit UInt16 := do
  match (← get).entries.findIdx? (· == e) with
  | some index => return index.toUInt16
  | none => push e

/-- A method handle is added behind its method. -/
theorem addMethodHandle_eq (kind : UInt8) (m : Member) (isInterface : Bool) :
    addMethodHandle kind m isInterface =
      addMethod m isInterface >>= fun r => findOrPush (.methodHandle kind r) :=
  rfl

/-- An entry that is there is found. -/
theorem findOrPush_of_some (h : p.entries.findIdx? (· == e) = some j) :
    findOrPush e p = .ok j.toUInt16 p := by
  refine (bind_of_ok (m := (get : Edit Pool)) (a := p) rfl).trans ?_
  rw [h]
  rfl

-- And one that is not is added.
theorem findOrPush_of_none (h : p.entries.findIdx? (· == e) = none) :
    findOrPush e p = push e p := by
  refine (bind_of_ok (m := (get : Edit Pool)) (a := p) rfl).trans ?_
  rw [h]

/-- The first entry of a kind stays the first. -/
theorem Grows.findIdx? {f : PoolEntry → Bool} (h : Grows p q)
    (hj : p.entries.findIdx? f = some j) : q.entries.findIdx? f = some j := by
  rw [Array.findIdx?_eq_some_iff_getElem] at hj ⊢
  rcases hj with ⟨hlt, hfound, hfirst⟩
  have hget (k : Nat) (hk : k < p.entries.size) :
      ∃ hk' : k < q.entries.size, q.entries[k] = p.entries[k] :=
    Array.getElem?_eq_some_iff.mp (h k _ (Array.getElem?_eq_getElem hk))
  rcases hget j hlt with ⟨hlt', hsame⟩
  refine ⟨hlt', by rwa [hsame], fun k hk => ?_⟩
  rcases hget k (Nat.lt_trans hk hlt) with ⟨hk', hsame'⟩
  rw [hsame']
  exact hfirst k hk

/-- An entry that was nowhere to be found is found behind the others once it is put in. -/
theorem findIdx?_append (h : p.entries.findIdx? (· == e) = none) :
    (p.append e).entries.findIdx? (· == e) = some p.size := by
  rw [Array.findIdx?_eq_none_iff] at h
  rw [Array.findIdx?_eq_some_iff_getElem]
  rcases Array.getElem?_eq_some_iff.mp (getElem?_append_size (p := p) (e := e)) with ⟨hlt, hlast⟩
  refine ⟨hlt, by rw [hlast, beq_self_eq_true], fun k hk => ?_⟩
  -- What is in front of it was there before.
  have hold : (p.append e).entries[k]? = some p.entries[k] :=
    grows_append k _ (Array.getElem?_eq_getElem hk)
  rw [(Array.getElem?_eq_some_iff.mp hold).2, h _ (Array.getElem_mem hk)]
  exact Bool.false_ne_true

/-- The entry is found afterwards at the index that was answered. -/
theorem findIdx?_of_findOrPush (hkey : e.key? = none) (h : findOrPush e p = .ok i q) :
    ∃ j, q.entries.findIdx? (· == e) = some j ∧ i = j.toUInt16 := by
  cases hfind : p.entries.findIdx? (· == e) with
  | some j =>
      rw [findOrPush_of_some hfind] at h
      cases h
      exact ⟨j, hfind, rfl⟩
  | none =>
      rw [findOrPush_of_none hfind] at h
      rcases push_cases h with ⟨hfound, -⟩ | ⟨-, rfl, rfl⟩
      · rw [find?, hkey] at hfound
        cases hfound
      · exact ⟨p.size, findIdx?_append hfind, rfl⟩

/-- Either way the entries that were there stay. -/
theorem keeping_findOrPush (he : e.IsLegible) : Edit.Keeping (findOrPush e) where
  adds p := by
    unfold Edit.leaves
    cases hfind : p.entries.findIdx? (· == e) with
    | some j =>
        rw [findOrPush_of_some hfind]
        exact .refl
    | none =>
        rw [findOrPush_of_none hfind]
        exact (keeping_push he).adds p

/-- Once added, an entry is found again. -/
theorem settled_findOrPush (hkey : e.key? = none) : Edit.Settled (findOrPush e) where
  again h hr := by
    rcases findIdx?_of_findOrPush hkey h with ⟨j, hfound, rfl⟩
    exact findOrPush_of_some (hr.grows.findIdx? hfound)

instance (kind : UInt8) (m : Member) (isInterface : Bool) :
    Edit.Keeping (addMethodHandle kind m isInterface) := by
  have (r : UInt16) : Edit.Keeping (findOrPush (.methodHandle kind r)) := keeping_findOrPush trivial
  rw [addMethodHandle_eq]
  infer_instance

instance (kind : UInt8) (m : Member) (isInterface : Bool) :
    Edit.Settled (addMethodHandle kind m isInterface) := by
  have (r : UInt16) : Edit.Settled (findOrPush (.methodHandle kind r)) := settled_findOrPush rfl
  have (r : UInt16) : Edit.Keeping (findOrPush (.methodHandle kind r)) := keeping_findOrPush trivial
  have (r : UInt16) : Edit.Adding (findOrPush (.methodHandle kind r)) := (this r).adding
  rw [addMethodHandle_eq]
  infer_instance

end Search

namespace Addition

variable {p q : Pool} {i : UInt16}

/-- Whatever is asked for, the entries that are there are kept. -/
theorem keeping (a : Addition) : Edit.Keeping a.run := by
  cases a with
  | integer v | float b | long v | double b => exact keeping_push trivial
  | _ => unfold run; infer_instance

/-- Something that was added is found when it is added again. -/
theorem settled (a : Addition) : Edit.Settled a.run := by
  cases a with
  | integer v | float b | long v | double b => exact settled_push rfl
  | _ => unfold run; infer_instance

/-- The entry of a field is that of a field, not that of a method. -/
theorem addField_gives_entry (m : Member) :
    Edit.Gives (addField m) fun i r => ∃ c n, r.entry i = .ok (.fieldRef c n) := by
  refine (addClass_gives m.owner).bind fun c => ?_
  refine (addNameAndType_gives m.name m.descriptor).bind fun n => ?_
  exact (push_gives_entry rfl rfl).imp fun i r hentry _ _ => ⟨c, n, hentry⟩

/-- A method is added as one of an interface or of a class. -/
theorem addMethod_gives_entry (m : Member) (isInterface : Bool) :
    Edit.Gives (addMethod m isInterface) fun i r => ∃ c n, r.entry i =
      .ok (if isInterface then .interfaceMethodRef c n else .methodRef c n) := by
  refine (addClass_gives m.owner).bind fun c => ?_
  refine (addNameAndType_gives m.name m.descriptor).bind fun n => ?_
  cases isInterface with
  | true => exact (push_gives_entry rfl rfl).imp fun i r hentry _ _ => ⟨c, n, hentry⟩
  | false => exact (push_gives_entry rfl rfl).imp fun i r hentry _ _ => ⟨c, n, hentry⟩

/-- The index of a handle is found by counting entries, so the pool must not be too large for it. -/
theorem stored_methodHandle {kind : UInt8} {m : Member} {isInterface : Bool} (hp : Consistent p)
    (hsize : p.size ≤ 65535) (h : addMethodHandle kind m isInterface p = .ok i q) :
    (methodHandle kind m isInterface).Stored q i := by
  rcases bind_eq_ok h with ⟨reference, u, hmethod, hfind⟩
  rcases addMethod_gives m isInterface p hp reference u hmethod with ⟨hu, -, hmember⟩
  have hlegible : (PoolEntry.methodHandle kind reference).IsLegible := trivial
  have hadds : Adds u q := (keeping_findOrPush hlegible).adding.adds hfind
  have hread : q.member reference = .ok (m, isInterface) :=
    hmember q (hadds.consistent hu) hadds.grows
  have hq : q.size ≤ 65535 := hadds.size_le ((Edit.Adding.adds hmethod).size_le hsize)
  rcases findIdx?_of_findOrPush rfl hfind with ⟨j, hfound, rfl⟩
  rcases Array.findIdx?_eq_some_iff_getElem.1 hfound with ⟨hlt, hsame, -⟩
  have hindex : j.toUInt16.toNat = j := Nat.mod_eq_of_lt (by unfold size at hq; omega)
  refine ⟨reference, entry_of_getElem? ?_ PoolEntry.noConfusion, hread⟩
  rw [hindex, Array.getElem?_eq_getElem hlt, eq_of_beq hsame]

/-- What was added is read at the index that was answered. -/
theorem stored (a : Addition) (hp : Consistent p) (hsize : p.size ≤ 65535)
    (h : a.run p = .ok i q) : a.Stored q i := by
  have hread {P : UInt16 → Pool → Prop} (hgives : Edit.Gives a.run P) : P i q := by
    rcases hgives p hp i q h with ⟨hq, -, hP⟩
    exact hP q hq (grows_refl q)
  -- Each kind of addition has its own lemma about what it stores.
  cases a with
  | utf8 text => exact hread (addUtf8_gives text)
  | classRef name => exact hread (addClass_gives name)
  | string text => exact hread (addString_gives text)
  | integer v | float b | long v | double b => exact hread (push_gives_entry rfl rfl)
  | nameAndType name descriptor => exact hread (addNameAndType_gives name descriptor)
  | field m => exact hread ((addField_gives_entry m).and (addField_gives m))
  | method m isInterface =>
      exact hread ((addMethod_gives_entry m isInterface).and (addMethod_gives m isInterface))
  | methodHandle kind m isInterface => exact stored_methodHandle hp hsize h
  | invokeDynamic bootstrap name descriptor =>
      exact hread (addInvokeDynamic_gives bootstrap name descriptor)

/-- What is read somewhere is not the unusable second half of an entry. -/
theorem Stored.usable {a : Addition} (h : a.Stored p i) :
    ∃ e, p.entries[i.toNat]? = some e ∧ e ≠ .unusable := by
  -- Whatever is stored can be looked up.
  have hentry : ∃ e, p.entry i = .ok e := by
    cases a with
    | utf8 text => exact (except_bind_ok h).imp fun _ he => he.1
    | classRef name => exact (except_bind_ok h).imp fun _ he => he.1
    | nameAndType name descriptor => exact (except_bind_ok h).imp fun _ he => he.1
    | integer v | float b | long v | double b => exact ⟨_, h⟩
    | string text | methodHandle kind m isInterface | invokeDynamic bootstrap name descriptor =>
        rcases h with ⟨n, he, -⟩
        exact ⟨_, he⟩
    | field m | method m isInterface =>
        rcases h.1 with ⟨c, n, he⟩
        exact ⟨_, he⟩
  rcases hentry with ⟨e, he⟩
  have hget := getElem?_of_entry he
  refine ⟨e, hget, ?_⟩
  rintro rfl
  unfold entry at he
  rw [hget] at he
  cases he

end Addition

/-- The pool after additions, one after the other, those that fail included. -/
def addAll (p : Pool) (l : List Addition) : Pool :=
  l.foldl (fun p a => a.run.leaves p) p

/-- The pools that additions start from: the empty one and those that were read. -/
def IsOrigin (p : Pool) : Prop :=
  p = empty ∨ ∃ c c', Pool.read c = .ok p c'

/-- An entry of eight bytes takes the index behind its own as well, which is unusable. -/
def Paired (p : Pool) : Prop :=
  ∀ (i : Nat) (e : PoolEntry), p.entries[i]? = some e → e.isWide →
    p.entries[i + 1]? = some .unusable

section Sequences

variable {p q s : Pool} {e : PoolEntry}

/-- Additions only add. -/
theorem adds_addAll (p : Pool) (l : List Addition) : Adds p (p.addAll l) := by
  induction l generalizing p with
  | nil => exact .refl
  | cons a l ih => exact (a.keeping.adds p).trans (ih (a.run.leaves p))

/-- The index behind an entry of eight bytes that was put in is unusable. -/
theorem getElem?_append_wide (hwide : e.isWide) :
    (p.append e).entries[p.size + 1]? = some .unusable := by
  have hentries : (p.append e).entries = (p.entries.push e).push .unusable := if_pos hwide
  have hsize : p.size + 1 = (p.entries.push e).size := (Array.size_push e).symm
  rw [hentries, hsize, Array.getElem?_push_size]

/-- An entry of two slots is followed by its second one. -/
theorem Paired.append (h : Paired p) : Paired (p.append e) := by
  intro i e' hget hwide
  rcases Nat.lt_trichotomy i p.size with hlt | rfl | hgt
  · -- An entry that was there before has its second index there as well.
    have hold : (p.append e).entries[i]? = some p.entries[i] :=
      grows_append i _ (Array.getElem?_eq_getElem hlt)
    have hsame : p.entries[i] = e' := Option.some.inj (hold.symm.trans hget)
    exact grows_append _ _ (h i e' (hsame ▸ Array.getElem?_eq_getElem hlt) hwide)
  · rw [getElem?_append_size] at hget
    cases hget
    exact getElem?_append_wide hwide
  · -- Only the second index of the new entry is behind the entry itself, and it is not wide.
    have hin : i < p.size + e.width := size_append ▸ (Array.getElem?_eq_some_iff.mp hget).1
    unfold PoolEntry.width at hin
    split at hin
    next hnew =>
      have heq : i = p.size + 1 := by omega
      subst heq
      rw [getElem?_append_wide hnew] at hget
      cases hget
      cases hwide
    · omega

theorem paired_appendAll (h : Paired p) (l : List PoolEntry) : Paired (p.appendAll l) := by
  induction l generalizing p with
  | nil => exact h
  | cons e l ih => exact ih h.append

-- So is every entry of a pool that can be read.
theorem Legible.paired (h : Legible p) : Paired p := by
  rcases h with ⟨l, -, rfl⟩
  refine paired_appendAll (fun i e hget hwide => ?_) l
  have hzero : i < 1 := (Array.getElem?_eq_some_iff.mp hget).1
  have heq : i = 0 := Nat.lt_one_iff.1 hzero
  subst heq
  cases hget
  cases hwide

/-- A pool that an addition starts from can be read. -/
theorem IsOrigin.legible (h : IsOrigin s) : Legible s := by
  rcases h with rfl | ⟨c, c', h⟩
  · exact legible_empty
  · exact ensures_read c s c' h

-- And has been reached by additions.
theorem IsOrigin.reachable (h : IsOrigin s) : Reachable s := by
  rcases h with rfl | ⟨c, c', h⟩
  · exact .empty
  · exact .read h

/-- Along any sequence of additions to an empty pool or to one that was read, those that fail
    included: the entries that are there keep their indices; a pool stays within 65535 indices; each
    entry of eight bytes is followed by an unusable index; something that was added is read at its
    index, which is no unusable one; and it is found there, without adding anything, when it is
    added again, whatever else is added in between. -/
theorem additions_disciplined (hs : IsOrigin s) (l : List Addition) (a : Addition) :
    let p := s.addAll l
    let q := a.run.leaves p
    Grows p q ∧ q.size ≤ 65535 ∧ Paired q ∧
      ∀ i, a.run p = .ok i q →
        (∀ k, a.run (q.addAll k) = .ok i (q.addAll k)) ∧
        a.Stored q i ∧ ∃ e, q.entries[i.toNat]? = some e ∧ e ≠ .unusable := by
  intro p q
  have hstart : Adds s p := adds_addAll s l
  have hstep : Adds p q := a.keeping.adds p
  have hlegible : Legible q := (hstart.trans hstep).legible hs.legible
  have hsize : p.size ≤ 65535 := hstart.size_le hs.reachable.size_le
  refine ⟨hstep.grows, hstep.size_le hsize, hlegible.paired, fun i hrun => ⟨fun k => ?_, ?_⟩⟩
  · exact a.settled.again hrun (adds_addAll q k)
  · have hconsistent : Consistent p := hstart.consistent hs.reachable.consistent
    have hstored : a.Stored q i := a.stored hconsistent hsize hrun
    exact ⟨hstored, hstored.usable⟩

/-- A number of eight bytes is put at the first index and takes the second as well. -/
theorem additions_disciplined_long :
    let five := empty.append (.long 5)
    (Addition.long 5).run empty = .ok 1 five ∧ five.size = 3 ∧ five.entry 1 = .ok (.long 5) ∧
      five.entries[2]? = some .unusable ∧
      ∀ k, (Addition.long 5).run (five.addAll k) = .ok 1 (five.addAll k) := by
  intro five
  have hnew : empty.find? (.long 5) = none := Std.HashMap.getElem?_empty
  have hrun : (Addition.long 5).run empty = .ok 1 five := push_of_new hnew (by decide)
  have hleaves : (Addition.long 5).run.leaves (empty.addAll []) = five := Edit.leaves_of_ok hrun
  rcases additions_disciplined (Or.inl rfl) [] (.long 5) with ⟨-, -, hpaired, hadded⟩
  rw [hleaves] at hpaired hadded
  rcases hadded 1 hrun with ⟨hagain, hread⟩
  have hlong : five.entry 1 = .ok (.long 5) := hread.1
  exact ⟨hrun, rfl, hlong, hpaired 1 _ (getElem?_of_entry hlong) rfl, hagain⟩

/-- What a pool answers to additions, one after the other. -/
def answers (p : Pool) : List Addition → List (Except Error UInt16)
  | [] => []
  | a :: l =>
    match a.run p with
    | .ok i q => .ok i :: q.answers l
    | .error error q => .error error :: q.answers l

/-- A pool that additions have led to is written and read back. Reading takes the bytes that were
    written and none behind them, finds every entry at its index, and gives a pool that answers all
    further additions as the one that was written does. -/
theorem addAll_read_back (hs : IsOrigin s) (l : List Addition) (data : Bytes) (pos : Nat)
    (rest : Bytes) :
    ∃ p, Pool.read ⟨data, pos, (s.addAll l).bytes ++ rest⟩
        = .ok p ⟨data, pos + (s.addAll l).bytes.length, rest⟩ ∧
      p.entries = (s.addAll l).entries ∧ ∀ k, p.answers k = (s.addAll l).answers k := by
  have hadds : Adds s (s.addAll l) := adds_addAll s l
  have hlegible : Legible (s.addAll l) := hadds.legible hs.legible
  have hsize : (s.addAll l).size ≤ 65535 := hadds.size_le hs.reachable.size_le
  -- The table of keys is read back as well, since reading puts the entries in one by one.
  exact ⟨s.addAll l, hlegible.takes_read hsize data pos rest, rfl, fun _ => rfl⟩

/-- A pool with a class and a number of eight bytes is read back. -/
theorem addAll_read_back_class :
    IsOrigin empty ∧
      ∃ p, Pool.read ⟨[], 0, (empty.addAll [.classRef "A", .long 5]).bytes ++ [0]⟩
          = .ok p ⟨[], 0 + (empty.addAll [.classRef "A", .long 5]).bytes.length, [0]⟩ ∧
        p.entries = (empty.addAll [.classRef "A", .long 5]).entries ∧
        ∀ k, p.answers k = (empty.addAll [.classRef "A", .long 5]).answers k :=
  ⟨.inl rfl, addAll_read_back (.inl rfl) _ [] 0 [0]⟩

end Sequences

end Pool

end JvmFold
