import JvmFold.Fold.Encoding
import JvmFold.Proofs.Pool.Additions

/-!
# The Bytes of Added Texts

The bytes of a text in a pool are those it was read with, or those that the text
is encoded to. A text that is added is looked up by what the bytes of the
entries stand for, and that is a `String`: an unpaired surrogate in the bytes
counts as U+FFFD. So an added text can be answered with an entry whose bytes hold
surrogates in its place. It is spelled as it should be exactly if this does not
happen with the first entry that stands for it.

The table of keys leads to the first entry of a key, whatever has been added or
read.

## Main definitions

* `ModifiedUtf8.IsWhole`: Bytes of units without an unpaired surrogate.
* `Pool.Spells`: The bytes at an index are those of some units.
* `Pool.KeepsText`: The bytes of the first entry for a text are whole.

## Theorems

* `Pool.Legible.lookup_eq`: The table of keys leads to the first entries.
* `Pool.addUtf8_spells_iff`: When an added text is spelled as it should be.
* `Pool.surrogate_answers_replacement`: A text that is answered with a surrogate.
-/

namespace JvmFold

namespace Utf16

/-- A text can be read back from its units. -/
theorem toString?_ofString (s : String) : toString? (ofString s) = some s := by
  have hnone : (s.toList.map Char.toNat).any isSurrogate = false := by
    simp [isSurrogate_toNat]
  rw [toString?, codePoints_ofString, hnone, List.map_map]
  have hchars : Char.ofNat ∘ Char.toNat = id := by
    funext c
    simp
  rw [hchars, List.map_id, String.ofList_toList]
  rfl

end Utf16

namespace ModifiedUtf8

/-- The bytes are those of units without an unpaired surrogate. -/
def IsWhole (raw : Bytes) : Prop :=
  ∃ units, decodeUnits raw = .ok units ∧ (Utf16.toString? units).isSome = true

/-- Bytes that stand for a text are those of its units exactly if they are whole. -/
theorem decodeUnits_eq_iff {raw : Bytes} {text : String} (h : decode raw = .ok text) :
    decodeUnits raw = .ok (Utf16.ofString text) ↔ IsWhole raw := by
  constructor
  · intro hunits
    exact ⟨_, hunits, by rw [Utf16.toString?_ofString]; rfl⟩
  · rintro ⟨units, hunits, hwhole⟩
    -- Units that are characters are read without loss.
    rcases Option.isSome_iff_exists.mp hwhole with ⟨text', htext⟩
    have hsame := Utf16.ofString_of_toString? htext
    have hdecode : decode raw = .ok (Utf16.toStringLossy units) := by
      unfold decode
      rw [hunits]
      rfl
    rw [hdecode, ← hsame, Utf16.toStringLossy_ofString] at h
    cases h
    rw [hunits, hsame]

end ModifiedUtf8

/-- A string that is loaded as a literal has the units of the literal. -/
theorem Heap.exists_units_of_encodingOf {h : Heap} {r : HeapRef} {text : String}
    (hencoding : h.encodingOf r = .literal (.ldc (.string text))) :
    ∃ units, h.get r = .string units ∧ Utf16.ofString text = units.toList := by
  unfold encodingOf at hencoding
  -- Only a string of whole characters is loaded as a text.
  split at hencoding
  · next units hunits =>
      split at hencoding
      · cases hencoding
      · split at hencoding
        · next text' htext =>
            cases hencoding
            exact ⟨units, hunits, Utf16.ofString_of_toString? htext⟩
        · cases hencoding
  · unfold loadClass at hencoding
    split at hencoding <;> cases hencoding
  · cases hencoding

namespace Pool

variable {p q : Pool} {e : PoolEntry} {key : PoolKey} {i : UInt16} {text : String}

/-- Whether an entry has a key. -/
def hasKey (key : PoolKey) (e : PoolEntry) : Bool :=
  e.key? == some key

/-- The first entry of a key is the one that was first before, or the new one. -/
theorem findIdx?_append_key : (p.append e).entries.findIdx? (hasKey key)
    = (p.entries.findIdx? (hasKey key)).or (if hasKey key e then some p.size else none) := by
  have hunusable : hasKey key .unusable = false := rfl
  unfold append record
  dsimp only
  split
  · rw [Array.findIdx?_push, Array.findIdx?_push, hunusable]
    simp [size]
  · rw [Array.findIdx?_push]
    simp [size]

/-- The table of keys leads to the first entry of each key. -/
theorem Legible.lookup_eq (hp : Legible p) (key : PoolKey) :
    p.lookup[key]? = (p.entries.findIdx? (hasKey key)).map Nat.toUInt16 := by
  rcases hp with ⟨l, -, rfl⟩
  -- Entries are added at the end, and so the induction is on the last one.
  induction l using List.reverseRecOn with
  | nil => simp [appendAll, empty, hasKey, PoolEntry.key?]
  | append_singleton l e ih =>
      rw [appendAll_append]
      generalize empty.appendAll l = p at ih ⊢
      change (p.append e).lookup[key]? = ((p.append e).entries.findIdx? (hasKey key)).map _
      rw [findIdx?_append_key]
      by_cases hkey : e.key? = some key
      · have hhas : hasKey key e = true := by simp [hasKey, hkey]
        rw [hhas]
        cases hfirst : p.entries.findIdx? (hasKey key) with
        | none =>
            rw [hfirst] at ih
            exact lookup_append_of_none hkey ih
        | some k =>
            rw [hfirst] at ih
            exact lookup_append_of_some ih
      · have hhas : hasKey key e = false := by simp [hasKey, hkey]
        rw [hhas, lookup_append_of_ne hkey, ih]
        simp

/-- An entry of a legible pool is legible, or it is no entry of its own. -/
theorem Legible.entry (hp : Legible p) {k : Nat} (h : p.entries[k]? = some e) :
    e = .unusable ∨ e.IsLegible := by
  rcases hp with ⟨l, hl, rfl⟩
  have hmem : e ∈ (empty.appendAll l).entries := Array.mem_of_getElem? h
  clear h
  induction l using List.reverseRecOn with
  | nil => exact .inl (by simpa [appendAll, empty] using hmem)
  | append_singleton l e' ih =>
      rw [List.forall_mem_append, List.forall_mem_singleton] at hl
      rw [appendAll_append] at hmem
      generalize empty.appendAll l = p at ih hmem
      change e ∈ (p.append e').entries at hmem
      unfold Pool.append record at hmem
      dsimp only at hmem
      split at hmem
      · rcases Array.mem_push.mp hmem with hmem | rfl
        · rcases Array.mem_push.mp hmem with hmem | rfl
          · exact ih hl.1 hmem
          · exact .inr hl.2
        · -- The second index of a wide entry has no entry of its own.
          exact .inl rfl
      · rcases Array.mem_push.mp hmem with hmem | rfl
        · exact ih hl.1 hmem
        · exact .inr hl.2

/-- The bytes of the text at an index are those of some units. -/
def Spells (p : Pool) (i : UInt16) (units : List UInt16) : Prop :=
  ∃ text raw, p.entry i = .ok (.utf8 text raw) ∧ ModifiedUtf8.decodeUnits raw = .ok units

/-- If a text has an entry, the bytes of the first one are whole. -/
def KeepsText (p : Pool) (text : String) : Prop :=
  ∀ k, p.entries.findIdx? (hasKey (.utf8 text)) = some k →
    ∃ raw, p.entries[k]? = some (.utf8 text raw) ∧ ModifiedUtf8.IsWhole raw

/-- Texts are told apart by what they read as, not by their bytes. -/
theorem hasKey_utf8 : hasKey (.utf8 text) e = true ↔ ∃ raw, e = .utf8 text raw := by
  unfold hasKey
  cases e <;> simp [PoolEntry.key?]

/-- An added text is spelled as it should be exactly if the pool keeps it. -/
theorem addUtf8_spells_iff (hp : Legible p) (hsize : p.size ≤ 65535)
    (h : addUtf8 text p = .ok i q) :
    q.Spells i (Utf16.ofString text) ↔ p.KeepsText text := by
  have hlookup := hp.lookup_eq (.utf8 text)
  -- A new text is spelled as it is; one that is found as its first entry spells it.
  cases hfirst : p.entries.findIdx? (hasKey (.utf8 text)) with
  | none =>
      rw [hfirst] at hlookup
      refine iff_of_true ?_ fun k hk => absurd (hk.symm.trans hfirst) (by simp)
      unfold addUtf8 at h
      rw [hlookup] at h
      dsimp only [Option.map_none] at h
      split at h
      · cases h
      rcases push_cases h with ⟨hfound, -⟩ | ⟨-, rfl, rfl⟩
      · exact absurd (hfound.symm.trans hlookup) (by simp)
      · have hindex : p.size.toUInt16.toNat = p.size := size_toUInt16 hsize
        have hget := getElem?_append_size (p := p) (e := .utf8 text (ModifiedUtf8.encode text))
        exact ⟨text, _, entry_of_getElem? (hindex.symm ▸ hget) PoolEntry.noConfusion,
          ModifiedUtf8.decodeUnits_encodeUnits _⟩
  | some k =>
      rw [hfirst] at hlookup
      unfold addUtf8 at h
      rw [hlookup] at h
      cases h
      rcases Array.findIdx?_eq_some_iff_getElem.mp hfirst with ⟨hlt, hk, hbefore⟩
      rcases hasKey_utf8.mp hk with ⟨raw, hraw⟩
      have hget : p.entries[k]? = some (.utf8 text raw) := by
        rw [Array.getElem?_eq_getElem hlt, hraw]
      have hdecode : ModifiedUtf8.decode raw = .ok text :=
        ((hp.entry hget).resolve_left PoolEntry.noConfusion).2
      have hindex : k.toUInt16.toNat = k :=
        Nat.mod_eq_of_lt (Nat.lt_of_lt_of_le hlt (Nat.le_succ_of_le hsize))
      constructor
      · rintro ⟨text', raw', hentry, hunits⟩
        intro k' hk'
        cases hk'.symm.trans hfirst
        have hget' := getElem?_of_entry hentry
        have hsame : ModifiedUtf8.decode raw' = .ok text := by
          unfold ModifiedUtf8.decode
          rw [hunits, ← Utf16.toStringLossy_ofString text]
          simp [Utf16.toStringLossy_ofString]
        have hlegible := ((hp.entry hget').resolve_left PoolEntry.noConfusion).2
        cases hlegible.symm.trans hsame
        rw [hindex] at hget'
        exact ⟨raw', hget', (ModifiedUtf8.decodeUnits_eq_iff hsame).mp hunits⟩
      · intro hkeeps
        rcases hkeeps k hfirst with ⟨raw', hraw', hwhole⟩
        cases hget.symm.trans hraw'
        exact ⟨text, raw, entry_of_getElem? (by rw [hindex, hget]) PoolEntry.noConfusion,
          (ModifiedUtf8.decodeUnits_eq_iff hdecode).mpr hwhole⟩

/-- A spelling stays while the pool grows. -/
theorem Spells.grows (hg : Grows p q) {units : List UInt16} (h : p.Spells i units) :
    q.Spells i units := by
  rcases h with ⟨text, raw, hentry, hunits⟩
  exact ⟨text, raw, hg.entry hentry, hunits⟩

/-- A string constant leads to a text that is spelled as it should be exactly if the pool keeps the
    text. -/
theorem addString_spells_iff (hp : Legible p) (hconsistent : Consistent p)
    (hsize : p.size ≤ 65535) (h : addString text p = .ok i q) :
    ∃ t, q.entry i = .ok (.string t) ∧ (q.Spells t (Utf16.ofString text) ↔ p.KeepsText text) := by
  rcases bind_eq_ok h with ⟨t, u, htext, hstring⟩
  rcases addUtf8_gives text p hconsistent t u htext with ⟨hu, -, hread⟩
  rcases push_gives_entry (e := .string t) rfl rfl u hu i q hstring with ⟨hq, hgrows, hentry⟩
  refine ⟨t, hentry q hq (grows_refl q), ?_⟩
  rw [← addUtf8_spells_iff hp hsize htext]
  refine ⟨?_, fun hspells => hspells.grows hgrows⟩
  -- The text has its index in the smaller pool already.
  rintro ⟨text', raw, hentry, hunits⟩
  rcases except_bind_ok (hread u hu (grows_refl u)) with ⟨e, he, -⟩
  have hsame : q.entry t = .ok e := hgrows.entry he
  rw [hentry] at hsame
  cases hsame
  exact ⟨text', raw, he, hunits⟩

/-- When an added text is spelled as it should be. In a pool that additions have led to, a text that
    is added has the bytes of its units exactly if the first entry for it, if there is one, holds no
    unpaired surrogate. The same decides whether the string constant for a string of the heap leads
    to the units of this string. -/
theorem additions_spelled_iff {s : Pool} (hs : IsOrigin s) (l : List Addition) (text : String) :
    (∀ i q, addUtf8 text (s.addAll l) = .ok i q →
      (q.Spells i (Utf16.ofString text) ↔ (s.addAll l).KeepsText text)) ∧
    ∀ (h : Heap) (r : HeapRef) (i : UInt16) (q : Pool),
      h.encodingOf r = .literal (.ldc (.string text)) →
        addConstant (.string text) (s.addAll l) = .ok i q →
          ∃ units t, h.get r = .string units ∧ q.entry i = .ok (.string t) ∧
            (q.Spells t units.toList ↔ (s.addAll l).KeepsText text) := by
  have hadds := adds_addAll s l
  have hlegible := hadds.legible hs.legible
  have hsize : (s.addAll l).size ≤ 65535 := hadds.size_le hs.reachable.size_le
  have hconsistent : Consistent (s.addAll l) := hadds.consistent hs.reachable.consistent
  refine ⟨fun i q h => addUtf8_spells_iff hlegible hsize h, fun h r i q hencoding hadd => ?_⟩
  rcases Heap.exists_units_of_encodingOf hencoding with ⟨units, hunits, htext⟩
  rcases addString_spells_iff hlegible hconsistent hsize hadd with ⟨t, hentry, hspells⟩
  exact ⟨units, t, hunits, hentry, htext ▸ hspells⟩

/-- The text that stands for an unpaired surrogate, with the bytes of the surrogate. -/
def lone : Pool :=
  empty.append (.utf8 "\uFFFD" [0xED, 0xA0, 0x80])

/-- The pool of the example can be read. -/
theorem legible_lone : lone.Legible :=
  legible_empty.append ⟨by decide, by decide⟩

-- So additions may start from it.
theorem isOrigin_lone : IsOrigin lone :=
  .inr ⟨_, _, legible_lone.takes_read (by decide) [] 0 []⟩

/-- Another text is added to the pool with the bytes of its units. -/
theorem additions_spelled_plain :
    IsOrigin lone ∧ ∃ q, addUtf8 "A" lone = .ok 2 q ∧ q.Spells 2 (Utf16.ofString "A") := by
  have hnew : lone.lookup[PoolKey.utf8 "A"]? = none :=
    (lookup_append_of_ne (by decide)).trans Std.HashMap.getElem?_empty
  have hadd := addUtf8_of_new hnew (by decide) (by decide)
  have hkeeps : lone.KeepsText "A" := by
    intro k hk
    rw [legible_lone.lookup_eq, hk] at hnew
    cases hnew
  exact ⟨isOrigin_lone, _, hadd,
    ((additions_spelled_iff isOrigin_lone [] "A").1 2 _ hadd).mpr hkeeps⟩

/-- If the text is added that stands for the surrogate, the entry with the surrogate is answered. -/
theorem surrogate_answers_replacement :
    IsOrigin lone ∧ addUtf8 "\uFFFD" lone = .ok 1 lone ∧ lone.Spells 1 [0xD800] ∧
      ¬lone.Spells 1 (Utf16.ofString "\uFFFD") := by
  have hfound : lone.lookup[PoolKey.utf8 "\uFFFD"]? = some 1 :=
    lookup_append_of_none rfl Std.HashMap.getElem?_empty
  have hadd : addUtf8 "\uFFFD" lone = .ok 1 lone := by rw [addUtf8, hfound]
  refine ⟨isOrigin_lone, hadd, ⟨"\uFFFD", [0xED, 0xA0, 0x80], rfl, by decide⟩, ?_⟩
  rintro ⟨text, raw, hentry, hunits⟩
  cases hentry
  revert hunits
  decide

end Pool

end JvmFold
