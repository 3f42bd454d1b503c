import Mathlib
import JvmFold.Proofs.Universe.Searches

/-!
# Which Class Stands Under a Name

Classes come into a universe one after the other, and what an addition does
depends on what is there already. A primary class takes the place of one from
the class path, and everything else that stands under its name stays. So of two
classes on the class path the first stays, and so does a primary one, which the
second primary one clashes with.

Seen from the end that is a rule about the whole sequence, and the rule looks at
the primary inputs and at the class path separately. How the two are mixed with
each other makes no difference.

## Main definitions

* `Universe.Insertion`: An addition of a class.
* `Universe.loaded`: The universe after a sequence of additions, of which some may fail.
* `Universe.definition?`: The first definition of a name among the primary inputs or on the class
  path.
* `Universe.Named`: Classes stand under their own names.

## Theorems

* `Universe.entry?_loaded`: What stands under a name in the end.
* `Universe.insertEntry_eq_error_iff`: When an addition clashes.
* `Universe.insertions_precedence`: The rule for sequences of additions.
-/

namespace JvmFold

namespace Universe

variable {u : Universe} {e : ClassEntry} {name : String}

/-- An addition of a class. -/
structure Insertion where
  /-- The class. -/
  input : ClassInput
  /-- Whether it is an input proper. -/
  primary : Bool

/-- The entry that an addition makes, or why there is none. -/
def Insertion.entry (i : Insertion) : Except Error ClassEntry :=
  ClassEntry.ofInput i.input i.primary

/-- The universe after an addition, which is the one before if the addition failed. -/
def attempt (u : Universe) (i : Insertion) : Universe :=
  match u.insert i.input i.primary with
  | .ok v => v
  | .error _ => u

/-- The universe after a sequence of additions. -/
def loaded (l : List Insertion) : Universe :=
  l.foldl attempt {}

/-- The classes that a sequence of additions defines, as primary inputs or on the class path. -/
def definitions (l : List Insertion) (primary : Bool) : List ClassEntry :=
  (l.filter (·.primary == primary)).filterMap fun i => i.entry.toOption

/-- The first definition of a name. -/
def definition? (l : List Insertion) (primary : Bool) (name : String) : Option ClassEntry :=
  (definitions l primary).find? (·.outline.name == name)

/-- An entry keeps the input that it was made from. -/
theorem entry_eq_ok {i : Insertion} (h : i.entry = .ok e) :
    e.input = i.input ∧ e.primary = i.primary := by
  rcases except_bind_ok h with ⟨outline, -, h⟩
  cases h
  exact ⟨rfl, rfl⟩

/-- Inserting an input inserts the entry made from it. -/
theorem insert_of_entry {i : Insertion} (h : i.entry = .ok e) :
    u.insert i.input i.primary = u.insertEntry e := by
  unfold Universe.insert
  change i.entry >>= _ = _
  rw [h]
  rfl

/-- An addition clashes if both the new class and the one under its name are primary. -/
theorem insertEntry_eq_error_iff {cause : Error} : u.insertEntry e = .error cause ↔
    e.primary = true ∧ ∃ d, u.entry? e.outline.name = some d ∧ d.primary = true ∧
      cause = .duplicateClass e.outline.name d.input.key e.input.key := by
  unfold insertEntry
  cases hd : u.entry? e.outline.name with
  | none => simp
  | some d =>
      cases he : e.primary <;> cases hprimary : d.primary <;>
        simp [hprimary, @eq_comm _ cause]

/-- A class comes to stand under its name if there is none, or if it is primary and the other one
    is not. -/
theorem entry?_attempt {i : Insertion} (h : i.entry = .ok e) :
    Universe.entry? (u.attempt i) name =
      if e.outline.name = name ∧ (u.entry? name).all (fun d => e.primary && !d.primary) = true
      then some e else u.entry? name := by
  unfold attempt
  rw [insert_of_entry h]
  by_cases hname : e.outline.name = name
  · subst hname
    unfold insertEntry
    cases hd : u.entry? e.outline.name with
    | none => simp [entry?_place]
    | some d => cases e.primary <;> cases hprimary : d.primary <;> simp [entry?_place, hprimary, hd]
  · rw [if_neg fun hboth => hname hboth.1]
    -- Under any other name nothing changes.
    cases hinsert : u.insertEntry e with
    | error cause => rfl
    | ok v =>
        rcases eq_of_insertEntry hinsert with rfl | rfl
        · exact entry?_place.trans (if_neg hname)
        · rfl

/-- An input that cannot be read is left out. -/
theorem attempt_of_error {i : Insertion} {cause : Error} (h : i.entry = .error cause) :
    u.attempt i = u := by
  have hinsert : u.insert i.input i.primary = .error cause := by
    unfold Universe.insert
    change i.entry >>= _ = _
    rw [h]
    rfl
  unfold attempt
  rw [hinsert]

variable {l : List Insertion} {i : Insertion} {primary : Bool}

/-- Insertions are made one after the other. -/
theorem loaded_append (l : List Insertion) (i : Insertion) :
    loaded (l ++ [i]) = (loaded l).attempt i := by
  unfold loaded
  rw [List.foldl_append]
  rfl

/-- One more addition adds its class to the definitions of its kind. -/
theorem definition?_append : definition? (l ++ [i]) primary name =
    (definition? l primary name).or (if i.primary = primary then
      i.entry.toOption.filter (·.outline.name == name) else none) := by
  unfold definition? definitions
  rw [List.filter_append, List.filterMap_append, List.find?_append]
  congr 1
  rw [List.filter_singleton]
  by_cases hi : i.primary = primary
  · rw [if_pos hi, beq_iff_eq.2 hi, cond_true, List.filterMap_cons]
    cases i.entry.toOption with
    | none => rfl
    | some e => cases h : e.outline.name == name <;> simp [Option.filter, h]
  · rw [if_neg hi, beq_eq_false_iff_ne.2 hi]
    rfl

/-- The definition that counts is of that kind and name. -/
theorem primary_of_definition? (h : definition? l primary name = some e) :
    e.primary = primary ∧ e.outline.name = name := by
  have hname := List.find?_some h
  rcases List.mem_filterMap.1 (List.mem_of_find?_eq_some h) with ⟨i, hi, he⟩
  have hentry : i.entry = .ok e := by
    cases hi : i.entry with
    | error cause => simp [hi, Except.toOption] at he
    | ok d => simpa [hi, Except.toOption] using he
  refine ⟨(entry_eq_ok hentry).2.trans ?_, by simpa using hname⟩
  simpa using (List.mem_filter.1 hi).2

/-- Under a name stands its first primary definition, and else the first one on the class path. -/
theorem entry?_loaded (l : List Insertion) (name : String) :
    Universe.entry? (loaded l) name = (definition? l true name).or (definition? l false name) := by
  induction l using List.reverseRecOn with
  | nil => exact entry?_empty name
  | append_singleton l i ih =>
      rw [loaded_append, definition?_append, definition?_append]
      cases hentry : i.entry with
      | error cause => rw [attempt_of_error hentry, ih]; simp [Except.toOption]
      | ok e =>
          rw [entry?_attempt hentry, ih, (entry_eq_ok hentry).2]
          by_cases hname : e.outline.name = name
          · -- Of the definitions so far the primary ones come first.
            cases hfirst : definition? l true name with
            | some d =>
                have hd := (primary_of_definition? hfirst).1
                cases i.primary <;> simp [Except.toOption, Option.filter, hname, hd]
            | none =>
                cases hpath : definition? l false name with
                | some d =>
                    have hd := (primary_of_definition? hpath).1
                    cases i.primary <;> simp [Except.toOption, Option.filter, hname, hd]
                | none => cases i.primary <;> simp [Except.toOption, Option.filter, hname]
          · simp [Except.toOption, Option.filter, hname]

/-- Every class stands under its own name. -/
def Named (u : Universe) : Prop :=
  ∀ name e, u.entry? name = some e → e.outline.name = name

/-- So it does in every universe that classes are added to. -/
theorem named_loaded (l : List Insertion) : (loaded l).Named := by
  intro name e he
  rw [entry?_loaded, Option.or_eq_some_iff] at he
  rcases he with he | ⟨-, he⟩
  · exact (primary_of_definition? he).2
  · exact (primary_of_definition? he).2

/-- Universes with the same classes under all names have the same classes in the same order. -/
theorem equiv_of_entry? {u v : Universe} (h : ∀ name, u.entry? name = v.entry? name) :
    u.classes.Equiv v.classes := by
  have hnodup (t : Std.TreeMap String ClassEntry) : t.toList.Nodup :=
    Std.TreeMap.distinct_keys_toList.imp fun hne heq => hne (by rw [heq]; exact Std.compare_self)
  refine Std.TreeMap.equiv_iff_toList_perm.2
    ((List.perm_ext_iff_of_nodup (hnodup _) (hnodup _)).2 fun ⟨name, e⟩ => ?_)
  rw [Std.TreeMap.mem_toList_iff_getElem?_eq_some, Std.TreeMap.mem_toList_iff_getElem?_eq_some]
  exact iff_of_eq (congrArg (· = some e) (h name))

/-- After a sequence of additions there stands under every name its first primary definition, and if
    there is none, the first one on the class path. The next addition clashes exactly if its class
    is primary and a primary definition of the name has come before. It names both of them then
    and leaves the universe as it is, and no other reason makes it fail. So the universe depends
    on the order of the primary inputs and on that of the class path, and not on how the two are
    mixed with each other. -/
theorem insertions_precedence (l : List Insertion) :
    (∀ name, Universe.entry? (loaded l) name =
        (definition? l true name).or (definition? l false name)) ∧
      (∀ i e, i.entry = .ok e →
        ((∃ first second, (loaded l).insert i.input i.primary =
            .error (.duplicateClass e.outline.name first second)) ↔
          i.primary = true ∧ ∃ d ∈ definitions l true, d.outline.name = e.outline.name) ∧
        ∀ cause, (loaded l).insert i.input i.primary = .error cause →
          (∃ d, definition? l true e.outline.name = some d ∧
            cause = .duplicateClass e.outline.name d.input.key i.input.key) ∧
          loaded (l ++ [i]) = loaded l) ∧
      ∀ l', l.filter (·.primary) = l'.filter (·.primary) →
        l.filter (!·.primary) = l'.filter (!·.primary) →
        (loaded l).classes.Equiv (loaded l').classes := by
  refine ⟨entry?_loaded l, fun i e hentry => ?_, fun l' hprimary hpath => ?_⟩
  · have herror (cause : Error) : (loaded l).insert i.input i.primary = .error cause ↔
        i.primary = true ∧ ∃ d, definition? l true e.outline.name = some d ∧
          cause = .duplicateClass e.outline.name d.input.key i.input.key := by
      rcases entry_eq_ok hentry with ⟨hinput, hprimary⟩
      rw [insert_of_entry hentry, insertEntry_eq_error_iff, hinput, hprimary]
      refine and_congr_right fun _ => exists_congr fun d => ?_
      rw [← and_assoc]
      refine and_congr_left fun _ => ?_
      rw [entry?_loaded, Option.or_eq_some_iff]
      constructor
      · rintro ⟨hd | ⟨-, hd⟩, hdprimary⟩
        · exact hd
        · rw [(primary_of_definition? hd).1] at hdprimary
          cases hdprimary
      · exact fun hd => ⟨.inl hd, (primary_of_definition? hd).1⟩
    refine ⟨?_, fun cause hcause => ⟨((herror cause).1 hcause).2, ?_⟩⟩
    · have hdefined : (∃ d ∈ definitions l true, d.outline.name = e.outline.name) ↔
          ∃ d, definition? l true e.outline.name = some d := by
        rw [← Option.isSome_iff_exists, definition?, List.find?_isSome]
        simp only [beq_iff_eq]
      rw [hdefined]
      constructor
      · rintro ⟨first, second, hcause⟩
        rcases (herror _).1 hcause with ⟨hprimary, d, hd, -⟩
        exact ⟨hprimary, d, hd⟩
      · rintro ⟨hprimary, d, hd⟩
        exact ⟨_, _, (herror _).2 ⟨hprimary, d, hd, rfl⟩⟩
    · rw [loaded_append, attempt, hcause]
  · -- Under every name there is the same definition of each kind.
    have hsame (primary : Bool) (name : String) :
        definition? l primary name = definition? l' primary name := by
      unfold definition? definitions
      cases primary with
      | true => simp only [beq_true, hprimary]
      | false => simp only [beq_false, hpath]
    refine equiv_of_entry? fun name => ?_
    rw [entry?_loaded, entry?_loaded, hsame, hsame]

namespace Looped

/-- The class as a primary input, and the same on the class path and once more as a primary input
    from elsewhere. -/
def primaryInput : Insertion :=
  ⟨input, true⟩

/-- The same class on the class path. -/
def onPath : Insertion :=
  ⟨{ input with key := "lib/A.class" }, false⟩

/-- And once more among the primary ones. -/
def repeated : Insertion :=
  ⟨{ input with key := "other/A.class" }, true⟩

/-- The entry of an addition of these bytes. -/
def entryOf (i : Insertion) : ClassEntry :=
  { input := i.input, primary := i.primary, outline := classFile,
    decoded := .mk fun _ => ClassFile.parse bytes .full }

theorem entry_repeated : repeated.entry = .ok (entryOf repeated) :=
  congrArg (· >>= _) (parse_bytes .outline)

/-- The one among the primary classes counts. -/
theorem definition?_primary :
    definition? [onPath, primaryInput] true "A" = some (entryOf primaryInput) := by
  have hentry : primaryInput.entry = .ok (entryOf primaryInput) :=
    congrArg (· >>= _) (parse_bytes .outline)
  have hdefinitions : definitions [onPath, primaryInput] true =
      [primaryInput].filterMap fun i => i.entry.toOption := rfl
  rw [definition?, hdefinitions, List.filterMap_cons, hentry]
  rfl

end Looped

/-- The primary class replaces the one on the class path, the next primary one clashes with it, and
    in the other order the universe is the same. -/
theorem insertions_precedence_looped :
    Looped.repeated.entry = .ok (Looped.entryOf Looped.repeated) ∧
      Universe.entry? (loaded [Looped.onPath, Looped.primaryInput]) "A" =
        some (Looped.entryOf Looped.primaryInput) ∧
      (loaded [Looped.onPath, Looped.primaryInput]).insert Looped.repeated.input true =
        .error (.duplicateClass "A" "A.class" "other/A.class") ∧
      loaded [Looped.onPath, Looped.primaryInput, Looped.repeated] =
        loaded [Looped.onPath, Looped.primaryInput] ∧
      (loaded [Looped.onPath, Looped.primaryInput]).classes.Equiv
        (loaded [Looped.primaryInput, Looped.onPath]).classes := by
  rcases insertions_precedence [Looped.onPath, Looped.primaryInput] with ⟨hentry, herror, hmixed⟩
  rcases herror Looped.repeated _ Looped.entry_repeated with ⟨hiff, hcause⟩
  have hfirst := Looped.definition?_primary
  rcases hiff.2 ⟨rfl, _, List.mem_of_find?_eq_some hfirst, rfl⟩ with ⟨first, second, hclash⟩
  rcases hcause _ hclash with ⟨⟨d, hd, heq⟩, hsame⟩
  rw [show (Looped.entryOf Looped.repeated).outline.name = "A" from rfl, hfirst] at hd
  cases hd
  refine ⟨Looped.entry_repeated, ?_, heq ▸ hclash, hsame, hmixed _ rfl rfl⟩
  rw [hentry, hfirst]
  rfl

end Universe

end JvmFold
