import JvmFold.Proofs.Rebuild.Fidelity

/-!
# What New Code Is Made Of

New code is one instruction that loads a value, or what a search for an object
has put together: reads of fields, calls of recipes around the code for their
arguments, and casts. There is never a mark in it. So new code brings no label
into a body, no line and no frame, and it cannot come between a label and what
refers to it.

That is shown of the search along its recursion. What an argument of a recipe is
made from is found with less room, so the induction is on the room.

## Main definitions

* `RealCode`: Code without marks.
* `Rebuild.Answers`: What holds of everything that a search may find.

## Theorems

* `Rebuild.answers_within`: What a search finds is without marks.
* `Heap.realCode_encoding`: So is the code for a literal.
-/

namespace JvmFold

/-- Code without marks. -/
def RealCode (code : List Instruction) : Prop :=
  ∀ i ∈ code, i.isPseudo = false

section RealCode

variable {a b : List Instruction} {i : Instruction}

theorem realCode_nil : RealCode [] :=
  fun _ hi => absurd hi List.not_mem_nil

/-- An instruction in front of code without marks. -/
theorem RealCode.cons (hi : i.isPseudo = false) (ha : RealCode a) : RealCode (i :: a) :=
  List.forall_mem_cons.2 ⟨hi, ha⟩

theorem RealCode.append (ha : RealCode a) (hb : RealCode b) : RealCode (a ++ b) :=
  List.forall_mem_append.2 ⟨ha, hb⟩

/-- No label stands in code without marks. -/
theorem RealCode.label_not_mem (h : RealCode a) (l : Label) : .label l ∉ a := by
  intro hl
  cases h _ hl

/-- What loads a value is no mark. -/
theorem Heap.realCode_encoding {h : Heap} {v : Value} {load : Instruction}
    (hload : h.encoding v = .literal load) : RealCode [load] := by
  rcases h.exists_loads hload {} with ⟨plan, hloads, hcode⟩
  rw [← hcode]
  cases hloads with
  | null | primitive => exact realCode_nil.cons rfl
  | _ => exact realCode_nil.cons (Emu.literal_isPseudo _)

/-- A cast adds no mark. -/
theorem Reconstruction.realCode_codeFor {found : Reconstruction} (h : RealCode found.code)
    (u : Universe) (expected : FieldType) : RealCode (found.codeFor u expected) := by
  refine h.append fun i hi => ?_
  rcases List.mem_map.1 hi with ⟨name, -, rfl⟩
  rfl

end RealCode

namespace Rebuild

/-- Whatever a search finds meets a condition. -/
def Answers {α : Type} (x : Rebuild α) (P : α → Prop) : Prop :=
  ∀ env s a t, x env s = (.ok a, t) → P a

section Answers

variable {α β : Type} {P : α → Prop} {Q : β → Prop}

theorem answers_pure {a : α} (h : P a) : Answers (pure a) P := by
  intro env s b t hb
  cases hb
  exact h

theorem answers_throw (o : Obstacle) : Answers (throw o) P := by
  intro env s a t ha
  cases ha

/-- Nothing is said of what a search answers. -/
theorem answers_any (x : Rebuild α) : Answers x fun _ => True :=
  fun _ _ _ _ _ => trivial

/-- The answers of a search that goes on with the answer of another. -/
theorem Answers.bind {x : Rebuild α} {f : α → Rebuild β} (hx : Answers x P)
    (hf : ∀ a, P a → Answers (f a) Q) : Answers (x >>= f) Q := by
  intro env s b t hb
  rcases bind_ok hb with ⟨a, u, ha, hb⟩
  exact hf a (hx _ _ _ _ ha) _ _ _ _ hb

/-- The answers of a search with another one in reserve. -/
theorem Answers.tryCatch {x : Rebuild α} {f : Obstacle → Rebuild α} (hx : Answers x P)
    (hf : ∀ o, Answers (f o) P) : Answers (tryCatch x f) P := by
  intro env s a t ha
  rcases tryCatch_ok ha with ha | ⟨o, u, -, ha⟩
  · exact hx _ _ _ _ ha
  · exact hf o _ _ _ _ ha

end Answers

section Search

variable (site : RebuildSite) {nested : HeapRef → Rebuild Reconstruction}

/-- A field that is reused is read, and a read is no mark. -/
theorem answers_reuse (fields : List Member) (v : Value) :
    Answers (reuse site fields v) fun found => RealCode found.code := by
  refine (answers_any _).bind fun answer _ => ?_
  cases answer with
  | none => exact answers_throw _
  | some f => exact answers_pure (realCode_nil.cons rfl)

/-- The code of the arguments has no marks if that of the objects among them has none. -/
theorem answers_encodeArguments (hnested : ∀ r, Answers (nested r) fun found => RealCode found.code)
    (v : Value) (accessors : List Accessor) :
    Answers (encodeArguments site nested v accessors) fun answer => RealCode answer.2 := by
  induction accessors with
  | nil => exact answers_pure realCode_nil
  | cons a rest ih =>
      unfold encodeArguments
      refine (answers_any _).bind fun argument _ => (answers_any _).bind fun h _ => ?_
      -- Whatever code the first argument has, that of the others follows it.
      have hrest (code : List Instruction) (hcode : RealCode code) : Answers (do
          let following ← encodeArguments site nested v rest
          return (argument :: following.1, code ++ following.2)) fun answer =>
            RealCode answer.2 :=
        ih.bind fun answer hanswer => answers_pure (hcode.append hanswer)
      cases hencoding : h.encoding argument with
      | literal load =>
          exact (answers_pure (Heap.realCode_encoding hencoding)).bind hrest
      | object r =>
          exact (hnested r).bind fun found hfound =>
            (answers_pure (found.realCode_codeFor hfound _ _)).bind hrest

-- Nor has the code of a recipe that was carried out.
theorem answers_execute (hnested : ∀ r, Answers (nested r) fun found => RealCode found.code)
    (recipe : Recipe) (v : Value) :
    Answers (execute site nested recipe v) fun found => RealCode found.code := by
  refine (answers_encodeArguments site hnested v recipe.accessors).bind fun arguments hcode => ?_
  refine (answers_any _).bind fun made _ => (answers_any _).bind fun equal _ => ?_
  cases equal with
  | false => exact answers_throw _
  | true =>
      refine answers_pure ?_
      unfold ofRecipe
      cases recipe.kind with
      | constructor =>
          exact (((realCode_nil.cons rfl).cons rfl).append hcode).append (realCode_nil.cons rfl)
      | _ => exact hcode.append (realCode_nil.cons rfl)

/-- The first alternative that succeeds has code without marks. -/
theorem answers_firstOf (hnested : ∀ r, Answers (nested r) fun found => RealCode found.code)
    (name : String) (v : Value) (reasons : List Obstacle) (alternatives : List Alternative) :
    Answers (firstOf site nested name v reasons alternatives) fun found =>
      RealCode found.code := by
  induction alternatives generalizing reasons with
  | nil => exact answers_throw _
  | cons a rest ih =>
      refine Answers.tryCatch ?_ fun o => ih (reasons ++ [o])
      cases a with
      | reuse fields => exact answers_reuse site fields v
      | recipe r =>
          -- A recipe that cannot be carried out names a field that is read instead.
          by_cases hexecutable : r.isExecutable = true
          · rw [attempt, if_pos hexecutable]
            exact answers_execute site hnested r v
          · rw [attempt, if_neg hexecutable]
            exact answers_reuse site [r.member] v

/-- What a search finds for an object is without marks. The code for an argument is found with less
    room. -/
theorem answers_within (room : Nat) (visiting : List HeapRef) (r : HeapRef) :
    Answers (within site room visiting r) fun found => RealCode found.code := by
  induction room generalizing visiting r with
  | zero => exact answers_throw _
  | succ room ih =>
      unfold within
      split
      · exact (answers_throw (P := fun _ => False) _).bind fun _ h => h.elim
      · refine (answers_any _).bind fun h _ => ?_
        dsimp only
        split
        · exact answers_throw _
        · exact answers_firstOf site (ih (r :: visiting)) _ _ _ _

end Search

end Rebuild

end JvmFold
