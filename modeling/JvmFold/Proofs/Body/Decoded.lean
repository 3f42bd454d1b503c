import JvmFold.Proofs.Body.RoundTrip
import JvmFold.Proofs.Bytes.Answers

/-!
# What Decoding Answers

A body that was decoded is more regular than bodies are in general. It has a
name for every offset that anything in it refers to, and the marks of these
names are woven in once, in front of the instruction at their offset or at the
end. Frames and lines are woven in the same way, so a line or frame has an
instruction behind it, and handlers and local variables have ranges that do not
stop before they start.

What a part of the bytes grants is said of the table of labels that decoding
leaves there. The table only grows after that and a name is never taken back,
so it holds of the table at the end as well. Reading goes forward in its bytes
and never past their end, and that is how the offsets of instructions ascend.

## Main definitions

* `Instruction.LoadsOneSlot`: What is wanted of dynamic constants.
* `Decode.Steady`: Decoding that goes forward and keeps the names it finds.
* `Decode.Grants`: What holds of an answer and the labels at that point.
* `Body.FramesNamed`: Every frame of a table has a name for its offset.
* `Body.Layout`: How a body that was decoded is laid out.
* `Body.ReadAs`: A body as it was read from bytes.
* `Body.ReadsThrough`: Instructions that are read one behind the other to the end of the code.

## Theorems

* `Body.grants_readBody`: What the bytes of a body grant.
* `Body.exists_named_layout`: A body that was decoded is laid out like that.
-/

namespace JvmFold

/-- The second cursor is behind the first in the same bytes. -/
def Cursor.Before (c c' : Cursor) : Prop :=
  ∃ w, c.rest = w ++ c'.rest ∧ c'.pos = c.pos + w.length

namespace Cursor

variable {c c' c'' : Cursor}

theorem before_refl (c : Cursor) : c.Before c :=
  ⟨[], rfl, rfl⟩

theorem Before.trans (h : c.Before c') (h' : c'.Before c'') : c.Before c'' := by
  rcases h with ⟨w, hrest, hpos⟩
  rcases h' with ⟨z, hrest', hpos'⟩
  refine ⟨w ++ z, ?_, ?_⟩
  · rw [hrest, hrest', List.append_assoc]
  · rw [hpos', hpos, List.length_append, Nat.add_assoc]

/-- The bytes that are left end at the same place. -/
theorem Before.stop (h : c.Before c') : c'.pos + c'.rest.length = c.pos + c.rest.length := by
  rcases h with ⟨w, hrest, hpos⟩
  rw [hrest, hpos, List.length_append]
  omega

end Cursor

/-- A dynamic constant that is loaded by its index has a type of one slot. -/
def Instruction.LoadsOneSlot (p : Pool) (i : Instruction) : Prop :=
  ∀ index bootstrap nat, i = .ldc (.pool index) → p.entry index = .ok (.dynamic bootstrap nat) →
    ∃ s, p.nameAndType nat = .ok s ∧ s.descriptor ≠ "J" ∧ s.descriptor ≠ "D"

namespace Read

instance : Local Body.readOpcode := by
  unfold Body.readOpcode
  refine Local.bind inferInstance fun b => ?_
  split <;> infer_instance

end Read

namespace Decode

open LabelTable

/-- A table whose names are numbered and different. -/
abbrev Sound (t : LabelTable) : Prop :=
  Valid (fun _ => True) t

/-- A computation that only gives new names to offsets without one, and only moves forward. -/
class Steady {α : Type} (d : Decode α) : Prop where
  keeps : ∀ {t c a t' c'}, Sound t → d t c = .ok (a, t') c' →
    Sound t' ∧ Extends t t' ∧ c.Before c'

section Steady

variable {α β : Type} {d : Decode α}

instance (a : α) : Steady (pure a : Decode α) where
  keeps ht h := by
    cases h
    exact ⟨ht, extends_refl _, Cursor.before_refl _⟩

instance (e : Error) : Steady (throw e : Decode α) where
  keeps _ h := by cases h

/-- Two parts of a decoder succeed one after the other. -/
theorem bind_cases {f : α → Decode β} {t t' : LabelTable} {c c' : Cursor} {b : β}
    (h : (d >>= f) t c = .ok (b, t') c') :
    ∃ a u c₁, d t c = .ok (a, u) c₁ ∧ f a u c₁ = .ok (b, t') c' := by
  rcases bind_eq_ok h with ⟨⟨a, u⟩, c₁, ha, hb⟩
  exact ⟨a, u, c₁, ha, hb⟩

/-- Parts that are steady are so one after the other. -/
theorem Steady.bind {f : α → Decode β} (hd : Steady d) (hf : ∀ a, Steady (f a)) :
    Steady (d >>= f) where
  keeps ht h := by
    rcases bind_cases h with ⟨a, u, c, ha, hb⟩
    rcases hd.keeps ht ha with ⟨hu, hext, hbefore⟩
    rcases (hf a).keeps hu hb with ⟨ht', hext', hbefore'⟩
    exact ⟨ht', hext.trans hext', hbefore.trans hbefore'⟩

instance {f : α → Decode β} [Steady d] [∀ a, Steady (f a)] : Steady (d >>= f) :=
  Steady.bind inferInstance inferInstance

instance (f : α → β) [Steady d] : Steady (f <$> d) := by
  rw [map_eq_pure_bind]
  infer_instance

instance (c : Prop) [Decidable c] {d' : Decode α} [Steady d] [Steady d'] :
    Steady (if c then d else d') := by
  split <;> infer_instance

/-- Reading leaves the labels alone. -/
theorem liftM_eq_ok {r : Read α} {t t' : LabelTable} {c c' : Cursor} {a : α}
    (h : (liftM r : Decode α) t c = .ok (a, t') c') : r c = .ok a c' ∧ t' = t := by
  rcases bind_eq_ok (m := r) (f := fun x => pure (x, t)) h with ⟨x, u, hx, hpure⟩
  cases hpure
  exact ⟨hx, rfl⟩

instance (r : Read α) [hr : Read.Local r] : Steady (liftM r : Decode α) where
  keeps ht h := by
    rcases liftM_eq_ok h with ⟨hread, rfl⟩
    rcases hr.takes hread with ⟨w, hrest, hpos, -⟩
    exact ⟨ht, extends_refl _, w, hrest, hpos⟩

instance (r : Except Error α) : Steady (ofExcept r) :=
  inferInstanceAs (Steady (liftM (Read.lift r)))

instance : Steady (liftM Read.position) where
  keeps ht h := by
    cases h
    exact ⟨ht, extends_refl _, Cursor.before_refl _⟩

instance : Steady (liftM Read.hasMore) where
  keeps ht h := by
    cases h
    exact ⟨ht, extends_refl _, Cursor.before_refl _⟩

instance (o : Nat) : Steady (labelAt o) where
  keeps {t c a t' c'} ht h := by
    rw [labelAt_apply] at h
    cases ho : t[o]? with
    | some l =>
        rw [ho] at h
        cases h
        exact ⟨ht, extends_refl _, Cursor.before_refl _⟩
    | none =>
        rw [ho] at h
        cases h
        exact ⟨ht.insert ho trivial, extends_insert ho, Cursor.before_refl _⟩

instance (pc : Nat) (displacement : Int) : Steady (labelFrom pc displacement) := by
  unfold labelFrom
  infer_instance

instance (n : Nat) [Steady d] : Steady (repeated n d) := by
  induction n with
  | zero => exact inferInstanceAs (Steady (pure []))
  | succ n ih =>
      rw [repeated_succ]
      infer_instance

instance (n : Nat) (s : α) {f : α → Decode α} [∀ s, Steady (f s)] : Steady (iterated f n s) := by
  induction n generalizing s with
  | zero => exact inferInstanceAs (Steady (pure _))
  | succ n ih =>
      unfold iterated
      exact Steady.bind inferInstance ih

/-- What a computation on a byte string of its own answers. -/
theorem within_eq_ok {data : Bytes} {t t' : LabelTable} {c c' : Cursor} {a : α}
    (h : within data d t c = .ok (a, t') c') :
    c' = c ∧ ∃ stop, d t (Cursor.start data) = .ok (a, t') stop := by
  unfold within at h
  rcases Read.lift_eq_ok h with ⟨hparse, rfl⟩
  exact ⟨rfl, Read.parse_eq_ok.1 hparse⟩

instance (data : Bytes) [hd : Steady d] : Steady (within data d) where
  keeps ht h := by
    rcases within_eq_ok h with ⟨rfl, stop, h⟩
    rcases hd.keeps ht h with ⟨ht', hext, -⟩
    exact ⟨ht', hext, Cursor.before_refl _⟩

end Steady

/-- Every answer meets a condition on it and on every table that comes after. -/
def Grants {α : Type} (d : Decode α) (P : LabelTable → α → Prop) : Prop :=
  ∀ t c a t' c' t'', Sound t → d t c = .ok (a, t') c' → Extends t' t'' → P t'' a

section Grants

variable {α β : Type} {d : Decode α} {P : LabelTable → α → Prop} {Q : LabelTable → β → Prop}

theorem grants_pure {a : α} (h : ∀ t, P t a) : Grants (pure a) P := by
  intro t c a' t' c' t'' _ hrun _
  cases hrun
  exact h t''

theorem grants_throw (e : Error) : Grants (throw e : Decode α) P := by
  intro t c a t' c' t'' _ hrun
  cases hrun

/-- Nothing is granted of what a decoder gives. -/
theorem grants_any (d : Decode α) : Grants d fun _ _ => True :=
  fun _ _ _ _ _ _ _ _ _ => trivial

/-- One after the other, with a condition that does not depend on names. -/
theorem Grants.bind [hd : Steady d] {f : α → Decode β} {R : α → Prop} (h : Grants d fun _ => R)
    (hQ : ∀ a, R a → Grants (f a) Q) : Grants (d >>= f) Q := by
  intro t c b t' c' t'' ht hrun hext
  rcases bind_cases hrun with ⟨a, u, c₁, ha, hb⟩
  rcases hd.keeps ht ha with ⟨hu, -, -⟩
  exact hQ a (h _ _ _ _ _ _ ht ha (extends_refl u)) _ _ _ _ _ _ hu hb hext

/-- One after the other, with a condition on the names that stay. -/
theorem Grants.bindNamed [hd : Steady d] {f : α → Decode β} [hf : ∀ a, Steady (f a)]
    (h : Grants d P) (hQ : ∀ a, Grants (f a) fun t b => P t a → Q t b) : Grants (d >>= f) Q := by
  intro t c b t' c' t'' ht hrun hext
  rcases bind_cases hrun with ⟨a, u, c₁, ha, hb⟩
  rcases hd.keeps ht ha with ⟨hu, -, -⟩
  rcases (hf a).keeps hu hb with ⟨-, hext', -⟩
  exact hQ a _ _ _ _ _ _ hu hb hext (h _ _ _ _ _ _ ht ha (hext'.trans hext))

/-- What is granted may be weakened. -/
theorem Grants.imp {R : LabelTable → α → Prop} (h : Grants d P) (himp : ∀ t a, P t a → R t a) :
    Grants d R :=
  fun _ _ _ _ _ _ ht hrun hext => himp _ _ (h _ _ _ _ _ _ ht hrun hext)

theorem grants_read {r : Read α} {R : α → Prop} (h : Read.Ensures r R) :
    Grants (liftM r) fun _ => R := by
  intro t c a t' c' t'' _ hrun _
  exact h _ _ _ (liftM_eq_ok hrun).1

theorem grants_ofExcept (r : Except Error α) : Grants (ofExcept r) fun _ a => r = .ok a :=
  grants_read Read.ensures_lift

/-- A label that is asked for stands at its offset. -/
theorem grants_labelAt (o : Nat) : Grants (labelAt o) fun t l => t[o]? = some l := by
  intro t c l t' c' t'' _ hrun hext
  refine hext o l ?_
  rw [labelAt_apply] at hrun
  cases ho : t[o]? with
  | some l' =>
      rw [ho] at hrun
      cases hrun
      exact ho
  | none =>
      rw [ho] at hrun
      cases hrun
      rw [getElem?_insert, if_pos rfl]

/-- What is granted of a part is granted of all repetitions. -/
theorem grants_repeated [Steady d] (h : Grants d P) (n : Nat) :
    Grants (repeated n d) fun t l => l.length = n ∧ ∀ a ∈ l, P t a := by
  induction n with
  | zero => exact grants_pure fun t => ⟨rfl, fun a ha => absurd ha List.not_mem_nil⟩
  | succ n ih =>
      rw [repeated_succ]
      refine h.bindNamed fun a => ih.bindNamed fun l => grants_pure fun t hl ha => ⟨?_, ?_⟩
      · rw [List.length_cons, hl.1]
      · exact List.forall_mem_cons.2 ⟨ha, hl.2⟩

/-- A step that carries a fact over does so any number of times. -/
theorem grants_iterated {step : α → Decode α} [∀ s, Steady (step s)]
    (h : ∀ s, Grants (step s) fun t s' => P t s → P t s') (n : Nat) (s : α) :
    Grants (iterated step n s) fun t s' => P t s → P t s' := by
  induction n generalizing s with
  | zero =>
      unfold iterated
      exact grants_pure fun _ hs => hs
  | succ n ih =>
      unfold iterated
      exact (h s).bindNamed fun s' => (ih s').imp fun t s'' hs' hs h => hs' (hs h)

/-- What is granted of a decoder is granted inside an attribute. -/
theorem grants_within {data : Bytes} (h : Grants d P) : Grants (within data d) P := by
  intro t c a t' c' t'' ht hrun hext
  rcases within_eq_ok hrun with ⟨-, stop, hrun⟩
  exact h _ _ _ _ _ _ ht hrun hext

end Grants

end Decode

namespace Body

open Decode

variable (p : Pool)

instance (length pc : Nat) : Steady (readTableSwitch length pc) := by
  unfold readTableSwitch
  refine Steady.bind inferInstance fun _ => Steady.bind inferInstance fun default => ?_
  refine Steady.bind inferInstance fun _ => Steady.bind inferInstance fun low => ?_
  infer_instance

instance (length pc : Nat) : Steady (readLookupSwitch length pc) := by
  unfold readLookupSwitch
  refine Steady.bind inferInstance fun _ => Steady.bind inferInstance fun default => ?_
  refine Steady.bind inferInstance fun _ => Steady.bind inferInstance fun count => ?_
  infer_instance

instance (pc : Nat) : Steady (readInvokeDynamic p pc) := by
  unfold readInvokeDynamic
  refine Steady.bind inferInstance fun index => Steady.bind inferInstance fun _ => ?_
  refine Steady.bind inferInstance fun e => ?_
  cases e <;> infer_instance

instance (pc : Nat) : Steady (readWide pc) := by
  unfold readWide
  infer_instance

instance (length pc : Nat) (op : Opcode) : Steady (readOperands p length pc op) := by
  cases hop : op.isSpecial with
  | false =>
      rw [readOperands_other hop]
      cases op.shortLocal? <;> infer_instance
  | true =>
      cases op <;> first
        | exact absurd hop (by decide)
        | (unfold readOperands; infer_instance)

instance (length : Nat) : Steady (readInstruction p length) := by
  unfold readInstruction
  infer_instance

instance (length rounds : Nat) (acc : List (Nat × Instruction)) :
    Steady (readInstructions p length rounds acc) := by
  induction rounds generalizing acc with
  | zero => exact inferInstanceAs (Steady (pure _))
  | succ rounds ih =>
      unfold readInstructions
      infer_instance

instance : Steady (readHandler p) := by
  unfold readHandler
  refine Steady.bind inferInstance fun _ => Steady.bind inferInstance fun start => ?_
  refine Steady.bind inferInstance fun _ => Steady.bind inferInstance fun stop => ?_
  infer_instance

instance (tables : Tables) : Steady (readLine tables) := by
  unfold readLine
  infer_instance

instance : Steady (readLocal p) := by
  unfold readLocal
  dsimp only
  infer_instance

instance : Steady (readSlotType p) := by
  unfold readSlotType
  refine Steady.bind inferInstance fun tag => ?_
  split <;> infer_instance

instance (method : Member) (locals : List SlotType) :
    Steady (readFrameChange p method locals) := by
  unfold readFrameChange
  infer_instance

instance (method : Member) (s : FrameState) : Steady (readFrame p method s) := by
  unfold readFrame
  infer_instance

instance (method : MethodInfo) (tables : Tables) :
    Steady (readAttribute p method tables) := by
  unfold readAttribute
  refine Steady.bind inferInstance fun _ => Steady.bind inferInstance fun name => ?_
  refine Steady.bind inferInstance fun data => ?_
  split
  · infer_instance
  · split <;> infer_instance

instance (method : MethodInfo) : Steady (readBody p method) := by
  unfold readBody
  infer_instance

/-- A one-byte access to a local variable is short for one that takes an index. -/
theorem takesLocal_of_shortLocal? {op op' : Opcode} {n : UInt16}
    (h : op.shortLocal? = some (op', n)) : op'.takesLocal = true := by
  have hall : (List.range 202).all fun k =>
      (Opcode.ofNat k).shortLocal?.all (·.1.takesLocal) := by decide +kernel
  have hop := List.all_eq_true.1 hall op.ctorIdx (List.mem_range.2 op.ctorIdx_lt)
  rw [Opcode.ofNat_ctorIdx, h] at hop
  exact hop

/-- What a constant pool index loads has no other name if it is loaded by its index. -/
theorem proper_of_loadable {p : Pool} {index : UInt16} {k : Constant}
    (h : p.loadable index = .ok k) (hk : (Instruction.ldc k).LoadsOneSlot p) :
    (Instruction.ldc k).Proper p := by
  rcases except_bind_ok h with ⟨e, he, h⟩
  cases e with
  | string t =>
      rcases except_bind_ok h with ⟨text, -, h⟩
      cases h
      trivial
  | classRef n =>
      rcases except_bind_ok h with ⟨text, -, h⟩
      cases h
      trivial
  | methodHandle kind reference =>
      cases h
      exact .inl ⟨kind, reference, he⟩
  | methodType descriptor =>
      cases h
      exact .inr (.inl ⟨descriptor, he⟩)
  -- Only a dynamic constant of one slot is loaded by its index like the others.
  | dynamic bootstrap nat =>
      cases h
      rcases hk index bootstrap nat rfl he with ⟨s, hs, hj, hd⟩
      exact .inr (.inr ⟨bootstrap, nat, s, he, hs, hj, hd⟩)
  | integer v | float b | long v | double b =>
      cases h
      trivial
  | _ => cases h

section Instructions

variable {p : Pool} {length pc : Nat} {op : Opcode}

/-- What is wanted of an instruction that is read. -/
def Genuine (p : Pool) (i : Instruction) : Prop :=
  i.isPseudo = false ∧ (i.LoadsOneSlot p → i.Proper p)

/-- Every instruction that is read is one that decoding gives: table switches. -/
theorem grants_readTableSwitch : Grants (readTableSwitch length pc) fun _ => Genuine p := by
  unfold readTableSwitch
  refine (grants_any _).bind fun _ _ => (grants_any _).bind fun _ _ => ?_
  refine (grants_any _).bind fun default _ => (grants_any _).bind fun low _ => ?_
  refine (grants_any _).bind fun high _ => ?_
  split
  · exact (grants_throw (P := fun _ _ => False) _).bind nofun
  next hrange =>
    dsimp only
    have hle : low.toInt ≤ high.toInt := by
      rw [Int32.lt_iff_toInt_lt] at hrange
      omega
    -- As many targets are read as there are keys.
    have hread : Grants (do
        let targets ← repeated (high.toInt - low.toInt + 1).toNat do
          Decode.labelFrom pc (← Read.i32).toInt
        return Instruction.tableSwitch default low high targets) fun _ => Genuine p := by
      refine (grants_repeated (grants_any _) _).bind fun targets htargets => ?_
      refine grants_pure fun _ => ⟨rfl, fun _ => ⟨hle, ?_⟩⟩
      rw [htargets.1]
      omega
    split
    · exact (grants_throw (P := fun _ _ => False) _).bind nofun
    · exact hread

-- And lookup switches.
theorem grants_readLookupSwitch : Grants (readLookupSwitch length pc) fun _ => Genuine p := by
  have hread (default : Label) (n : Nat) : Grants (do
      let pairs ← repeated n do
        let key ← Read.i32
        return (key, ← Decode.labelFrom pc (← Read.i32).toInt)
      return Instruction.lookupSwitch default pairs) fun _ => Genuine p :=
    (grants_any _).bind fun _ _ => grants_pure fun _ => ⟨rfl, fun _ => trivial⟩
  unfold readLookupSwitch
  refine (grants_any _).bind fun _ _ => (grants_any _).bind fun _ _ => ?_
  refine (grants_any _).bind fun default _ => (grants_any _).bind fun count _ => ?_
  split
  · exact (grants_throw (P := fun _ _ => False) _).bind nofun
  · exact hread default _

-- And call sites.
theorem grants_readInvokeDynamic : Grants (readInvokeDynamic p pc) fun _ => Genuine p := by
  unfold readInvokeDynamic
  refine (grants_any _).bind fun _ _ => (grants_any _).bind fun _ _ => ?_
  refine (grants_any _).bind fun e _ => ?_
  split
  · exact (grants_any _).bind fun _ _ => grants_pure fun _ => ⟨rfl, fun _ => trivial⟩
  · exact grants_throw _

-- And wide instructions.
theorem grants_readWide : Grants (readWide pc) fun _ => Genuine p := by
  unfold readWide
  refine (grants_any _).bind fun inner _ => ?_
  split
  · refine (grants_any _).bind fun _ _ => (grants_any _).bind fun _ _ => ?_
    exact grants_pure fun _ => ⟨rfl, fun _ => trivial⟩
  · split
    next hlocal =>
      exact (grants_any _).bind fun _ _ => grants_pure fun _ => ⟨rfl, fun _ => hlocal⟩
    · exact grants_throw _

/-- An opcode without a case of its own has its operands right. -/
theorem grants_readOperands_other (hop : op.isSpecial = false) :
    Grants (readOperands p length pc op) fun _ => Genuine p := by
  rw [readOperands_other hop]
  split
  -- The opcodes are told apart in the order in which they are tried.
  next hlocal =>
    exact (grants_any _).bind fun _ _ => grants_pure fun _ => ⟨rfl, fun _ => hlocal⟩
  next hlocal =>
    split
    next hshort =>
      refine (grants_any _).bind fun _ _ => (grants_any _).bind fun _ _ => ?_
      exact grants_pure fun _ => ⟨rfl, fun _ => .inl hshort⟩
    next hshort =>
      split
      next hlong =>
        refine (grants_any _).bind fun _ _ => (grants_any _).bind fun _ _ => ?_
        exact grants_pure fun _ => ⟨rfl, fun _ => .inr hlong⟩
      next hlong =>
        split
        next hvar =>
          exact grants_pure fun _ => ⟨rfl, fun _ => takesLocal_of_shortLocal? hvar⟩
        next hnone =>
          refine grants_pure fun _ => ⟨rfl, fun _ => ?_⟩
          simp [Instruction.Proper, Opcode.isBare, hop, hlocal, hshort, hlong, hnone]

/-- Every instruction that is read is a real one with its own operands. -/
theorem grants_readOperands : Grants (readOperands p length pc op) fun _ => Genuine p := by
  have hloaded (index : UInt16) : Grants (Decode.ofExcept (p.loadable index) >>= fun k =>
      pure (Instruction.ldc k)) fun _ => Genuine p :=
    (grants_ofExcept _).bind fun k hk => grants_pure fun _ => ⟨rfl, proper_of_loadable hk⟩
  -- The operand was read in so few bits that it has to fit.
  have hbyte (v : Int8) : -128 ≤ v.toInt32.toInt ∧ v.toInt32.toInt ≤ 127 := by
    rw [Int8.toInt_toInt32]
    exact ⟨v.le_toInt, v.toInt_le⟩
  have hshort (v : Int16) : -32768 ≤ v.toInt32.toInt ∧ v.toInt32.toInt ≤ 32767 := by
    rw [Int16.toInt_toInt32]
    exact ⟨v.le_toInt, v.toInt_le⟩
  cases hop : op.isSpecial with
  | false => exact grants_readOperands_other hop
  | true =>
      cases op with
      | bipush =>
          exact (grants_any _).bind fun v _ => grants_pure fun _ =>
            ⟨rfl, fun _ => .inl ⟨rfl, hbyte v⟩⟩
      | sipush =>
          exact (grants_any _).bind fun v _ => grants_pure fun _ =>
            ⟨rfl, fun _ => .inr ⟨rfl, hshort v⟩⟩
      | ldc | ldcW | ldc2W => exact (grants_any _).bind fun index _ => hloaded _
      | tableswitch => exact grants_readTableSwitch
      | lookupswitch => exact grants_readLookupSwitch
      | invokedynamic => exact grants_readInvokeDynamic
      | wide => exact grants_readWide
      | getstatic | putstatic | getfield | putfield | invokevirtual | invokespecial
      | invokestatic | new | anewarray | checkcast | instanceof =>
          refine (grants_any _).bind fun _ _ => (grants_any _).bind fun _ _ => ?_
          exact grants_pure fun _ => ⟨rfl, fun _ => by simp [Instruction.Proper]⟩
      | iinc =>
          refine (grants_any _).bind fun _ _ => (grants_any _).bind fun _ _ => ?_
          exact grants_pure fun _ => ⟨rfl, fun _ => trivial⟩
      | multianewarray =>
          refine (grants_any _).bind fun _ _ => (grants_any _).bind fun _ _ => ?_
          exact (grants_any _).bind fun _ _ => grants_pure fun _ => ⟨rfl, fun _ => trivial⟩
      | newarray =>
          exact (grants_any _).bind fun _ _ => grants_pure fun _ => ⟨rfl, fun _ => trivial⟩
      | invokeinterface =>
          refine (grants_any _).bind fun _ _ => (grants_any _).bind fun _ _ => ?_
          refine (grants_any _).bind fun _ _ => grants_pure fun _ => ⟨rfl, fun _ => ?_⟩
          simp [Instruction.Proper]
      | _ => cases hop

theorem hasMore_eq_ok {t t' : LabelTable} {c c' : Cursor} {more : Bool}
    (h : (liftM Read.hasMore : Decode Bool) t c = .ok (more, t') c') :
    more = c.hasMore ∧ t' = t ∧ c' = c := by
  cases h
  exact ⟨rfl, rfl, rfl⟩

/-- An opcode takes a byte. -/
theorem readOpcode_eq_ok {c c' : Cursor} (h : readOpcode c = .ok op c') :
    c.Before c' ∧ c.pos < c'.pos := by
  rcases bind_eq_ok h with ⟨b, c₁, hb, hop⟩
  have hc : c₁ = c' := by
    revert hop
    cases Opcode.ofByte? b <;> (intro hop; cases hop)
    rfl
  subst hc
  unfold Read.u8 at hb
  split at hb
  next rest hrest =>
    cases hb
    exact ⟨⟨[b], hrest, rfl⟩, Nat.lt_succ_self _⟩
  · cases hb

/-- An instruction that is read is at the position of the cursor, which moves on. -/
theorem readInstruction_eq_ok {t t' : LabelTable} {c c' : Cursor} {x : Nat × Instruction}
    (ht : Sound t) (h : readInstruction p length t c = .ok (x, t') c') :
    x.1 = c.pos ∧ Genuine p x.2 ∧ Sound t' ∧ c.Before c' ∧ c.pos < c'.pos := by
  unfold readInstruction at h
  rcases bind_cases h with ⟨pc, t₁, c₁, hpc, hrest⟩
  cases hpc
  rcases bind_cases hrest with ⟨op, t₂, c₂, hop, hoperands⟩
  rcases bind_cases hoperands with ⟨i, t₃, c₃, hi, hpure⟩
  cases hpure
  -- The opcode takes a byte, whatever its operands take.
  rcases liftM_eq_ok hop with ⟨hread, rfl⟩
  have hbyte := readOpcode_eq_ok hread
  have hsteady : Steady (readOperands p length c.pos op) := inferInstance
  rcases hsteady.keeps ht hi with ⟨ht', -, hbefore⟩
  refine ⟨rfl, grants_readOperands _ _ _ _ _ _ ht hi (LabelTable.extends_refl _), ht', ?_, ?_⟩
  · exact hbyte.1.trans hbefore
  · rcases hbefore with ⟨w, -, hpos⟩
    omega

/-- An instruction at its offset. -/
def placedAt (x : Nat × Instruction) : Placed :=
  ⟨x.2, 0, x.1⟩

/-- Instructions are read one behind the other to the end of the code. -/
inductive ReadsThrough (p : Pool) (length : Nat) (t' : LabelTable) (c' : Cursor) :
    LabelTable → Cursor → List (Nat × Instruction) → Prop where
  | done (hempty : c'.rest = []) : ReadsThrough p length t' c' t' c' []
  | more {t t₁ : LabelTable} {c c₁ : Cursor} {x : Nat × Instruction}
      {code : List (Nat × Instruction)} (hx : readInstruction p length t c = .ok (x, t₁) c₁)
      (hrest : ReadsThrough p length t' c' t₁ c₁ code) :
      ReadsThrough p length t' c' t c (x :: code)

/-- With a round for every byte, reading does not stop in front of the end. -/
theorem readsThrough_of_ok {rounds : Nat} {acc l : List (Nat × Instruction)} {t t' : LabelTable}
    {c c' : Cursor} (ht : Sound t) (hrounds : c.rest.length ≤ rounds)
    (h : readInstructions p length rounds acc t c = .ok (l, t') c') :
    ∃ code, l = acc.reverse ++ code ∧ ReadsThrough p length t' c' t c code := by
  induction rounds generalizing acc t c with
  | zero =>
      rw [readInstructions] at h
      cases h
      exact ⟨[], (List.append_nil _).symm,
        .done (List.eq_nil_of_length_eq_zero (Nat.le_zero.1 hrounds))⟩
  | succ rounds ih =>
      rw [readInstructions] at h
      rcases bind_cases h with ⟨more, t₁, c₁, hmore, hnext⟩
      rcases hasMore_eq_ok hmore with ⟨rfl, rfl, rfl⟩
      split at hnext
      next =>
        rcases bind_cases hnext with ⟨x, t₂, c₂, hx, hrest⟩
        rcases readInstruction_eq_ok ht hx with ⟨-, -, ht₂, hbefore, hlt⟩
        -- Every instruction takes bytes, so the rounds that are left suffice.
        have hstop := hbefore.stop
        rcases ih ht₂ (by omega) hrest with ⟨code, rfl, hreads⟩
        refine ⟨x :: code, ?_, .more hx hreads⟩
        rw [List.reverse_cons, List.append_assoc]
        rfl
      next hno =>
        cases hnext
        exact ⟨[], (List.append_nil _).symm, .done (by simpa [Cursor.hasMore] using hno)⟩

/-- The labels only become more. -/
theorem ReadsThrough.extends {t t' : LabelTable} {c c' : Cursor}
    {code : List (Nat × Instruction)} (h : ReadsThrough p length t' c' t c code) (ht : Sound t) :
    t.Extends t' := by
  induction h with
  | done => exact LabelTable.extends_refl _
  | more hx _ ih =>
      have hsteady : Steady (readInstruction p length) := inferInstance
      rcases hsteady.keeps ht hx with ⟨ht₁, hext, -⟩
      exact hext.trans (ih ht₁)

/-- The instructions that are read are at ascending offsets up to the end. -/
theorem ReadsThrough.spaced {t t' : LabelTable} {c c' : Cursor}
    {code : List (Nat × Instruction)} (h : ReadsThrough p length t' c' t c code) (ht : Sound t) :
    Spaced c.pos (code.map placedAt) (c.pos + c.rest.length) ∧ ∀ x ∈ code, Genuine p x.2 := by
  induction h with
  | done hempty =>
      refine ⟨?_, fun x hx => absurd hx List.not_mem_nil⟩
      rw [hempty]
      exact .nil
  | more hx _ ih =>
      rcases readInstruction_eq_ok ht hx with ⟨hpc, hgenuine, ht₁, hbefore, hlt⟩
      rcases ih ht₁ with ⟨hspaced, hall⟩
      refine ⟨?_, List.forall_mem_cons.2 ⟨hgenuine, hall⟩⟩
      rw [← hbefore.stop, ← hpc]
      exact Spaced.real (x := placedAt _) hgenuine.1 (hpc.trans_lt hlt) hspaced

end Instructions

/-- The names of local variables end where they start or behind, and frames come with the types that
    the method starts with. -/
structure TablesFit (t : LabelTable) (method : MethodInfo) (tables : Tables) : Prop where
  ranges : ∀ v ∈ tables.locals, ∃ o o' : Nat, t[o]? = some v.start ∧ t[o']? = some v.stop ∧ o ≤ o'
  entry : ∀ (o : Nat) f, tables.frames[o]? = some f → ∃ entry, method.initialLocals = .ok entry

section Tables

variable {p : Pool} {method : MethodInfo}

/-- A local variable is live from one label up to a later one. -/
theorem grants_readLocal : Grants (readLocal p) fun t v =>
    ∃ o o' : Nat, t[o]? = some v.start ∧ t[o']? = some v.stop ∧ o ≤ o' := by
  unfold readLocal
  refine (grants_any _).bind fun pc _ => (grants_any _).bind fun length _ => ?_
  refine (grants_any _).bind fun _ _ => (grants_any _).bind fun name _ => ?_
  refine (grants_any _).bind fun _ _ => (grants_any _).bind fun descriptor _ => ?_
  refine (grants_any _).bind fun index _ => ?_
  refine (grants_labelAt _).bindNamed fun start => (grants_labelAt _).bindNamed fun stop => ?_
  exact grants_pure fun t hstop hstart => ⟨_, _, hstart, hstop, Nat.le_add_right _ _⟩

/-- A line number names no label of the tables. -/
theorem grants_readLine (tables : Tables) : Grants (readLine tables) fun t tables' =>
    TablesFit t method tables → TablesFit t method tables' := by
  unfold readLine
  refine (grants_any _).bind fun _ _ => (grants_any _).bind fun _ _ => ?_
  exact (grants_any _).bind fun _ _ => grants_pure fun t h => ⟨h.ranges, h.entry⟩

/-- An attribute leaves the tables fit. -/
theorem grants_readAttribute (tables : Tables) : Grants (readAttribute p method tables)
    fun t tables' => TablesFit t method tables → TablesFit t method tables' := by
  unfold readAttribute
  refine (grants_any _).bind fun _ _ => (grants_any _).bind fun name _ => ?_
  refine (grants_any _).bind fun data _ => ?_
  split
  · exact grants_within ((grants_any _).bind fun count _ =>
      grants_iterated (fun tables => grants_readLine tables) _ tables)
  · split
    · refine grants_within ((grants_any _).bind fun count _ => ?_)
      refine (grants_repeated grants_readLocal _).bindNamed fun locals => ?_
      refine grants_pure fun t hlocals h => ⟨fun v hv => ?_, h.entry⟩
      -- hv | The variables of this attribute come behind those of the ones before.
      rcases List.mem_append.1 hv with hv | hv
      · exact h.ranges v hv
      · exact hlocals.2 v hv
    · split
      · refine grants_within ((grants_any _).bind fun count _ => ?_)
        refine (grants_ofExcept _).bind fun entry hentry => (grants_any _).bind fun s _ => ?_
        exact grants_pure fun t h => ⟨h.ranges, fun _ _ _ => ⟨entry, hentry⟩⟩
      · exact grants_pure fun t h => h

/-- What is read of a body. -/
structure BodyRead (p : Pool) (method : MethodInfo) (t : LabelTable)
    (r : UInt16 × UInt16 × Nat × List (Nat × Instruction) × List Handler × Tables) : Prop where
  spaced : Spaced 0 (r.2.2.2.1.map placedAt) r.2.2.1
  genuine : ∀ x ∈ r.2.2.2.1, Genuine p x.2
  handlers_le : r.2.2.2.2.1.length ≤ 65535
  tables : TablesFit t method r.2.2.2.2.2

/-- The code is read up to its end. -/
theorem grants_code {code : Bytes} {length : Nat} (h : code.length = length) :
    Grants (within code (readInstructions p length length [])) fun _ l =>
      Spaced 0 (l.map placedAt) length ∧ ∀ x ∈ l, Genuine p x.2 := by
  intro t c l t' c' t'' ht hrun _
  rcases within_eq_ok hrun with ⟨-, stop, hrun⟩
  rcases readsThrough_of_ok ht (Nat.le_of_eq h) hrun with ⟨code', rfl, hreads⟩
  rcases hreads.spaced ht with ⟨hspaced, hall⟩
  change Spaced 0 _ (0 + code.length) at hspaced
  rw [Nat.zero_add, h] at hspaced
  exact ⟨hspaced, hall⟩

theorem grants_readBody : Grants (readBody p method) (BodyRead p method) := by
  unfold readBody
  refine (grants_any _).bind fun maxStack _ => (grants_any _).bind fun maxLocals _ => ?_
  refine (grants_any _).bind fun length _ => ?_
  refine (grants_read (Read.ensures_bytes _)).bind fun code hcode => ?_
  refine (grants_code hcode).bind fun instructions hinstructions => ?_
  refine (grants_any _).bind fun count _ => ?_
  refine (grants_repeated (grants_any _) _).bind fun handlers hhandlers => ?_
  refine (grants_any _).bind fun attributes _ => ?_
  refine (grants_iterated (fun tables => grants_readAttribute tables) _ _).bindNamed
    fun tables => ?_
  -- What is granted of the parts makes up what is said of the body.
  refine grants_pure fun t htables => ⟨hinstructions.1, hinstructions.2, ?_, htables ?_⟩
  · change handlers.length ≤ 65535
    rw [hhandlers.1]
    exact Nat.le_of_lt_succ count.toNat_lt
  · refine ⟨fun v hv => absurd hv List.not_mem_nil, fun o f hf => ?_⟩
    rw [Std.TreeMap.getElem?_emptyc] at hf
    cases hf

/-- Every frame has a name for its offset. -/
def FramesNamed (t : LabelTable) (frames : Std.TreeMap Nat Frame) : Prop :=
  ∀ (o : Nat) f, frames[o]? = some f → ∃ l, t[o]? = some l

/-- Every frame that is read has its label. -/
theorem grants_readFrame (m : Member) (s : FrameState) : Grants (readFrame p m s) fun t s' =>
    FramesNamed t s.frames → FramesNamed t s'.frames := by
  unfold readFrame
  refine (grants_any _).bind fun change _ => ?_
  refine (grants_labelAt _).bindNamed fun l => grants_pure fun t hl h o f hf => ?_
  rw [Std.TreeMap.getElem?_insert] at hf
  split_ifs at hf with hposition
  · exact ⟨l, compare_eq_iff_eq.1 hposition ▸ hl⟩
  · exact h o f hf

-- So have the frames of an attribute.
theorem grants_readAttribute_named (tables : Tables) : Grants (readAttribute p method tables)
    fun t tables' => FramesNamed t tables.frames → FramesNamed t tables'.frames := by
  -- Lines and variables leave the frames as they are.
  have hline (tables : Tables) : Grants (readLine tables) fun t tables' =>
      FramesNamed t tables.frames → FramesNamed t tables'.frames := by
    unfold readLine
    refine (grants_any _).bind fun _ _ => (grants_any _).bind fun _ _ => ?_
    exact (grants_any _).bind fun _ _ => grants_pure fun _ h => h
  unfold readAttribute
  refine (grants_any _).bind fun _ _ => (grants_any _).bind fun name _ => ?_
  refine (grants_any _).bind fun data _ => ?_
  split
  · exact grants_within ((grants_any _).bind fun count _ => grants_iterated hline _ tables)
  · split
    · refine grants_within ((grants_any _).bind fun count _ => ?_)
      exact (grants_any _).bind fun locals _ => grants_pure fun _ h => h
    · split
      · refine grants_within ((grants_any _).bind fun count _ => ?_)
        refine (grants_any _).bind fun entry _ => ?_
        refine (grants_iterated (P := fun t s => FramesNamed t s.frames)
          (fun s => grants_readFrame method.member s) _ _).bindNamed fun s => ?_
        exact grants_pure fun _ hs h => hs h
      · exact grants_pure fun _ h => h

-- And those of the whole body.
theorem grants_readBody_named : Grants (readBody p method) fun t r =>
    FramesNamed t r.2.2.2.2.2.frames := by
  unfold readBody
  refine (grants_any _).bind fun maxStack _ => (grants_any _).bind fun maxLocals _ => ?_
  refine (grants_any _).bind fun length _ => (grants_any _).bind fun code _ => ?_
  refine (grants_any _).bind fun instructions _ => (grants_any _).bind fun count _ => ?_
  refine (grants_any _).bind fun handlers _ => (grants_any _).bind fun attributes _ => ?_
  refine (grants_iterated (fun tables => grants_readAttribute_named tables) _ _).bindNamed
    fun tables => grants_pure fun t htables => htables fun o f hf => ?_
  rw [Std.TreeMap.getElem?_emptyc] at hf
  cases hf

end Tables

/-- Labels that are woven in are at offsets of instructions or at the end. -/
theorem mem_of_weave {method : Member} {length : Nat} {tables : Tables}
    {labels : List (Nat × Label)} {rest : List (Nat × Instruction)} {acc l : List Instruction}
    (h : weave method length tables labels rest acc = .ok l) :
    ∀ x ∈ labels, x.1 ∈ rest.map Prod.fst ++ [length] := by
  -- Behind the last instruction there are only labels of the end.
  have hend {labels : List (Nat × Label)} {acc l : List Instruction}
      (h : weaveEnd method length labels acc = .ok l) : ∀ x ∈ labels, x.1 = length := by
    induction labels generalizing acc with
    | nil => exact fun x hx => absurd hx List.not_mem_nil
    | cons x labels ih =>
        rw [weaveEnd] at h
        split at h
        next heq =>
          exact List.forall_mem_cons.2 ⟨heq, ih h⟩
        · cases h
  fun_induction weave method length tables labels rest acc with
  | case1 labels acc => exact fun x hx => List.mem_singleton.2 (hend h x hx)
  | case2 => exact fun x hx => absurd hx List.not_mem_nil
  | case3 => cases h
  | case4 l labels offset i rest acc hlt ih =>
      exact List.forall_mem_cons.2 ⟨List.mem_cons_self, ih h⟩
  | case5 place l labels offset i rest acc hlt hne ih =>
      exact fun x hx => List.mem_cons_of_mem _ (ih h x hx)

/-- A body made of instructions in ascending order, with a mark for every label of a table and the
    marks of tables by offset. -/
structure Layout (p : Pool) (method : MethodInfo) (b : Body) (t : LabelTable) (tables : Tables)
    (code : List Placed) (stop : Nat) : Prop where
  sound : Sound t
  spaced : Spaced 0 code stop
  genuine : ∀ x ∈ code, Genuine p x.instruction
  known : ∀ (o : Nat) l, t[o]? = some l → o ∈ offsets code stop
  fit : TablesFit t method tables
  instructions : b.instructions = (woven t.toList tables id code stop).map Placed.instruction
  locals : b.locals = tables.locals
  handlers_le : b.handlers.length ≤ 65535

/-- A body is what was read from its bytes, with the labels of a table. -/
structure ReadAs (p : Pool) (method : MethodInfo) (data : Bytes) (b : Body) (t : LabelTable)
    (r : UInt16 × UInt16 × Nat × List (Nat × Instruction) × List Handler × Tables) : Prop where
  run : ∃ c, readBody p method ∅ (Cursor.start data) = .ok (r, t) c
  woven : weave method.member r.2.2.1 r.2.2.2.2.2 t.toList r.2.2.2.1 [] = .ok b.instructions
  handlers : b.handlers = r.2.2.2.2.1
  locals : b.locals = r.2.2.2.2.2.locals
  nextLabel : b.nextLabel = t.size

/-- What decoding answers was read and woven. -/
theorem exists_readAs {data : Bytes} {p : Pool} {method : MethodInfo} {b : Body}
    (h : decode data p method = .ok b) : ∃ t r, ReadAs p method data b t r := by
  rcases except_bind_ok h with ⟨⟨r, t⟩, hread, hweave⟩
  rcases except_bind_ok hweave with ⟨instructions, hinstructions, hb⟩
  cases hb
  exact ⟨t, r, Read.parse_eq_ok.1 hread, hinstructions, rfl, rfl, rfl⟩

/-- What was read and woven is laid out like that. -/
theorem ReadAs.layout {data : Bytes} {p : Pool} {method : MethodInfo} {b : Body} {t : LabelTable}
    {r : UInt16 × UInt16 × Nat × List (Nat × Instruction) × List Handler × Tables}
    (h : ReadAs p method data b t r) :
    Layout p method b t r.2.2.2.2.2 (r.2.2.2.1.map placedAt) r.2.2.1 := by
  rcases r with ⟨maxStack, maxLocals, stop, code, handlers, tables⟩
  rcases h.run with ⟨c, hrun⟩
  have hinstructions := h.woven
  dsimp only at hinstructions ⊢
  have hbody : BodyRead p method t _ :=
    grants_readBody _ _ _ _ _ _ LabelTable.valid_empty hrun (LabelTable.extends_refl t)
  have hsteady : Steady (readBody p method) := inferInstance
  have hsound := (hsteady.keeps LabelTable.valid_empty hrun).1
  -- All that was read is real, so the offsets are those of the code and its end.
  have hoffsets : offsets (code.map placedAt) stop = code.map Prod.fst ++ [stop] := by
    unfold offsets
    rw [List.filter_eq_self.2, List.map_map]
    · rfl
    · intro x hx
      rcases List.mem_map.1 hx with ⟨y, hy, rfl⟩
      rw [Placed.isReal, show (placedAt y).instruction.isPseudo = false from (hbody.genuine y hy).1]
      rfl
  have hknown := mem_of_weave hinstructions
  have hlt := hbody.spaced.offsets_lt.1
  rw [hoffsets] at hlt
  -- Nothing is renamed here, and relabelling by the identity changes nothing.
  have hcode : (code.map placedAt).map (fun x => (x.pc, x.instruction.relabel id)) = code := by
    rw [List.map_map]
    refine (List.map_congr_left fun x _ => ?_).trans (List.map_id code)
    exact Prod.ext rfl x.2.relabel_id
  have hwoven := @weave_eq method.member _ tables _ _ (toList_lt t) hlt hknown []
  rw [hinstructions, List.reverse_nil, List.nil_append] at hwoven
  refine ⟨hsound, hbody.spaced, ?_, ?_, hbody.tables, ?_, h.locals, ?_⟩
  · intro x hx
    rcases List.mem_map.1 hx with ⟨y, hy, rfl⟩
    exact hbody.genuine y hy
  · intro o l ho
    rw [hoffsets]
    exact hknown (o, l) (Std.TreeMap.mem_toList_iff_getElem?_eq_some.2 ho)
  · rw [map_woven, hcode]
    exact Except.ok.inj hwoven
  · rw [h.handlers]
    exact hbody.handlers_le

/-- What decoding answers is laid out like that, with a label for every frame. -/
theorem exists_named_layout {data : Bytes} {p : Pool} {method : MethodInfo} {b : Body}
    (h : decode data p method = .ok b) :
    ∃ t tables code stop, Layout p method b t tables code stop ∧ FramesNamed t tables.frames := by
  rcases exists_readAs h with ⟨t, r, hread⟩
  rcases hread.run with ⟨c, hrun⟩
  exact ⟨t, _, _, _, hread.layout, grants_readBody_named _ _ _ _ _ _ LabelTable.valid_empty hrun
    (LabelTable.extends_refl t)⟩

/-- A body that was decoded has a layout. -/
theorem exists_layout {data : Bytes} {p : Pool} {method : MethodInfo} {b : Body}
    (h : decode data p method = .ok b) :
    ∃ t tables code stop, Layout p method b t tables code stop := by
  rcases exists_named_layout h with ⟨t, tables, code, stop, hlayout, -⟩
  exact ⟨t, tables, code, stop, hlayout⟩

end Body

end JvmFold
