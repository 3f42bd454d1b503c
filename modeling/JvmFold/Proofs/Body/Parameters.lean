import JvmFold.Proofs.Body.Reencoding

/-!
# The Names of Parameters

The parameters of a method are the local variables that are live at the start
of its body. Whoever wants only their names does not decode the body: the code
and the handlers are skipped by their lengths, and so is what an entry of a
table says beside the start of a range, the name and the slot. Both readers
have to come to the same tables, so what is said here about reading along with
decoding is that the cursor is at the same place after every part, where what
the one skips the other decodes in several steps.

Decoding turns the start of a range into a label. It is the label of offset
zero exactly if the range starts at offset zero, as no label stands for two
offsets, and then no instruction is in front of the mark of the label.

## Main definitions

* `Decode.Advances`: The number of bytes that decoding takes.
* `Decode.Skims`: A reader that goes along with decoding.
* `Body.startNames`: The names in a slot at the start of a body.

## Theorems

* `Decode.Skims.over`: Decoding what a reader skips.
* `Decode.skims_iterated`: Many steps, and what they add up to.
* `Body.mem_dedupSlots`: The pairs that are kept of those in order.
* `Body.parameterNames_of_decode`: The names that are read are those of the decoded body.
-/

namespace JvmFold

namespace Decode

open LabelTable

variable {α β γ δ σ : Type}

/-- What is decoded takes `n` bytes. -/
def Advances (d : Decode α) (n : Nat) : Prop :=
  ∀ t c a t' c', d t c = .ok (a, t') c' → Read.skip n c = .ok () c'

section Advances

variable {d : Decode α} {m n : Nat}

theorem advances_pure (a : α) : Advances (pure a) 0 := by
  intro t c a' t' c' h
  cases h
  exact Read.skip_zero c

theorem advances_u16 : Advances (liftM Read.u16) 2 := by
  intro t c a t' c' h
  have hread := (liftM_eq_ok h).1
  unfold Read.u16 at hread
  split at hread
  next a b rest hrest =>
    cases hread
    exact Read.skip_eq_ok.2 ⟨[a, b], rfl, hrest, rfl⟩
  · cases hread

/-- Bytes that are taken move the cursor on by their number. -/
theorem advances_bytes (n : Nat) : Advances (liftM (Read.bytes n)) n := by
  intro t c w t' c' h
  exact bind_of_ok (liftM_eq_ok h).1

theorem advances_ofExcept (r : Except Error α) : Advances (ofExcept r) 0 := by
  intro t c a t' c' h
  rw [(Read.lift_eq_ok (liftM_eq_ok h).1).2]
  exact Read.skip_zero c

/-- A label that is asked for moves nothing. -/
theorem advances_labelAt (o : Nat) : Advances (labelAt o) 0 := by
  intro t c l t' c' h
  rw [labelAt_apply] at h
  cases ho : t[o]? <;> rw [ho] at h <;> cases h <;> exact Read.skip_zero c

-- Neither does what is read in a window of its own.
theorem advances_within (data : Bytes) (d : Decode α) : Advances (within data d) 0 := by
  intro t c a t' c' h
  rw [(within_eq_ok h).1]
  exact Read.skip_zero c

/-- Two parts move the cursor by what both of them do. -/
theorem Advances.bind {f : α → Decode β} (h : Advances d m) (hf : ∀ a, Advances (f a) n) :
    Advances (d >>= f) (m + n) := by
  intro t c b t'' c'' hrun
  rcases bind_cases hrun with ⟨a, t', c', ha, hb⟩
  exact Read.skip_add (h _ _ _ _ _ ha) (hf a _ _ _ _ _ hb)

theorem Advances.behind {f : α → Decode β} (h : Advances d 0) (hf : ∀ a, Advances (f a) n) :
    Advances (d >>= f) n := by
  have hbind := h.bind hf
  rwa [Nat.zero_add] at hbind

/-- A part that is repeated moves it as many times. -/
theorem Advances.repeated (h : Advances d n) (k : Nat) : Advances (repeated k d) (k * n) := by
  induction k with
  | zero =>
      rw [Nat.zero_mul]
      exact advances_pure []
  | succ k ih =>
      rw [repeated_succ, Nat.succ_mul, Nat.add_comm]
      exact h.bind fun a => ih.bind fun l => advances_pure (a :: l)

end Advances

/-- Where decoding succeeds the reader does too, stops at the same place, and answers something
    that goes with what was decoded, by the labels of every table that comes after. -/
def Skims (r : Read β) (d : Decode α) (R : LabelTable → α → β → Prop) : Prop :=
  ∀ t c a t' c', Sound t → d t c = .ok (a, t') c' →
    ∃ b, r c = .ok b c' ∧ ∀ t'', Sound t'' → Extends t' t'' → R t'' a b

section Skims

variable {r : Read β} {d : Decode α} {g : β → Read δ} {f : α → Decode γ}
variable {P : LabelTable → α → β → Prop} {R : LabelTable → γ → δ → Prop}

theorem skims_pure {a : α} {b : β} (h : ∀ t, Sound t → P t a b) : Skims (pure b) (pure a) P := by
  intro t c a' t' c' _ hrun
  cases hrun
  exact ⟨b, rfl, fun t'' ht'' _ => h t'' ht''⟩

/-- Two short cuts one after the other are a short cut of both parts. -/
theorem Skims.bind [hd : Steady d] [hf : ∀ a, Steady (f a)] (h : Skims r d P)
    (hg : ∀ a b, Skims (g b) (f a) fun t x y => P t a b → R t x y) :
    Skims (r >>= g) (d >>= f) R := by
  intro t c x t'' c'' ht hrun
  rcases bind_cases hrun with ⟨a, t', c', ha, hx⟩
  rcases h _ _ _ _ _ ht ha with ⟨b, hb, hab⟩
  rcases hd.keeps ht ha with ⟨ht', -, -⟩
  rcases (hf a).keeps ht' hx with ⟨-, hext, -⟩
  rcases hg a b _ _ _ _ _ ht' hx with ⟨y, hy, hxy⟩
  exact ⟨y, (bind_of_ok hb).trans hy, fun t₃ ht₃ hext' =>
    hxy t₃ ht₃ hext' (hab t₃ ht₃ (hext.trans hext'))⟩

/-- Both take the same. -/
theorem Skims.after {r : Read α} {g : α → Read δ} [hr : Steady (liftM r : Decode α)]
    (hg : ∀ a, Skims (g a) (f a) R) : Skims (r >>= g) (liftM r >>= f) R := by
  intro t c x t'' c'' ht hrun
  rcases bind_cases hrun with ⟨a, t', c', ha, hx⟩
  rcases hr.keeps ht ha with ⟨ht', -, -⟩
  rcases hg a _ _ _ _ _ ht' hx with ⟨y, hy, hxy⟩
  exact ⟨y, (bind_of_ok (liftM_eq_ok ha).1).trans hy, hxy⟩

/-- What is only decoded stays at its place, and grants something about its answer. -/
theorem Skims.behind {r : Read δ} [hd : Steady d] [hf : ∀ a, Steady (f a)]
    {G : LabelTable → α → Prop} (hstays : Advances d 0) (hgrants : Grants d G)
    (hr : ∀ a, Skims r (f a) fun t x y => G t a → R t x y) : Skims r (d >>= f) R := by
  intro t c x t'' c'' ht hrun
  rcases bind_cases hrun with ⟨a, t', c', ha, hx⟩
  rcases hd.keeps ht ha with ⟨ht', -, -⟩
  rcases (hf a).keeps ht' hx with ⟨-, hext, -⟩
  rcases hr a _ _ _ _ _ ht' hx with ⟨y, hy, hxy⟩
  -- The reader is still where it was.
  have hc := hstays _ _ _ _ _ ha
  rw [Read.skip_zero] at hc
  cases hc
  exact ⟨y, hy, fun t₃ ht₃ hext' =>
    hxy t₃ ht₃ hext' (hgrants _ _ _ _ _ t₃ ht ha (hext.trans hext'))⟩

/-- What is decoded counts towards the bytes that the reader skips. -/
theorem Skims.over [hd : Steady d] {m n : Nat} {g : Unit → Read δ} (h : Advances d m)
    (hf : ∀ a, Skims (Read.skip n >>= g) (f a) R) :
    Skims (Read.skip (m + n) >>= g) (d >>= f) R := by
  intro t c x t'' c'' ht hrun
  rcases bind_cases hrun with ⟨a, t', c', ha, hx⟩
  rcases hd.keeps ht ha with ⟨ht', -, -⟩
  rcases hf a _ _ _ _ _ ht' hx with ⟨y, hy, hxy⟩
  rcases bind_eq_ok hy with ⟨_, c₁, hskip, hy⟩
  exact ⟨y, (bind_of_ok (Read.skip_add (h _ _ _ _ _ ha) hskip)).trans hy, hxy⟩

/-- Everything that the reader skips was decoded. -/
theorem Skims.past {g : Unit → Read β} (h : Skims (g ()) d P) :
    Skims (Read.skip 0 >>= g) d P := by
  intro t c a t' c' ht hrun
  rcases h _ _ _ _ _ ht hrun with ⟨b, hb, hab⟩
  exact ⟨b, (bind_of_ok (Read.skip_zero c)).trans hb, hab⟩

theorem Skims.map {k : β → δ} {R : LabelTable → α → δ → Prop} (h : Skims r d P)
    (himp : ∀ t a b, P t a b → R t a (k b)) : Skims (r >>= fun b => pure (k b)) d R := by
  intro t c a t' c' ht hrun
  rcases h _ _ _ _ _ ht hrun with ⟨b, hb, hab⟩
  exact ⟨k b, bind_of_ok hb, fun t'' ht'' hext => himp t'' a b (hab t'' ht'' hext)⟩

/-- The reader answers without reading while something is decoded elsewhere. -/
theorem skims_idle {b : β} {G : LabelTable → α → Prop} (hstays : Advances d 0)
    (hgrants : Grants d G) (himp : ∀ t a, G t a → P t a b) : Skims (pure b) d P := by
  intro t c a t' c' ht hrun
  have hc := hstays _ _ _ _ _ hrun
  rw [Read.skip_zero] at hc
  cases hc
  exact ⟨b, rfl, fun t'' _ hext => himp t'' a (hgrants _ _ _ _ _ t'' ht hrun hext)⟩

/-- Both read a byte string of its own. -/
theorem Skims.within (h : Skims r d P) (data : Bytes) :
    Skims (Read.lift (r.parse data)) (within data d) P := by
  intro t c a t' c' ht hrun
  rcases within_eq_ok hrun with ⟨rfl, stop, hrun⟩
  rcases h _ _ _ _ _ ht hrun with ⟨b, hb, hab⟩
  refine ⟨b, ?_, hab⟩
  rw [Read.parse_eq_ok.2 ⟨stop, hb⟩]
  rfl

/-- A short cut of a part is one of all repetitions. -/
theorem Skims.repeated [Steady d] {F : LabelTable → α → β}
    (h : Skims r d fun t a b => b = F t a) (n : Nat) :
    Skims (repeated n r) (repeated n d) fun t l k => k = l.map (F t) := by
  induction n with
  | zero => exact skims_pure fun t _ => rfl
  | succ n ih =>
      rw [repeated_succ, repeated_succ]
      refine h.bind fun a b => ih.bind fun l k => skims_pure fun t _ hk hb => ?_
      rw [hb, hk, List.map_cons]

/-- If every step adds to what is said of a state what the reader answers, then all of them add what
    it answers one after the other. -/
theorem skims_iterated {r : Read (List β)} {step : σ → Decode σ} [∀ s, Steady (step s)]
    {F : LabelTable → σ → List β}
    (h : ∀ s, Skims r (step s) fun t s' l => F t s' = F t s ++ l) (n : Nat) (s : σ) :
    Skims (repeated n r) (iterated step n s) fun t s' ls => F t s' = F t s ++ ls.flatten := by
  induction n generalizing s with
  | zero => exact skims_pure fun t _ => (List.append_nil _).symm
  | succ n ih =>
      rw [repeated_succ]
      unfold iterated
      refine (h s).bind fun s₁ l => (ih s₁).map fun t s' ls hs' hs₁ => ?_
      rw [hs', hs₁, List.flatten_cons, List.append_assoc]

end Skims

end Decode

namespace Body

open Decode

section Parameters

variable {p : Pool} {method : MethodInfo}

/-- An entry of the handler table has as many bytes as are skipped for it. -/
theorem advances_readHandler : Decode.Advances (readHandler p) 8 := by
  unfold readHandler
  refine advances_u16.bind (n := 6) fun _ => (advances_labelAt _).behind fun start => ?_
  refine advances_u16.bind (n := 4) fun _ => (advances_labelAt _).behind fun stop => ?_
  refine advances_u16.bind (n := 2) fun _ => (advances_labelAt _).behind fun target => ?_
  refine advances_u16.bind (n := 0) fun index => ?_
  dsimp only
  split
  · exact (advances_pure _).behind fun _ => advances_pure _
  · rw [map_eq_pure_bind]
    refine Advances.behind ?_ fun _ => advances_pure _
    exact (advances_ofExcept _).behind fun name => advances_pure _

/-- The slot and name of a variable whose range starts at offset zero, by the labels of a table. -/
def nameAtStart (t : LabelTable) (v : LocalVariable) : Option (UInt16 × String) :=
  if t[0]? = some v.start then some (v.index, v.name) else none

/-- Of a local variable only the name and the slot are taken, if it is live at the start. -/
theorem skims_readLocal :
    Skims (readParameterName p) (readLocal p) fun t v name => name = nameAtStart t v := by
  refine .after fun pc => ?_
  refine .over (n := 0) advances_u16 fun length => .past ?_
  refine .after fun i => .after fun name => ?_
  -- The descriptor is skipped although its text has to be there for decoding.
  refine .over (n := 0) advances_u16 fun j => ?_
  refine .over (n := 0) (advances_ofExcept _) fun descriptor => .past ?_
  refine .after fun index => ?_
  refine .behind (advances_labelAt _) (grants_labelAt _) fun start => ?_
  refine .behind (advances_labelAt _) (grants_any _) fun stop => ?_
  refine skims_pure fun t ht _ hstart => ?_
  -- The label is that of no other offset.
  have hzero : t[0]? = some start ↔ pc = 0 := by
    constructor
    · intro h
      exact UInt16.toNat.inj (ht.inj _ _ _ hstart h)
    · rintro rfl
      exact hstart
  unfold nameAtStart
  simp only [hzero]

/-- The names of those variables. -/
def namesAtStart (t : LabelTable) (l : List LocalVariable) : List (UInt16 × String) :=
  l.filterMap (nameAtStart t)

/-- The names of one attribute come behind the names of those before. -/
theorem skims_readAttribute (tables : Tables) :
    Skims (readParameterNames p) (readAttribute p method tables) fun t tables' names =>
      namesAtStart t tables'.locals = namesAtStart t tables.locals ++ names := by
  -- An attribute without names of variables.
  have hidle {d : Decode Tables} (hstays : Decode.Advances d 0)
      (hlocals : Grants d fun _ tables' => tables'.locals = tables.locals) :
      Skims (pure []) d fun t tables' names =>
        namesAtStart t tables'.locals = namesAtStart t tables.locals ++ names := by
    refine skims_idle hstays hlocals fun t tables' h => ?_
    rw [h, List.append_nil]
  unfold readParameterNames readAttribute
  refine .after fun i => .after fun name => .after fun data => ?_
  by_cases hlocals : name = "LocalVariableTable"
  · have hlines : name ≠ "LineNumberTable" := by
      rw [hlocals]
      decide
    rw [if_neg hlines, if_pos hlocals, if_pos hlocals]
    refine Skims.within (.after fun count => ?_) data
    refine (skims_readLocal.repeated _).bind fun locals names => skims_pure fun t _ hnames => ?_
    unfold namesAtStart
    rw [hnames, List.filterMap_append, List.filterMap_map]
    rfl
  · -- Lines and frames are decoded in their own bytes, and every other attribute is left out.
    rw [if_neg hlocals, if_neg hlocals]
    split
    · refine hidle (advances_within _ _) (grants_within ((grants_any _).bind fun count _ => ?_))
      refine (grants_iterated (P := fun _ s => s.locals = tables.locals) (fun s => ?_) _ _).imp
        fun t s h => h rfl
      unfold readLine
      refine (grants_any _).bind fun _ _ => (grants_any _).bind fun _ _ => ?_
      exact (grants_any _).bind fun _ _ => grants_pure fun _ h => h
    · split
      · refine hidle (advances_within _ _) (grants_within ((grants_any _).bind fun count _ => ?_))
        refine (grants_any _).bind fun entry _ => (grants_any _).bind fun s _ => ?_
        exact grants_pure fun _ => rfl
      · exact hidle (advances_pure _) (grants_pure fun _ => rfl)

/-- Reads the slots and names in all attributes of a body, as they come up. The code and the
    handlers are skipped. -/
def readAllNames (p : Pool) : Read (List (UInt16 × String)) := do
  Read.skip 4
  Read.skip (← Read.u32).toNat
  Read.skip ((← Read.u16).toNat * 8)
  let names ← repeated (← Read.u16).toNat (readParameterNames p)
  return names.flatten

/-- The names are those of the variables that a decoded body has live at its start. -/
theorem skims_readBody : Skims (readAllNames p) (readBody p method) fun t r names =>
    names = namesAtStart t r.2.2.2.2.2.locals := by
  unfold readAllNames readBody
  refine .over (n := 2) advances_u16 fun maxStack => ?_
  refine .over (n := 0) advances_u16 fun maxLocals => .past ?_
  refine .after fun length => ?_
  -- The code and the handlers are passed over, as no name is found in them.
  refine .over (n := 0) (advances_bytes _) fun code => ?_
  refine .over (n := 0) (advances_within _ _) fun instructions => .past ?_
  refine .after fun count => ?_
  refine .over (n := 0) (advances_readHandler.repeated _) fun handlers => .past ?_
  refine .after fun attributes => ?_
  refine (skims_iterated (F := fun t (s : Tables) => namesAtStart t s.locals)
    (fun s => skims_readAttribute s) _ _).bind fun tables names => ?_
  refine skims_pure fun t _ hnames => ?_
  exact hnames.symm

/-- What pairs are ordered by: the slot and then the name. -/
def slotKey (x : UInt16 × String) : Nat ×ₗ String :=
  toLex (x.1.toNat, x.2)

variable {l : List (UInt16 × String)}

/-- The names are sorted by slot, and by text within a slot. -/
theorem slotKey_le {a b : UInt16 × String} :
    slotKey a ≤ slotKey b ↔ a.1 < b.1 ∨ a.1 = b.1 ∧ a.2 ≤ b.2 := by
  unfold slotKey
  rw [Prod.Lex.toLex_le_toLex, UInt16.lt_iff_toNat_lt, UInt16.toNat_inj]

/-- The list that is sorted is in that order. -/
theorem pairwise_mergeSort_names (l : List (UInt16 × String)) :
    (l.mergeSort fun a b => a.1 < b.1 || (a.1 == b.1 && !(b.2 < a.2))).Pairwise
      fun a b => slotKey a ≤ slotKey b := by
  have hle (a b : UInt16 × String) :
      (decide (a.1 < b.1) || (a.1 == b.1 && !decide (b.2 < a.2))) = true
        ↔ slotKey a ≤ slotKey b := by
    rw [slotKey_le]
    simp only [Bool.or_eq_true, Bool.and_eq_true, decide_eq_true_eq, beq_iff_eq,
      Bool.not_eq_true', decide_eq_false_iff_not, not_lt]
  refine (List.pairwise_mergeSort ?_ ?_ l).imp fun h => (hle _ _).1 h
  · intro a b c hab hbc
    exact (hle a c).2 (((hle a b).1 hab).trans ((hle b c).1 hbc))
  · intro a b
    rw [Bool.or_eq_true]
    exact (le_total (slotKey a) (slotKey b)).imp (hle a b).2 (hle b a).2

/-- Behind a pair with another slot come greater slots only. -/
theorem slot_lt_of_pairwise {a b : UInt16 × String} {rest : List (UInt16 × String)}
    (h : (a :: b :: rest).Pairwise fun a b => slotKey a ≤ slotKey b) (hne : a.1 ≠ b.1) :
    ∀ y ∈ b :: rest, a.1 < y.1 := by
  rcases List.pairwise_cons.1 h with ⟨hfirst, hrest⟩
  have hab : a.1 < b.1 := by
    rcases slotKey_le.1 (hfirst b List.mem_cons_self) with hlt | heq
    · exact hlt
    · exact absurd heq.1 hne
  refine List.forall_mem_cons.2 ⟨hab, fun y hy => ?_⟩
  rcases slotKey_le.1 ((List.pairwise_cons.1 hrest).1 y hy) with hlt | heq
  · exact UInt16.lt_trans hab hlt
  · rwa [← heq.1]

/-- Of ordered pairs those are kept that have the least name of their slot. -/
theorem mem_dedupSlots (h : l.Pairwise fun a b => slotKey a ≤ slotKey b) {x : UInt16 × String} :
    x ∈ dedupSlots l ↔ x ∈ l ∧ ∀ y ∈ l, y.1 = x.1 → x.2 ≤ y.2 := by
  induction l using dedupSlots.induct with
  | case1 => simp [dedupSlots]
  | case2 a =>
      rw [dedupSlots, List.mem_singleton, List.forall_mem_singleton]
      refine (and_iff_left_of_imp ?_).symm
      rintro rfl _
      exact le_refl _
  | case3 a b rest heq ih =>
      have hsub : (a :: rest).Sublist (a :: b :: rest) :=
        (List.sublist_cons_self b rest).cons_cons a
      rw [dedupSlots, if_pos heq, ih (h.sublist hsub)]
      -- The second pair goes, and its name is no less than that of the first.
      have hle : a.2 ≤ b.2 := by
        rcases slotKey_le.1 ((List.pairwise_cons.1 h).1 b List.mem_cons_self) with hlt | hle
        · rw [heq] at hlt
          exact absurd hlt (UInt16.lt_irrefl _)
        · exact hle.2
      constructor
      · rintro ⟨hx, hleast⟩
        refine ⟨hsub.subset hx, fun y hy hslot => ?_⟩
        rcases List.mem_cons.1 hy with rfl | hy
        · exact hleast y List.mem_cons_self hslot
        · rcases List.mem_cons.1 hy with rfl | hy
          · exact hle.trans' (hleast a List.mem_cons_self (heq.trans hslot))
          · exact hleast y (List.mem_cons_of_mem a hy) hslot
      · rintro ⟨hx, hleast⟩
        refine ⟨?_, fun y hy => hleast y (hsub.subset hy)⟩
        rcases List.mem_cons.1 hx with rfl | hx
        · exact List.mem_cons_self
        · rcases List.mem_cons.1 hx with rfl | hx
          · have hxa : x = a := Prod.ext heq.symm ((hleast a List.mem_cons_self heq).antisymm hle)
            rw [hxa]
            exact List.mem_cons_self
          · exact List.mem_cons_of_mem a hx
  | case4 a b rest hne ih =>
      rw [dedupSlots, if_neg hne, List.mem_cons, ih (List.pairwise_cons.1 h).2]
      -- The slot of the first pair comes up nowhere else.
      have hlt := slot_lt_of_pairwise h hne
      constructor
      · rintro (rfl | ⟨hx, hleast⟩)
        · refine ⟨List.mem_cons_self, List.forall_mem_cons.2 ⟨fun _ => le_refl _, ?_⟩⟩
          intro y hy hslot
          exact absurd (hslot ▸ hlt y hy) (UInt16.lt_irrefl _)
        · refine ⟨List.mem_cons_of_mem a hx, List.forall_mem_cons.2 ⟨fun hslot => ?_, hleast⟩⟩
          exact absurd (hslot ▸ hlt x hx) (UInt16.lt_irrefl _)
      · rintro ⟨hx, hleast⟩
        refine (List.mem_cons.1 hx).imp_right fun hx => ?_
        exact ⟨hx, fun y hy => hleast y (List.mem_cons_of_mem a hy)⟩

/-- The pairs that are kept have ascending slots. -/
theorem pairwise_dedupSlots (h : l.Pairwise fun a b => slotKey a ≤ slotKey b) :
    (dedupSlots l).Pairwise fun a b => a.1 < b.1 := by
  -- Of two neighbours with one slot the second is left out, so the next slot is a greater one.
  induction l using dedupSlots.induct with
  | case1 =>
      rw [dedupSlots]
      exact .nil
  | case2 a =>
      rw [dedupSlots]
      exact List.pairwise_singleton _ a
  | case3 a b rest heq ih =>
      rw [dedupSlots, if_pos heq]
      exact ih (h.sublist ((List.sublist_cons_self b rest).cons_cons a))
  | case4 a b rest hne ih =>
      have hrest := (List.pairwise_cons.1 h).2
      rw [dedupSlots, if_neg hne]
      refine List.pairwise_cons.2 ⟨fun y hy => ?_, ih hrest⟩
      exact slot_lt_of_pairwise h hne y ((mem_dedupSlots hrest).1 hy).1

variable {data : Bytes} {b : Body}

/-- The names of the variables in a slot whose ranges start where no instruction is in front, which
    is offset zero. -/
def startNames (b : Body) (slot : UInt16) : Set String :=
  {name | ∃ v ∈ b.locals, b.positionOf v.start = 0 ∧ v.index = slot ∧ v.name = name}

/-- The range of a variable starts at the first position if its label is that of offset zero. -/
theorem ReadAs.start_iff {t : LabelTable}
    {r : UInt16 × UInt16 × Nat × List (Nat × Instruction) × List Handler × Tables}
    (h : ReadAs p method data b t r) {v : LocalVariable} (hv : v ∈ b.locals) :
    t[0]? = some v.start ↔ b.positionOf v.start = 0 := by
  rcases h.layout.fit.ranges v (h.locals ▸ hv) with ⟨o, -, ho, -, -⟩
  rcases h.layout.spaced.head with ⟨rest, hrest⟩
  rw [h.layout.positionOf ho, hrest]
  constructor
  · intro hzero
    rw [h.layout.sound.inj _ _ _ ho hzero, List.idxOf_cons_self]
  · intro hindex
    by_cases hne : (0 : Nat) = o
    · rwa [hne]
    · rw [List.idxOf_cons_ne _ hne] at hindex
      exact absurd hindex (Nat.succ_ne_zero _)

/-- A name is found at the start exactly if the body that is read has such a variable. -/
theorem ReadAs.mem_namesAtStart {t : LabelTable}
    {r : UInt16 × UInt16 × Nat × List (Nat × Instruction) × List Handler × Tables}
    (h : ReadAs p method data b t r) {slot : UInt16} {name : String} :
    (slot, name) ∈ namesAtStart t b.locals ↔ name ∈ b.startNames slot := by
  unfold namesAtStart nameAtStart
  rw [List.mem_filterMap]
  refine exists_congr fun v => and_congr_right fun hv => ?_
  rw [← h.start_iff hv]
  simp

/-- The names that are read without decoding a body are those that its variables have at the start,
    the least one of each slot, by ascending slots. -/
theorem parameterNames_of_decode (h : decode data p method = .ok b) :
    ∃ names, parameterNames data p = .ok names ∧ names.Pairwise (fun x y => x.1 < y.1) ∧
      ∀ slot name, (slot, name) ∈ names ↔ IsLeast (b.startNames slot) name := by
  rcases exists_readAs h with ⟨t, r, hread⟩
  rcases hread.run with ⟨c, hrun⟩
  rcases skims_readBody _ _ _ _ _ LabelTable.valid_empty hrun with ⟨found, hfound, hnames⟩
  have hsorted := pairwise_mergeSort_names found
  refine ⟨_, ?_, pairwise_dedupSlots hsorted, fun slot name => ?_⟩
  · have hparse : (readAllNames p).parse data = .ok found := Read.parse_eq_ok.2 ⟨c, hfound⟩
    unfold parameterNames
    change ((readAllNames p).parse data >>= _) = _
    rw [hparse]
    rfl
  · have hfound' : ∀ name, (slot, name) ∈ found ↔ name ∈ b.startNames slot := by
      intro name
      rw [hnames t hread.layout.sound (LabelTable.extends_refl t), ← hread.locals]
      exact hread.mem_namesAtStart
    -- Of the names of a slot the first is kept, and they are sorted.
    rw [mem_dedupSlots hsorted]
    simp only [List.mem_mergeSort]
    refine and_congr (hfound' name) ⟨fun hleast n hn => ?_, fun hleast y hy hslot => ?_⟩
    · exact hleast (slot, n) ((hfound' n).2 hn) rfl
    · refine hleast ((hfound' y.2).1 ?_)
      rw [← show y.1 = slot from hslot]
      exact hy

end Parameters

namespace Shared

/-- Two variables of slot zero and one of slot one that are live at the start, and another one of
    slot one behind the only instruction. -/
def bytes : Bytes :=
  [0, 0, 0, 2, 0, 0, 0, 1, 0xB1, 0, 0, 0, 1, 0, 1, 0, 0, 0, 42, 0, 4,
    0, 0, 0, 1, 0, 3, 0, 2, 0, 0, 0, 0, 0, 1, 0, 4, 0, 2, 0, 1,
    0, 0, 0, 1, 0, 5, 0, 2, 0, 0, 0, 1, 0, 0, 0, 6, 0, 2, 0, 1]

/-- The texts that the bytes refer to. -/
def texts : Array PoolEntry :=
  #[.unusable, .utf8 "LocalVariableTable" [], .utf8 "I" [], .utf8 "b" [], .utf8 "d" [],
    .utf8 "a" [], .utf8 "c" []]

/-- A method with two arguments. -/
def method : MethodInfo where
  member := ⟨"A", "m", "(II)V"⟩
  isStatic := true

/-- A body in which two variables share each slot. -/
def body : Body where
  maxStack := 0
  maxLocals := 2
  instructions := [.label ⟨0⟩, .simple .voidReturn, .label ⟨1⟩]
  locals := [⟨"b", "I", ⟨0⟩, ⟨1⟩, 0⟩, ⟨"d", "I", ⟨0⟩, ⟨1⟩, 1⟩, ⟨"a", "I", ⟨0⟩, ⟨1⟩, 0⟩,
    ⟨"c", "I", ⟨1⟩, ⟨1⟩, 1⟩]
  modified := false
  nextLabel := 2

-- The indices of a pool by text are hashed, and nothing here looks at them.
theorem decode_bytes (lookup : Std.HashMap PoolKey UInt16) :
    decode bytes ⟨texts, lookup⟩ method = .ok body := by
  cbv

theorem parameterNames_bytes (lookup : Std.HashMap PoolKey UInt16) :
    parameterNames bytes ⟨texts, lookup⟩ = .ok [(0, "a"), (1, "d")] := by
  cbv

theorem parameterNames_of_decode_shared :
    decode bytes ⟨texts, ∅⟩ method = .ok body ∧
      parameterNames bytes ⟨texts, ∅⟩ = .ok [(0, "a"), (1, "d")] ∧
      IsLeast (body.startNames 0) "a" ∧ "c" ∉ body.startNames 1 := by
  have hdecode : decode bytes ⟨texts, ∅⟩ method = .ok body := decode_bytes ∅
  have hread := parameterNames_bytes ∅
  rcases parameterNames_of_decode hdecode with ⟨names, hnames, -, hmem⟩
  rw [hread] at hnames
  cases hnames
  refine ⟨hdecode, hread, (hmem 0 "a").1 List.mem_cons_self, fun hc => ?_⟩
  have hle : "d" ≤ "c" := ((hmem 1 "d").1 (by simp)).2 hc
  exact absurd hle (by decide)

end Shared

end Body

end JvmFold
