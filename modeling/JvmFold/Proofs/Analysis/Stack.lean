import JvmFold.Proofs.Analysis.Steps

/-!
# The Order of the Stack

What is known of the stack was made in the order in which it lies there: a
value that lies on another one was made by later instructions. `Ordered` says
so, and it is what keeps the spans of two values on the stack apart.

Two things lie on the stack out of their place. A value of two slots can lose
its upper slot to an instruction that takes slots and not values; it is then
never an operand again, because that instruction stands behind it and belongs
to no value. And a reference to an object that was not initialized is good for
a constructor only while a copy of it lies right below it, since the
constructor takes the one and leaves its value in the place of the other.
`Ordered` has a case for each.

Values are given up as a tree, so what has to be apart are the spans of any
replacements that come of them. `Spread` says this of all that can come of
some values, and so no proof has to look into the trees.

## Main definitions

* `Replacement.Apart`: Two spans that share no position.
* `Spread`: What comes of some values is apart and between two positions.
* `Ordered`: The values of the stack lie in the order of their spans.
* `Stacked`: The stack in front of a position.
* `Constructing`: A constructor is called on one of two references to an object.

## Theorems

* `Emits.split`, `Emits.perm`, `Emits.of_stale`: What comes of several values.
* `Ordered.drop`: Instructions can take slots off.
* `Pops.ordered`: Operands can come off.
* `Move.stacked`: Every move keeps the order.
-/

namespace JvmFold

/-- What two lists come to is what each comes to. -/
theorem Emits.split {a b : List Fold} {new : List Replacement} (h : Emits (a ++ b) new) :
    ∃ n n', new = n ++ n' ∧ Emits a n ∧ Emits b n' := by
  -- Each rule that emits for the first fold leaves the others to the rest.
  induction a generalizing new with
  | nil => exact ⟨[], new, rfl, Emits.nil, h⟩
  | cons f rest ih =>
      cases h with
      | keep hrest =>
          rcases ih hrest with ⟨n, n', rfl, ha, hb⟩
          exact ⟨n, n', rfl, Emits.keep ha, hb⟩
      | write code hrest =>
          rcases ih hrest with ⟨n, n', rfl, ha, hb⟩
          exact ⟨_ :: n, n', rfl, Emits.write code ha, hb⟩
      | expand hc hrest =>
          rcases ih hrest with ⟨n, n', rfl, ha, hb⟩
          exact ⟨_ ++ n, n', (List.append_assoc _ _ _).symm, Emits.expand hc ha, hb⟩

/-- What comes of one value is nothing, its own span, or what comes of the values it was made
    from. -/
theorem Emits.of_singleton {f : Fold} {new : List Replacement} (h : Emits [f] new) :
    new = [] ∨ (∃ code, new = [⟨f.start, f.stop, code, f.value.slots⟩]) ∨
      Emits f.children new := by
  cases h with
  | keep hrest =>
      cases hrest
      exact Or.inl rfl
  | write code hrest =>
      cases hrest
      exact Or.inr (Or.inl ⟨code, rfl⟩)
  | expand hc hrest =>
      cases hrest
      rw [List.append_nil]
      exact Or.inr (Or.inr hc)

/-- Values may come to nothing. -/
theorem emits_nothing (l : List Fold) : Emits l [] := by
  induction l with
  | nil => exact Emits.nil
  | cons f rest ih => exact Emits.keep ih

/-- One of the values may be written back, and nothing else come of them. -/
theorem emits_member {f : Fold} {fs : List Fold} (hf : f ∈ fs) :
    Emits fs [⟨f.start, f.stop, [], f.value.slots⟩] := by
  induction fs with
  | nil => cases hf
  | cons g rest ih =>
      rcases List.mem_cons.mp hf with rfl | hmem
      · exact Emits.write [] (emits_nothing rest)
      · exact Emits.keep (ih hmem)

/-- The order in which values are given up is that of what they come to. -/
theorem Emits.perm {a b : List Fold} (hperm : a.Perm b) {new : List Replacement}
    (h : Emits a new) : ∃ new', new.Perm new' ∧ Emits b new' := by
  induction hperm generalizing new with
  | nil => exact ⟨new, List.Perm.refl _, h⟩
  | cons f _ ih =>
      rw [← List.singleton_append] at h
      rcases h.split with ⟨n, n', rfl, hf, hrest⟩
      rcases ih hrest with ⟨m, hm, hemits⟩
      exact ⟨n ++ m, hm.append_left n, hf.append hemits⟩
  | swap f g l =>
      rw [← List.singleton_append] at h
      rcases h.split with ⟨n, n', rfl, hg, hrest⟩
      rw [← List.singleton_append] at hrest
      rcases hrest.split with ⟨m, m', rfl, hf, hl⟩
      -- The two values in front come to their parts in the other order.
      refine ⟨m ++ (n ++ m'), ?_, hf.append (hg.append hl)⟩
      rw [← List.append_assoc, ← List.append_assoc]
      exact List.perm_append_comm.append_right m'
  | trans _ _ ih ih' =>
      rcases ih h with ⟨m, hm, hemits⟩
      rcases ih' hemits with ⟨m', hm', hemits'⟩
      exact ⟨m', hm.trans hm', hemits'⟩

/-- Whether values are stale decides which of the replacements come of them, not which can. -/
theorem Emits.of_stale {fs : List Fold} {stale : Fold → Bool} {new : List Replacement}
    (h : Emits (fs.map fun g => { g with stale := stale g }) new) : Emits fs new := by
  induction fs generalizing new with
  | nil => exact h
  | cons f rest ih =>
      cases h with
      | keep hrest => exact Emits.keep (ih hrest)
      | write code hrest => exact Emits.write code (ih hrest)
      | expand hc hrest => exact Emits.expand hc (ih hrest)

namespace Subject

/-- A position that holds an instruction and no mark. -/
def IsReal (s : Subject) (p : Nat) : Prop :=
  ∃ i, s.code[p]? = some i ∧ i.isPseudo = false

/-- A position at which an object is made. -/
def NewAt (s : Subject) (p : Nat) : Prop :=
  ∃ name, s.code[p]? = some (.typed .new name)

/-- A position at which a constructor is called. -/
def BuildsAt (s : Subject) (p : Nat) : Prop :=
  ∃ m isInterface, s.code[p]? = some (.invoke .invokespecial m isInterface) ∧
    m.isConstructor = true

/-- An instruction that makes an object is real. -/
theorem NewAt.isReal {s : Subject} {p : Nat} (h : s.NewAt p) : s.IsReal p := by
  rcases h with ⟨name, hname⟩
  exact ⟨_, hname, rfl⟩

/-- The next instruction is not behind an instruction that follows. -/
theorem nextReal_le {s : Subject} {p q : Nat} (hq : s.IsReal q) (h : p ≤ q) :
    s.nextReal p ≤ q := by
  rcases hq with ⟨i, hi, hreal⟩
  rcases Array.getElem?_eq_some_iff.mp hi with ⟨hlt, hget⟩
  -- From here to the instruction there may be marks, which are passed over.
  induction hn : q - p generalizing p with
  | zero =>
      have hpq : p = q := by omega
      subst hpq
      rw [nextReal, dif_pos hlt, hget, hreal]
      exact Nat.le_refl p
  | succ n ih =>
      rw [nextReal, dif_pos (by omega)]
      split
      · exact ih (by omega) (by omega)
      · exact h

end Subject

/-- The first operand is where the operands start. -/
theorem isContiguous_some {s : Subject} {p : Nat} {fs : List Fold}
    (hc : s.isContiguous p none fs = true) :
    s.isContiguous p (some ((fs.head?.map Fold.start).getD p)) fs = true := by
  cases fs with
  | nil => simp [Subject.isContiguous]
  | cons g rest => simpa [Subject.isContiguous] using hc

/-- Two spans that share no position. -/
def Replacement.Apart (a b : Replacement) : Prop :=
  a.stop < b.start ∨ b.stop < a.start

theorem Replacement.Apart.symm {a b : Replacement} (h : a.Apart b) : b.Apart a :=
  Or.symm h

/-- A span between two positions that starts at an instruction. -/
structure Replacement.Within (s : Subject) (low high : Nat) (r : Replacement) : Prop where
  low_le : low ≤ r.start
  start_le : r.start ≤ r.stop
  stop_lt : r.stop < high
  isReal : s.IsReal r.start

/-- Whatever comes of the values has its spans between two positions and apart from each other. -/
def Spread (s : Subject) (low high : Nat) (fs : List Fold) : Prop :=
  ∀ new, Emits fs new → (∀ r ∈ new, r.Within s low high) ∧ new.Pairwise Replacement.Apart

section Spread

variable {s : Subject} {low mid high : Nat} {f : Fold} {a b fs : List Fold}

theorem spread_nil : Spread s low high [] := by
  intro new h
  cases h
  exact ⟨nofun, List.Pairwise.nil⟩

/-- What is spread over a range is spread over a wider one. -/
theorem Spread.mono (h : Spread s low high fs) {low' high' : Nat} (hlow : low' ≤ low)
    (hhigh : high ≤ high') : Spread s low' high' fs := by
  intro new hnew
  refine ⟨fun r hr => ?_, (h new hnew).2⟩
  have hw := (h new hnew).1 r hr
  exact ⟨Nat.le_trans hlow hw.low_le, hw.start_le, Nat.lt_of_lt_of_le hw.stop_lt hhigh, hw.isReal⟩

/-- Two lists spread over ranges that follow each other. -/
theorem Spread.append (ha : Spread s low mid a) (hb : Spread s mid high b) (hlow : low ≤ mid)
    (hhigh : mid ≤ high) : Spread s low high (a ++ b) := by
  intro new hnew
  rcases hnew.split with ⟨n, n', rfl, hn, hn'⟩
  rcases ha n hn with ⟨hwa, hpa⟩
  rcases hb n' hn' with ⟨hwb, hpb⟩
  constructor
  · intro r hr
    rcases List.mem_append.mp hr with hr | hr
    · exact ((ha.mono (Nat.le_refl low) hhigh) n hn).1 r hr
    · exact ((hb.mono hlow (Nat.le_refl high)) n' hn').1 r hr
  · refine List.pairwise_append.mpr ⟨hpa, hpb, fun r hr r' hr' => Or.inl ?_⟩
    exact Nat.lt_of_lt_of_le (hwa r hr).stop_lt (hwb r' hr').low_le

/-- The order of the values does not matter. -/
theorem Spread.perm (hperm : a.Perm b) (h : Spread s low high a) : Spread s low high b := by
  intro new hnew
  rcases hnew.perm hperm.symm with ⟨new', hnew', hemits⟩
  rcases h new' hemits with ⟨hw, hp⟩
  refine ⟨fun r hr => hw r (hnew'.mem_iff.mp hr), ?_⟩
  exact hp.perm hnew'.symm Replacement.Apart.symm

/-- The span of a value itself. -/
theorem Spread.self (h : Spread s low high [f]) :
    low ≤ f.start ∧ f.start ≤ f.stop ∧ f.stop < high ∧ s.IsReal f.start := by
  have hw := (h _ (Emits.write [] Emits.nil)).1 _ List.mem_cons_self
  exact ⟨hw.low_le, hw.start_le, hw.stop_lt, hw.isReal⟩

/-- A value whose operands are apart in front of it. -/
theorem Spans.spread {start p : Nat} (hf : Spans start p fs f) (hreal : s.IsReal start)
    (hle : start ≤ p) (hfs : Spread s start p fs) : Spread s start (p + 1) [f] := by
  intro new hnew
  rcases hnew.of_singleton with rfl | ⟨code, rfl⟩ | hchildren
  · exact ⟨nofun, List.Pairwise.nil⟩
  · refine ⟨fun r hr => ?_, List.pairwise_singleton _ _⟩
    rw [List.mem_singleton] at hr
    subst hr
    refine ⟨Nat.le_of_eq hf.start_eq.symm, ?_, ?_, ?_⟩
    · -- The replacement is the span of the value, from the start of the first operand to the
      -- position.
      change f.start ≤ f.stop
      rw [hf.start_eq, hf.stop_eq]
      exact hle
    · change f.stop < p + 1
      rw [hf.stop_eq]
      exact Nat.lt_succ_self p
    · change s.IsReal f.start
      rw [hf.start_eq]
      exact hreal
  · rcases hf.children_eq with ⟨stale, _, hstale⟩
    rw [hstale] at hchildren
    exact (hfs.mono (Nat.le_refl start) (Nat.le_succ p)) new hchildren.of_stale

end Spread

/-- The values of the stack lie in the order of their spans and end in front of a position.
    `copied` relates the positions at which an object was made and the reference to it copied. -/
inductive Ordered (s : Subject) (copied : Nat → Nat → Prop) : Nat → List Slot → Prop where
  | nil {b : Nat} : Ordered s copied b []
  | unknown {b : Nat} {rest : List Slot} :
      Ordered s copied b rest → Ordered s copied b (.unknown :: rest)
  /-- A value of one slot. What a constructor makes takes one place whatever it is. -/
  | narrow {b : Nat} {f : Fold} {rest : List Slot} (hw : f.value.slots ≠ 2 ∨ s.BuildsAt f.stop)
      (hf : Spread s f.start b [f]) :
      Ordered s copied f.start rest → Ordered s copied b (.known f :: rest)
  /-- A value of two slots. -/
  | wide {b : Nat} {f : Fold} {rest : List Slot} (hw : f.value.slots = 2)
      (hf : Spread s f.start b [f]) :
      Ordered s copied f.start rest → Ordered s copied b (.upper :: .known f :: rest)
  /-- A value that has lost its upper slot to an instruction behind it. -/
  | lone {b : Nat} {f : Fold} {rest : List Slot} (hb : s.nextReal (f.stop + 1) < b)
      (hf : Spread s f.start b [f]) :
      Ordered s copied f.start rest → Ordered s copied b (.known f :: rest)
  /-- A reference to an object that was not initialized, with its last copy. -/
  | copy {b : Nat} {u : Uninitialized} {rest : List Slot} (hn : s.NewAt u.start)
      (hc : copied u.start u.stop) (hlt : u.start < u.stop) (hb : u.stop < b)
      (hu : .uninitialized u ∉ rest) : Ordered s copied u.start rest →
      Ordered s copied b (.uninitialized u :: .uninitialized u :: rest)
  /-- A reference to an object that was not initialized, of which no copy is left. -/
  | single {b : Nat} {u : Uninitialized} {rest : List Slot} (hn : s.NewAt u.start)
      (hb : u.start ≤ b) (hu : .uninitialized u ∉ rest) : Ordered s copied u.start rest →
      Ordered s copied b (.uninitialized u :: rest)

section Ordered

variable {s : Subject} {copied : Nat → Nat → Prop} {b c k p : Nat} {stack rest : List Slot}

/-- A stack ordered below a bound is so below a greater one. -/
theorem Ordered.mono (h : Ordered s copied b stack) (hle : b ≤ c) : Ordered s copied c stack := by
  induction h generalizing c with
  | nil => exact Ordered.nil
  | unknown _ ih => exact Ordered.unknown (ih hle)
  | narrow hw hf hrest _ => exact Ordered.narrow hw (hf.mono (Nat.le_refl _) hle) hrest
  | wide hw hf hrest _ => exact Ordered.wide hw (hf.mono (Nat.le_refl _) hle) hrest
  | lone hb hf hrest _ =>
      exact Ordered.lone (Nat.lt_of_lt_of_le hb hle) (hf.mono (Nat.le_refl _) hle) hrest
  | copy hn hc hlt hb hu hrest _ =>
      exact Ordered.copy hn hc hlt (Nat.lt_of_lt_of_le hb hle) hu hrest
  | single hn hb hu hrest _ => exact Ordered.single hn (Nat.le_trans hb hle) hu hrest

/-- An instruction can take any number of slots off: a value that it leaves without its upper slot
    is one that it stands behind. -/
theorem Ordered.drop (h : Ordered s copied b stack) (hp : s.IsReal p) (hle : b ≤ p) (n : Nat) :
    Ordered s copied (p + 1) (stack.drop n) := by
  induction h generalizing n with
  | nil =>
      rw [List.drop_nil]
      exact Ordered.nil
  | unknown hrest ih =>
      cases n with
      | zero => exact Ordered.unknown (hrest.mono (by omega))
      | succ n => exact ih hle n
  | narrow hw hf hrest ih =>
      have hself := hf.self
      cases n with
      | zero => exact (Ordered.narrow hw hf hrest).mono (by omega)
      | succ n => exact ih (by omega) n
  | @wide b f rest hw hf hrest ih =>
      have hself := hf.self
      cases n with
      | zero => exact (Ordered.wide hw hf hrest).mono (by omega)
      | succ n =>
          cases n with
          | zero =>
              -- Only the upper slot came off; what is left of the value is behind its last
              -- instruction.
              have hnext : s.nextReal (f.stop + 1) ≤ p := Subject.nextReal_le hp (by omega)
              exact Ordered.lone (by omega) (hf.mono (Nat.le_refl _) (by omega)) hrest
          | succ n => exact ih (by omega) n
  | lone hb hf hrest ih =>
      have hself := hf.self
      cases n with
      | zero => exact (Ordered.lone hb hf hrest).mono (by omega)
      | succ n => exact ih (by omega) n
  | copy hn hc hlt hb hu hrest ih =>
      cases n with
      | zero => exact (Ordered.copy hn hc hlt hb hu hrest).mono (by omega)
      | succ n =>
          cases n with
          -- One of the two references came off, and the object is still there.
          | zero => exact Ordered.single hn (by omega) hu hrest
          | succ n => exact ih (by omega) n
  | single hn hb hu hrest ih =>
      cases n with
      | zero => exact (Ordered.single hn hb hu hrest).mono (by omega)
      | succ n => exact ih (by omega) n

/-- What comes of all values on the stack is apart. -/
theorem Ordered.spread (h : Ordered s copied b stack) : Spread s 0 b (knownIn stack) := by
  -- A value lies on those that stand in front of it.
  have hcons : ∀ {b : Nat} {f : Fold} {rest : List Slot}, Spread s f.start b [f] →
      Spread s 0 f.start (knownIn rest) → Spread s 0 b (f :: knownIn rest) := by
    intro b f rest hf hrest
    have hself := hf.self
    refine Spread.perm ?_ (hrest.append hf (Nat.zero_le _) (by omega))
    exact List.perm_append_comm
  induction h with
  | nil => exact spread_nil
  | unknown _ ih => exact ih
  | narrow _ hf _ ih => exact hcons hf ih
  | wide _ hf _ ih => exact hcons hf ih
  | lone _ hf _ ih => exact hcons hf ih
  | copy _ _ hlt hb _ _ ih => exact ih.mono (Nat.le_refl 0) (by omega)
  | single _ hb _ _ ih => exact ih.mono (Nat.le_refl 0) hb

/-- A value on top of the stack, with or without an upper slot, ends in front of the position and
    lies on what stands in front of it. If it is not as wide as the slots it takes, the next
    instruction belongs to no value above it. -/
theorem PopsOne.ordered {w : Nat} {f : Fold} {lost : List Fold}
    (hp : PopsOne w stack (.known f) rest lost) (h : Ordered s copied b stack) :
    Spread s f.start b [f] ∧ Ordered s copied f.start rest ∧
      ((w = 2 ↔ f.value.slots = 2) ∨ (w ≠ 2 ∧ s.BuildsAt f.stop) ∨
        s.nextReal (f.stop + 1) < b) := by
  cases hp with
  | wide =>
      cases h with
      | wide hw hf hrest => exact ⟨hf, hrest, Or.inl ⟨fun _ => hw, fun _ => rfl⟩⟩
  | narrow hne =>
      cases h with
      | narrow hw hf hrest =>
          refine ⟨hf, hrest, ?_⟩
          rcases hw with hw | hw
          · exact Or.inl ⟨fun h => absurd h hne, fun h => absurd h hw⟩
          · exact Or.inr (Or.inl ⟨hne, hw⟩)
      | lone hb hf hrest => exact ⟨hf, hrest, Or.inr (Or.inr hb)⟩

/-- What is left was on the stack. -/
theorem Pops.mem_of_mem_rest {ws : List Nat} {l : List Operand} {lost : List Fold} {slot : Slot}
    (hp : Pops ws stack l rest lost) (h : slot ∈ rest) : slot ∈ stack := by
  rcases hp.perm with ⟨n, rfl, _⟩
  exact List.mem_of_mem_drop h

/-- A receiver that was not initialized lies right below the arguments. -/
theorem Pops.object {w : Nat} {ws : List Nat} {u : Uninitialized} {l : List Operand}
    {lost : List Fold} (hp : Pops (w :: ws) stack (.uninitialized u :: l) rest lost) :
    ∃ lost', Pops ws stack l (.uninitialized u :: rest) lost' := by
  cases hp with
  | cons htail hone =>
      cases hone
      exact ⟨_, htail⟩

/-- Operands that come off the stack are apart, and what stays ends in front of the first. -/
theorem Pops.ordered {ws : List Nat} {fs lost : List Fold}
    (hp : Pops ws stack (fs.map .known) rest lost) (h : Ordered s copied b stack)
    (hb : s.IsReal b) :
    ∃ start, (fs.head?.map Fold.start).getD b = start ∧ start ≤ b ∧ s.IsReal start ∧
      Spread s start b fs ∧ Ordered s copied start rest := by
  induction fs generalizing ws rest lost with
  | nil =>
      cases hp
      exact ⟨b, rfl, Nat.le_refl b, hb, spread_nil, h⟩
  | cons f fs ih =>
      cases hp with
      | cons htail hone =>
          rcases ih htail with ⟨start, _, hle, _, hfs, hmid⟩
          rcases hone.ordered hmid with ⟨hf, hrest, _⟩
          have hself := hf.self
          refine ⟨f.start, rfl, by omega, hself.2.2.2, ?_, hrest⟩
          exact hf.append hfs (by omega) hle

/-- An object that the stack is found to hold is on it. -/
theorem mem_of_holds {u : Uninitialized} (h : Analysis.holds u stack = true) :
    .uninitialized u ∈ stack := by
  rw [Analysis.holds, List.any_eq_true] at h
  rcases h with ⟨slot, hmem, hslot⟩
  split at hslot
  · rw [beq_iff_eq] at hslot
    rw [← hslot]
    exact hmem
  · cases hslot

/-- What giving an object up makes of a slot. -/
def Slot.without (u : Uninitialized) : Slot → Slot
  | .uninitialized v => if v = u then .unknown else .uninitialized v
  | slot => slot

/-- Giving an object up changes the slots that refer to it. -/
theorem settle_unknown (u : Uninitialized) :
    Analysis.settle u .unknown .unknown stack = stack.map (Slot.without u) := by
  induction stack with
  | nil => rfl
  | cons slot rest ih =>
      cases slot with
      | uninitialized v =>
          rw [Analysis.settle, List.map_cons, Slot.without, ih]
          split <;> rfl
      | unknown => simp only [Analysis.settle, List.map_cons, Slot.without, ih]
      | upper => simp only [Analysis.settle, List.map_cons, Slot.without, ih]
      | known f => simp only [Analysis.settle, List.map_cons, Slot.without, ih]

theorem without_eq_self {u : Uninitialized} {slot : Slot} (h : slot ≠ .uninitialized u) :
    slot.without u = slot := by
  cases slot with
  | uninitialized v =>
      rw [Slot.without, if_neg]
      intro hv
      rw [hv] at h
      exact h rfl
  | _ => rfl

/-- Giving up an object that nothing refers to changes nothing. -/
theorem settle_eq_self {u : Uninitialized} (h : .uninitialized u ∉ stack) :
    Analysis.settle u .unknown .unknown stack = stack := by
  rw [settle_unknown]
  refine (List.map_congr_left fun slot hslot => ?_).trans (List.map_id _)
  refine without_eq_self ?_
  intro heq
  rw [heq] at hslot
  exact h hslot

/-- An object that is left when another is removed was there. -/
theorem eq_of_without {u v : Uninitialized} {slot : Slot}
    (h : slot.without u = .uninitialized v) : slot = .uninitialized v := by
  cases slot with
  | uninitialized w =>
      rw [Slot.without] at h
      split at h
      · cases h
      · exact h
  | unknown => exact h
  | upper => exact h
  | known f => exact h

-- So it was on the stack.
theorem mem_of_mem_without {u v : Uninitialized}
    (h : .uninitialized v ∈ stack.map (Slot.without u)) : .uninitialized v ∈ stack := by
  rcases List.mem_map.mp h with ⟨slot, hmem, hslot⟩
  rw [← eq_of_without hslot]
  exact hmem

/-- The removal of an object leaves all values. -/
theorem knownIn_without (u : Uninitialized) :
    knownIn (stack.map (Slot.without u)) = knownIn stack := by
  rw [knownIn, List.filterMap_map]
  refine congrFun (congrArg List.filterMap (funext fun slot => ?_)) stack
  cases slot with
  | uninitialized v =>
      change ((Slot.uninitialized v).without u).fold? = none
      rw [Slot.without]
      split <;> rfl
  | _ => rfl

/-- Settling an object adds at most its value. -/
theorem knownIn_settle (u : Uninitialized) (f : Fold) (stack : List Slot) :
    (knownIn (Analysis.settle u (.known f) .unknown stack)).Subperm (f :: knownIn stack) := by
  induction stack with
  | nil => exact List.nil_subperm
  | cons slot rest ih =>
      cases slot with
      | uninitialized v =>
          rw [Analysis.settle]
          split
          · -- Behind the first reference all others are removed.
            rw [settle_unknown]
            change (f :: knownIn (rest.map (Slot.without u))).Subperm (f :: knownIn rest)
            rw [knownIn_without]
          · exact ih
      | known g =>
          change (g :: knownIn (Analysis.settle u (.known f) .unknown rest)).Subperm
            (f :: g :: knownIn rest)
          exact (List.subperm_cons g |>.2 ih).trans (List.Perm.swap f g _).subperm
      | unknown => exact ih
      | upper => exact ih

/-- Giving an object up keeps the order: of a reference and its copy, both go or none. -/
theorem Ordered.without (h : Ordered s copied b stack) (u : Uninitialized) :
    Ordered s copied b (stack.map (Slot.without u)) := by
  induction h with
  | nil => exact Ordered.nil
  | unknown _ ih => exact Ordered.unknown ih
  | narrow hw hf _ ih => exact Ordered.narrow hw hf ih
  | wide hw hf _ ih => exact Ordered.wide hw hf ih
  | lone hb hf _ ih => exact Ordered.lone hb hf ih
  | @copy b v rest hn hc hlt hb hv _ ih =>
      rw [List.map_cons, List.map_cons, Slot.without]
      split
      · -- Both references of a copied object go.
        exact Ordered.unknown (Ordered.unknown (ih.mono (by omega)))
      · exact Ordered.copy hn hc hlt hb (fun hmem => hv (mem_of_mem_without hmem)) ih
  | @single b v rest hn hb hv _ ih =>
      rw [List.map_cons, Slot.without]
      split
      · exact Ordered.unknown (ih.mono hb)
      · exact Ordered.single hn hb (fun hmem => hv (mem_of_mem_without hmem)) ih

/-- What lies below a reference stands in front of where its object was made, other references to
    the object apart. -/
theorem Ordered.object {u : Uninitialized} (h : Ordered s copied b (.uninitialized u :: stack)) :
    s.NewAt u.start ∧ u.start ≤ b ∧ Ordered s copied u.start stack := by
  cases h with
  | copy hn _ hlt hb hnot hrest =>
      exact ⟨hn, by omega, Ordered.single hn (Nat.le_refl _) hnot hrest⟩
  | single hn hb _ hrest => exact ⟨hn, hb, hrest⟩

/-- A reference of which another one is left has its copy right below it. -/
theorem Ordered.copy_of_mem {u : Uninitialized}
    (h : Ordered s copied b (.uninitialized u :: stack)) (hu : .uninitialized u ∈ stack) :
    ∃ rest, stack = .uninitialized u :: rest ∧ s.NewAt u.start ∧ copied u.start u.stop ∧
      u.start < u.stop ∧ u.stop < b ∧ .uninitialized u ∉ rest ∧ Ordered s copied u.start rest := by
  cases h with
  | copy hn hc hlt hb hnot hrest => exact ⟨_, rfl, hn, hc, hlt, hb, hnot, hrest⟩
  | single _ _ hnot _ => exact absurd hu hnot

end Ordered

/-- The stack in front of a position. -/
structure Stacked (s : Subject) (copied : Nat → Nat → Prop) (p : Nat) (stack : List Slot) :
    Prop where
  ordered : Ordered s copied p stack
  stop_lt : ∀ u, .uninitialized u ∈ stack → u.stop < p

section Stacked

variable {s : Subject} {copied : Nat → Nat → Prop} {p : Nat} {stack stack' : List Slot}

theorem stacked_nil : Stacked s copied p [] :=
  ⟨Ordered.nil, nofun⟩

/-- A stack stays in order behind an instruction that leaves it alone. -/
theorem Stacked.succ (h : Stacked s copied p stack) : Stacked s copied (p + 1) stack :=
  ⟨h.ordered.mono (Nat.le_succ p), fun u hu => Nat.lt_succ_of_lt (h.stop_lt u hu)⟩

theorem Stacked.unknowns (h : Stacked s copied p stack) (k : Nat) :
    Stacked s copied p (List.replicate k .unknown ++ stack) := by
  induction k with
  | zero => exact h
  | succ k ih =>
      refine ⟨Ordered.unknown ih.ordered, fun u hu => ?_⟩
      rcases List.mem_cons.mp hu with hu | hu
      · cases hu
      · exact ih.stop_lt u hu

-- And when slots are dropped.
theorem Stacked.drop (h : Stacked s copied p stack) (hp : s.IsReal p) (n : Nat) :
    Stacked s copied (p + 1) (stack.drop n) := by
  refine ⟨h.ordered.drop hp (Nat.le_refl p) n, fun u hu => ?_⟩
  exact Nat.lt_succ_of_lt (h.stop_lt u (List.mem_of_mem_drop hu))

/-- Putting a value on the stack. -/
theorem Ordered.onStack {b : Nat} {f : Fold} {rest : List Slot} (hf : Spread s f.start b [f])
    (h : Ordered s copied f.start rest) : Ordered s copied b (JvmFold.onStack f rest) := by
  rw [JvmFold.onStack]
  split
  next hw =>
    exact Ordered.wide hw hf h
  next hw =>
    exact Ordered.narrow (Or.inl hw) hf h

/-- A value that is pushed is no object in the making. -/
theorem mem_onStack {f : Fold} {rest : List Slot} {u : Uninitialized}
    (h : .uninitialized u ∈ onStack f rest) : .uninitialized u ∈ rest := by
  rw [onStack] at h
  split at h
  · simpa using h
  · simpa using h

/-- A constructor is called on one of two references to an object that lie on each other. Below them
    nothing refers to the object. -/
structure Constructing (s : Subject) (copied : Nat → Nat → Prop) (p : Nat) (ws : List Nat)
    (stack : List Slot) (u : Uninitialized) (fs : List Fold) (below : List Slot) : Prop where
  pops : Pops ws stack (fs.map .known) (.uninitialized u :: .uninitialized u :: below) []
  newAt : s.NewAt u.start
  copy : copied u.start u.stop
  start_lt : u.start < u.stop
  stop_lt : u.stop < p
  spread : Spread s u.start p fs
  ordered : Ordered s copied u.start below
  not_mem : .uninitialized u ∉ below

/-- Where a reference to the object is left behind a constructor call, it is the copy of the one
    that the constructor has taken. -/
theorem Pops.constructing {w : Nat} {ws : List Nat} {u : Uninitialized} {fs : List Fold}
    {rest : List Slot} (hpops : Pops (w :: ws) stack (.uninitialized u :: fs.map .known) rest [])
    (h : Ordered s copied p stack) (hp : s.IsReal p) (hu : Analysis.holds u rest = true) :
    ∃ below, rest = .uninitialized u :: below ∧ Constructing s copied p ws stack u fs below := by
  rcases hpops.object with ⟨lost, hargs⟩
  have heq : lost = [] := hargs.lost_eq_nil rfl
  subst heq
  rcases hargs.ordered h hp with ⟨start, _, hle, _, hfs, hmid⟩
  rcases hmid.copy_of_mem (mem_of_holds hu) with
    ⟨below, rfl, hnew, hcopied, hlt, hstop, hnot, hbelow⟩
  exact ⟨below, rfl, hargs, hnew, hcopied, hlt, by omega, hfs.mono (by omega) (Nat.le_refl p),
    hbelow, hnot⟩

section Constructing

variable {ws : List Nat} {u : Uninitialized} {fs : List Fold} {below : List Slot}

/-- The value takes the place of the object. -/
theorem Constructing.settle (h : Constructing s copied p ws stack u fs below) (f : Fold) :
    Analysis.settle u (.known f) .unknown (.uninitialized u :: below) = .known f :: below := by
  rw [Analysis.settle, if_pos rfl, settle_eq_self h.not_mem]

/-- What lies below the object has been on the stack. -/
theorem Constructing.exists_drop (h : Constructing s copied p ws stack u fs below) :
    ∃ n, below = stack.drop n := by
  rcases h.pops.perm with ⟨n, hrest, -⟩
  exact ⟨n + 2, by rw [← List.drop_drop, ← hrest]; rfl⟩

end Constructing

/-- Every move keeps the order, if the copies it makes of references are as they should be. -/
theorem Move.stacked {i : Instruction} {lost : List Fold} (hm : Move s p i stack stack' lost)
    (hi : s.code[p]? = some i) (hreal : i.isPseudo = false) (h : Stacked s copied p stack)
    (hc : ∀ u rest, i = .simple .dup → stack = .uninitialized u :: rest → copied u.start p) :
    Stacked s copied (p + 1) stack' := by
  have hp : s.IsReal p := ⟨i, hi, hreal⟩
  cases hm with
  | lose n k _ => exact (h.drop hp n).unknowns k
  | forget n u _ =>
      have hdrop := h.drop hp n
      rw [settle_unknown]
      exact ⟨hdrop.ordered.without u, fun v hv => hdrop.stop_lt v (mem_of_mem_without hv)⟩
  | @make _ ws _ rest fs f _ hpops _ hf =>
      rcases hpops.ordered h.ordered hp with ⟨start, hstart, hle, hsreal, hfs, hrest⟩
      rw [hstart] at hf
      have hspread := hf.spread hsreal hle hfs
      rw [← hf.start_eq] at hspread hrest
      refine ⟨hrest.onStack hspread, fun u hu => ?_⟩
      exact Nat.lt_succ_of_lt (h.stop_lt u (hpops.mem_of_mem_rest (mem_onStack hu)))
  | create =>
      -- Every object on the stack was there before the position, so this one is new.
      have hnot : .uninitialized ⟨p, p⟩ ∉ stack := fun hmem => Nat.lt_irrefl p (h.stop_lt _ hmem)
      refine ⟨Ordered.single ⟨_, hi⟩ (Nat.le_succ p) hnot h.ordered, fun u hu => ?_⟩
      rcases List.mem_cons.mp hu with hu | hu
      · cases hu
        exact Nat.lt_succ_self p
      · exact Nat.lt_succ_of_lt (h.stop_lt u hu)
  | @copy u rest =>
      have hstop := h.stop_lt u List.mem_cons_self
      have hnot : .uninitialized ⟨u.start, p⟩ ∉ rest := fun hmem =>
        Nat.lt_irrefl p (h.stop_lt _ (List.mem_cons_of_mem _ hmem))
      rcases h.ordered.object with ⟨hn, hle, hrest⟩
      -- The object starts at a `new`, and the instruction here is a `dup`.
      have hne : u.start ≠ p := by
        intro heq
        rcases hn with ⟨name, hname⟩
        rw [heq, hi] at hname
        cases hname
      have hlt : u.start < p := by omega
      refine ⟨Ordered.copy hn (hc u rest rfl rfl) hlt (Nat.lt_succ_self p) hnot hrest, ?_⟩
      intro v hv
      rcases List.mem_cons.mp hv with hv | hv
      · cases hv
        exact Nat.lt_succ_self p
      · rcases List.mem_cons.mp hv with hv | hv
        · cases hv
          exact Nat.lt_succ_self p
        · exact Nat.lt_succ_of_lt (h.stop_lt v (List.mem_cons_of_mem _ hv))
  | @build m isInterface type _ rest u fs f hctor _ _ hpops _ hu hf =>
      rcases hpops.constructing h.ordered hp hu with ⟨below, rfl, hbelow⟩
      have hlt := hbelow.start_lt
      have hstop := hbelow.stop_lt
      have hspread := hf.spread hbelow.newAt.isReal (by omega) hbelow.spread
      have hordered := hbelow.ordered
      rw [← hf.start_eq] at hspread hordered
      have hbuilds : s.BuildsAt f.stop := by
        rw [hf.stop_eq]
        exact ⟨m, isInterface, hi, hctor⟩
      rw [hbelow.settle]
      refine ⟨Ordered.narrow (Or.inr hbuilds) hspread hordered, fun v hv => ?_⟩
      rcases List.mem_cons.mp hv with hv | hv
      · cases hv
      · rcases hbelow.exists_drop with ⟨n, hn⟩
        rw [hn] at hv
        exact Nat.lt_succ_of_lt (h.stop_lt v (List.mem_of_mem_drop hv))

end Stacked

end JvmFold
