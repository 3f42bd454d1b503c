import JvmFold.Proofs.Analysis.Recorded
import JvmFold.Proofs.Analysis.Stack

/-!
# Where Replacements Overlap

Replacements are meant to be spliced into a body, and spans that overlap
cannot both be replaced. The spans of an analysis are apart with one
exception. A constructor makes a value of all that stands between the
instruction that made the object and the call, and the analysis checks that
nothing else stands there only from the last copy of the reference on. What
stands between the object and that copy can have been written back by then.

The exception is exact: the spans are pairwise apart if and only if no span
holds another one between a `new` and a `dup` of the object that it made. In
code where every `dup` of such an object stands right behind its `new` there
is nothing in between.

`Fits` is the invariant. It says of a replacement that was decided what must
not happen to it later: that a value of the stack is written back around it,
and that an object of the stack is initialized around it.

## Main definitions

* `Replacement.Gapped`: A span around another one, between an object and a copy of it.
* `Fits`: A replacement and the stack that was there when it was decided.
* `Settled`: The state of an analysis in front of a position.
* `Analysis.Copies`: The positions at which references are copied.

## Theorems

* `cover`: What stands in front of a call and is in none of its operands.
* `Move.fits`: A replacement that was decided fits every later stack.
* `before_settled`: The invariant holds in front of every position.
* `replacements_apart_iff`: When the replacements of a body are apart.
* `replacements_overlap`: A body with replacements that are not.
-/

namespace JvmFold

/-- A span around another one, between the position that made an object and one that copied the
    reference to it. -/
def Replacement.Gapped (copied : Nat → Nat → Prop) (a b : Replacement) : Prop :=
  ∃ x y, copied x y ∧ a.start ≤ x ∧ x ≤ b.start ∧ b.stop < y ∧ y < a.stop

/-- A wider span around a gap has the gap as well. -/
theorem Replacement.Gapped.widen {copied : Nat → Nat → Prop} {a a' b : Replacement}
    (h : a.Gapped copied b) (hstart : a'.start ≤ a.start) (hstop : a.stop ≤ a'.stop) :
    a'.Gapped copied b := by
  rcases h with ⟨x, y, hc, hx, hxb, hby, hy⟩
  exact ⟨x, y, hc, by omega, hxb, hby, by omega⟩

/-- A reference on the stack with a copy right below it. -/
def CopiedIn (u : Uninitialized) (stack : List Slot) : Prop :=
  ∃ n, stack[n]? = some (.uninitialized u) ∧ stack[n + 1]? = some (.uninitialized u)

section CopiedIn

variable {u v : Uninitialized} {slot : Slot} {stack : List Slot}

theorem CopiedIn.of_drop {n : Nat} (h : CopiedIn u (stack.drop n)) : CopiedIn u stack := by
  rcases h with ⟨k, hk, hk'⟩
  rw [List.getElem?_drop] at hk hk'
  exact ⟨n + k, hk, hk'⟩

/-- An object that is copied behind the removal of another was so before. -/
theorem CopiedIn.of_without (h : CopiedIn v (stack.map (Slot.without u))) : CopiedIn v stack := by
  rcases h with ⟨k, hk, hk'⟩
  rw [List.getElem?_map, Option.map_eq_some_iff] at hk hk'
  rcases hk with ⟨a, ha, hav⟩
  rcases hk' with ⟨b, hb, hbv⟩
  rw [eq_of_without hav] at ha
  rw [eq_of_without hbv] at hb
  exact ⟨k, ha, hb⟩

/-- An object is copied if it is on top and once more below, or copied below. -/
theorem copiedIn_cons (h : CopiedIn u (slot :: stack)) :
    (slot = .uninitialized u ∧ .uninitialized u ∈ stack) ∨ CopiedIn u stack := by
  rcases h with ⟨k, hk, hk'⟩
  cases k with
  | zero =>
      refine Or.inl ⟨?_, ?_⟩
      · simpa using hk
      · exact List.mem_of_getElem? hk'
  | succ k => exact Or.inr ⟨k, hk, hk'⟩

theorem not_copiedIn_nil : ¬ CopiedIn u [] := by
  rintro ⟨k, hk, _⟩
  cases hk

end CopiedIn

/-- The objects of a stack were made no later than a position, and the references with a copy were
    copied in front of it. -/
structure Below (c : Nat) (stack : List Slot) : Prop where
  start_le : ∀ u, .uninitialized u ∈ stack → u.start ≤ c
  stop_lt : ∀ u, CopiedIn u stack → u.stop < c

section Below

variable {s : Subject} {copied : Nat → Nat → Prop} {b c : Nat} {stack : List Slot}

theorem below_nil : Below c [] :=
  ⟨nofun, fun _ hu => absurd hu not_copiedIn_nil⟩

/-- What ends below a bound ends below a greater one. -/
theorem Below.mono (h : Below b stack) (hle : b ≤ c) : Below c stack :=
  ⟨fun u hu => Nat.le_trans (h.start_le u hu) hle,
    fun u hu => Nat.lt_of_lt_of_le (h.stop_lt u hu) hle⟩

theorem Below.drop (h : Below c stack) (n : Nat) : Below c (stack.drop n) :=
  ⟨fun u hu => h.start_le u (List.mem_of_mem_drop hu), fun u hu => h.stop_lt u hu.of_drop⟩

/-- A slot that is no reference leaves the objects as they are. -/
theorem Below.cons {slot : Slot} (h : Below c stack) (hs : ∀ u, slot ≠ .uninitialized u) :
    Below c (slot :: stack) := by
  refine ⟨fun u hu => ?_, fun u hu => ?_⟩
  · rcases List.mem_cons.mp hu with hu | hu
    · exact absurd hu.symm (hs u)
    · exact h.start_le u hu
  · rcases copiedIn_cons hu with ⟨hu, _⟩ | hu
    · exact absurd hu (hs u)
    · exact h.stop_lt u hu

/-- A reference without a copy counts only for where its object was made. -/
theorem Below.single {u : Uninitialized} (h : Below u.start stack) (hu : .uninitialized u ∉ stack)
    (hle : u.start ≤ c) : Below c (.uninitialized u :: stack) := by
  refine ⟨fun v hv => ?_, fun v hv => ?_⟩
  · rcases List.mem_cons.mp hv with hv | hv
    · cases hv
      exact hle
    · exact (h.mono hle).start_le v hv
  · rcases copiedIn_cons hv with ⟨hv, hmem⟩ | hv
    · cases hv
      exact absurd hmem hu
    · exact (h.mono hle).stop_lt v hv

/-- The objects of an ordered stack come before the bound. -/
theorem Ordered.objects (h : Ordered s copied b stack) : Below b stack := by
  induction h with
  | nil => exact below_nil
  | unknown _ ih => exact ih.cons (by simp)
  | narrow _ hf _ ih =>
      have hself := hf.self
      exact (ih.mono (by omega)).cons (by simp)
  | wide _ hf _ ih =>
      have hself := hf.self
      exact ((ih.mono (by omega)).cons (by simp)).cons (by simp)
  | lone _ hf _ ih =>
      have hself := hf.self
      exact (ih.mono (by omega)).cons (by simp)
  | @copy b u rest _ _ hlt hb hu _ ih =>
      -- The two slots are the same object, so the second one adds nothing.
      have hsingle := ih.single hu (Nat.le_refl u.start)
      refine ⟨fun v hv => ?_, fun v hv => ?_⟩
      · rcases List.mem_cons.mp hv with hv | hv
        · cases hv
          omega
        · exact (hsingle.mono (by omega)).start_le v hv
      · rcases copiedIn_cons hv with ⟨hv, _⟩ | hv
        · cases hv
          exact hb
        · exact (hsingle.mono (by omega)).stop_lt v hv
  | single _ hb hu _ ih => exact ih.single hu hb

/-- What comes of a value stands behind the objects that lie below it. -/
theorem below_of_emits_cons {f : Fold} {rest : List Slot} {n : Nat} {new : List Replacement}
    {r : Replacement} (hf : Spread s f.start b [f]) (hrest : Ordered s copied f.start rest)
    (ih : ∀ {new : List Replacement}, Emits (knownIn (rest.take n)) new → r ∈ new →
      Below r.start (rest.drop n))
    (he : Emits (knownIn (.known f :: rest.take n)) new) (hr : r ∈ new) :
    Below r.start (rest.drop n) := by
  change Emits ([f] ++ knownIn (rest.take n)) new at he
  rcases he.split with ⟨m, m', rfl, hm, hm'⟩
  rcases List.mem_append.mp hr with hr | hr
  · exact (hrest.objects.drop n).mono ((hf m hm).1 r hr).low_le
  · exact ih hm' hr

/-- What comes of values stands behind the objects that lie below all of them. -/
theorem Ordered.below_of_emits {n : Nat} {new : List Replacement} {r : Replacement}
    (h : Ordered s copied b stack) (he : Emits (knownIn (stack.take n)) new) (hr : r ∈ new) :
    Below r.start (stack.drop n) := by
  induction h generalizing n new with
  | nil =>
      rw [List.drop_nil]
      exact below_nil
  | unknown _ ih =>
      cases n with
      | zero => cases he; cases hr
      | succ n => exact ih he hr
  | narrow _ hf hrest ih =>
      cases n with
      | zero => cases he; cases hr
      | succ n =>
          rw [List.take_succ_cons] at he
          rw [List.drop_succ_cons]
          exact below_of_emits_cons hf hrest ih he hr
  | wide _ hf hrest ih =>
      cases n with
      | zero => cases he; cases hr
      | succ n =>
          cases n with
          | zero => cases he; cases hr
          | succ n =>
              rw [List.take_succ_cons, List.take_succ_cons] at he
              rw [List.drop_succ_cons, List.drop_succ_cons]
              -- Both slots of the value are taken, so it is among those that are given up.
              exact below_of_emits_cons hf hrest ih he hr
  | lone _ hf hrest ih =>
      cases n with
      | zero => cases he; cases hr
      | succ n =>
          rw [List.take_succ_cons] at he
          rw [List.drop_succ_cons]
          exact below_of_emits_cons hf hrest ih he hr
  | copy _ _ _ _ _ _ ih =>
      cases n with
      | zero => cases he; cases hr
      | succ n =>
          cases n with
          | zero => cases he; cases hr
          | succ n => exact ih he hr
  | single _ _ _ _ ih =>
      cases n with
      | zero => cases he; cases hr
      | succ n => exact ih he hr

end Below

/-- What comes later is apart from a replacement or has it in a gap. -/
def Replacement.Clear (copied : Nat → Nat → Prop) (r later : Replacement) : Prop :=
  r.Apart later ∨ later.Gapped copied r

/-- A replacement that was decided, and a stack that comes later: its values have the replacement
    in no span but for gaps, no object was made inside the replacement, and no reference with a
    copy was copied there. -/
structure Fits (copied : Nat → Nat → Prop) (r : Replacement) (stack : List Slot) : Prop where
  values : ∀ new, Emits (knownIn stack) new → ∀ a ∈ new, r.Clear copied a
  objects : ∀ u, .uninitialized u ∈ stack → r.stop < u.start ∨ u.start ≤ r.start
  copies : ∀ u, CopiedIn u stack → r.stop < u.stop ∨ u.stop < r.start

section Fits

variable {s : Subject} {copied : Nat → Nat → Prop} {p : Nat} {r : Replacement}
variable {stack stack' rest : List Slot} {f : Fold} {fs : List Fold}

/-- A slot that is not known fits everywhere. -/
theorem Fits.cons_unknown (h : Fits copied r stack) : Fits copied r (.unknown :: stack) := by
  refine ⟨h.values, fun u hu => ?_, fun u hu => ?_⟩
  · rcases List.mem_cons.mp hu with hu | hu
    · cases hu
    · exact h.objects u hu
  · rcases copiedIn_cons hu with ⟨hu, _⟩ | hu
    · cases hu
    · exact h.copies u hu

theorem Fits.unknowns (h : Fits copied r stack) (k : Nat) :
    Fits copied r (List.replicate k .unknown ++ stack) := by
  induction k with
  | zero => exact h
  | succ k ih => exact ih.cons_unknown

theorem Fits.drop (h : Fits copied r stack) (n : Nat) : Fits copied r (stack.drop n) := by
  refine ⟨fun new hnew => ?_, fun u hu => h.objects u (List.mem_of_mem_drop hu),
    fun u hu => h.copies u hu.of_drop⟩
  refine h.values new ?_
  rw [← List.take_append_drop n stack, knownIn_append]
  exact (emits_nothing _).append hnew

/-- A stack without an object fits where the stack did. -/
theorem Fits.without (h : Fits copied r stack) (u : Uninitialized) :
    Fits copied r (stack.map (Slot.without u)) := by
  refine ⟨?_, fun v hv => h.objects v (mem_of_mem_without hv),
    fun v hv => h.copies v hv.of_without⟩
  rw [knownIn_without]
  exact h.values

/-- What comes of operands comes of the stack they were taken from. -/
theorem Fits.operands {ws : List Nat} (h : Fits copied r stack)
    (hp : Pops ws stack (fs.map .known) rest []) {new : List Replacement} (he : Emits fs new) :
    ∀ a ∈ new, r.Clear copied a := by
  have hall := he.append (emits_nothing (knownIn rest))
  rw [List.append_nil] at hall
  rcases hall.perm hp.operands_perm with ⟨new', hnew, he'⟩
  exact fun a ha => h.values new' he' a (hnew.mem_iff.mp ha)

/-- What stands between a position and a call and is in none of the operands of the call, which
    follow each other from the position on, is not there. -/
theorem cover {cursor : Nat} (hc : s.isContiguous p (some cursor) fs = true)
    (hr : r.Within s 0 p) (hcursor : cursor ≤ r.start) :
    ∃ g ∈ fs, g.start ≤ r.start ∧ r.start ≤ g.stop := by
  induction fs generalizing cursor with
  | nil =>
      rw [Subject.isContiguous, Option.all_some, beq_iff_eq] at hc
      have hstop := hr.stop_lt
      have hstart := hr.start_le
      omega
  | cons g rest ih =>
      rw [Subject.isContiguous, Option.all_some, Bool.and_eq_true, beq_iff_eq] at hc
      rcases hc with ⟨hstart, hrest⟩
      -- Either it starts in this operand, or the next one starts at or in front of it.
      by_cases hg : r.start ≤ g.stop
      · exact ⟨g, List.mem_cons_self, by omega, hg⟩
      · have hnext : s.nextReal (g.stop + 1) ≤ r.start := Subject.nextReal_le hr.isReal (by omega)
        rcases ih hrest hnext with ⟨g', hmem, hin⟩
        exact ⟨g', List.mem_cons_of_mem _ hmem, hin⟩

/-- A replacement that starts among the operands of a new value is in a gap of one of them, and so
    of the value. -/
theorem Spans.clear {start cursor : Nat} (hf : Spans start p fs f)
    (hc : s.isContiguous p (some cursor) fs = true) (hr : r.Within s 0 p)
    (hcursor : cursor ≤ r.start) (hfs : ∀ g ∈ fs, start ≤ g.start ∧ g.stop ≤ p)
    (hclear : ∀ g ∈ fs, r.Clear copied ⟨g.start, g.stop, [], g.value.slots⟩)
    (code : List Instruction) (slots : Nat) :
    r.Clear copied ⟨f.start, f.stop, code, slots⟩ := by
  -- The replacement lies in the row of operands, so one of them spans it.
  rcases cover hc hr hcursor with ⟨g, hg, hle, hle'⟩
  rcases hfs g hg with ⟨hlow, hhigh⟩
  have hstart := hr.start_le
  rcases hclear g hg with hapart | hgap
  · rcases hapart with h | h
    · exact absurd h (by simp only; omega)
    · exact absurd h (by simp only; omega)
  · refine Or.inr (hgap.widen ?_ ?_)
    · rw [hf.start_eq]
      exact hlow
    · rw [hf.stop_eq]
      exact hhigh

/-- What comes of a new value fits, if its own span does. -/
theorem Spans.fits {ws : List Nat} {start : Nat} (hf : Spans start p fs f)
    (h : Fits copied r stack) (hp : Pops ws stack (fs.map .known) rest [])
    (hself : ∀ code, r.Clear copied ⟨f.start, f.stop, code, f.value.slots⟩) :
    ∀ new, Emits [f] new → ∀ a ∈ new, r.Clear copied a := by
  intro new hnew
  rcases hnew.of_singleton with rfl | ⟨code, rfl⟩ | hchildren
  · exact nofun
  · intro a ha
    rw [List.mem_singleton] at ha
    rw [ha]
    exact hself code
  · rcases hf.children_eq with ⟨stale, _, hstale⟩
    rw [hstale] at hchildren
    exact h.operands hp hchildren.of_stale

/-- Putting a value on a stack. -/
theorem Fits.cons_known (h : Fits copied r rest)
    (hf : ∀ new, Emits [f] new → ∀ a ∈ new, r.Clear copied a) :
    Fits copied r (.known f :: rest) := by
  refine ⟨fun new hnew a ha => ?_, fun u hu => ?_, fun u hu => ?_⟩
  · change Emits ([f] ++ knownIn rest) new at hnew
    rcases hnew.split with ⟨n, n', rfl, hn, hn'⟩
    rcases List.mem_append.mp ha with ha | ha
    · exact hf n hn a ha
    · exact h.values n' hn' a ha
  · rcases List.mem_cons.mp hu with hu | hu
    · cases hu
    · exact h.objects u hu
  · rcases copiedIn_cons hu with ⟨hu, _⟩ | hu
    · cases hu
    · exact h.copies u hu

/-- A stack fits with one more value if what that comes to is clear. -/
theorem Fits.onStack (h : Fits copied r rest)
    (hf : ∀ new, Emits [f] new → ∀ a ∈ new, r.Clear copied a) :
    Fits copied r (JvmFold.onStack f rest) := by
  have hknown := h.cons_known hf
  rw [JvmFold.onStack]
  split
  · refine ⟨hknown.values, fun u hu => ?_, fun u hu => ?_⟩
    · rcases List.mem_cons.mp hu with hu | hu
      · cases hu
      · exact hknown.objects u hu
    · rcases copiedIn_cons hu with ⟨hu, _⟩ | hu
      · cases hu
      · exact hknown.copies u hu
  · exact hknown

/-- A value that is made from its operands has no replacement in its span but for gaps. -/
theorem clear_of_make {ws : List Nat} (h : Fits copied r stack) (hr : r.Within s 0 p)
    (hst : Ordered s copied p stack) (hreal : s.IsReal p)
    (hp : Pops ws stack (fs.map .known) rest []) (hc : s.isContiguous p none fs = true)
    (hf : Spans ((fs.head?.map Fold.start).getD p) p fs f) (code : List Instruction) :
    r.Clear copied ⟨f.start, f.stop, code, f.value.slots⟩ := by
  rcases hp.ordered hst hreal with ⟨start, hstart, hle, _, hfs, _⟩
  have hclear : ∀ g ∈ fs, r.Clear copied ⟨g.start, g.stop, [], g.value.slots⟩ := by
    intro g hg
    exact h.operands hp (emits_member hg) _ List.mem_cons_self
  -- The operands stand between the start of the span and the instruction.
  have hin : ∀ g ∈ fs, start ≤ g.start ∧ g.stop ≤ p := by
    intro g hg
    have hw := (hfs _ (emits_member hg)).1 _ List.mem_cons_self
    exact ⟨hw.low_le, Nat.le_of_lt hw.stop_lt⟩
  rw [hstart] at hf
  by_cases hcursor : start ≤ r.start
  · have hsome := isContiguous_some hc
    rw [hstart] at hsome
    exact hf.clear hsome hr hcursor hin hclear code _
  · -- It starts in front of the first operand, and so it ends there.
    refine Or.inl (Or.inl ?_)
    change r.stop < f.start
    rw [hf.start_eq]
    cases fs with
    | nil =>
        have hstop := hr.stop_lt
        rw [← hstart]
        exact hstop
    | cons g rest =>
        have hg : g.start = start := hstart
        have hself := hin g List.mem_cons_self
        have hspan := (hfs _ (emits_member List.mem_cons_self)).1 _ List.mem_cons_self
        have hle' := hspan.start_le
        -- It is in front of the operand: neither behind it nor in a gap of it.
        rcases hclear g List.mem_cons_self with hapart | hgap
        · rcases hapart with hlt | hlt
          · simp only at hlt
            omega
          · simp only at hlt hle'
            omega
        · rcases hgap with ⟨x, y, _, hx, hxr, _, _⟩
          simp only at hx
          omega

/-- A value that a constructor makes has no replacement in its span but for gaps: what stands
    between the object and the last copy of the reference is in one, and the operands follow. -/
theorem clear_of_build {ws : List Nat} {u : Uninitialized} {below : List Slot}
    (h : Fits copied r stack) (hr : r.Within s 0 p) (hst : Ordered s copied p stack)
    (hreal : s.IsReal p)
    (hp : Pops ws stack (fs.map .known) (.uninitialized u :: .uninitialized u :: below) [])
    (hc : s.isContiguous p (some (s.nextReal (u.stop + 1))) fs = true) (hu : copied u.start u.stop)
    (hf : Spans u.start p fs f) (code : List Instruction) :
    r.Clear copied ⟨f.start, f.stop, code, f.value.slots⟩ := by
  rcases hp.ordered hst hreal with ⟨start, _, hle, _, hfs, hmid⟩
  have hlt := hmid.objects.stop_lt u ⟨0, rfl, rfl⟩
  have hnew := hmid.objects.start_le u List.mem_cons_self
  have hfit : Fits copied r (.uninitialized u :: .uninitialized u :: below) := by
    rcases hp.perm with ⟨n, hrest, _⟩
    rw [hrest]
    exact h.drop n
  rcases hfit.objects u List.mem_cons_self with hout | hin
  · refine Or.inl (Or.inl ?_)
    change r.stop < f.start
    rw [hf.start_eq]
    exact hout
  · rcases hfit.copies u ⟨0, rfl, rfl⟩ with hgap | hbehind
    · -- Between the object and the last copy nothing can be but what is in the gap.
      refine Or.inr ⟨u.start, u.stop, hu, ?_, hin, hgap, ?_⟩
      · exact Nat.le_of_eq hf.start_eq
      · change u.stop < f.stop
        rw [hf.stop_eq]
        omega
    · -- Behind the last copy the operands follow without a gap.
      have hnext : s.nextReal (u.stop + 1) ≤ r.start := Subject.nextReal_le hr.isReal (by omega)
      refine hf.clear hc hr hnext ?_ ?_ code _
      · intro g hg
        have hw := (hfs _ (emits_member hg)).1 _ List.mem_cons_self
        have hlow := hw.low_le
        have hhigh := hw.stop_lt
        simp only at hlow hhigh
        omega
      · intro g hg
        exact h.operands hp (emits_member hg) _ List.mem_cons_self

/-- A replacement that was decided fits every later stack. -/
theorem Move.fits {i : Instruction} {lost : List Fold} (hm : Move s p i stack stack' lost)
    (hreal : s.IsReal p) (hst : Stacked s copied p stack) (hr : r.Within s 0 p)
    (h : Fits copied r stack) : Fits copied r stack' := by
  cases hm with
  | lose n k _ => exact (h.drop n).unknowns k
  | forget n u _ =>
      rw [settle_unknown]
      exact (h.drop n).without u
  | @make _ ws _ rest fs f _ hpops hc hf =>
      have hrest : Fits copied r rest := by
        rcases hpops.perm with ⟨n, hrest, _⟩
        rw [hrest]
        exact h.drop n
      -- Only the span of the new value could meet what was decided before.
      exact hrest.onStack (hf.fits h hpops (clear_of_make h hr hst.ordered hreal hpops hc hf))
  | create =>
      -- A new object starts here, behind everything that was decided.
      have hstop := hr.stop_lt
      refine ⟨h.values, fun u hu => ?_, fun u hu => ?_⟩
      · rcases List.mem_cons.mp hu with hu | hu
        · cases hu
          exact Or.inl hstop
        · exact h.objects u hu
      · rcases copiedIn_cons hu with ⟨hu, _⟩ | hu
        · cases hu
          exact Or.inl hstop
        · exact h.copies u hu
  | @copy u rest =>
      have hstop := hr.stop_lt
      refine ⟨h.values, fun v hv => ?_, fun v hv => ?_⟩
      · simp only [List.mem_cons, Slot.uninitialized.injEq] at hv
        rcases hv with rfl | rfl | hv
        · exact h.objects u List.mem_cons_self
        · exact h.objects u List.mem_cons_self
        · exact h.objects v (List.mem_cons_of_mem _ hv)
      · rcases copiedIn_cons hv with ⟨hv, _⟩ | hv
        · cases hv
          exact Or.inl hstop
        · rcases copiedIn_cons hv with ⟨hv, _⟩ | hv
          · cases hv
            exact Or.inl hstop
          · exact (h.drop 1).copies v hv
  | @build m isInterface type _ rest u fs f _ _ _ hpops hc hu hf =>
      rcases hpops.constructing hst.ordered hreal hu with ⟨below, rfl, hbuilt⟩
      -- Below the two entries of the object nothing is new.
      have hbelow : Fits copied r below := by
        rcases hbuilt.exists_drop with ⟨n, hn⟩
        rw [hn]
        exact h.drop n
      rw [hbuilt.settle]
      refine hbelow.cons_known (hf.fits h hbuilt.pops ?_)
      exact clear_of_build h hr hst.ordered hreal hbuilt.pops hc hbuilt.copy hf

/-- A replacement that is decided now fits the stack that is left: it comes of values that lay on
    all of it. -/
theorem fits_of_emits {n : Nat} {new : List Replacement} (hst : Ordered s copied p stack)
    (he : Emits (knownIn (stack.take n)) new) (hr : r ∈ new) : Fits copied r (stack.drop n) := by
  have hbelow := hst.below_of_emits he hr
  refine ⟨fun later hlater a ha => ?_, fun u hu => Or.inr (hbelow.start_le u hu),
    fun u hu => Or.inr (hbelow.stop_lt u hu)⟩
  have hall := he.append hlater
  rw [← knownIn_append, List.take_append_drop] at hall
  have hpair := (hst.spread _ hall).2
  exact Or.inl ((List.pairwise_append.mp hpair).2.2 r hr a ha)

end Fits

/-- The state of an analysis in front of a position: the replacements are in front of it, those
    that were decided later clear of those that were decided earlier, and they fit the stack. -/
structure Settled (s : Subject) (copied : Nat → Nat → Prop) (p : Nat) (t : Tracker) : Prop where
  within : ∀ r ∈ t.replacements.toList, r.Within s 0 p
  clear : t.replacements.toList.Pairwise (Replacement.Clear copied)
  fits : ∀ r ∈ t.replacements.toList, Fits copied r t.stack

section Settled

variable {s : Subject} {copied : Nat → Nat → Prop} {p : Nat} {t t' : Tracker}

theorem Replacement.Within.succ {r : Replacement} (h : r.Within s 0 p) : r.Within s 0 (p + 1) :=
  ⟨h.low_le, h.start_le, Nat.lt_succ_of_lt h.stop_lt, h.isReal⟩

/-- Values that are given up add replacements that are clear of those that are there. -/
theorem Settled.wrote {n : Nat} {lost : List Fold} (h : Settled s copied p t)
    (hst : Ordered s copied p t.stack) (hlost : lost.Perm (knownIn (t.stack.take n)))
    (hw : Wrote t lost t') :
    (∀ r ∈ t'.replacements.toList, r.Within s 0 p) ∧
      t'.replacements.toList.Pairwise (Replacement.Clear copied) ∧
      ∀ r ∈ t'.replacements.toList,
        r ∈ t.replacements.toList ∨ Fits copied r (t.stack.drop n) := by
  rcases hw with ⟨new, he, _, hr⟩
  rcases he.perm hlost with ⟨new', hnew, he'⟩
  -- All of the stack is written back for once, of which the values that are given up are a part.
  have hall := he'.append (emits_nothing (knownIn (t.stack.drop n)))
  rw [← knownIn_append, List.take_append_drop, List.append_nil] at hall
  rcases hst.spread new' hall with ⟨hwithin, hapart⟩
  rw [hr]
  refine ⟨fun r hmem => ?_, List.pairwise_append.mpr ⟨h.clear, ?_, ?_⟩, fun r hmem => ?_⟩
  · rcases List.mem_append.mp hmem with hmem | hmem
    · exact h.within r hmem
    · exact hwithin r (hnew.mem_iff.mp hmem)
  · exact (hapart.perm hnew.symm Replacement.Apart.symm).imp Or.inl
  · intro r hmem a ha
    exact (h.fits r hmem).values new' hall a (hnew.mem_iff.mp ha)
  · rcases List.mem_append.mp hmem with hmem | hmem
    · exact Or.inl hmem
    · exact Or.inr (fits_of_emits hst he' (hnew.mem_iff.mp hmem))

/-- Only a move that takes slots off gives anything up, and of what is left it only forgets. -/
theorem Move.left {i : Instruction} {stack stack' : List Slot} {lost : List Fold}
    (hm : Move s p i stack stack' lost) (copied : Nat → Nat → Prop) :
    lost = [] ∨ ∃ n, lost.Perm (knownIn (stack.take n)) ∧
      ∀ r, Fits copied r (stack.drop n) → Fits copied r stack' := by
  cases hm with
  | lose n k hperm => exact Or.inr ⟨n, hperm, fun r hr => hr.unknowns k⟩
  | forget n u hperm =>
      refine Or.inr ⟨n, hperm, fun r hr => ?_⟩
      rw [settle_unknown]
      exact hr.without u
  | make _ _ _ _ => exact Or.inl rfl
  | create => exact Or.inl rfl
  | copy => exact Or.inl rfl
  | build _ _ _ _ _ _ _ => exact Or.inl rfl

/-- The invariant is carried over every instruction that moves values. -/
theorem Settled.moves {i : Instruction} (h : Settled s copied p t)
    (hst : Stacked s copied p t.stack) (hreal : s.IsReal p) (hm : Analysis.Moves s p i t t') :
    Settled s copied (p + 1) t' := by
  rcases hm with ⟨lost, hmove, hwrote⟩
  have hold : ∀ r ∈ t.replacements.toList, Fits copied r t'.stack := fun r hr =>
    hmove.fits hreal hst (h.within r hr) (h.fits r hr)
  -- A move that gives something up only takes from the stack, so the two cases do not meet.
  rcases hmove.left copied with rfl | ⟨n, hperm, hleft⟩
  · rcases hwrote with ⟨new, he, _, hr⟩
    cases he
    rw [List.append_nil] at hr
    exact ⟨fun r hmem => (h.within r (hr ▸ hmem)).succ, hr ▸ h.clear,
      fun r hmem => hold r (hr ▸ hmem)⟩
  · rcases h.wrote hst.ordered hperm hwrote with ⟨hwithin, hclear, hfits⟩
    refine ⟨fun r hmem => (hwithin r hmem).succ, hclear, fun r hmem => ?_⟩
    rcases hfits r hmem with hmem | hfit
    · exact hold r hmem
    · exact hleft r hfit

/-- At the end of a block all that is known is given up. -/
theorem Settled.clears (h : Settled s copied p t) (hst : Ordered s copied p t.stack)
    (hc : Analysis.Clears t t') : Settled s copied p t' := by
  rcases hc with ⟨hstack, lost, hperm, hwrote⟩
  have hall : lost.Perm (knownIn (t.stack.take t.stack.length)) := by
    rw [List.take_length]
    exact hperm
  rcases h.wrote hst hall hwrote with ⟨hwithin, hclear, _⟩
  refine ⟨hwithin, hclear, fun r _ => ?_⟩
  rw [hstack]
  refine ⟨fun new he => ?_, nofun, fun u hu => absurd hu not_copiedIn_nil⟩
  cases he
  exact nofun

end Settled

/-- The object that an instruction at the first position made is copied at the second one. -/
def Analysis.Copies (s : Subject) (t : Tracker) (env : Env) (m : Machine) (x y : Nat) : Prop :=
  s.code[y]? = some (.simple .dup) ∧
    ∃ u rest, (Analysis.before s t env m y).1.stack = .uninitialized u :: rest ∧ u.start = x

section Runs

variable (s : Subject) (t : Tracker) (env : Env) (m : Machine)

/-- The replacements are in order in front of every position. -/
theorem before_settled {k : Nat} (hk : k ≤ s.code.size) :
    Stacked s (Analysis.Copies s t env m) k (Analysis.before s t env m k).1.stack ∧
      Settled s (Analysis.Copies s t env m) k (Analysis.before s t env m k).1 := by
  refine Analysis.before_invariant s t env m
    (P := fun k u => Stacked s (Analysis.Copies s t env m) k u.stack ∧
      Settled s (Analysis.Copies s t env m) k u) ?_ ?_ ?_ ?_ hk
  · intro u hstack hr
    rw [hstack]
    refine ⟨stacked_nil, ?_, ?_, ?_⟩ <;> rw [hr]
    · exact nofun
    · exact List.Pairwise.nil
    · exact nofun
  · intro k u v h hquiet
    rw [hquiet.1]
    refine ⟨h.1.succ, ?_, ?_, ?_⟩ <;> rw [hquiet.2]
    · exact fun r hr => (h.2.within r hr).succ
    · exact h.2.clear
    · rw [hquiet.1]
      exact h.2.fits
  · intro k i v hi hreal _ h hmoves
    -- A copy of a reference is made by a `dup`, at its own position.
    refine ⟨?_, h.2.moves h.1 ⟨i, hi, hreal⟩ hmoves⟩
    rcases hmoves with ⟨lost, hmove, _⟩
    refine hmove.stacked hi hreal h.1 fun u rest hdup hstack => ?_
    rw [hdup] at hi
    exact ⟨hi, u, rest, hstack, rfl⟩
  · intro k u v h hclears
    refine ⟨?_, h.2.clears h.1.ordered hclears⟩
    rw [hclears.1]
    exact stacked_nil

/-- The replacements of a body lie inside it, and they are pairwise apart if and only if none of
    them holds another one between a `new` and a `dup` of the object that it made. -/
theorem replacements_apart_iff :
    (∀ r ∈ (Analysis.replacements s t env m).1.1, r.start ≤ r.stop ∧ r.stop < s.code.size) ∧
      ((Analysis.replacements s t env m).1.1.Pairwise Replacement.Apart ↔
        ∀ a ∈ (Analysis.replacements s t env m).1.1, ∀ b ∈ (Analysis.replacements s t env m).1.1,
          ¬ a.Gapped (Analysis.Copies s t env m) b) := by
  rcases Analysis.replacements_eq s t env m with ⟨t', hclears, heq⟩
  rcases before_settled s t env m (Nat.le_refl _) with ⟨hstacked, hsettled⟩
  have hend := hsettled.clears hstacked.ordered hclears
  rw [heq]
  refine ⟨fun r hr => ⟨(hend.within r hr).start_le, (hend.within r hr).stop_lt⟩, ?_, ?_⟩
  · intro hapart a ha b hb hgap
    have hspan := (hend.within b hb).start_le
    -- The two stand in the list in one order or the other, and being apart does not ask which.
    have hboth : a.Apart b := by
      rcases List.getElem_of_mem ha with ⟨i, hi, rfl⟩
      rcases List.getElem_of_mem hb with ⟨j, hj, rfl⟩
      have hpair := List.pairwise_iff_getElem.mp hapart
      rcases Nat.lt_trichotomy i j with h | rfl | h
      · exact hpair i j hi hj h
      · rcases hgap with ⟨x, y, _, hx, hxb, hby, hy⟩
        omega
      · exact (hpair j i hj hi h).symm
    rcases hgap with ⟨x, y, _, hx, hxb, hby, hy⟩
    rcases hboth with h | h <;> omega
  · intro hnone
    refine hend.clear.imp_of_mem fun {a b} ha hb hclear => ?_
    rcases hclear with hclear | hgap
    · exact hclear
    · exact absurd hgap (hnone b hb a ha)

end Runs

section Gap

open Recorded

/-- A body that makes an object, calls a method whose value is dropped, and only then copies the
    reference and initializes the object. -/
def gapCode : Array Instruction :=
  #[.typed .new "java/lang/String",
    .invoke .invokestatic ⟨"demo/Made", "seven", "()I"⟩ false,
    .simple .pop,
    .simple .dup,
    .invoke .invokespecial ⟨"java/lang/String", "<init>", "()V"⟩ false,
    .simple .areturn]

/-- The record of its two calls. -/
def gapRecord : Record :=
  ((∅ : Record).insert (site 1 1) (.ok (⟨"demo/Made", "seven", "()I"⟩, .int 7))).insert
    (site 0 4) (.ok (⟨"java/lang/String", "<init>", "()V"⟩, .ref ⟨0⟩))

/-- The call is on record with its answer. -/
theorem gapRecord_call :
    gapRecord[site 1 1]? = some (.ok (⟨"demo/Made", "seven", "()I"⟩, .int 7)) := by
  rw [gapRecord, Std.HashMap.getElem?_insert, if_neg (by decide), Std.HashMap.getElem?_insert_self]

-- So is the construction.
theorem gapRecord_construct :
    gapRecord[site 0 4]?
      = some (.ok (⟨"java/lang/String", "<init>", "()V"⟩, .ref ⟨0⟩)) := by
  rw [gapRecord, Std.HashMap.getElem?_insert_self]

/-- The span of the constructor is around that of the call. -/
theorem gapCode_replacements :
    (Analysis.replacements (subject gapCode) (tracker gapRecord) env machine).1.1
      = [⟨1, 1, [.push .bipush 7], 1⟩, ⟨0, 4, [.ldc (.string "")], 1⟩] := by
  have hnew : Shows gapCode gapRecord 1 [.uninitialized ⟨0, 0⟩] #[] :=
    shows_zero.succ rfl fun _ => ⟨_, rfl⟩
  have hcall : Shows gapCode gapRecord 2
      [.known ⟨.call, 1, 1, .int 7, .int, some ⟨"demo/Made", "seven", "()I"⟩, [], false⟩,
        .uninitialized ⟨0, 0⟩] #[] := by
    have hd : MethodType.parse "()I" = .ok ⟨[], some .int⟩ := by cbv
    exact hnew.succ rfl fun log => ⟨log, Analysis.advance_gives
      (Analysis.invokestatic_gives hd (by decide) gapRecord_call rfl) rfl⟩
  -- The call is written back here, with the object still below it.
  have hpop : Shows gapCode gapRecord 3 [.uninitialized ⟨0, 0⟩] #[⟨1, 1, [.push .bipush 7], 1⟩] :=
    hcall.succ rfl fun _ => ⟨_, rfl⟩
  have hdup : Shows gapCode gapRecord 4 [.uninitialized ⟨0, 3⟩, .uninitialized ⟨0, 3⟩]
      #[⟨1, 1, [.push .bipush 7], 1⟩] := hpop.succ rfl fun _ => ⟨_, rfl⟩
  have hinit : Shows gapCode gapRecord 5
      [.known ⟨.call, 0, 4, .ref ⟨0⟩, .object "java/lang/String",
        some ⟨"java/lang/String", "<init>", "()V"⟩, [], false⟩]
      #[⟨1, 1, [.push .bipush 7], 1⟩] := by
    have hd : MethodType.parse "()V" = .ok ⟨[], none⟩ := by cbv
    have hnext : (subject gapCode).nextReal 4 = 4 := by
      rw [Subject.nextReal]
      rfl
    refine hdup.succ rfl fun log => ⟨log, Analysis.advance_gives ?_ rfl⟩
    exact Analysis.construct_gives (t := state gapRecord log [] _) (w := ⟨0, 3⟩) hd (by decide)
      hnext List.not_mem_nil gapRecord_construct
  have hend : Shows gapCode gapRecord 6 []
      #[⟨1, 1, [.push .bipush 7], 1⟩, ⟨0, 4, [.ldc (.string "")], 1⟩] :=
    hinit.succ rfl fun _ => ⟨_, rfl⟩
  exact hend.replacements_eq

/-- The replacements of that body are not apart. -/
theorem replacements_overlap :
    ¬ (Analysis.replacements (subject gapCode) (tracker gapRecord) env machine).1.1.Pairwise
      Replacement.Apart := by
  rw [gapCode_replacements, List.pairwise_pair]
  rintro (h | h)
  · exact absurd h (by decide)
  · exact absurd h (by decide)

end Gap

end JvmFold
