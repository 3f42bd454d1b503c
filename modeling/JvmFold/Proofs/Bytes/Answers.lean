import JvmFold.Proofs.Bytes.Reading

/-!
# What Readers Answer

Four things that are said about readers beside what they take. A condition
may hold of every answer, whatever the bytes are. A reader may be local, that
is, look at nothing but the bytes that it takes, so it answers the same
wherever these bytes come up again. Its answer may be written as the bytes
that it came from, so no other bytes give it. And the last of several readers
may take bytes that nothing follows, which is where a whole file is read to
its end.

## Main definitions

* `Read.Ensures`: A condition on every answer of a reader.
* `Read.Local`: Readers that look at nothing but the bytes they take.
* `Read.WrittenAs`: Answers that are written as the bytes they came from.
* `Read.Ends`: Reading from bytes that nothing follows.

## Theorems

* `Read.Ensures.bind`, `Read.ensures_repeated`, `Read.ensures_iterated`: Conditions step by step.
* `Read.takes_repeated`: Equal readers one after the other.
* `Read.writtenAs_counted`: A count with as many answers.
* `Read.Takes.ends`, `Read.Ends.parse`: The end of a file.
-/

namespace JvmFold

/-- A second part is not run behind one that fails. -/
theorem bind_of_error {ε σ α β : Type} {m : EStateM ε σ α} {f : α → EStateM ε σ β} {s t : σ}
    {e : ε} (h : m s = .error e t) : (m >>= f) s = .error e t := by
  change EStateM.bind m f s = _
  unfold EStateM.bind
  rw [h]

namespace Bytes

theorem toU64_ofU64 (n : UInt64) : toU64 (n >>> 32).toUInt32 n.toUInt32 = n := by
  apply UInt64.toNat.inj
  have hn : n.toNat < 18446744073709551616 := n.toNat_lt
  simp only [toU64, UInt64.toNat_or, UInt64.toNat_shiftLeft, UInt32.toNat_toUInt64,
    UInt64.toNat_toUInt32, UInt64.toNat_shiftRight]
  change (n.toNat >>> 32 % 4294967296) <<< 32 % 18446744073709551616 ||| n.toNat % 4294967296
    = n.toNat
  rw [Nat.shiftRight_eq_div_pow, Nat.shiftLeft_eq, Nat.mod_eq_of_lt (a := _ * _) (by omega),
    ← Nat.shiftLeft_eq, ← Nat.shiftLeft_add_eq_or_of_lt (Nat.mod_lt _ (by decide)),
    Nat.shiftLeft_eq]
  omega

end Bytes

namespace Read

variable {α β σ : Type} {r : Read α} {w z : Bytes} {v : α}

/-- Every answer meets the condition. -/
def Ensures (r : Read α) (P : α → Prop) : Prop :=
  ∀ c v c', r c = .ok v c' → P v

section Ensures

variable {P Q : α → Prop} {R : β → Prop}

theorem ensures_pure (h : P v) : Ensures (pure v) P := by
  intro c u c' hr
  cases hr
  exact h

/-- A part that fails ensures anything. -/
theorem ensures_throw (e : Error) : Ensures (throw e : Read α) P := by
  intro c u c' hr
  cases hr

theorem ensures_any (r : Read α) : Ensures r fun _ => True :=
  fun _ _ _ _ => trivial

/-- What a part ensures may be used for the part behind it. -/
theorem Ensures.bind {f : α → Read β} (h : Ensures r P) (hf : ∀ a, P a → Ensures (f a) R) :
    Ensures (r >>= f) R := by
  intro c u c' hr
  rcases bind_eq_ok hr with ⟨a, c'', ha, hu⟩
  exact hf a (h _ _ _ ha) _ _ _ hu

/-- What is ensured may be weakened. -/
theorem Ensures.imp (h : Ensures r P) (himp : ∀ a, P a → Q a) : Ensures r Q :=
  fun c a c' hr => himp a (h c a c' hr)

theorem ensures_lift {x : Except Error α} : Ensures (lift x) fun a => x = .ok a :=
  fun _ _ _ h => (lift_eq_ok h).1

/-- As many bytes are split off as were asked for. -/
theorem splitExact_go_length {acc l taken rest : List α} {n : Nat}
    (h : Bytes.splitExact.go acc n l = some (taken, rest)) :
    taken.length = acc.length + n := by
  induction n generalizing acc l with
  | zero =>
      rw [Bytes.splitExact.go] at h
      cases h
      exact List.length_reverse
  | succ n ih =>
      cases l with
      | nil => cases h
      | cons a l =>
          rw [ih h, List.length_cons]
          omega

theorem ensures_bytes (n : Nat) : Ensures (bytes n) fun taken => taken.length = n := by
  intro c taken c' h
  unfold bytes at h
  split at h
  next hsplit =>
    cases h
    rw [splitExact_go_length hsplit, List.length_nil, Nat.zero_add]
  · cases h

/-- Repeated reading gives as many values as asked for, each as one reading ensures it. -/
theorem ensures_repeated (n : Nat) (h : Ensures r P) :
    Ensures (repeated n r) fun l => l.length = n ∧ ∀ a ∈ l, P a := by
  induction n with
  | zero => exact ensures_pure ⟨rfl, fun a ha => absurd ha List.not_mem_nil⟩
  | succ n ih =>
      rw [repeated_succ]
      refine h.bind fun a ha => ih.bind fun l hl => ensures_pure ⟨?_, ?_⟩
      · rw [List.length_cons, hl.1]
      · exact List.forall_mem_cons.2 ⟨ha, hl.2⟩

/-- A condition that every step keeps holds behind all of them. -/
theorem ensures_iterated {step : σ → Read σ} {I : σ → Prop}
    (h : ∀ s, I s → Ensures (step s) I) (n : Nat) {s : σ} (hs : I s) :
    Ensures (iterated step n s) I := by
  induction n generalizing s with
  | zero => exact ensures_pure hs
  | succ n ih => exact (h s hs).bind fun s' hs' => ih hs'

end Ensures

/-- What a local reader answers it takes from the bytes in front of it and from nothing else. -/
class Local (r : Read α) : Prop where
  takes : ∀ {c c' : Cursor} {v : α}, r c = .ok v c' →
    ∃ w, c.rest = w ++ c'.rest ∧ c'.pos = c.pos + w.length ∧ Takes r w v

section Local

instance (v : α) : Local (pure v : Read α) where
  takes h := by
    cases h
    exact ⟨[], rfl, rfl, takes_pure _⟩

instance (e : Error) : Local (throw e : Read α) where
  takes h := by cases h

/-- Two parts that look at nothing behind their bytes do so one after the other. -/
theorem Local.bind {f : α → Read β} (hr : Local r) (hf : ∀ a, Local (f a)) : Local (r >>= f) where
  takes h := by
    rcases bind_eq_ok h with ⟨a, c, ha, hb⟩
    rcases hr.takes ha with ⟨w, hrest, hpos, hw⟩
    rcases (hf a).takes hb with ⟨z, hrest', hpos', hz⟩
    refine ⟨w ++ z, ?_, ?_, hw.bind hz⟩
    · rw [hrest, hrest', List.append_assoc]
    · rw [hpos', hpos, List.length_append, Nat.add_assoc]

instance {f : α → Read β} [Local r] [∀ a, Local (f a)] : Local (r >>= f) :=
  Local.bind inferInstance inferInstance

instance (m : Malformed) : Local (malformed m : Read α) :=
  inferInstanceAs (Local (throw _))

instance (x : Except Error α) : Local (lift x) := by
  unfold lift
  split <;> infer_instance

instance : Local u8 where
  takes {c c' v} h := by
    unfold u8 at h
    split at h
    next b rest hrest =>
      cases h
      exact ⟨[v], hrest, rfl, takes_u8 v⟩
    · cases h

instance : Local u16 where
  takes {c c' v} h := by
    unfold u16 at h
    split at h
    next a b rest hrest =>
      cases h
      exact ⟨[a, b], hrest, rfl, fun _ _ _ => rfl⟩
    · cases h

instance : Local u32 where
  takes {c c' v} h := by
    unfold u32 at h
    split at h
    next a b d e rest hrest =>
      cases h
      exact ⟨[a, b, d, e], hrest, rfl, fun _ _ _ => rfl⟩
    · cases h

instance : Local u64 := by
  unfold u64
  infer_instance

instance : Local i8 := by
  unfold i8
  infer_instance

instance : Local i16 := by
  unfold i16
  infer_instance

instance : Local i32 := by
  unfold i32
  infer_instance

/-- The two parts make up the whole. -/
theorem splitExact_go_append {acc l taken rest : List α} {n : Nat}
    (h : Bytes.splitExact.go acc n l = some (taken, rest)) :
    taken ++ rest = acc.reverse ++ l := by
  induction n generalizing acc l with
  | zero =>
      rw [Bytes.splitExact.go] at h
      cases h
      rfl
  | succ n ih =>
      cases l with
      | nil => cases h
      | cons a l => rw [ih h, List.reverse_cons, List.append_assoc, List.singleton_append]

instance (n : Nat) : Local (bytes n) where
  takes {c c' v} h := by
    have hlength : v.length = n := ensures_bytes n c v c' h
    unfold bytes at h
    split at h
    next taken rest hsplit =>
      cases h
      refine ⟨v, (splitExact_go_append hsplit).symm, by rw [hlength], ?_⟩
      rw [← hlength]
      exact takes_bytes v
    · cases h

instance (n : Nat) : Local (skip n) := by
  unfold skip
  infer_instance

instance : Local lengthPrefixed := by
  unfold lengthPrefixed
  infer_instance

instance {step : σ → Read σ} [∀ s, Local (step s)] (n : Nat) (s : σ) :
    Local (iterated step n s) := by
  induction n generalizing s with
  | zero => exact inferInstanceAs (Local (pure s))
  | succ n ih =>
      unfold iterated
      infer_instance

end Local

/-- Together with a value the bytes that it was read from can be kept. -/
theorem takes_consumed (h : Takes r w v) : Takes (consumed r) w (v, w) := by
  intro data pos rest
  unfold consumed
  rw [h]
  change EStateM.Result.ok (v, (w ++ rest).take (pos + w.length - pos)) _ = _
  rw [Nat.add_sub_cancel_left, List.take_left]

/-- A count in front of what it counts. -/
theorem takes_counted {f : Nat → Read α} {n : Nat} (hn : n ≤ 65535) (h : Takes (f n) w v) :
    Takes (u16 >>= fun k => f k.toNat) (Bytes.ofCount n ++ w) v := by
  have hcount : n.toUInt16.toNat = n := Nat.mod_eq_of_lt (Nat.lt_succ_of_le hn)
  refine (takes_u16 n.toUInt16).bind ?_
  rw [hcount]
  exact h

/-- A number of equal readers takes what each of them takes. -/
theorem takes_repeated {ws : List Bytes} {l : List α}
    (h : List.Forall₂ (fun v w => Takes r w v) l ws) :
    Takes (repeated l.length r) ws.flatten l := by
  induction h with
  | nil => exact takes_pure []
  | @cons a w l ws hv _ ih =>
      rw [List.length_cons, repeated_succ, List.flatten_cons]
      exact hv.bind (ih.map rfl)

theorem takes_u64 (n : UInt64) : Takes u64 (Bytes.ofU64 n) n :=
  (takes_u32 _).bind ((takes_u32 _).map (Bytes.toU64_ofU64 n))

section Skip

variable {m n : Nat} {c c' c'' : Cursor}

/-- Skipping moves the cursor over that many bytes. -/
theorem skip_eq_ok : skip n c = .ok () c' ↔
    ∃ w : Bytes, w.length = n ∧ c.rest = w ++ c'.rest ∧ c' = ⟨c.data, c.pos + n, c'.rest⟩ := by
  constructor
  · intro h
    rcases bind_eq_ok h with ⟨w, c₁, hw, hpure⟩
    cases hpure
    have hlength : w.length = n := ensures_bytes n _ _ _ hw
    unfold bytes at hw
    split at hw
    next hsplit =>
      cases hw
      exact ⟨w, hlength, (splitExact_go_append hsplit).symm, rfl⟩
    · cases hw
  · -- Bytes of that number can be skipped whatever they are.
    rintro ⟨w, hlength, hrest, hc'⟩
    have htakes := takes_skip hlength c.data c.pos c'.rest
    rw [← hrest, hlength, ← hc'] at htakes
    exact htakes

theorem skip_zero (c : Cursor) : skip 0 c = .ok () c :=
  skip_eq_ok.2 ⟨[], rfl, rfl, rfl⟩

/-- Skipping twice is skipping the sum. -/
theorem skip_add (h : skip m c = .ok () c') (h' : skip n c' = .ok () c'') :
    skip (m + n) c = .ok () c'' := by
  rcases skip_eq_ok.1 h with ⟨w, hlength, hrest, hc'⟩
  rcases skip_eq_ok.1 h' with ⟨z, hlength', hrest', hc''⟩
  refine skip_eq_ok.2 ⟨w ++ z, ?_, ?_, ?_⟩
  · rw [List.length_append, hlength, hlength']
  · rw [hrest, hrest', List.append_assoc]
  · rw [hc'', hc', Nat.add_assoc]

end Skip

/-- The answer is written as the bytes that it was read from. -/
def WrittenAs (r : Read α) (f : α → Bytes) : Prop :=
  ∀ c v c', r c = .ok v c' → c.rest = f v ++ c'.rest ∧ c'.pos = c.pos + (f v).length

section WrittenAs

variable {f : α → Bytes}

theorem writtenAs_u16 : WrittenAs u16 Bytes.ofU16 := by
  intro c v c' h
  unfold u16 at h
  split at h
  next a b rest hrest =>
    cases h
    rw [Bytes.ofU16_toU16]
    exact ⟨hrest, rfl⟩
  · cases h

/-- The bytes that a local reader consumed are those that it took. -/
theorem writtenAs_consumed [Local r] : WrittenAs (consumed r) Prod.snd := by
  intro c v c' h
  unfold consumed at h
  split at h
  next a c'' hr =>
    cases h
    rcases Local.takes hr with ⟨w, hrest, hpos, -⟩
    have htaken : c.rest.take (c'.pos - c.pos) = w := by
      rw [hpos, Nat.add_sub_cancel_left, hrest, List.take_left]
    dsimp only
    rw [htaken]
    exact ⟨hrest, hpos⟩
  · cases h

/-- A list of values is written one behind the other. -/
theorem writtenAs_repeated (h : WrittenAs r f) (n : Nat) :
    WrittenAs (repeated n r) (List.flatMap f) := by
  induction n with
  | zero =>
      intro c l c' hr
      cases hr
      simp
  | succ n ih =>
      intro c l c' hr
      rw [repeated_succ] at hr
      rcases bind_eq_ok hr with ⟨a, c₁, ha, hr⟩
      rcases bind_eq_ok hr with ⟨more, c₂, hmore, hr⟩
      cases hr
      -- The first value takes its bytes, and the others take what is left.
      rcases h _ _ _ ha with ⟨hrest, hpos⟩
      rcases ih _ _ _ hmore with ⟨hrest', hpos'⟩
      rw [hrest, hrest', List.flatMap_cons, List.append_assoc, List.length_append, hpos', hpos,
        Nat.add_assoc]
      exact ⟨rfl, rfl⟩

/-- A count is written as it was read in front of as many answers. -/
theorem writtenAs_counted (h : WrittenAs r f) :
    WrittenAs (u16 >>= fun n => repeated n.toNat r)
      fun l => Bytes.ofCount l.length ++ l.flatMap f := by
  intro c l c' hr
  rcases bind_eq_ok hr with ⟨n, c₁, hn, hl⟩
  rcases writtenAs_u16 _ _ _ hn with ⟨hrest, hpos⟩
  rcases writtenAs_repeated h n.toNat _ _ _ hl with ⟨hrest', hpos'⟩
  have hlength : l.length = n.toNat := (ensures_repeated n.toNat (ensures_any r) _ _ _ hl).1
  have hcount : Bytes.ofCount l.length = Bytes.ofU16 n := by
    rw [hlength, Bytes.ofCount]
    exact congrArg Bytes.ofU16 (UInt16.ofNat_toNat)
  dsimp only
  rw [hcount, hrest, hrest', hpos', hpos, List.append_assoc, List.length_append, Nat.add_assoc]
  exact ⟨rfl, rfl⟩

end WrittenAs

/-- Reading gives `v` from the bytes `w` if nothing follows them, and stops behind them. -/
def Ends (r : Read α) (w : Bytes) (v : α) : Prop :=
  ∀ data pos, r ⟨data, pos, w⟩ = .ok v ⟨data, pos + w.length, []⟩

/-- What takes exactly its bytes can stand at the end of the data. -/
theorem Takes.ends (h : Takes r w v) : Ends r w v := by
  intro data pos
  have hnil := h data pos []
  rwa [List.append_nil] at hnil

/-- A last part may stand behind it. -/
theorem Takes.bindEnds {f : α → Read β} {u : β} (h : Takes r w v) (hf : Ends (f v) z u) :
    Ends (r >>= f) (w ++ z) u := by
  intro data pos
  rw [bind_of_ok (h data pos z), List.length_append, ← Nat.add_assoc]
  exact hf data (pos + w.length)

/-- Equal readers after their count, and what follows them. -/
theorem ends_counted {f : List α → Read β} {l : List α} {ws : List Bytes} {u : β}
    (hcount : l.length ≤ 65535) (h : List.Forall₂ (fun a w => Takes r w a) l ws)
    (hf : Ends (f l) z u) :
    Ends (u16 >>= fun n => repeated n.toNat r >>= f)
      (Bytes.ofCount l.length ++ (ws.flatten ++ z)) u := by
  have hnat : l.length.toUInt16.toNat = l.length := Nat.mod_eq_of_lt (Nat.lt_succ_of_le hcount)
  refine (takes_u16 _).bindEnds ?_
  rw [hnat]
  exact (takes_repeated h).bindEnds hf

/-- The whole of the data is read. -/
theorem Ends.parse (h : Ends r w v) : r.parse w = .ok v :=
  parse_eq_ok.2 ⟨_, h w 0⟩

theorem Takes.parse (h : Takes r w v) : r.parse w = .ok v :=
  h.ends.parse

/-- What is read from bytes meets the condition on the answers. -/
theorem Ensures.parse {P : α → Prop} (h : Ensures r P) (hr : r.parse w = .ok v) : P v := by
  rcases parse_eq_ok.1 hr with ⟨c, hrun⟩
  exact h _ _ _ hrun

end Read

end JvmFold
