import JvmFold.Output.Delivery
import JvmFold.Proofs.Bytes.Reading

/-!
# What a Failed Delivery Leaves

Classes are delivered in two rounds, so that a delivery that fails has not
touched a target yet. That is true of the first round only. A move that fails
behind another one leaves the files that were moved before in their new state,
and what stood there is lost.

Files are a map here, with one write or move that fails wherever one likes.
Up to the first move nothing is lost, provided that the targets are apart: all
different, and none of them the place where another one is staged. Both are
needed. Of two classes with one target the second has nothing left to move, and
a target that another class is staged at is overwritten before anything moves.

## Main definitions

* `FileMap`: Files as a map, and what fails.
* `Delivery.Apart`: Targets that do not get in each other's way.
* `Delivery.AllOrNothing`: A delivery is done, or it has left everything as it was.

## Theorems

* `Delivery.stageAll_eq`, `Delivery.stageAll_failed`: What the first round makes of the files.
* `Delivery.moveAll_eq`, `Delivery.moveAll_failed`: What the second round makes of them.
* `OutputMode.deliver_allOrNothing_iff`: When a delivery is all or nothing.
-/

namespace JvmFold

/-- Files by their paths, with the write or move that fails. -/
structure FileMap where
  /-- What stands at each path. -/
  files : String → Option Bytes
  /-- How many writes and moves are done before the one that fails, if there is one. -/
  fault : Option Nat := none

namespace FileMap

/-- A write or move. It fails if it is the one to fail, or if it cannot be done. -/
def change (f : (String → Option Bytes) → Option (String → Option Bytes)) :
    EStateM Error FileMap Unit := fun s =>
  if s.fault = some 0 then .error .file { s with fault := none }
  else
    match f s.files with
    | some files => .ok () { files, fault := s.fault.map (· - 1) }
    | none => .error .file { s with fault := s.fault.map (· - 1) }

/-- The operations on a map of files. Any directory is there. -/
def system : FileSystem FileMap where
  makeDirectory _ := pure ()
  write path bytes := change fun files => some (Function.update files path (some bytes))
  remove path := modify fun s => { s with files := Function.update s.files path none }
  rename source target := change fun files =>
    (files source).map fun bytes =>
      Function.update (Function.update files source none) target (some bytes)

/-- If `n` files are delivered, a move behind the first one is what fails. -/
def StopsMoving (s : FileMap) (n : Nat) : Prop :=
  ∃ k, 0 < k ∧ k < n ∧ s.fault = some (n + k)

end FileMap

namespace Delivery

variable {t u path : String} {b : Bytes} {ts : List String} {l : List (String × Bytes)}
variable {files : String → Option Bytes} {s : FileMap}

/-- Files of two targets are staged apart. -/
theorem staging_injective (h : staging t = staging u) : t = u := by
  have hlist := congrArg String.toList h
  exact String.toList_injective (by simpa [staging] using hlist)

-- And never in place of the target.
theorem staging_ne (t : String) : staging t ≠ t := by
  intro h
  have hlength := congrArg String.length h
  simp [staging] at hlength

/-- A second part is run on what the first one leaves. -/
theorem bind_apply {x : EStateM Error FileMap Unit} {f : Unit → EStateM Error FileMap Unit} :
    (x >>= f) s = match x s with
      | .ok a s => f a s
      | .error e s => .error e s := by
  change EStateM.bind x f s = _
  unfold EStateM.bind
  cases x s <;> rfl

theorem tryCatch_apply {x : EStateM Error FileMap Unit}
    {f : Error → EStateM Error FileMap Unit} :
    tryCatch x f s = match x s with
      | .ok a s => .ok a s
      | .error e s => f e s := by
  change EStateM.tryCatch x f s = _
  unfold EStateM.tryCatch
  cases x s <;> rfl

/-- The files without those of the first round. -/
def cleared (ts : List String) (files : String → Option Bytes) : String → Option Bytes :=
  fun path => if path ∈ ts.map staging then none else files path

/-- Discarding takes the staged files away and cannot fail. -/
theorem discard_apply (ts : List String) (s : FileMap) :
    discard FileMap.system ts s = .ok () { s with files := cleared ts s.files } := by
  induction ts generalizing s with
  | nil => rfl
  | cons t rest ih =>
      have hhead : discard FileMap.system (t :: rest) s = discard FileMap.system rest
          { s with files := Function.update s.files (staging t) none } := rfl
      rw [hhead, ih]
      congr 2
      funext path
      by_cases hpath : path = staging t
      · simp [cleared, hpath]
      · simp [cleared, hpath]

/-- Staging fails where the fault comes. -/
theorem stage_apply (t : String) (b : Bytes) (s : FileMap) :
    stage FileMap.system t b s =
      if s.fault = some 0 then .error .file { s with fault := none }
      else .ok () ⟨Function.update s.files (staging t) (some b), s.fault.map (· - 1)⟩ :=
  rfl

-- So does renaming.
theorem rename_apply (source target : String) (s : FileMap) :
    FileMap.system.rename source target s =
      if s.fault = some 0 then .error .file { s with fault := none }
      else
        match s.files source with
        | some b => .ok () ⟨Function.update (Function.update s.files source none) target (some b),
            s.fault.map (· - 1)⟩
        | none => .error .file { s with fault := s.fault.map (· - 1) } := by
  change FileMap.change (fun files => (files source).map fun b =>
    Function.update (Function.update files source none) target (some b)) s = _
  unfold FileMap.change
  dsimp only
  cases s.files source <;> rfl

/-- The files with those of the first round. -/
def written : List (String × Bytes) → (String → Option Bytes) → String → Option Bytes
  | [], files => files
  | (t, b) :: rest, files => written rest (Function.update files (staging t) (some b))

/-- Only staging files are written. -/
theorem written_of_notMem (h : path ∉ (l.map Prod.fst).map staging) :
    written l files path = files path := by
  induction l generalizing files with
  | nil => rfl
  | cons d rest ih =>
      simp only [List.map_cons, List.mem_cons, not_or] at h
      rw [written, ih h.2, Function.update_of_ne h.1]

/-- Something stands at the place of every target. -/
theorem written_isSome (ht : t ∈ l.map Prod.fst) : ∃ b, written l files (staging t) = some b := by
  induction l generalizing files with
  | nil => simp at ht
  | cons d rest ih =>
      rw [written]
      -- The target is written by the last file that goes there.
      by_cases hrest : t ∈ rest.map Prod.fst
      · exact ih hrest
      · have hd : t = d.1 := by simpa [hrest] using ht
        subst hd
        refine ⟨d.2, ?_⟩
        rw [written_of_notMem, Function.update_self]
        intro hmem
        rcases List.mem_map.1 hmem with ⟨u, hu, heq⟩
        exact hrest (staging_injective heq ▸ hu)

/-- Each with the bytes of its target. -/
theorem written_staging (hnodup : (l.map Prod.fst).Nodup) (hd : (t, b) ∈ l) :
    written l files (staging t) = some b := by
  induction l generalizing files with
  | nil => simp at hd
  | cons d rest ih =>
      simp only [List.map_cons, List.nodup_cons] at hnodup
      rw [written]
      rcases List.mem_cons.1 hd with rfl | hrest
      · rw [written_of_notMem, Function.update_self]
        intro hmem
        rcases List.mem_map.1 hmem with ⟨u, hu, heq⟩
        exact hnodup.1 (staging_injective heq ▸ hu)
      · exact ih hnodup.2 hrest

/-- A failure that comes after all operations comes after the first one as well, and after those
    that are left behind it. -/
theorem fault_behind {fault : Option Nat} {n : Nat} (h : ∀ k, fault = some k → n + 1 ≤ k) :
    fault ≠ some 0 ∧ ∀ k, fault.map (· - 1) = some k → n ≤ k := by
  refine ⟨fun hzero => absurd (h 0 hzero) (Nat.not_succ_le_zero n), fun k hk => ?_⟩
  rcases Option.map_eq_some_iff.1 hk with ⟨k', hk', rfl⟩
  exact Nat.le_sub_one_of_lt (h k' hk')

/-- Without a failure all classes are written beside their targets. -/
theorem stageAll_eq (done : List String) (h : ∀ k, s.fault = some k → l.length ≤ k) :
    stageAll FileMap.system done l s
      = .ok () ⟨written l s.files, s.fault.map (· - l.length)⟩ := by
  induction l generalizing done s with
  | nil =>
      have hfault : s.fault.map (· - 0) = s.fault := by simp
      change EStateM.Result.ok () s = .ok () ⟨s.files, s.fault.map (· - 0)⟩
      rw [hfault]
  | cons d rest ih =>
      -- The fault comes later than the first file, so it is one file nearer behind it.
      rcases fault_behind h with ⟨hzero, hrest⟩
      rw [stageAll, bind_apply, tryCatch_apply, stage_apply, if_neg hzero]
      dsimp only
      rw [ih _ hrest, written, Option.map_map]
      congr 3
      funext k
      simp only [Function.comp_apply, List.length_cons]
      omega

/-- A failure removes what is written, so nothing has changed. -/
theorem stageAll_failed (done : List String) {k : Nat} (hfault : s.fault = some k)
    (hk : k < l.length) :
    stageAll FileMap.system done l s
      = .error .file ⟨cleared (done ++ (l.take k).map Prod.fst) s.files, none⟩ := by
  induction l generalizing done s k with
  | nil => simp at hk
  | cons d rest ih =>
      rw [stageAll, bind_apply, tryCatch_apply, stage_apply]
      cases k with
      | zero =>
          rw [if_pos hfault]
          dsimp only
          rw [bind_apply, discard_apply]
          simp only [List.take_zero, List.map_nil, List.append_nil]
          rfl
      | succ k =>
          rw [if_neg (by simp [hfault])]
          dsimp only
          rw [ih (k := k) (d.1 :: done) (by simp [hfault]) (by simpa using hk)]
          congr 2
          -- What was written at the head is among what is removed.
          funext path
          by_cases hpath : path = staging d.1
          · simp [cleared, hpath]
          · simp [cleared, hpath]

/-- The targets are all different, and none is the place where another one is staged. -/
structure Apart (ts : List String) : Prop where
  nodup : ts.Nodup
  staging_ne : ∀ t ∈ ts, ∀ u ∈ ts, staging t ≠ u

theorem Apart.tail (h : Apart (t :: ts)) : Apart ts :=
  ⟨h.nodup.of_cons, fun v hv u hu =>
    h.staging_ne v (List.mem_cons_of_mem t hv) u (List.mem_cons_of_mem t hu)⟩

/-- The files with classes moved from beside their targets. -/
def moved : List (String × Bytes) → (String → Option Bytes) → String → Option Bytes
  | [], files => files
  | (t, b) :: rest, files =>
    moved rest (Function.update (Function.update files (staging t) none) t (some b))

/-- Moving touches only targets and their staging files. -/
theorem moved_of_notMem (htarget : path ∉ l.map Prod.fst)
    (hstaging : path ∉ (l.map Prod.fst).map staging) : moved l files path = files path := by
  induction l generalizing files with
  | nil => rfl
  | cons d rest ih =>
      simp only [List.map_cons, List.mem_cons, not_or] at htarget hstaging
      rw [moved, ih htarget.2 hstaging.2, Function.update_of_ne htarget.1,
        Function.update_of_ne hstaging.1]

/-- Each target gets its bytes. -/
theorem moved_target (h : Apart (l.map Prod.fst)) (hd : (t, b) ∈ l) :
    moved l files t = some b := by
  induction l generalizing files with
  | nil => simp at hd
  | cons d rest ih =>
      rw [moved]
      rcases List.mem_cons.1 hd with rfl | hrest
      · rw [moved_of_notMem (List.nodup_cons.1 h.nodup).1, Function.update_self]
        intro hmem
        rcases List.mem_map.1 hmem with ⟨u, hu, heq⟩
        exact h.staging_ne u (List.mem_cons_of_mem t hu) t List.mem_cons_self heq
      · exact ih h.tail hrest

-- And its staging file is gone.
theorem moved_staging (h : Apart (l.map Prod.fst)) (ht : t ∈ l.map Prod.fst) :
    moved l files (staging t) = none := by
  induction l generalizing files with
  | nil => simp at ht
  | cons d rest ih =>
      rw [moved]
      -- No file is staged where this one was, as its target is moved only once.
      by_cases hrest : t ∈ rest.map Prod.fst
      · exact ih h.tail hrest
      · have hd : t = d.1 := by simpa [hrest] using ht
        subst hd
        have hne : staging d.1 ≠ d.1 := staging_ne d.1
        rw [moved_of_notMem, Function.update_of_ne hne, Function.update_self]
        · intro hmem
          exact h.staging_ne d.1 List.mem_cons_self _ (List.mem_cons_of_mem _ hmem) rfl
        · intro hmem
          rcases List.mem_map.1 hmem with ⟨u, hu, heq⟩
          exact hrest (staging_injective heq ▸ hu)

/-- What is still beside its target stays there while another class is moved. -/
theorem staged_update (h : Apart (t :: ts)) {c : Bytes} (hu : u ∈ ts) :
    Function.update (Function.update files (staging t) none) t (some c) (staging u)
      = files (staging u) := by
  have hstaging : staging u ≠ staging t := by
    intro heq
    exact (List.nodup_cons.1 h.nodup).1 (staging_injective heq ▸ hu)
  rw [Function.update_of_ne (h.staging_ne u (List.mem_cons_of_mem t hu) t List.mem_cons_self),
    Function.update_of_ne hstaging]

/-- One class is moved, or what is still beside its target is removed. -/
theorem moveAll_cons (t : String) (ts : List String) (s : FileMap) :
    moveAll FileMap.system (t :: ts) s =
      if s.fault = some 0 then .error .file ⟨cleared (t :: ts) s.files, none⟩
      else
        match s.files (staging t) with
        | some b => moveAll FileMap.system ts
            ⟨Function.update (Function.update s.files (staging t) none) t (some b),
              s.fault.map (· - 1)⟩
        | none => .error .file ⟨cleared (t :: ts) s.files, s.fault.map (· - 1)⟩ := by
  rw [moveAll, bind_apply, tryCatch_apply, rename_apply]
  -- The first rename fails, finds nothing to move, or goes on to the others.
  by_cases hzero : s.fault = some 0
  · rw [if_pos hzero, if_pos hzero]
    dsimp only
    rw [bind_apply, discard_apply]
    rfl
  · rw [if_neg hzero, if_neg hzero]
    cases s.files (staging t) with
    | some b => rfl
    | none =>
        dsimp only
        rw [bind_apply, discard_apply]
        rfl

/-- Without a failure all classes are moved. -/
theorem moveAll_eq (h : Apart (l.map Prod.fst))
    (hstaged : ∀ d ∈ l, s.files (staging d.1) = some d.2)
    (hfault : ∀ k, s.fault = some k → l.length ≤ k) :
    moveAll FileMap.system (l.map Prod.fst) s
      = .ok () ⟨moved l s.files, s.fault.map (· - l.length)⟩ := by
  induction l generalizing s with
  | nil =>
      have hsame : s.fault.map (· - 0) = s.fault := by simp
      change EStateM.Result.ok () s = .ok () ⟨s.files, s.fault.map (· - 0)⟩
      rw [hsame]
  | cons d rest ih =>
      rcases fault_behind hfault with ⟨hzero, hrest⟩
      -- Moving one class does not touch what stands beside the targets of the others.
      have hbehind : ∀ e ∈ rest, Function.update (Function.update s.files (staging d.1) none) d.1
          (some d.2) (staging e.1) = some e.2 := by
        intro e he
        rw [staged_update h (List.mem_map_of_mem he)]
        exact hstaged e (List.mem_cons_of_mem d he)
      rw [List.map_cons, moveAll_cons, if_neg hzero, hstaged d List.mem_cons_self]
      dsimp only
      rw [ih h.tail hbehind hrest, moved, Option.map_map]
      congr 3
      funext k
      simp only [Function.comp_apply, List.length_cons]
      omega

/-- A failure leaves what was moved before, and removes the rest. -/
theorem moveAll_failed (h : Apart (l.map Prod.fst))
    (hstaged : ∀ d ∈ l, s.files (staging d.1) = some d.2) {k : Nat} (hfault : s.fault = some k)
    (hk : k < l.length) :
    moveAll FileMap.system (l.map Prod.fst) s
      = .error .file
          ⟨cleared ((l.drop k).map Prod.fst) (moved (l.take k) s.files), none⟩ := by
  induction l generalizing s k with
  | nil => simp at hk
  | cons d rest ih =>
      rw [List.map_cons, moveAll_cons]
      -- The fault comes now, or as many renames further on.
      cases k with
      | zero =>
          rw [if_pos hfault]
          rfl
      | succ k =>
          have hbehind : ∀ e ∈ rest, Function.update (Function.update s.files (staging d.1) none)
              d.1 (some d.2) (staging e.1) = some e.2 := by
            intro e he
            rw [staged_update h (List.mem_map_of_mem he)]
            exact hstaged e (List.mem_cons_of_mem d he)
          rw [if_neg (by simp [hfault]), hstaged d List.mem_cons_self]
          dsimp only
          rw [ih (k := k) h.tail hbehind (by simp [hfault]) (by simpa using hk)]
          rfl

/-- Nothing stands beside a target that did not stand there before, unless a class belongs there. -/
def Tidy (l : List (String × Bytes)) (before after : FileMap) : Prop :=
  ∀ d ∈ l, staging d.1 ∉ l.map Prod.fst → after.files (staging d.1) = none ∨
    after.files (staging d.1) = before.files (staging d.1)

/-- A delivery is done, or it has left the targets as they were. Either way it is tidy. -/
def AllOrNothing (l : List (String × Bytes)) (before : FileMap) :
    EStateM.Result Error FileMap Unit → Prop
  | .ok _ after => (∀ d ∈ l, after.files d.1 = some d.2) ∧ Tidy l before after
  | .error _ after => (∀ d ∈ l, after.files d.1 = before.files d.1) ∧ Tidy l before after

/-- All files are staged before the first one is moved. -/
theorem toFiles_apply (l : List (String × Bytes)) (s : FileMap) :
    toFiles FileMap.system l s =
      match stageAll FileMap.system [] l s with
      | .ok _ t => moveAll FileMap.system (l.map Prod.fst) t
      | .error e t => .error e t :=
  bind_apply

theorem Apart.take (h : Apart (l.map Prod.fst)) (k : Nat) : Apart ((l.take k).map Prod.fst) := by
  have hsub : ((l.take k).map Prod.fst).Sublist (l.map Prod.fst) :=
    (List.take_sublist k l).map Prod.fst
  exact ⟨h.nodup.sublist hsub, fun t ht u hu => h.staging_ne t (hsub.subset ht) u (hsub.subset hu)⟩

/-- No target is a place of the first round. -/
theorem Apart.notMem_staging (h : Apart (l.map Prod.fst)) {l' : List (String × Bytes)}
    (hl : l' ⊆ l) {d : String × Bytes} (hd : d ∈ l) : d.1 ∉ (l'.map Prod.fst).map staging := by
  intro hmem
  rcases List.mem_map.1 hmem with ⟨u, hu, heq⟩
  rcases List.mem_map.1 hu with ⟨e, he, rfl⟩
  exact h.staging_ne e.1 (List.mem_map_of_mem (hl he)) d.1 (List.mem_map_of_mem hd) heq

/-- Each staging file holds the bytes of its target. -/
theorem Apart.staged (h : Apart (l.map Prod.fst)) (files : String → Option Bytes) :
    ∀ d ∈ l, written l files (staging d.1) = some d.2 :=
  fun _ hd => written_staging h.nodup hd

/-- Without a fault every target is written. -/
theorem toFiles_eq (h : Apart (l.map Prod.fst))
    (hfault : ∀ k, s.fault = some k → l.length + l.length ≤ k) :
    ∃ fault, toFiles FileMap.system l s = .ok () ⟨moved l (written l s.files), fault⟩ := by
  -- The fault is beyond both the staging and the moving.
  have hstage : ∀ k, s.fault = some k → l.length ≤ k := by
    intro k hk
    have := hfault k hk
    omega
  have hmove : ∀ k, s.fault.map (· - l.length) = some k → l.length ≤ k := by
    intro k hk
    rcases Option.map_eq_some_iff.1 hk with ⟨k', hk', rfl⟩
    have := hfault k' hk'
    omega
  rw [toFiles_apply, stageAll_eq [] hstage]
  dsimp only
  rw [moveAll_eq h (h.staged s.files) hmove]
  exact ⟨_, rfl⟩

/-- A fault while staging leaves no target changed. -/
theorem toFiles_unstaged {k : Nat} (hfault : s.fault = some k) (hk : k < l.length) :
    toFiles FileMap.system l s
      = .error .file ⟨cleared ((l.take k).map Prod.fst) s.files, none⟩ := by
  rw [toFiles_apply, stageAll_failed [] hfault hk, List.nil_append]

/-- A fault while moving leaves those targets that were moved before it. -/
theorem toFiles_unmoved (h : Apart (l.map Prod.fst)) {k : Nat}
    (hfault : s.fault = some (l.length + k)) (hk : k < l.length) :
    toFiles FileMap.system l s = .error .file
      ⟨cleared ((l.drop k).map Prod.fst) (moved (l.take k) (written l s.files)), none⟩ := by
  have hstage : ∀ j, s.fault = some j → l.length ≤ j := by
    intro j hj
    rw [hfault] at hj
    cases hj
    omega
  rw [toFiles_apply, stageAll_eq [] hstage]
  dsimp only
  exact moveAll_failed h (h.staged s.files) (by simp [hfault]) hk

section Unmoved

variable {k : Nat} {d : String × Bytes}

/-- A class that was moved before stays at its target. -/
theorem unmoved_front (h : Apart (l.map Prod.fst)) (hd : d ∈ l.take k) :
    cleared ((l.drop k).map Prod.fst) (moved (l.take k) (written l files)) d.1 = some d.2 := by
  have hnot := h.notMem_staging (List.drop_subset k l) (List.take_subset k l hd)
  rw [cleared, if_neg hnot]
  exact moved_target (h.take k) hd

/-- A target that was to come next is as before. -/
theorem unmoved_back (h : Apart (l.map Prod.fst)) (hd : d ∈ l.drop k) :
    cleared ((l.drop k).map Prod.fst) (moved (l.take k) (written l files)) d.1 = files d.1 := by
  have hmem : d ∈ l := List.drop_subset k l hd
  have hfront : d.1 ∉ (l.take k).map Prod.fst := by
    intro hfront
    have hnodup := h.nodup
    rw [← List.take_append_drop k l, List.map_append, List.nodup_append] at hnodup
    exact hnodup.2.2 _ hfront _ (List.mem_map_of_mem hd) rfl
  rw [cleared, if_neg (h.notMem_staging (List.drop_subset k l) hmem),
    moved_of_notMem hfront (h.notMem_staging (List.take_subset k l) hmem),
    written_of_notMem (h.notMem_staging (List.Subset.refl l) hmem)]

/-- Nothing is left beside a target. -/
theorem unmoved_staging (h : Apart (l.map Prod.fst)) (hd : d ∈ l) :
    cleared ((l.drop k).map Prod.fst) (moved (l.take k) (written l files)) (staging d.1)
      = none := by
  rw [← List.take_append_drop k l] at hd
  by_cases hback : d ∈ l.drop k
  · rw [cleared, if_pos (List.mem_map_of_mem (List.mem_map_of_mem hback))]
  · have hfront : d ∈ l.take k := (List.mem_append.1 hd).resolve_right hback
    rw [cleared, moved_staging (h.take k) (List.mem_map_of_mem hfront), ite_self]

end Unmoved

/-- A move that fails keeps to the rule exactly if the files that were moved before had their new
    bytes already. -/
theorem allOrNothing_unmoved_iff (h : Apart (l.map Prod.fst)) {k : Nat}
    (hfault : s.fault = some (l.length + k)) (hk : k < l.length) :
    AllOrNothing l s (toFiles FileMap.system l s) ↔
      ∀ d ∈ l.take k, s.files d.1 = some d.2 := by
  rw [toFiles_unmoved h hfault hk]
  constructor
  · intro hall d hd
    rw [← hall.1 d (List.take_subset k l hd)]
    exact unmoved_front h hd
  · intro hsame
    refine ⟨?_, fun d hd _ => Or.inl (unmoved_staging h hd)⟩
    intro d hd
    rw [← List.take_append_drop k l] at hd
    -- Those in front have been moved, so they must have held their bytes before.
    rcases List.mem_append.1 hd with hfront | hback
    · rw [hsame d hfront]
      exact unmoved_front h hfront
    · exact unmoved_back h hback

/-- Up to the first move nothing is lost. -/
theorem allOrNothing_of_apart (h : Apart (l.map Prod.fst)) (hs : ¬s.StopsMoving l.length) :
    AllOrNothing l s (toFiles FileMap.system l s) := by
  by_cases hdone : ∀ k, s.fault = some k → l.length + l.length ≤ k
  · rcases toFiles_eq h hdone with ⟨fault, heq⟩
    rw [heq]
    refine ⟨fun d hd => moved_target h hd, fun d hd _ => Or.inl ?_⟩
    exact moved_staging h (List.mem_map_of_mem hd)
  · push Not at hdone
    rcases hdone with ⟨k, hfault, hk⟩
    by_cases hstage : k < l.length
    · rw [toFiles_unstaged hfault hstage]
      have hsub := List.take_subset k l
      refine ⟨fun d hd => ?_, fun d hd _ => ?_⟩
      · exact if_neg (h.notMem_staging hsub hd)
      · -- What stands beside a target was written and removed, or it was never touched.
        dsimp only [cleared]
        split
        · exact Or.inl rfl
        · exact Or.inr rfl
    · -- It is the first move that fails, so none was done before it.
      have hzero : k = l.length := by
        by_contra hne
        exact hs ⟨k - l.length, by omega, by omega, by rw [hfault]; congr 1; omega⟩
      subst hzero
      have hlength : 0 < l.length := by omega
      rw [allOrNothing_unmoved_iff h (k := 0) hfault hlength]
      simp

/-- The files that a delivery leaves. -/
def left : EStateM.Result Error FileMap Unit → String → Option Bytes
  | .ok _ s | .error _ s => s.files

/-- What stands at a target stays there or is replaced, if nothing is staged there. -/
theorem left_moveAll_ne_none (hts : ∀ t ∈ ts, staging t ≠ path) (hpath : s.files path ≠ none) :
    left (moveAll FileMap.system ts s) path ≠ none := by
  have hcleared : path ∉ ts.map staging := by
    intro hmem
    rcases List.mem_map.1 hmem with ⟨t, ht, heq⟩
    exact hts t ht heq
  induction ts generalizing s with
  | nil => exact hpath
  | cons t rest ih =>
      -- Clearing up removes only what was staged.
      have hstays : cleared (t :: rest) s.files path ≠ none := by
        rw [cleared, if_neg hcleared]
        exact hpath
      rw [moveAll_cons]
      by_cases hzero : s.fault = some 0
      · rw [if_pos hzero]
        exact hstays
      · rw [if_neg hzero]
        cases s.files (staging t) with
        | none => exact hstays
        | some b =>
            refine ih (fun u hu => hts u (List.mem_cons_of_mem t hu)) ?_
              fun hmem => hcleared (List.mem_cons_of_mem _ hmem)
            by_cases ht : path = t
            · simp [ht]
            · have hne : path ≠ staging t := (hts t List.mem_cons_self).symm
              simpa [ht, hne] using hpath

/-- What is moved first stays at its target. -/
theorem left_moveAll_head (hts : ∀ u ∈ ts, staging u ≠ t) (hfault : s.fault ≠ some 0)
    (hb : s.files (staging t) = some b) :
    left (moveAll FileMap.system (t :: ts) s) t ≠ none := by
  rw [moveAll_cons, if_neg hfault, hb]
  exact left_moveAll_ne_none hts (by simp)

/-- A class that is not beside its target cannot be moved. -/
theorem moveAll_ne_ok (hts : ∀ t ∈ ts, ∀ u ∈ ts, staging t ≠ u) (ht : t ∈ ts)
    (hmissing : s.files (staging t) = none) (after : FileMap) :
    moveAll FileMap.system ts s ≠ .ok () after := by
  induction ts generalizing s with
  | nil => simp at ht
  | cons u rest ih =>
      rw [moveAll_cons]
      by_cases hzero : s.fault = some 0
      · rw [if_pos hzero]
        nofun
      · rw [if_neg hzero]
        cases hu : s.files (staging u) with
        | none => nofun
        | some b =>
            have hne : t ≠ u := by
              rintro rfl
              rw [hmissing] at hu
              cases hu
            have hrest : t ∈ rest := (List.mem_cons.1 ht).resolve_left hne
            refine ih (fun v hv w hw => hts v (List.mem_cons_of_mem u hv) w
              (List.mem_cons_of_mem u hw)) hrest ?_
            -- The move of another class neither brings the missing one nor takes it away.
            have htarget : staging t ≠ u := hts t ht u List.mem_cons_self
            have hstaging : staging t ≠ staging u := fun heq => hne (staging_injective heq)
            simpa [htarget, hstaging] using hmissing

/-- Only different targets can all be moved to. -/
theorem nodup_of_moveAll (hts : ∀ t ∈ ts, ∀ u ∈ ts, staging t ≠ u) {after : FileMap}
    (h : moveAll FileMap.system ts s = .ok () after) : ts.Nodup := by
  induction ts generalizing s with
  | nil => exact List.nodup_nil
  | cons t rest ih =>
      rw [moveAll_cons] at h
      by_cases hzero : s.fault = some 0
      · rw [if_pos hzero] at h
        cases h
      · rw [if_neg hzero] at h
        cases hb : s.files (staging t) with
        | none =>
            rw [hb] at h
            cases h
        | some b =>
            rw [hb] at h
            have hrest : ∀ v ∈ rest, ∀ w ∈ rest, staging v ≠ w := fun v hv w hw =>
              hts v (List.mem_cons_of_mem t hv) w (List.mem_cons_of_mem t hw)
            refine List.nodup_cons.2 ⟨fun hmem => ?_, ih hrest h⟩
            -- The class has been moved away from beside its target.
            refine moveAll_ne_ok hrest hmem ?_ after h
            simp [staging_ne]

/-- If targets get in each other's way, a delivery can lose something before the second move. -/
theorem exists_not_allOrNothing (h : ¬Apart (l.map Prod.fst)) :
    ∃ s : FileMap, ¬s.StopsMoving l.length ∧ ¬AllOrNothing l s (toFiles FileMap.system l s) := by
  by_cases hts : ∀ t ∈ l.map Prod.fst, ∀ u ∈ l.map Prod.fst, staging t ≠ u
  · -- Two classes have one target. Nothing fails, and nothing stands anywhere at first.
    let s : FileMap := ⟨fun _ => none, none⟩
    have hrun : toFiles FileMap.system l s
        = moveAll FileMap.system (l.map Prod.fst) ⟨written l s.files, none⟩ := by
      rw [toFiles_apply, stageAll_eq (s := s) [] nofun]
      rfl
    have hs : ¬s.StopsMoving l.length := by
      rintro ⟨k, _, _, hfault⟩
      cases hfault
    refine ⟨s, hs, fun hall => ?_⟩
    rw [hrun] at hall
    cases hmove : moveAll FileMap.system (l.map Prod.fst) ⟨written l s.files, none⟩ with
    | ok a after => exact h ⟨nodup_of_moveAll hts hmove, hts⟩
    | error e after =>
        rw [hmove] at hall
        cases l with
        | nil => cases hmove
        | cons d rest =>
            -- The first class is moved, and its file stays.
            have hstaged : ∃ b, written (d :: rest) s.files (staging d.1) = some b :=
              written_isSome List.mem_cons_self
            rcases hstaged with ⟨b, hb⟩
            have hbehind : ∀ u ∈ rest.map Prod.fst, staging u ≠ d.1 := fun u hu =>
              hts u (List.mem_cons_of_mem _ hu) d.1 List.mem_cons_self
            have hleft := left_moveAll_head (s := ⟨written (d :: rest) s.files, none⟩) hbehind
              nofun hb
            rw [← List.map_cons, hmove] at hleft
            exact hleft (hall.1 d List.mem_cons_self)
  · -- One class is staged at the target of another one, and the first move fails.
    push Not at hts
    rcases hts with ⟨t, ht, u, hu, heq⟩
    let s : FileMap := ⟨fun _ => some [], some l.length⟩
    have hstage : ∀ k, s.fault = some k → l.length ≤ k := by
      intro k hk
      cases hk
      exact Nat.le_refl _
    have hs : ¬s.StopsMoving l.length := by
      rintro ⟨k, hpos, _, hfault⟩
      have := Option.some.inj hfault
      omega
    have hmoves : ∀ ts : List String, ts ≠ [] →
        moveAll FileMap.system ts ⟨written l s.files, s.fault.map (· - l.length)⟩
          = .error .file ⟨cleared ts (written l s.files), none⟩ := by
      intro ts hne
      cases ts with
      | nil => exact absurd rfl hne
      | cons v rest => rw [moveAll_cons, if_pos (by simp [s])]
    refine ⟨s, hs, fun hall => ?_⟩
    rw [toFiles_apply, stageAll_eq [] hstage] at hall
    dsimp only at hall
    rw [hmoves _ (List.ne_nil_of_mem ht)] at hall
    rcases List.mem_map.1 hu with ⟨d, hd, rfl⟩
    have hmem : d.1 ∈ (l.map Prod.fst).map staging := heq ▸ List.mem_map_of_mem ht
    have hsame := hall.1 d hd
    dsimp only [cleared] at hsame
    rw [if_pos hmem] at hsame
    cases hsame

/-- There is a file for each class. -/
theorem length_of_assign {target : Delivery → Except Error String} {l : List Delivery}
    {files : List (String × Bytes)} (h : assign target l = .ok files) :
    files.length = l.length :=
  (forall₂_of_mapM h).length_eq.symm

end Delivery

namespace OutputMode

open Delivery

/-- A delivery to the files that a mode assigns. If they cannot be assigned, nothing happens. Else
    it is all or nothing whatever write or first move fails, exactly if the targets are apart. A
    later move that fails leaves the files that were moved before it in their new state, so then
    the delivery is all or nothing exactly if they had that state already. -/
theorem deliver_allOrNothing_iff {m : OutputMode} {target : Delivery → Except Error String}
    (hm : m.target? = some target) (l : List Delivery) :
    m.deliver l = Storage.onFiles (deliverFiles FileTree.system target l) ∧
    (∀ e, assign target l = .error e →
      ∀ s : FileMap, deliverFiles FileMap.system target l s = .error e s) ∧
    ∀ files, assign target l = .ok files →
      ((∀ s : FileMap, ¬s.StopsMoving l.length →
          AllOrNothing files s (deliverFiles FileMap.system target l s)) ↔
        Apart (files.map Prod.fst)) ∧
      (Apart (files.map Prod.fst) → ∀ (s : FileMap) (k : Nat), k < l.length →
        s.fault = some (l.length + k) →
          (AllOrNothing files s (deliverFiles FileMap.system target l s) ↔
            ∀ d ∈ files.take k, s.files d.1 = some d.2)) := by
  refine ⟨?_, fun e he s => ?_, fun files hfiles => ?_⟩
  · rw [deliver, hm]
  · rw [deliverFiles, he]
    rfl
  · have hlength : files.length = l.length := length_of_assign hfiles
    have hrun : deliverFiles FileMap.system target l = toFiles FileMap.system files := by
      rw [deliverFiles, hfiles]
    rw [hrun, ← hlength]
    -- Where two targets meet, some files are lost even without a fault.
    refine ⟨⟨fun hall => ?_, fun h s hs => allOrNothing_of_apart h hs⟩,
      fun h s k hk hfault => allOrNothing_unmoved_iff h hfault hk⟩
    by_contra hnot
    rcases exists_not_allOrNothing hnot with ⟨s, hs, hlost⟩
    exact hlost (hall s hs)

end OutputMode

namespace Delivery.Pair

/-- Two classes with different keys. -/
def classes : List Delivery :=
  [⟨{ key := "A.class", bytes := [1] }, [3]⟩, ⟨{ key := "B.class", bytes := [2] }, [4]⟩]

/-- Where they go. -/
def target (d : Delivery) : Except Error String :=
  .ok (Path.within "out" d.input.key)

/-- The two files of the example. -/
def files : List (String × Bytes) :=
  [("out/A.class", [3]), ("out/B.class", [4])]

theorem assign_classes : assign target classes = .ok files := by
  decide

-- Neither is where the other is staged.
theorem files_apart : Apart (files.map Prod.fst) :=
  ⟨by decide, by decide⟩

/-- No files, where the write or move behind the first `n` fails. -/
def failing (n : Nat) : FileMap :=
  ⟨fun _ => none, some n⟩

/-- The first move fails, and nothing is lost. -/
theorem kept_whole :
    (OutputMode.directory "out").target? = some target ∧
    AllOrNothing files (failing 2)
      (OutputMode.deliverFiles FileMap.system target classes (failing 2)) := by
  have hm : (OutputMode.directory "out").target? = some target := rfl
  have hall := (OutputMode.deliver_allOrNothing_iff hm classes).2.2 files assign_classes
  refine ⟨hm, hall.1.2 files_apart (failing 2) ?_⟩
  rintro ⟨k, hpos, _, hfault⟩
  have := Option.some.inj hfault
  simp [classes] at this
  omega

/-- The second move fails. The first class has replaced what stood at its target. -/
theorem left_halfway :
    ¬AllOrNothing files (failing 3)
      (OutputMode.deliverFiles FileMap.system target classes (failing 3)) := by
  have hrun : OutputMode.deliverFiles FileMap.system target classes
      = toFiles FileMap.system files := by
    rw [OutputMode.deliverFiles, assign_classes]
  rw [hrun, allOrNothing_unmoved_iff files_apart (k := 1) rfl (by decide)]
  intro hsame
  have := hsame ("out/A.class", [3]) (by decide)
  cases this

end Delivery.Pair

end JvmFold
