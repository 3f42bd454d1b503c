import JvmFold.Proofs.Body.Emission

/-!
# The Tables Beside the Code

Handlers, names of local variables, lines and frames are written with offsets
for their labels and read back with the names of these offsets. Counts have
two bytes and the lengths of attributes four, so this needs tables that are not
too long. The tables also refer to labels that no instruction branches to, and
whatever was written had an offset for each of them.

A frame is written by its distance from the one before it, so frames are read
back in their order only, and each has to stand behind the one before.

## Main definitions

* `Body.framed`: What reading frames makes of what it carries along.
* `Body.AttributesRead`: What reading attributes makes of the tables.
* `Body.tabulated`: What the attributes of a body hold.

## Theorems

* `Body.handlerBytes_gives`, `Body.localBytes_gives`: Entries of tables are read back.
* `Body.frames_gives`: Frames are read back.
* `Body.attributes_gives`: The attributes are read back.
-/

namespace JvmFold

namespace Body

open Decode

section Entries

variable {B : Nat → Prop} {pos : Nat} {offsetOf : Label → Except Error Nat}

/-- The offset of a label that is found. -/
theorem offset_eq {l : Label} {o : Nat} (h : offsetOf l = .ok o) : offset offsetOf l = o := by
  unfold offset
  rw [h]

/-- A label that is found at all is found at its offset. -/
theorem offset_of_ok {l : Label} {o : Nat} (h : offsetOf l = .ok o) :
    offsetOf l = .ok (offset offsetOf l) := by
  rw [offset_eq h]
  exact h

theorem liftEdit_gives {α : Type} (x : Except Error α) :
    Pool.Edit.Gives (liftEdit x) fun a _ => x = .ok a := by
  cases x with
  | error e => exact Pool.gives_throw e
  | ok a => exact Pool.gives_pure fun r => rfl

/-- Offsets of two bytes are written as they are. -/
theorem toUInt16_toNat {n : Nat} (hn : n ≤ 65535) : n.toUInt16.toNat = n :=
  Nat.mod_eq_of_lt (Nat.lt_succ_of_le hn)

/-- The label of an offset that is written in two bytes. -/
theorem offset_yields {α : Type} {o : Nat} {z : Bytes} {f : Label → Decode α}
    {k : Label → (Nat → Label) → α} (ho : B o ∧ o ≤ 65535)
    (hf : ∀ l, Yields B (pos + 2) (f l) z (k l)) :
    Yields B pos (liftM Read.u16 >>= fun n => labelAt n.toNat >>= f) (Bytes.ofCount o ++ z)
      fun name => k (name o) name := by
  refine (yields_read (Read.takes_u16 o.toUInt16)).andThen ?_
  rw [toUInt16_toNat ho.2]
  exact (yields_labelAt ho.1).bind fun l _ => hf l

/-- An entry of the handler table is read back from its bytes. -/
theorem handler_yields {r : Pool} {h : Handler} {start stop target : Nat} {index : UInt16}
    (hoff : Resolves B offsetOf) (hstart : offsetOf h.start = .ok start)
    (hstop : offsetOf h.stop = .ok stop) (htarget : offsetOf h.target = .ok target)
    (hindex : index = 0 ∧ h.catchType = none ∨
      index ≠ 0 ∧ ∃ name, h.catchType = some name ∧ r.className index = .ok name) :
    Yields B pos (readHandler r)
      (Bytes.ofCount start ++ (Bytes.ofCount stop ++ (Bytes.ofCount target ++ Bytes.ofU16 index)))
      fun name => h.relabel fun l => name (offset offsetOf l) := by
  simp only [Handler.relabel, offset_eq hstart, offset_eq hstop, offset_eq htarget]
  unfold readHandler
  refine offset_yields (k := fun start' name =>
    Handler.mk start' (name stop) (name target) h.catchType)
    (hoff _ _ hstart) fun start' => ?_
  refine offset_yields (k := fun stop' name =>
    Handler.mk start' stop' (name target) h.catchType)
    (hoff _ _ hstop) fun stop' => ?_
  refine offset_yields (k := fun target' _ => Handler.mk start' stop' target' h.catchType)
    (hoff _ _ htarget) fun target' => ?_
  refine (yields_read (Read.takes_u16 index)).finish ?_
  -- Index zero stands for a handler of every exception.
  rcases hindex with ⟨rfl, hcatch⟩ | ⟨hzero, name, hcatch, hname⟩
  · rw [hcatch]
    exact yields_pure _
  · rw [if_neg hzero, hcatch]
    exact (yields_ofExcept hname).map.map

/-- An entry of the handler table is read back. -/
theorem handlerBytes_gives (hoff : Resolves B offsetOf) (h : Handler) :
    Pool.Edit.Gives (handlerBytes offsetOf h) fun w r =>
      (∀ l ∈ h.labels, offsetOf l = .ok (offset offsetOf l)) ∧ ∀ pos,
        Yields B pos (readHandler r) w fun name =>
          h.relabel fun l => name (offset offsetOf l) := by
  refine (liftEdit_gives (offsetOf h.start)).bind fun start => ?_
  refine (liftEdit_gives (offsetOf h.stop)).bind fun stop => ?_
  refine (liftEdit_gives (offsetOf h.target)).bind fun target => ?_
  have hlabels (hstart : offsetOf h.start = .ok start) (hstop : offsetOf h.stop = .ok stop)
      (htarget : offsetOf h.target = .ok target) :
      ∀ l ∈ h.labels, offsetOf l = .ok (offset offsetOf l) := by
    simp only [Handler.labels, List.forall_mem_cons]
    exact ⟨offset_of_ok hstart, offset_of_ok hstop, offset_of_ok htarget, fun l hl => by cases hl⟩
  cases hcatch : h.catchType with
  | none =>
      refine Pool.gives_pure fun r htarget hstop hstart =>
        ⟨hlabels hstart hstop htarget, fun pos => ?_⟩
      rw [List.append_assoc, List.append_assoc]
      exact handler_yields hoff hstart hstop htarget (Or.inl ⟨rfl, hcatch⟩)
  | some name =>
      -- Index zero would be read as no class at all, but a class never has it.
      have hclass := (Pool.addClass_gives name).imp_consistent (Q := fun index r =>
        index ≠ 0 ∧ r.className index = .ok name) fun index r hr hname =>
          ⟨fun heq => hr.className_zero (heq ▸ hname), hname⟩
      refine hclass.bind fun index => ?_
      refine Pool.gives_pure fun r hindex htarget hstop hstart =>
        ⟨hlabels hstart hstop htarget, fun pos => ?_⟩
      rw [List.append_assoc, List.append_assoc]
      exact handler_yields hoff hstart hstop htarget (Or.inr ⟨hindex.1, name, hcatch, hindex.2⟩)

/-- The name of a local variable is read back if its range does not end before it starts. -/
theorem localBytes_gives (hoff : Resolves B offsetOf) (v : LocalVariable)
    (hrange : ∀ start stop, offsetOf v.start = .ok start → offsetOf v.stop = .ok stop →
      start ≤ stop) :
    Pool.Edit.Gives (localBytes offsetOf v) fun w r =>
      (∀ l ∈ v.labels, offsetOf l = .ok (offset offsetOf l)) ∧ ∀ pos,
        Yields B pos (readLocal r) w fun name =>
          v.relabel fun l => name (offset offsetOf l) := by
  refine (liftEdit_gives (offsetOf v.start)).bind fun start => ?_
  refine (liftEdit_gives (offsetOf v.stop)).bind fun stop => ?_
  refine (Pool.addUtf8_gives v.name).bind fun n => ?_
  refine (Pool.addUtf8_gives v.descriptor).bind fun d => ?_
  refine Pool.gives_pure fun r hdescriptor hname hstop hstart => ⟨?_, fun pos => ?_⟩
  · simp only [LocalVariable.labels, List.forall_mem_cons]
    exact ⟨offset_of_ok hstart, offset_of_ok hstop, fun l hl => by cases hl⟩
  -- The length is a difference of offsets, and it is read back only if it did not wrap.
  have hle := hrange start stop hstart hstop
  have hlength : start + (stop - start) = stop := by omega
  have hsmall := (hoff _ _ hstop).2
  simp only [LocalVariable.relabel, offset_eq hstart, offset_eq hstop, List.append_assoc]
  unfold readLocal
  refine (yields_read (Read.takes_u16 start.toUInt16)).andThen ?_
  rw [toUInt16_toNat (hoff _ _ hstart).2]
  refine (yields_read (Read.takes_u16 (stop - start).toUInt16)).andThen ?_
  rw [toUInt16_toNat (by omega)]
  simp only [hlength]
  refine (yields_read (Read.takes_u16 n)).andThen ?_
  refine (yields_ofExcept hname).andThen ?_
  refine (yields_read (Read.takes_u16 d)).andThen ?_
  refine (yields_ofExcept hdescriptor).andThen ?_
  refine (yields_read (Read.takes_u16 v.index)).finish ?_
  refine (yields_labelAt (hoff _ _ hstart).1).bind (z := []) (k := fun start' name =>
    LocalVariable.mk v.name v.descriptor start' (name stop) v.index) fun start' _ => ?_
  exact (yields_labelAt (hoff _ _ hstop).1).map

/-- The type of a slot is read back. -/
theorem slotBytes_gives (hoff : Resolves B offsetOf) (t : SlotType) :
    Pool.Edit.Gives (slotBytes offsetOf t) fun w r =>
      (∀ l, t = .uninitialized l → offsetOf l = .ok (offset offsetOf l)) ∧ ∀ pos,
        Yields B pos (readSlotType r) w fun name =>
          t.relabel fun l => name (offset offsetOf l) := by
  -- Only objects and uninitialized entries carry more than their tag.
  cases t with
  | object name =>
      refine (Pool.addClass_gives name).bind fun index => ?_
      refine Pool.gives_pure fun r hname => ⟨fun l hl => (by cases hl), fun pos => ?_⟩
      refine (yields_read (Read.takes_u8 7)).andThen (z := Bytes.ofU16 index) ?_
      exact (yields_read (Read.takes_u16 index)).finish (yields_ofExcept hname).map
  | uninitialized l =>
      refine (liftEdit_gives (offsetOf l)).bind fun o => ?_
      refine Pool.gives_pure fun r ho => ⟨fun l' hl => ?_, fun pos => ?_⟩
      · cases hl
        exact offset_of_ok ho
      · refine (yields_read (Read.takes_u8 8)).andThen (z := Bytes.ofCount o) ?_
        simp only [SlotType.relabel, offset_eq ho]
        refine (yields_read (Read.takes_u16 o.toUInt16)).finish ?_
        rw [toUInt16_toNat (hoff _ _ ho).2]
        exact (yields_labelAt (hoff _ _ ho).1).map
  | _ =>
      refine Pool.gives_pure fun r => ⟨fun l hl => (by cases hl), fun pos => ?_⟩
      exact (yields_read (Read.takes_u8 _)).finish (yields_pure _)

end Entries

/-- What reading a frame makes of what it carries along. -/
def framed (pc : Nat) (f : Frame) (s : FrameState) : FrameState where
  locals := f.locals
  last := some pc
  frames := s.frames.insert pc f

section Frames

variable {B : Nat → Prop} {pos pc : Nat} {offsetOf : Label → Except Error Nat}

/-- The distance of a frame from the one before it. -/
def frameDelta (last : Option Nat) (pc : Nat) : Nat :=
  match last with
  | none => pc
  | some last => pc - last - 1

/-- A frame that lists every slot is read back, whatever the frame before it was. -/
theorem readFrameChange_yields {r : Pool} {method : Member} {before : List SlotType} {delta : Nat}
    {f : Frame} {locals stack : List Bytes} (hdelta : delta ≤ 65535)
    (hlocals : f.locals.length ≤ 65535) (hstack : f.stack.length ≤ 65535)
    (hreads : List.Forall₂ (fun t w => ∀ pos, Yields B pos (readSlotType r) w
      fun name => t.relabel fun l => name (offset offsetOf l)) f.locals locals)
    (hreads' : List.Forall₂ (fun t w => ∀ pos, Yields B pos (readSlotType r) w
      fun name => t.relabel fun l => name (offset offsetOf l)) f.stack stack) :
    Yields B pos (readFrameChange r method before)
      (255 :: (Bytes.ofCount delta ++ Bytes.ofCount f.locals.length ++ locals.flatten
        ++ Bytes.ofCount f.stack.length ++ stack.flatten))
      fun name => (delta, (f.relabel fun l => name (offset offsetOf l)).locals,
        (f.relabel fun l => name (offset offsetOf l)).stack) := by
  simp only [List.append_assoc]
  unfold readFrameChange
  refine (yields_read (Read.takes_u8 255)).andThen ?_
  -- The first byte, 255, is that of a full frame: the other seven forms are passed over.
  iterate 7 rw [if_neg (by decide)]
  refine (yields_read (Read.takes_u16 delta.toUInt16)).andThen ?_
  refine (yields_read (Read.takes_u16 f.locals.length.toUInt16)).andThen ?_
  rw [toUInt16_toNat hlocals, toUInt16_toNat hdelta]
  refine (yields_repeated hreads).bind (k := fun locals name => (delta, locals,
    (f.relabel fun l => name (offset offsetOf l)).stack)) fun locals' _ => ?_
  refine (yields_read (Read.takes_u16 f.stack.length.toUInt16)).andThen ?_
  rw [toUInt16_toNat hstack]
  exact (yields_repeated hreads').map

/-- A frame is read back behind the one before it. -/
theorem frameBytes_gives (hoff : Resolves B offsetOf) (method : Member) {last : Option Nat}
    {f : Frame} (hpc : B pc ∧ pc ≤ 65535) (hlast : ∀ o ∈ last, o < pc)
    (hlocals : f.locals.length ≤ 65535) (hstack : f.stack.length ≤ 65535) :
    Pool.Edit.Gives (frameBytes offsetOf last pc f) fun w r =>
      (∀ l ∈ frameLabels f, offsetOf l = .ok (offset offsetOf l)) ∧
      ∀ pos s, s.last = last →
        Yields B pos (readFrame r method s) w fun name =>
          framed pc (f.relabel fun l => name (offset offsetOf l)) s := by
  refine (Pool.gives_mapM fun t _ => slotBytes_gives hoff t).bind fun locals => ?_
  refine (Pool.gives_mapM fun t _ => slotBytes_gives hoff t).bind fun stack => ?_
  refine Pool.gives_pure fun r hslots' hslots => ?_
  rcases (List.forall₂_and_left _ _).mp hslots with ⟨hlabels, hreads⟩
  rcases (List.forall₂_and_left _ _).mp hslots' with ⟨hlabels', hreads'⟩
  refine ⟨fun l hl => ?_, fun pos s hs => ?_⟩
  · rcases List.mem_append.mp (mem_frameLabels.mp hl) with hl | hl
    · exact hlabels _ hl l rfl
    · exact hlabels' _ hl l rfl
  have hdelta : frameDelta last pc ≤ 65535 := by
    unfold frameDelta
    split <;> omega
  refine (readFrameChange_yields hdelta hlocals hstack hreads hreads').bindLast
    (k := fun change _ => framed pc ⟨change.2.1, change.2.2⟩ s) ?_
  rintro _ ⟨name, rfl⟩
  simp only [hs]
  cases last with
  | none => exact (yields_labelAt hpc.1).map
  | some o =>
      -- Behind another frame the offset is counted from the next byte.
      have hposition : o + frameDelta (some o) pc + 1 = pc := by
        have hlt := hlast o rfl
        change o + (pc - o - 1) + 1 = pc
        omega
      simp only [hposition]
      exact (yields_labelAt hpc.1).map

/-- Frames in ascending order are read back one after the other. -/
theorem frames_gives (hoff : Resolves B offsetOf) (method : Member)
    (last : Option Nat) {frames : List (Nat × Frame)}
    (hsorted : frames.Pairwise fun x y => x.1 < y.1) (hlast : ∀ o ∈ last, ∀ x ∈ frames, o < x.1)
    (hframes : ∀ x ∈ frames, (B x.1 ∧ x.1 ≤ 65535) ∧ x.2.locals.length ≤ 65535 ∧
      x.2.stack.length ≤ 65535) :
    Pool.Edit.Gives ((List.zip (last :: frames.map fun f => some f.1) frames).mapM
        fun (last, pc, f) => frameBytes offsetOf last pc f) fun ws r =>
      ws.length = frames.length ∧
      (∀ x ∈ frames, ∀ l ∈ frameLabels x.2, offsetOf l = .ok (offset offsetOf l)) ∧
      ∀ pos s, s.last = last →
        Yields B pos (iterated (readFrame r method) frames.length s) ws.flatten fun name =>
          frames.foldl
            (fun s x => framed x.1 (x.2.relabel fun l => name (offset offsetOf l)) s) s := by
  induction frames generalizing last with
  | nil => exact Pool.gives_pure fun r => ⟨rfl, nofun, fun pos s _ => yields_pure s⟩
  | cons x frames ih =>
      rcases List.pairwise_cons.mp hsorted with ⟨hbefore, hsorted⟩
      rcases hframes x List.mem_cons_self with ⟨hpc, hlocals, hstack⟩
      rw [List.map_cons, List.zip_cons_cons, List.mapM_cons]
      refine (frameBytes_gives hoff method hpc (fun o ho => hlast o ho x List.mem_cons_self)
        hlocals hstack).bind fun w => ?_
      -- The frames that follow are written against this one.
      refine (ih (some x.1) hsorted ?_ fun y hy =>
        hframes y (List.mem_cons_of_mem _ hy)).bind fun ws => ?_
      · intro o ho y hy
        cases ho
        exact hbefore y hy
      refine Pool.gives_pure fun r ⟨hlength, hlabels, hreads⟩ ⟨hlabel, hread⟩ => ⟨?_, ?_, ?_⟩
      · rw [List.length_cons, List.length_cons, hlength]
      · rw [List.forall_mem_cons]
        exact ⟨hlabel, hlabels⟩
      · intro pos s hs
        rw [List.flatten_cons, List.length_cons, iterated]
        refine (hread pos s hs).bind (k := fun s name => frames.foldl
          (fun s x => framed x.1 (x.2.relabel fun l => name (offset offsetOf l)) s) s) ?_
        rintro _ ⟨name, rfl⟩
        exact hreads _ _ rfl

end Frames

/-- The tables with a line number more. -/
def Tables.addLine (tables : Tables) (x : Nat × UInt16) : Tables :=
  { tables with lines := tables.lines.insert x.1 (x.2 :: (tables.lines[x.1]?).getD []) }

/-- The tables with names of local variables more. -/
def Tables.addLocals (tables : Tables) (locals : List LocalVariable) : Tables :=
  { tables with locals := tables.locals ++ locals }

/-- The tables with frames more. -/
def Tables.addFrames (tables : Tables) (frames : List (Nat × Frame)) : Tables :=
  { tables with frames := frames.foldl (fun m x => m.insert x.1 x.2) tables.frames }

/-- What an attribute makes of the tables, by its name. -/
def readContents (pool : Pool) (method : MethodInfo) (tables : Tables) (name : String)
    (data : Bytes) : Decode Tables :=
  if name = "LineNumberTable" then
    Decode.within data do iterated readLine (← Read.u16).toNat tables
  else if name = "LocalVariableTable" then
    Decode.within data do
      let locals ← repeated (← Read.u16).toNat (readLocal pool)
      return { tables with locals := tables.locals ++ locals }
  else if name = "StackMapTable" then
    Decode.within data do
      let count ← Read.u16
      let locals ← Decode.ofExcept method.initialLocals
      let s ← iterated (readFrame pool method.member) count.toNat
        { locals, frames := tables.frames }
      return { tables with frames := s.frames }
  else return tables

/-- Of an attribute the name and the bytes are read first, and then what is in them. -/
theorem readAttribute_eq (pool : Pool) (method : MethodInfo) (tables : Tables) :
    readAttribute pool method tables = (do
      let name ← Decode.ofExcept (pool.text (← Read.u16))
      let data ← Read.lengthPrefixed
      readContents pool method tables name data) :=
  rfl

section Attributes

variable {B : Nat → Prop} {offsetOf : Label → Except Error Nat} {method : MethodInfo}

/-- Attributes that are not too long are read one after the other, with an effect on the tables. -/
def AttributesRead (B : Nat → Prop) (method : MethodInfo) (ws : List Bytes) (r : Pool)
    (G : (Nat → Label) → Tables → Tables) : Prop :=
  (∀ w ∈ ws, w.length < 4294967296) → ∀ pos tables,
    Yields B pos (iterated (readAttribute r method) ws.length tables) ws.flatten
      fun name => G name tables

/-- Rounds may be made in two goes. -/
theorem iterated_add {m : Type → Type} [Monad m] [LawfulMonad m] {σ : Type} (step : σ → m σ)
    (n k : Nat) (s : σ) : iterated step (n + k) s = iterated step n s >>= iterated step k := by
  induction n generalizing s with
  | zero =>
      rw [Nat.zero_add, iterated, pure_bind]
  | succ n ih =>
      rw [Nat.succ_add, iterated, iterated, bind_assoc]
      exact congrArg _ (funext ih)

/-- Attributes that are read one after the other change the tables in turn. -/
theorem AttributesRead.append {ws ws' : List Bytes} {r : Pool}
    {G G' : (Nat → Label) → Tables → Tables} (h : AttributesRead B method ws r G)
    (h' : AttributesRead B method ws' r G') :
    AttributesRead B method (ws ++ ws') r fun name tables => G' name (G name tables) := by
  intro hsmall pos tables
  rw [List.forall_mem_append] at hsmall
  rw [List.length_append, List.flatten_append, iterated_add]
  exact (h hsmall.1 pos tables).bind (k := fun tables name => G' name tables)
    fun tables' _ => h' hsmall.2 _ tables'

/-- An attribute is read back by its name. -/
theorem attributeBytes_gives (B : Nat → Prop) (method : MethodInfo) (name : String)
    (contents : Bytes) :
    Pool.Edit.Gives (attributeBytes name contents) fun w r =>
      w.length < 4294967296 → ∀ pos tables (g : (Nat → Label) → Tables),
        (∀ pos, Yields B pos (readContents r method tables name contents) [] g) →
        Yields B pos (readAttribute r method tables) w g := by
  refine (Pool.addUtf8_gives name).bind fun index => ?_
  refine Pool.gives_pure fun r htext => ?_
  have hlength : (Bytes.ofU16 index ++ Bytes.lengthPrefixed contents).length
      = contents.length + 6 := by
    rw [Bytes.lengthPrefixed, List.length_append, List.length_append]
    change 2 + (4 + contents.length) = _
    omega
  intro hsmall pos tables g hg
  rw [readAttribute_eq]
  refine (yields_read (Read.takes_u16 index)).andThen ?_
  refine (yields_ofExcept htext).andThen (z := Bytes.lengthPrefixed contents) ?_
  exact (yields_read (Read.takes_lengthPrefixed (by omega))).finish (hg _)

/-- A count and that many entries. -/
theorem table_yields {α : Type} {f : Nat → Decode α} {g : (Nat → Label) → α} {ws : List Bytes}
    {n : Nat} (hlength : ws.length = n) (hn : n ≤ 65535)
    (h : ∀ pos, Yields B pos (f n) ws.flatten g) (pos : Nat) :
    Yields B pos (liftM Read.u16 >>= fun count => f count.toNat) (tableBytes ws) g := by
  unfold tableBytes
  rw [hlength]
  refine (yields_read (Read.takes_u16 n.toUInt16)).andThen ?_
  rw [toUInt16_toNat hn]
  exact h _

/-- A line number is added at the offset that it is written with. -/
theorem readLine_yields {pos : Nat} {tables : Tables} {x : Nat × UInt16}
    (hx : B x.1 ∧ x.1 ≤ 65535) :
    Yields B pos (readLine tables) (Bytes.ofCount x.1 ++ Bytes.ofU16 x.2)
      fun _ => tables.addLine x := by
  unfold readLine
  refine (yields_read (Read.takes_u16 x.1.toUInt16)).andThen ?_
  rw [toUInt16_toNat hx.2]
  refine (yields_read (Read.takes_u16 x.2)).finish ?_
  exact (yields_labelAt hx.1).map

/-- The line numbers are read back. -/
theorem lineTable_gives {lines : List (Nat × UInt16)} (hcount : lines.length ≤ 65535)
    (hlines : ∀ x ∈ lines, B x.1 ∧ x.1 ≤ 65535) :
    Pool.Edit.Gives (attributeBytes "LineNumberTable"
        (tableBytes (lines.map fun (pc, line) => Bytes.ofCount pc ++ Bytes.ofU16 line)))
      fun w r => w.length < 4294967296 → ∀ pos tables,
        Yields B pos (readAttribute r method tables) w fun _ =>
          lines.foldl Tables.addLine tables := by
  refine (attributeBytes_gives B method _ _).imp fun w r h hsmall pos tables => ?_
  refine h hsmall pos tables _ fun pos => ?_
  unfold readContents
  rw [if_pos rfl]
  refine yields_within (table_yields (f := fun n => iterated readLine n tables)
    (List.length_map _) hcount (fun pos => ?_) 0 [])
  refine yields_iterated (G := fun x _ tables => Tables.addLine tables x) ?_ tables
  rw [List.forall₂_map_right_iff]
  refine List.forall₂_same.mpr fun x hx pos tables => ?_
  exact readLine_yields (hlines x hx)

/-- The names of local variables are read back. -/
theorem localTable_gives (hoff : Resolves B offsetOf) {locals : List LocalVariable}
    (hcount : locals.length ≤ 65535)
    (hlocals : ∀ v ∈ locals, ∀ start stop, offsetOf v.start = .ok start →
      offsetOf v.stop = .ok stop → start ≤ stop) :
    Pool.Edit.Gives (do
        let entries ← locals.mapM (localBytes offsetOf)
        attributeBytes "LocalVariableTable" (tableBytes entries))
      fun w r => (∀ v ∈ locals, ∀ l ∈ v.labels, offsetOf l = .ok (offset offsetOf l)) ∧
        (w.length < 4294967296 → ∀ pos tables,
          Yields B pos (readAttribute r method tables) w fun name =>
            tables.addLocals
              (locals.map fun v => v.relabel fun l => name (offset offsetOf l))) := by
  refine (Pool.gives_mapM fun v hv => localBytes_gives hoff v (hlocals v hv)).bind fun ws => ?_
  refine (attributeBytes_gives B method _ _).imp fun w r h hws => ?_
  -- Each variable has its bytes; here its labels are told apart from how the bytes are read.
  rcases (List.forall₂_and_left _ _).mp hws with ⟨hlabels, hreads⟩
  refine ⟨hlabels, fun hsmall pos tables => h hsmall pos tables _ fun pos => ?_⟩
  unfold readContents
  rw [if_neg (by decide), if_pos rfl]
  refine yields_within (table_yields (f := fun n => do
      let locals ← repeated n (readLocal r)
      return { tables with locals := tables.locals ++ locals })
    hreads.length_eq.symm hcount (fun pos => ?_) 0 [])
  exact (yields_repeated hreads).map

/-- Frames that are read one by one are inserted one by one. -/
theorem foldl_framed (frames : List (Nat × Frame)) (f : Frame → Frame) (s : FrameState) :
    (frames.foldl (fun s x => framed x.1 (f x.2) s) s).frames
      = (frames.map fun x => (x.1, f x.2)).foldl (fun m x => m.insert x.1 x.2) s.frames := by
  induction frames generalizing s with
  | nil => rfl
  | cons x frames ih => exact ih _

/-- The frames are read back, if the types of the local variables on entry are known. -/
theorem frameTable_gives (hoff : Resolves B offsetOf) {frames : List (Nat × Frame)}
    {entry : List SlotType} (hentry : method.initialLocals = .ok entry)
    (hcount : frames.length ≤ 65535) (hsorted : frames.Pairwise fun x y => x.1 < y.1)
    (hframes : ∀ x ∈ frames, (B x.1 ∧ x.1 ≤ 65535) ∧ x.2.locals.length ≤ 65535 ∧
      x.2.stack.length ≤ 65535) :
    Pool.Edit.Gives (do
        let entries ← framesBytes offsetOf frames
        attributeBytes "StackMapTable" (tableBytes entries))
      fun w r => (∀ x ∈ frames, ∀ l ∈ frameLabels x.2, offsetOf l = .ok (offset offsetOf l)) ∧
        (w.length < 4294967296 → ∀ pos tables,
          Yields B pos (readAttribute r method tables) w fun name =>
            tables.addFrames
              (frames.map fun x => (x.1, x.2.relabel fun l => name (offset offsetOf l)))) := by
  refine (frames_gives hoff method.member none hsorted nofun hframes).bind fun ws => ?_
  refine (attributeBytes_gives B method _ _).imp fun w r h ⟨hlength, hlabels, hreads⟩ => ?_
  refine ⟨hlabels, fun hsmall pos tables => h hsmall pos tables _ fun pos => ?_⟩
  unfold readContents
  rw [if_neg (by decide), if_neg (by decide), if_pos rfl]
  refine yields_within (table_yields (f := fun n => do
      let locals ← Decode.ofExcept method.initialLocals
      let s ← iterated (readFrame r method.member) n { locals, frames := tables.frames }
      return { tables with frames := s.frames })
    hlength hcount (fun pos => ?_) 0 [])
  -- The first frame is told by what it changes of the entry frame.
  refine (yields_ofExcept hentry).andThen (z := ws.flatten) ?_
  refine (hreads _ _ rfl).map.congr fun name => ?_
  rw [foldl_framed frames (Frame.relabel fun l => name (offset offsetOf l))]
  rfl

/-- An attribute that is left out if it would be empty. -/
def optional (isEmpty : Bool) (m : Pool.Edit Bytes) : Pool.Edit (List Bytes) :=
  if isEmpty then pure [] else do return [← m]

/-- The three attributes are written one after the other, each unless it is empty. -/
theorem attributes_eq (placed : List Placed) (locals : List LocalVariable) :
    attributes offsetOf placed locals = (do
      let lineTable ← optional (lineEntries placed).isEmpty (attributeBytes "LineNumberTable"
        (tableBytes ((lineEntries placed).map fun (pc, line) =>
          Bytes.ofCount pc ++ Bytes.ofU16 line)))
      let localTable ← optional locals.isEmpty do
        let entries ← locals.mapM (localBytes offsetOf)
        attributeBytes "LocalVariableTable" (tableBytes entries)
      let frameTable ← optional (frameEntries placed).isEmpty do
        let entries ← framesBytes offsetOf (frameEntries placed)
        attributeBytes "StackMapTable" (tableBytes entries)
      return lineTable ++ localTable ++ frameTable) := by
  unfold attributes optional
  cases hlines : (lineEntries placed).isEmpty <;> cases locals.isEmpty <;>
    cases hframes : (frameEntries placed).isEmpty <;>
    simp only [hlines, hframes, Bool.false_eq_true, if_true, if_false, pure_bind,
      bind_assoc]

theorem optional_gives (B : Nat → Prop) (method : MethodInfo) {isEmpty : Bool}
    {m : Pool.Edit Bytes} {P : Prop} {G : (Nat → Label) → Tables → Tables}
    (hempty : isEmpty = true → P ∧ ∀ name tables, G name tables = tables)
    (hm : isEmpty = false → Pool.Edit.Gives m fun w r => P ∧ (w.length < 4294967296 →
      ∀ pos tables, Yields B pos (readAttribute r method tables) w fun name => G name tables)) :
    Pool.Edit.Gives (optional isEmpty m) fun ws r =>
      ws.length ≤ 1 ∧ P ∧ AttributesRead B method ws r G := by
  cases isEmpty with
  | true =>
      refine Pool.gives_pure fun r => ⟨Nat.zero_le 1, (hempty rfl).1, fun _ pos tables => ?_⟩
      refine (yields_pure tables).congr fun name => ?_
      rw [(hempty rfl).2]
  | false =>
      refine (hm rfl).bind fun w => ?_
      refine Pool.gives_pure fun r ⟨hP, hread⟩ => ⟨Nat.le_refl 1, hP, fun hsmall pos tables => ?_⟩
      have hbind := (hread (hsmall w List.mem_cons_self) pos tables).map (f := id)
      rw [List.flatten_singleton]
      exact hbind

/-- What the attributes of a body hold. -/
def tabulated (offsetOf : Label → Except Error Nat) (placed : List Placed)
    (locals : List LocalVariable) (name : Nat → Label) (tables : Tables) : Tables :=
  (((lineEntries placed).foldl Tables.addLine tables).addLocals
    (locals.map fun v => v.relabel fun l => name (offset offsetOf l))).addFrames
    ((frameEntries placed).map fun x => (x.1, x.2.relabel fun l => name (offset offsetOf l)))

/-- The attributes are read back. -/
theorem attributes_gives (hoff : Resolves B offsetOf) {placed : List Placed}
    {locals : List LocalVariable} (hlineCount : (lineEntries placed).length ≤ 65535)
    (hlines : ∀ x ∈ lineEntries placed, B x.1 ∧ x.1 ≤ 65535) (hlocalCount : locals.length ≤ 65535)
    (hlocals : ∀ v ∈ locals, ∀ start stop, offsetOf v.start = .ok start →
      offsetOf v.stop = .ok stop → start ≤ stop)
    (hentry : frameEntries placed ≠ [] → ∃ entry, method.initialLocals = .ok entry)
    (hframeCount : (frameEntries placed).length ≤ 65535)
    (hsorted : (frameEntries placed).Pairwise fun x y => x.1 < y.1)
    (hframes : ∀ x ∈ frameEntries placed, (B x.1 ∧ x.1 ≤ 65535) ∧
      x.2.locals.length ≤ 65535 ∧ x.2.stack.length ≤ 65535) :
    Pool.Edit.Gives (attributes offsetOf placed locals) fun ws r =>
      ws.length ≤ 3 ∧
      (∀ v ∈ locals, ∀ l ∈ v.labels, offsetOf l = .ok (offset offsetOf l)) ∧
      (∀ x ∈ frameEntries placed, ∀ l ∈ frameLabels x.2, offsetOf l = .ok (offset offsetOf l)) ∧
      AttributesRead B method ws r (tabulated offsetOf placed locals) := by
  rw [attributes_eq]
  refine (optional_gives B method (P := True)
    (G := fun _ tables => (lineEntries placed).foldl Tables.addLine tables) ?_ ?_).bind
    fun ws₁ => ?_
  · intro hnone
    rw [List.isEmpty_iff.mp hnone]
    exact ⟨trivial, fun _ _ => rfl⟩
  · intro _
    exact (lineTable_gives hlineCount hlines).imp fun w r h => ⟨trivial, h⟩
  refine (optional_gives B method (G := fun name tables => Tables.addLocals tables
    (locals.map fun v => v.relabel fun l => name (offset offsetOf l))) ?_
    fun _ => localTable_gives hoff hlocalCount hlocals).bind fun ws₂ => ?_
  · intro hnone
    rw [List.isEmpty_iff.mp hnone]
    refine ⟨nofun, fun name tables => ?_⟩
    rw [Tables.addLocals, List.map_nil, List.append_nil]
  refine (optional_gives B method
    (P := ∀ x ∈ frameEntries placed, ∀ l ∈ frameLabels x.2, offsetOf l = .ok (offset offsetOf l))
    (G := fun name tables => Tables.addFrames tables
    ((frameEntries placed).map fun x => (x.1, x.2.relabel fun l => name (offset offsetOf l))))
    ?_ ?_).bind fun ws₃ => ?_
  · intro hnone
    rw [List.isEmpty_iff.mp hnone]
    exact ⟨nofun, fun _ _ => rfl⟩
  · intro hsome
    rcases hentry (by rintro heq; rw [heq] at hsome; cases hsome) with ⟨entry, hentry⟩
    exact frameTable_gives hoff hentry hframeCount hsorted hframes
  -- Each of the three tables adds one attribute at most.
  refine Pool.gives_pure fun r ⟨h₃, hframe, hread₃⟩ ⟨h₂, hlocal, hread₂⟩ ⟨h₁, _, hread₁⟩ => ?_
  refine ⟨?_, hlocal, hframe, (hread₁.append hread₂).append hread₃⟩
  rw [List.length_append, List.length_append]
  omega

end Attributes

end Body

end JvmFold
