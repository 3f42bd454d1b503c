import JvmFold.Proofs.Body.Emission
import JvmFold.Proofs.Bytes.Answers

/-!
# Bodies in Pools That Have Grown

A body is bytes and a pool that the bytes refer to. A pool that grows keeps
what an index stands for, and so the body decodes to the same instructions
with every pool that grows out of the one it came with. A pool with more
entries can only turn an error into an answer, since an index that led nowhere
may lead somewhere now. This is why the claim is about answers and why it goes
one way: what the first pool answers, the second answers too.

Decoding is a computation in many steps, most of which never look at the pool.
Whether a step only gains answers is settled step by step, so nothing has to
be said about those steps.

## Main definitions

* `Decode.Refines`: Whatever the first computation answers the second answers.

## Theorems

* `Pool.Grows.className`, `Pool.Grows.member`, `Pool.Grows.loadable`: What an index stands for.
* `Body.decode_of_grows`: A body is decoded in the same way with a pool that has grown.
-/

namespace JvmFold

/-- A computation in two steps answers what another one answers if its steps do. -/
theorem except_bind_mono {ε α β : Type} {x y : Except ε α} {f g : α → Except ε β} {b : β}
    (hx : ∀ a, x = .ok a → y = .ok a) (hf : ∀ a, f a = .ok b → g a = .ok b)
    (h : x >>= f = .ok b) : y >>= g = .ok b := by
  rcases except_bind_ok h with ⟨a, ha, hb⟩
  rw [hx a ha]
  exact hf a hb

namespace Pool

variable {p q : Pool} {i : UInt16}

/-- A class that is named stays named. -/
theorem Grows.className {name : String} (hg : Grows p q) (h : p.className i = .ok name) :
    q.className i = .ok name := by
  refine except_bind_mono (fun e he => hg.entry he) (fun e h => ?_) h
  cases e with
  | classRef n => exact hg.text h
  | _ => cases h

/-- A member that is named stays named. -/
theorem Grows.member {m : Member × Bool} (hg : Grows p q) (h : p.member i = .ok m) :
    q.member i = .ok m := by
  refine except_bind_mono (fun e he => hg.entry he) (fun e h => ?_) h
  -- The three kinds of members differ in nothing but the kind of their owner.
  have hresolve {owner nat : UInt16} {isInterface : Bool}
      (h : (p.className owner >>= fun owner => p.nameAndType nat >>= fun signature =>
        pure (signature.on owner, isInterface)) = Except.ok m) :
      (q.className owner >>= fun owner => q.nameAndType nat >>= fun signature =>
        pure (signature.on owner, isInterface)) = Except.ok m := by
    refine except_bind_mono (fun name hname => hg.className hname) (fun name h => ?_) h
    exact except_bind_mono (fun s hs => hg.nameAndType hs) (fun s h => h) h
  cases e with
  | fieldRef owner nat => exact hresolve h
  | methodRef owner nat => exact hresolve h
  | interfaceMethodRef owner nat => exact hresolve h
  | _ => cases h

/-- A constant that can be loaded stays what it is. -/
theorem Grows.loadable {k : Constant} (hg : Grows p q) (h : p.loadable i = .ok k) :
    q.loadable i = .ok k := by
  refine except_bind_mono (fun e he => hg.entry he) (fun e h => ?_) h
  cases e with
  | string t => exact except_bind_mono (fun text htext => hg.text htext) (fun text h => h) h
  | classRef n => exact except_bind_mono (fun text htext => hg.text htext) (fun text h => h) h
  | _ => exact h

end Pool

namespace Decode

/-- Whatever the first computation answers the second answers too, with the same labels and the
    same bytes left. -/
class Refines {α : Type} (x y : Decode α) : Prop where
  answers : ∀ table c a c', x table c = .ok a c' → y table c = .ok a c'

section Refines

variable {α β : Type} {x y : Decode α}

instance (x : Decode α) : Refines x x :=
  ⟨fun _ _ _ _ h => h⟩

/-- Two parts refine two others one after the other. -/
theorem Refines.bind {f g : α → Decode β} (hx : Refines x y) (hf : ∀ a, Refines (f a) (g a)) :
    Refines (x >>= f) (y >>= g) := by
  refine ⟨fun table c b c' h => ?_⟩
  rcases bind_eq_ok h with ⟨⟨a, t⟩, c₁, ha, hb⟩
  exact (bind_of_ok (hx.answers _ _ _ _ ha)).trans ((hf a).answers _ _ _ _ hb)

instance {f g : α → Decode β} [Refines x y] [∀ a, Refines (f a) (g a)] :
    Refines (x >>= f) (y >>= g) :=
  Refines.bind inferInstance inferInstance

instance (f : α → β) [Refines x y] : Refines (f <$> x) (f <$> y) := by
  rw [map_eq_pure_bind, map_eq_pure_bind]
  infer_instance

instance (c : Prop) [Decidable c] {x' y' : Decode α} [Refines x y] [Refines x' y'] :
    Refines (if c then x else x') (if c then y else y') := by
  split <;> infer_instance

instance (n : Nat) [Refines x y] : Refines (repeated n x) (repeated n y) := by
  induction n with
  | zero => exact inferInstanceAs (Refines (pure []) (pure []))
  | succ n ih =>
      rw [repeated_succ, repeated_succ]
      infer_instance

instance (n : Nat) (s : α) {f g : α → Decode α} [∀ s, Refines (f s) (g s)] :
    Refines (iterated f n s) (iterated g n s) := by
  induction n generalizing s with
  | zero => exact inferInstanceAs (Refines (pure _) (pure _))
  | succ n ih =>
      unfold iterated
      exact Refines.bind inferInstance ih

/-- A computation that starts from a byte string of its own answers what the other answers. -/
theorem Refines.parse (h : Refines x y) {table : LabelTable} {data : Bytes} {a : α × LabelTable}
    (hx : (x.run table).parse data = .ok a) : (y.run table).parse data = .ok a := by
  rcases Read.parse_eq_ok.1 hx with ⟨c, hrun⟩
  exact Read.parse_eq_ok.2 ⟨c, h.answers _ _ _ _ hrun⟩

theorem Refines.lift {r s : Except Error α} (h : ∀ a, r = .ok a → s = .ok a) :
    Refines (ofExcept r) (ofExcept s) := by
  cases r with
  | error e => exact ⟨fun _ _ _ _ hr => nomatch hr⟩
  | ok a =>
      rw [h a rfl]
      infer_instance

instance (data : Bytes) [hx : Refines x y] : Refines (within data x) (within data y) := by
  refine ⟨fun table c a c' h => ?_⟩
  unfold within at h ⊢
  rcases Read.lift_eq_ok h with ⟨hparse, rfl⟩
  rw [hx.parse hparse]
  rfl

end Refines

end Decode

namespace Body

open Decode Pool

variable {p q : Pool} [hg : Fact (Grows p q)]

instance (i : UInt16) : Refines (Decode.ofExcept (p.text i)) (Decode.ofExcept (q.text i)) :=
  Refines.lift fun _ h => hg.out.text h

instance (i : UInt16) : Refines (Decode.ofExcept (p.entry i)) (Decode.ofExcept (q.entry i)) :=
  Refines.lift fun _ h => hg.out.entry h

instance (i : UInt16) :
    Refines (Decode.ofExcept (p.className i)) (Decode.ofExcept (q.className i)) :=
  Refines.lift fun _ h => hg.out.className h

instance (i : UInt16) :
    Refines (Decode.ofExcept (p.nameAndType i)) (Decode.ofExcept (q.nameAndType i)) :=
  Refines.lift fun _ h => hg.out.nameAndType h

instance (i : UInt16) : Refines (Decode.ofExcept (p.member i)) (Decode.ofExcept (q.member i)) :=
  Refines.lift fun _ h => hg.out.member h

instance (i : UInt16) : Refines (Decode.ofExcept (p.loadable i)) (Decode.ofExcept (q.loadable i)) :=
  Refines.lift fun _ h => hg.out.loadable h

instance (pc : Nat) : Refines (readInvokeDynamic p pc) (readInvokeDynamic q pc) := by
  unfold readInvokeDynamic
  refine Refines.bind inferInstance fun index => Refines.bind inferInstance fun _ => ?_
  refine Refines.bind inferInstance fun e => ?_
  cases e <;> infer_instance

instance (length pc : Nat) (op : Opcode) :
    Refines (readOperands p length pc op) (readOperands q length pc op) := by
  cases hop : op.isSpecial with
  | false =>
      rw [readOperands_other hop, readOperands_other hop]
      infer_instance
  | true =>
      cases op <;> first
        | exact absurd hop (by decide)
        | (unfold readOperands; infer_instance)

instance (length : Nat) : Refines (readInstruction p length) (readInstruction q length) := by
  unfold readInstruction
  infer_instance

instance (length rounds : Nat) (acc : List (Nat × Instruction)) :
    Refines (readInstructions p length rounds acc) (readInstructions q length rounds acc) := by
  induction rounds generalizing acc with
  | zero => exact inferInstanceAs (Refines (pure _) (pure _))
  | succ rounds ih =>
      unfold readInstructions
      infer_instance

instance : Refines (readHandler p) (readHandler q) := by
  unfold readHandler
  refine Refines.bind inferInstance fun _ => Refines.bind inferInstance fun start => ?_
  refine Refines.bind inferInstance fun _ => Refines.bind inferInstance fun stop => ?_
  infer_instance

instance : Refines (readLocal p) (readLocal q) := by
  unfold readLocal
  dsimp only
  infer_instance

instance : Refines (readSlotType p) (readSlotType q) := by
  unfold readSlotType
  refine Refines.bind inferInstance fun tag => ?_
  split <;> infer_instance

instance (method : Member) (locals : List SlotType) :
    Refines (readFrameChange p method locals) (readFrameChange q method locals) := by
  unfold readFrameChange
  infer_instance

instance (method : Member) (s : FrameState) :
    Refines (readFrame p method s) (readFrame q method s) := by
  unfold readFrame
  infer_instance

instance (method : MethodInfo) (tables : Tables) :
    Refines (Body.readAttribute p method tables) (Body.readAttribute q method tables) := by
  unfold Body.readAttribute
  refine Refines.bind inferInstance fun _ => Refines.bind inferInstance fun name => ?_
  refine Refines.bind inferInstance fun data => ?_
  split
  · infer_instance
  · split <;> infer_instance

instance (method : MethodInfo) : Refines (readBody p method) (readBody q method) := by
  unfold readBody
  infer_instance

omit hg in
/-- A body is decoded in the same way with a pool that has grown. -/
theorem decode_of_grows {data : Bytes} {method : MethodInfo} {b : Body} (hg : Grows p q)
    (h : decode data p method = .ok b) : decode data q method = .ok b := by
  have : Fact (Grows p q) := ⟨hg⟩
  have hbody : Refines (readBody p method) (readBody q method) := inferInstance
  exact except_bind_mono (fun a ha => hbody.parse ha) (fun a ha => ha) h

end Body

end JvmFold
