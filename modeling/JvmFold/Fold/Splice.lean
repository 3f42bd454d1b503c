import JvmFold.Fold.Candidate

/-!
# Splicing

Puts new code in the place of spans. The span that starts last comes first, so
the positions in front of it still hold for the others, and one walk over the
body does them all. The marks inside a span are kept in front of the new code.

The spans must not overlap. Where they do, the outer span counts its width in
what the inner one has left, and takes too much or too little.

New code may need more of the stack than the span did; the limit of the body
grows by what it needs beyond the value that it leaves.

## Main definitions

* `peakDepth`: How deep code makes the stack.
* `weave`: Instructions with new code in the place of spans.
* `byStart`: The order in which the spans are woven.
* `Body.splice`: A body with new code in the place of spans.
* `Body.apply`: The same with the number of spans.
-/

namespace JvmFold

/-- The greatest depth of the stack that code reaches from a depth on, at least `peak`. -/
def peakFrom (depth peak : Int) : List Instruction → Int
  | [] => peak
  | i :: rest =>
    let (popped, pushed) := i.stackEffect?.getD (0, 0)
    let depth := depth - popped + pushed
    peakFrom depth (max peak depth) rest

/-- The greatest depth of the stack that code reaches on an empty one; a limit can be no greater
    than 65535. -/
def peakDepth (code : List Instruction) : Nat :=
  min (peakFrom 0 0 code).toNat 65535

/-- The instructions with new code in the place of spans. The first instruction is at `position`,
    and the spans come by their starts, each woven into what the ones behind it have left. -/
def weave (position : Nat) : List Replacement → List Instruction → List Instruction
  | [], l => l
  | r :: rest, l =>
    let behind := weave r.start rest (l.drop (r.start - position))
    let width := r.stop + 1 - r.start
    l.take (r.start - position)
      ++ ((behind.take width).filter Instruction.isPseudo ++ (r.code ++ behind.drop width))

/-- A limit of the stack with room for new code: it is on top of what was there, and the value that
    it leaves had its place already. -/
def Replacement.raise (limit : UInt16) (r : Replacement) : UInt16 :=
  (min (limit.toNat + (peakDepth r.code - r.slots)) 65535).toUInt16

/-- The spans by their starts; of two that start together the later one comes first. -/
def byStart (l : List Replacement) : List Replacement :=
  (l.mergeSort fun r s => s.start ≤ r.start).reverse

/-- The body with new code in the place of spans. -/
def Body.splice (b : Body) (l : List Replacement) : Body :=
  if l.isEmpty then b
  else
    { b with
      instructions := weave 0 (byStart l) b.instructions
      maxStack := l.foldl Replacement.raise b.maxStack
      modified := true }

/-- Puts new code in the place of spans. Answers how many they are with the body. -/
def Body.apply (b : Body) (l : List Replacement) : Body × Nat :=
  (b.splice l, l.length)

end JvmFold
