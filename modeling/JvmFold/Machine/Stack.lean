import JvmFold.Machine.Fault

/-!
# Instructions on the Stack

The instructions that need nothing but the operand stack: constants, copies,
arithmetic without division, conversions and comparisons. A stack is a list of
values with the top first; a `long` or a `double` is one value on it.

Values are taken off one at a time, and each is checked as it comes. So of two
things that are wrong the one nearer to the top shows.

## Main definitions

* `Stack.pop` and its companions: Taking values off.
* `Stack.shuffle?`: The instructions that copy and rearrange.
* `Stack.compute?`: The instructions that compute.
-/

namespace JvmFold

/-- An operand stack, top first. -/
abbrev Stack := List Value

namespace Stack

/-- The top and the rest. -/
@[inline] def pop : Stack → Except Fault (Value × Stack)
  | [] => .error .stackUnderflow
  | v :: s => .ok (v, s)

/-- The top as an `int`. -/
@[inline] def popInt (s : Stack) : Except Fault (Int32 × Stack) := do
  let (v, s) ← pop s
  return (← v.asInt, s)

/-- The top as a `long`. -/
@[inline] def popLong (s : Stack) : Except Fault (Int64 × Stack) := do
  let (v, s) ← pop s
  return (← v.asLong, s)

/-- The top as a `float`. -/
@[inline] def popFloat (s : Stack) : Except Fault (Bits32 × Stack) := do
  let (v, s) ← pop s
  return (← v.asFloat, s)

/-- The top as a `double`. -/
@[inline] def popDouble (s : Stack) : Except Fault (Bits64 × Stack) := do
  let (v, s) ← pop s
  return (← v.asDouble, s)

/-- The top as a reference; nothing for `null`. -/
@[inline] def popReference (s : Stack) : Except Fault (Option HeapRef × Stack) := do
  let (v, s) ← pop s
  return (← v.asReference, s)

/-- The given number of values, the one pushed first in front, and the rest. -/
def popMany (n : Nat) (s : Stack) : Except Fault (List Value × Stack) :=
  if (s.take n).length < n then .error .stackUnderflow else .ok ((s.take n).reverse, s.drop n)

/-- Whether a value takes two slots. -/
def isWide (v : Value) : Bool :=
  v.slots == 2

/-- The instructions that copy and rearrange values, with what they do. -/
def shuffle? : Opcode → Option (Stack → Except Fault Stack)
  | .pop => some fun
    | _ :: s => .ok s
    | _ => .error .stackUnderflow
  | .pop2 => some fun
    | a :: s =>
      if isWide a then .ok s
      else
        match s with
        | _ :: s => .ok s
        | [] => .error .stackUnderflow
    | [] => .error .stackUnderflow
  | .dup => some fun
    | a :: s => .ok (a :: a :: s)
    | _ => .error .stackUnderflow
  | .dupX1 => some fun
    | a :: b :: s => .ok (a :: b :: a :: s)
    | _ => .error .stackUnderflow
  | .dupX2 => some fun
    | a :: b :: s =>
      if isWide b then .ok (a :: b :: a :: s)
      else
        match s with
        | c :: s => .ok (a :: b :: c :: a :: s)
        | [] => .error .stackUnderflow
    | _ => .error .stackUnderflow
  | .dup2 => some fun
    | a :: s =>
      if isWide a then .ok (a :: a :: s)
      else
        match s with
        | b :: s => .ok (a :: b :: a :: b :: s)
        | [] => .error .stackUnderflow
    | [] => .error .stackUnderflow
  | .dup2X1 => some fun
    | a :: b :: s =>
      if isWide a then .ok (a :: b :: a :: s)
      else
        match s with
        | c :: s => .ok (a :: b :: c :: a :: b :: s)
        | [] => .error .stackUnderflow
    | _ => .error .stackUnderflow
  | .dup2X2 => some fun
    | a :: b :: s =>
      if isWide a then
        if isWide b then .ok (a :: b :: a :: s)
        else
          match s with
          | c :: s => .ok (a :: b :: c :: a :: s)
          | [] => .error .stackUnderflow
      else
        match s with
        | c :: s =>
          if isWide c then .ok (a :: b :: c :: a :: b :: s)
          else
            match s with
            | d :: s => .ok (a :: b :: c :: d :: a :: b :: s)
            | [] => .error .stackUnderflow
        | [] => .error .stackUnderflow
    | _ => .error .stackUnderflow
  | .swap => some fun
    | a :: b :: s => .ok (b :: a :: s)
    | _ => .error .stackUnderflow
  | _ => none

/-- A function of an `int`. -/
def ofInt (f : Int32 → Value) (s : Stack) : Except Fault Stack := do
  let (a, s) ← popInt s
  return f a :: s

/-- A function of a `long`. -/
def ofLong (f : Int64 → Value) (s : Stack) : Except Fault Stack := do
  let (a, s) ← popLong s
  return f a :: s

/-- A function of a `float`. -/
def ofFloat (f : Bits32 → Value) (s : Stack) : Except Fault Stack := do
  let (a, s) ← popFloat s
  return f a :: s

/-- A function of a `double`. -/
def ofDouble (f : Bits64 → Value) (s : Stack) : Except Fault Stack := do
  let (a, s) ← popDouble s
  return f a :: s

/-- A function of two values of type `int`. -/
def ofInts (f : Int32 → Int32 → Int32) (s : Stack) : Except Fault Stack := do
  let (b, s) ← popInt s
  let (a, s) ← popInt s
  return .int (f a b) :: s

/-- A function of two values of type `long`. -/
def ofLongs (f : Int64 → Int64 → Value) (s : Stack) : Except Fault Stack := do
  let (b, s) ← popLong s
  let (a, s) ← popLong s
  return f a b :: s

/-- A function of a `long` and a shift. -/
def ofShift (f : Int64 → Int64 → Int64) (s : Stack) : Except Fault Stack := do
  let (b, s) ← popInt s
  let (a, s) ← popLong s
  return .long (f a (b &&& 63).toInt64) :: s

/-- A function of two values of type `float`. -/
def ofFloats (f : Bits32 → Bits32 → Value) (s : Stack) : Except Fault Stack := do
  let (b, s) ← popFloat s
  let (a, s) ← popFloat s
  return f a b :: s

/-- A function of two values of type `double`. -/
def ofDoubles (f : Bits64 → Bits64 → Value) (s : Stack) : Except Fault Stack := do
  let (b, s) ← popDouble s
  let (a, s) ← popDouble s
  return f a b :: s

/-- An order as a value; `unordered` stands for numbers without one. -/
def ordering (unordered : Int32) : Option Ordering → Value
  | some .lt => .int (-1)
  | some .eq => .int 0
  | some .gt => .int 1
  | none => .int unordered

/-- A value pushed. -/
def push (v : Value) : Option (Stack → Except Fault Stack) :=
  some fun s => .ok (v :: s)

/-- The instructions that compute on the stack alone, with what they do. -/
def compute? : Opcode → Option (Stack → Except Fault Stack)
  | .nop => some .ok
  | .aconstNull => push .null
  | .iconstM1 => push (.int (-1))
  | .iconst0 => push (.int 0)
  | .iconst1 => push (.int 1)
  | .iconst2 => push (.int 2)
  | .iconst3 => push (.int 3)
  | .iconst4 => push (.int 4)
  | .iconst5 => push (.int 5)
  | .lconst0 => push (.long 0)
  | .lconst1 => push (.long 1)
  | .fconst0 => push (.float 0)
  | .fconst1 => push (.float Instruction.singleOne)
  | .fconst2 => push (.float Instruction.singleTwo)
  | .dconst0 => push (.double 0)
  | .dconst1 => push (.double Instruction.doubleOne)
  | .iadd => some (ofInts (· + ·))
  | .isub => some (ofInts (· - ·))
  | .imul => some (ofInts (· * ·))
  | .ineg => some (ofInt fun a => .int (-a))
  | .ishl => some (ofInts fun a b => a <<< (b &&& 31))
  | .ishr => some (ofInts fun a b => a >>> (b &&& 31))
  | .iushr => some (ofInts fun a b => (a.toUInt32 >>> (b &&& 31).toUInt32).toInt32)
  | .iand => some (ofInts (· &&& ·))
  | .ior => some (ofInts (· ||| ·))
  | .ixor => some (ofInts (· ^^^ ·))
  | .ladd => some (ofLongs fun a b => .long (a + b))
  | .lsub => some (ofLongs fun a b => .long (a - b))
  | .lmul => some (ofLongs fun a b => .long (a * b))
  | .lneg => some (ofLong fun a => .long (-a))
  | .lshl => some (ofShift (· <<< ·))
  | .lshr => some (ofShift (· >>> ·))
  | .lushr => some (ofShift fun a b => (a.toUInt64 >>> b.toUInt64).toInt64)
  | .land => some (ofLongs fun a b => .long (a &&& b))
  | .lor => some (ofLongs fun a b => .long (a ||| b))
  | .lxor => some (ofLongs fun a b => .long (a ^^^ b))
  | .fadd => some (ofFloats fun a b => .float (a.add b))
  | .fsub => some (ofFloats fun a b => .float (a.sub b))
  | .fmul => some (ofFloats fun a b => .float (a.mul b))
  | .fdiv => some (ofFloats fun a b => .float (a.div b))
  | .frem => some (ofFloats fun a b => .float (a.rem b))
  | .fneg => some (ofFloat fun a => .float a.neg)
  | .dadd => some (ofDoubles fun a b => .double (a.add b))
  | .dsub => some (ofDoubles fun a b => .double (a.sub b))
  | .dmul => some (ofDoubles fun a b => .double (a.mul b))
  | .ddiv => some (ofDoubles fun a b => .double (a.div b))
  | .drem => some (ofDoubles fun a b => .double (a.rem b))
  | .dneg => some (ofDouble fun a => .double a.neg)
  | .i2l => some (ofInt fun a => .long a.toInt64)
  | .i2f => some (ofInt fun a => .float (Bits32.ofInt a.toInt))
  | .i2d => some (ofInt fun a => .double (Bits64.ofInt a.toInt))
  | .l2i => some (ofLong fun a => .int a.toInt32)
  | .l2f => some (ofLong fun a => .float (Bits32.ofInt a.toInt))
  | .l2d => some (ofLong fun a => .double (Bits64.ofInt a.toInt))
  | .f2i => some (ofFloat fun a => .int a.truncate32)
  | .f2l => some (ofFloat fun a => .long a.truncate64)
  | .f2d => some (ofFloat fun a => .double a.toDouble)
  | .d2i => some (ofDouble fun a => .int a.truncate32)
  | .d2l => some (ofDouble fun a => .long a.truncate64)
  | .d2f => some (ofDouble fun a => .float a.toSingle)
  | .i2b => some (ofInt fun a => .int a.toInt8.toInt32)
  | .i2c => some (ofInt fun a => .int a.toUInt32.toUInt16.toUInt32.toInt32)
  | .i2s => some (ofInt fun a => .int a.toInt16.toInt32)
  | .lcmp => some (ofLongs fun a b => ordering 0 (some (compare a b)))
  | .fcmpl => some (ofFloats fun a b => ordering (-1) (a.compare? b))
  | .fcmpg => some (ofFloats fun a b => ordering 1 (a.compare? b))
  | .dcmpl => some (ofDoubles fun a b => ordering (-1) (a.compare? b))
  | .dcmpg => some (ofDoubles fun a b => ordering 1 (a.compare? b))
  | _ => none

/-- The instructions that branch, with the test they make. -/
def branch? : Opcode → Option (Stack → Except Fault (Bool × Stack))
  | .goto | .gotoW => some fun s => .ok (true, s)
  | .ifeq => some (intTest (· == 0))
  | .ifne => some (intTest (· != 0))
  | .iflt => some (intTest (· < 0))
  | .ifge => some (intTest (0 ≤ ·))
  | .ifgt => some (intTest (0 < ·))
  | .ifle => some (intTest (· ≤ 0))
  | .ifIcmpeq => some (intsTest (· == ·))
  | .ifIcmpne => some (intsTest (· != ·))
  | .ifIcmplt => some (intsTest (· < ·))
  | .ifIcmpge => some (intsTest fun a b => b ≤ a)
  | .ifIcmpgt => some (intsTest fun a b => b < a)
  | .ifIcmple => some (intsTest (· ≤ ·))
  | .ifAcmpeq => some (referencesTest (· == ·))
  | .ifAcmpne => some (referencesTest (· != ·))
  | .ifnull => some (referenceTest Option.isNone)
  | .ifnonnull => some (referenceTest Option.isSome)
  | _ => none
where
  /-- A test of an `int`. -/
  intTest (test : Int32 → Bool) (s : Stack) : Except Fault (Bool × Stack) := do
    let (a, s) ← popInt s
    return (test a, s)
  /-- A test of two values of type `int`. -/
  intsTest (test : Int32 → Int32 → Bool) (s : Stack) : Except Fault (Bool × Stack) := do
    let (b, s) ← popInt s
    let (a, s) ← popInt s
    return (test a b, s)
  /-- A test of a reference. -/
  referenceTest (test : Option HeapRef → Bool) (s : Stack) : Except Fault (Bool × Stack) := do
    let (a, s) ← popReference s
    return (test a, s)
  /-- A test of two references. -/
  referencesTest (test : Option HeapRef → Option HeapRef → Bool) (s : Stack) :
      Except Fault (Bool × Stack) := do
    let (b, s) ← popReference s
    let (a, s) ← popReference s
    return (test a b, s)

end Stack

end JvmFold
