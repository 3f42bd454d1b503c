import Std.Data.HashSet
import JvmFold.Fold.Candidate
import JvmFold.Fold.Evaluation
import JvmFold.Fold.Reconstruction

/-!
# Analysing Bodies

A body is followed once, from its first instruction to its last, with what is
known of the stack. A call whose operands are all known is evaluated, and its
value is known in turn. A known value that is used by anything else is written
back: the span that makes it is replaced by an instruction that loads the
value, or by code that makes an equal object. If that cannot be done, the
values it was made from are written back instead.

Nothing is known across the ends of blocks or through local variables.

Objects that are read from fields are shared with the rest of the program. One
that can change is never handed to an evaluation, and what an evaluation was
handed and may have changed is never written back on its own. A value that is
only read from fields keeps its read unless an instruction loads it, so that
objects stay the same objects.

## Main definitions

* `Progress`: What is kept from one pass to the next.
* `Subject`: The body that is followed.
* `Analysis.flush`: Writes a known value back.
* `Analysis.step`: Follows an instruction.
* `Analysis.replacements`: Follows a body.
-/

namespace JvmFold

/-- A span that was evaluated. -/
structure EvaluationSite where
  /-- The method. -/
  method : Member
  /-- The first instruction. -/
  start : Nat
  /-- The last instruction. -/
  stop : Nat
deriving DecidableEq, Hashable, Inhabited, Repr

/-- What is kept from one pass to the next. -/
structure Progress where
  /-- The static final fields that were assigned a known value. -/
  resolved : Std.TreeSet Member := ∅
  /-- What came of every evaluation. A later pass meets the same sites and takes the outcome from
      here, so that nothing is run twice. -/
  evaluated : Std.HashMap EvaluationSite (Except Failure (Member × Value)) := ∅

/-- The body that is followed. -/
structure Subject where
  /-- The configuration. -/
  config : Config
  /-- The class. -/
  owner : ClassFile
  /-- The method. -/
  method : Member
  /-- The instructions and marks. -/
  code : Array Instruction
  /-- The labels that something refers to. -/
  referenced : Std.HashSet Label
  /-- The order of initialization in the method. -/
  order : InitOrder
  /-- The number of the pass. -/
  pass : Nat

namespace Subject

/-- The body of a method of a class. -/
def ofBody (config : Config) (pass : Nat) (owner : ClassFile) (m : Method) (b : Body) :
    Subject where
  config := config
  owner := owner
  method := owner.methodMember m
  code := b.instructions.toArray
  referenced := Std.HashSet.ofList b.referenced
  order := .ofMethod config.classes owner m b.instructions
  pass := pass

/-- The position of the first instruction that is not a mark from a position on, or the end. -/
def nextReal (s : Subject) (i : Nat) : Nat :=
  if h : i < s.code.size then
    if s.code[i].isPseudo then s.nextReal (i + 1) else i
  else s.code.size
termination_by s.code.size - i

/-- Whether the spans follow each other without gaps and end right in front of a position. The
    cursor is where the first span has to start, if something stands in front of it. -/
def isContiguous (s : Subject) (position : Nat) : Option Nat → List Fold → Bool
  | cursor, [] => cursor.all (· == position)
  | cursor, f :: rest =>
    cursor.all (· == f.start) && s.isContiguous position (some (s.nextReal (f.stop + 1))) rest

/-- The instructions of a span without marks. -/
def realSpan (s : Subject) (start stop : Nat) : List Instruction :=
  (s.code.extract start (stop + 1)).toList.filter (!·.isPseudo)

end Subject

/-- The state of an analysis. -/
structure Tracker where
  /-- What is kept from one pass to the next. -/
  progress : Progress
  /-- The events of the run. -/
  runLog : EventLog
  /-- The events of the pass, which count only if the pass is the last one. -/
  passLog : EventLog
  /-- What is known of the stack, top first. -/
  stack : List Slot := []
  /-- The replacements, in the order in which they were decided. -/
  replacements : Array Replacement := #[]

/-- A step of an analysis. -/
abbrev Analysis := ReaderT Subject (StateT Tracker Probe)

namespace Analysis

/-- Lets a probe look at the machine. -/
def probe {α : Type} (p : Probe α) : Analysis α :=
  fun _ t => do return (← p, t)

/-- Notes an event of the pass in the method. -/
def note (kind : EventKind) (position : Nat) (member : Option Member) (message : String) :
    Analysis Unit := do
  let s ← read
  let event : Event := { kind, method := some s.method, location := some position, member,
                         message, pass := some s.pass }
  modify fun t => { t with passLog := t.passLog.push event }

/-- Notes why a call or read has no value. -/
def report (position : Nat) (member : Member) : Failure → Analysis Unit
  | .notConstant => return
  | .rejected m =>
    note .foldSkipped position (some m) ("predicate of " ++ m.display ++ " rejected the call")
  | .inaccessible missing cause => note .memberInaccessible position (some missing) cause
  | .failed message => note .foldSkipped position (some member) message

/-- The text of the event for a value that is written back. -/
def replacementText (h : Heap) (f : Fold) (recipe : Option String) : String :=
  f.member.elim "" (fun m => m.display ++ " -> ") ++ h.render f.value
    ++ recipe.elim "" (fun r => " via " ++ r)

/-- Replaces the span of a value, unless the code stands there already. -/
def replace (f : Fold) (code : List Instruction) (kind : EventKind) (recipe : Option String) :
    Analysis Unit := do
  if (← read).realSpan f.start f.stop = code then return
  note kind f.start f.member (replacementText (← probe Probe.heap) f recipe)
  let r : Replacement := ⟨f.start, f.stop, code, f.value.slots⟩
  modify fun t => { t with replacements := t.replacements.push r }

/-- Writes a value back, and answers whether that could be done. A value that is only read from
    fields and has no literal stays as it is. -/
def writeBack (f : Fold) : Analysis Bool := do
  let s ← read
  match (← probe Probe.heap).encoding f.value with
  | .literal load =>
    replace f [load] .constantFolded none
    return true
  | .object r =>
    if f.isRead then return true
    match ← probe (Rebuild.run ⟨s.config, s.order, f.start⟩ r) with
    | .ok found =>
      replace f (found.codeFor s.config.classes f.type) .instanceDeconstructed (some found.recipe)
      return true
    | .error obstacle =>
      if f.member.isSome then note .foldSkipped f.start f.member obstacle.message
      return false

mutual
/-- Writes a value back that is used by anything but an evaluation, or else the values it was made
    from. A literal stands in the body already. -/
def flush (f : Fold) : Analysis Unit :=
  match f with
  | ⟨.literal, _, _, _, _, _, _, _⟩ => return
  | ⟨origin, start, stop, value, type, member, children, stale⟩ => do
    let written ← if stale then pure false
      else writeBack ⟨origin, start, stop, value, type, member, children, stale⟩
    if written then return else flushAll children

/-- Writes several values back. -/
def flushAll : List Fold → Analysis Unit
  | [] => return
  | f :: rest => do
    flush f
    flushAll rest
end

/-- Gives up what is known of a slot. -/
def discard : Slot → Analysis Unit
  | .known f => flush f
  | _ => return

/-- Gives up what is known of operands. -/
def release (l : List Operand) : Analysis Unit :=
  flushAll (l.filterMap Operand.fold?)

/-- Pushes a slot. -/
def push (slot : Slot) : Analysis Unit :=
  modify fun t => { t with stack := slot :: t.stack }

/-- Pushes slots of which nothing is known. -/
def pushUnknown (slots : Nat) : Analysis Unit :=
  modify fun t => { t with stack := List.replicate slots .unknown ++ t.stack }

/-- Pushes a known value. -/
def pushFold (f : Fold) : Analysis Unit := do
  push (.known f)
  if f.value.slots = 2 then push .upper

/-- Pops a slot; below the bottom nothing is known. -/
def pop : Analysis Slot :=
  modifyGet fun t =>
    match t.stack with
    | [] => (.unknown, t)
    | slot :: rest => (slot, { t with stack := rest })

/-- Pops an operand of the given number of slots. -/
def popOperand (slots : Nat) : Analysis Operand := do
  if slots = 2 then
    let high ← pop
    let low ← pop
    match low, high with
    | .known f, .upper => return .known f
    | _, _ =>
      discard low
      discard high
      return .unknown
  else
    match ← pop with
    | .known f => return .known f
    | .uninitialized u => return .uninitialized u
    | _ => return .unknown

/-- Pops operands of the given types, the last of which is on top, and answers them in order. -/
def popOperands : List FieldType → Analysis (List Operand)
  | [] => return []
  | t :: rest => do
    let following ← popOperands rest
    return (← popOperand t.slots) :: following

/-- Ends a block: all that is known of the stack is given up, from the bottom to the top. -/
def endBlock : Analysis Unit := do
  let stack := (← get).stack
  modify fun t => { t with stack := [] }
  stack.reverse.forM discard

/-- Pops slots and gives up what is known of them. -/
def dropSlots : Nat → Analysis Unit
  | 0 => return
  | n + 1 => do
    discard (← pop)
    dropSlots n

/-- Follows an instruction of which only the effect on the stack is known. If not even that is
    known, nothing is known behind it. -/
def generic (i : Instruction) : Analysis Unit :=
  match i.stackEffect? with
  | none => endBlock
  | some (popped, pushed) => do
    dropSlots popped
    pushUnknown pushed

/-- Whether an evaluation could change the object of a value. Enumerators and objects of constant
    classes count as unchangeable. -/
def hasState (c : Config) (h : Heap) (v : Value) : Bool :=
  match v.reference? with
  | none => false
  | some r =>
    let o := h.get r
    o.isMutable && !c.classes.isSubtype o.className "java/lang/Enum"
      && !c.types.toList.any fun t => c.classes.isSubtype o.className t

/-- Whether one of the values is an object of the program that an evaluation must not change. -/
def touchesSharedState (l : List Fold) : Analysis Bool := do
  let c := (← read).config
  let h ← probe Probe.heap
  return l.any fun f => f.isRead && hasState c h f.value

/-- The value with a mark if its object can have been changed. -/
def Fold.aged (h : Heap) (f : Fold) : Fold :=
  { f with stale := f.stale || f.value.reference?.any fun r => (h.get r).isMutable }

/-- The operands of an evaluation, if it can be done: all are known, they stand right in front of
    the position, behind the cursor if there is one, and none is shared and can change. -/
def evaluable? (position : Nat) (cursor : Option Nat) (operands : List Operand) :
    Analysis (Option (List Fold)) := do
  match knownFolds? operands with
  | none => return none
  | some folds =>
    if !(← read).isContiguous position cursor folds then return none
    if ← touchesSharedState folds then return none
    return some folds

/-- Evaluates a span, or takes what came of it in an earlier pass. -/
def evaluate (start stop : Nat) (e : Evaluation (Member × Value)) :
    Analysis (Except Failure (Member × Value)) := do
  let site : EvaluationSite := ⟨(← read).method, start, stop⟩
  match (← get).progress.evaluated[site]? with
  | some outcome => return outcome
  | none =>
    let outcome ← probe (ExceptT.run e)
    modify fun t =>
      { t with progress.evaluated := t.progress.evaluated.insert site outcome }
    return outcome

/-- Follows a read of a static field. -/
def getStatic (position : Nat) (f : Member) : Analysis Unit := do
  let s ← read
  match FieldType.parse f.descriptor with
  | .error _ => pushUnknown 1
  | .ok type =>
    let declared := s.config.classes.declaredField f
    let isConstant := s.config.isConstantField declared
      || (← get).progress.resolved.contains declared
    if isConstant && s.order.isReadable declared position then
      match ← probe (ExceptT.run (Evaluation.readStatic f)) with
      | .ok value =>
        pushFold { origin := .staticField, start := position, stop := position, value, type,
                   member := some declared }
      | .error failure =>
        report position declared failure
        pushUnknown type.slots
    else pushUnknown type.slots

/-- Follows a read of a field of an object. -/
def getField (position : Nat) (f : Member) : Analysis Unit := do
  let s ← read
  let receiver ← popOperand 1
  match FieldType.parse f.descriptor with
  | .error _ =>
    release [receiver]
    pushUnknown 1
  | .ok type =>
    let declared := s.config.classes.declaredField f
    match receiver with
    | .known object =>
      if s.config.isConstantField declared && s.isContiguous position none [object] then
        match ← probe (ExceptT.run (Evaluation.readField object.value f)) with
        | .ok value =>
          pushFold { origin := .field, start := object.start, stop := position, value, type,
                     member := some declared, children := [object] }
        | .error failure =>
          report position declared failure
          flush object
          pushUnknown type.slots
      else
        flush object
        pushUnknown type.slots
    | _ => pushUnknown type.slots

/-- Whether a field is a static final field of the class. -/
def isOwnFinal (c : ClassFile) (f : Member) : Bool :=
  f.owner == c.name && (c.field? f.signature).any (·.isStaticFinal)

/-- Notes that the value of a static final field of the class has become known. -/
def resolve (position : Nat) (declared : Member) (value : Value) : Analysis Unit := do
  let s ← read
  let h ← probe Probe.heap
  if isOwnFinal s.owner declared && !hasState s.config h value
      && !(← get).progress.resolved.contains declared then
    let event : Event :=
      { kind := .fieldResolved, method := some s.method, location := some position,
        member := some declared, message := declared.display ++ " = " ++ h.render value,
        pass := some s.pass }
    modify fun t =>
      { t with
        progress.resolved := t.progress.resolved.insert declared
        runLog := t.runLog.push event }

/-- Follows an assignment to a static field. -/
def putStatic (position : Nat) (f : Member) : Analysis Unit := do
  let slots := ((FieldType.parse f.descriptor).toOption.map FieldType.slots).getD 1
  let operand ← popOperand slots
  if let .known fold := operand then
    resolve position ((← read).config.classes.declaredField f) fold.value
  release [operand]

/-- The type of the values of a class. -/
def referenceType (name : String) : FieldType :=
  ((FieldType.ofClassName name).toOption).getD (.object name)

/-- Whether a value passes a cast. -/
def passesCast (u : Universe) (h : Heap) (v : Value) (name : String) : Bool :=
  v == .null || (h.runtimeClass? v).any fun actual => u.isSubtype actual name

/-- Follows a cast. -/
def checkCast (position : Nat) (name : String) : Analysis Unit := do
  let s ← read
  match ← popOperand 1 with
  | .known f =>
    if passesCast s.config.classes (← probe Probe.heap) f.value name
        && s.isContiguous position none [f] then
      pushFold { origin := .cast, start := f.start, stop := position, value := f.value,
                 type := referenceType name, children := [f] }
    else
      flush f
      pushUnknown 1
  | _ => pushUnknown 1

/-- Follows a call: `named` is what failures are reported for, and `evaluation` what runs on the
    values of the operands. -/
def call (position : Nat) (operands : List Operand) (named : Member) (type : FieldType)
    (slots : Nat) (evaluation : List Value → Evaluation (Member × Value)) : Analysis Unit := do
  match ← evaluable? position none operands with
  | none =>
    release operands
    pushUnknown slots
  | some folds =>
    let start := (folds.head?.map Fold.start).getD position
    match ← evaluate start position (evaluation (folds.map Fold.value)) with
    | .ok (method, value) =>
      let children := folds.map (Fold.aged (← probe Probe.heap))
      pushFold { origin := .call, start, stop := position, value, type, member := some method,
                 children }
    | .error failure =>
      report position named failure
      release operands
      pushUnknown slots

/-- The stack with other slots for the references to an object that was not initialized: one for the
    topmost and one for all others. -/
def settle (u : Uninitialized) (top others : Slot) : List Slot → List Slot
  | [] => []
  | .uninitialized v :: rest =>
    if v = u then top :: settle u others others rest
    else .uninitialized v :: settle u top others rest
  | slot :: rest => slot :: settle u top others rest

/-- Whether the stack holds a reference to an object that was not initialized. -/
def holds (u : Uninitialized) (stack : List Slot) : Bool :=
  stack.any fun
    | .uninitialized v => v == u
    | _ => false

/-- Follows a call of a constructor on an object that was just made. The value takes one place on
    the stack only, so that its span is written back once. -/
def construct (position : Nat) (m : Member) (u : Uninitialized) (operands : List Operand) :
    Analysis Unit := do
  let s ← read
  let giveUp : Analysis Unit := do
    release operands
    modify fun t => { t with stack := settle u .unknown .unknown t.stack }
  match ← evaluable? position (some (s.nextReal (u.stop + 1))) operands with
  | none => giveUp
  | some folds =>
    if !holds u (← get).stack then giveUp
    else
      match ← evaluate u.start position
          (Evaluation.invoke s.config .special m (folds.map Fold.value)) with
      | .ok (method, value) =>
        let made : Fold :=
          { origin := .call, start := u.start, stop := position, value, type := .object m.owner,
            member := some method, children := folds.map (Fold.aged (← probe Probe.heap)) }
        modify fun t => { t with stack := settle u (.known made) .unknown t.stack }
      | .error failure =>
        report position m failure
        giveUp

/-- Follows a call of a method. -/
def invoke (position : Nat) (i : Instruction) (op : Opcode) (m : Member) : Analysis Unit := do
  match InvokeKind.ofOpcode? op, MethodType.parse m.descriptor with
  | some kind, .ok type =>
    let arguments ← popOperands type.parameters
    let receiver ← if kind.hasReceiver then some <$> popOperand 1 else pure none
    if m.isConstructor && kind == .special then
      match receiver with
      | some (.uninitialized u) => construct position m u arguments
      | _ => release (arguments ++ receiver.toList)
    else
      match type.result with
      | none => release (arguments ++ receiver.toList)
      | some result =>
        let c := (← read).config
        call position (receiver.toList ++ arguments) m result result.slots
          (Evaluation.invoke c kind m)
  | _, _ => generic i

/-- Follows a call site. -/
def invokeDynamic (position : Nat) (i : Instruction) (bootstrap : UInt16) (descriptor : String) :
    Analysis Unit := do
  let s ← read
  match MethodType.parse descriptor with
  | .ok type =>
    if s.config.foldsConcat then
      let operands ← popOperands type.parameters
      call position operands Evaluation.concatSite (.object "java/lang/String") type.resultSlots
        (Evaluation.concat s.owner bootstrap type.parameters)
    else generic i
  | .error _ => generic i

/-- The type of a constant that is loaded. -/
def constantType : Constant → FieldType
  | .int _ => .int
  | .float _ => .float
  | .long _ => .long
  | .double _ => .double
  | .string _ => .object "java/lang/String"
  | .classRef _ | .pool _ => .object "java/lang/Class"

/-- Pushes a value that an instruction loads. -/
def pushLiteral (position : Nat) (value : Value) (type : FieldType) : Analysis Unit :=
  pushFold { origin := .literal, start := position, stop := position, value, type }

/-- Copies the reference on top of the stack if it is to an object that is not initialized. -/
def dup (position : Nat) : Analysis Unit := do
  match (← get).stack with
  | .uninitialized u :: rest =>
    let copy : Slot := .uninitialized { u with stop := position }
    modify fun t => { t with stack := copy :: copy :: rest }
  | _ => generic (.simple .dup)

/-- Follows an instruction. -/
def step (position : Nat) (i : Instruction) : Analysis Unit := do
  match i.literal? with
  | some k =>
    match ← probe (Probe.attempt (Emu.constant k)) with
    | .ok value => pushLiteral position value (constantType k)
    | .error _ => generic i
  | none =>
    match i with
    | .simple .aconstNull => pushLiteral position .null (.object objectClass)
    | .simple .dup => dup position
    | .typed .new _ => push (.uninitialized ⟨position, position⟩)
    | .typed .checkcast name => checkCast position name
    | .field .getstatic f => getStatic position f
    | .field .getfield f => getField position f
    | .field .putstatic f => putStatic position f
    | .invoke op m _ => invoke position i op m
    | .invokeDynamic bootstrap _ descriptor => invokeDynamic position i bootstrap descriptor
    | _ => generic i

/-- Whether a block ends behind an instruction. -/
def endsBlock : Instruction → Bool
  | .jump _ _ | .tableSwitch _ _ _ _ | .lookupSwitch _ _ => true
  | i => i.opcode?.any Opcode.isUnconditionalTransfer

/-- Follows an instruction or mark; a label that something refers to starts a block. -/
def advance (position : Nat) (i : Instruction) : Analysis Unit := do
  match i with
  | .label l => if (← read).referenced.contains l then endBlock
  | .line _ | .frame _ => return
  | _ =>
    step position i
    if endsBlock i then endBlock

/-- Follows a body to its end. -/
def followAll : Analysis Unit := do
  let s ← read
  s.code.toList.zipIdx.forM fun (i, position) => advance position i
  endBlock

/-- Follows a body from its start. Answers the replacements and leaves what is kept and noted. -/
def replacements : Analysis (List Replacement) := do
  modify fun t => { t with stack := [], replacements := #[] }
  followAll
  return (← get).replacements.toList

end Analysis

end JvmFold
