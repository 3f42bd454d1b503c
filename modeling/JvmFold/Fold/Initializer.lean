import Std.Data.HashMap
import Std.Data.HashSet
import JvmFold.ClassFile.Basic
import JvmFold.Event.Basic

/-!
# Pruning Initializers

An initializer that starts by assigning constants to static fields can leave
that to the class file, which gives a static field a value to start with. The
assignments at the front are moved there, and an initializer of which nothing
is left is removed.

Only a final field is moved, if it has no value to start with yet, if the
initializer assigns it once, and if its type admits the constant. The first
assignment that cannot be moved ends the search, so everything behind it still
sees the fields as before.

## Main definitions

* `Initializer.isInlinable`: Whether an assignment can be moved.
* `Initializer.leading`: The assignments at the front and what is left without them.
* `ClassFile.pruneInitializer`: The class with its initializer pruned.
-/

namespace JvmFold

namespace Initializer

/-- The first instruction that is not a mark, with the marks in front of it and what follows;
    nothing at the end or if a label that something refers to comes first. -/
def nextReal? (referenced : Std.HashSet Label) :
    List Instruction → Option (List Instruction × Instruction × List Instruction)
  | [] => none
  | i :: rest =>
    match i with
    | .label l =>
      if referenced.contains l then none
      else (nextReal? referenced rest).map fun (marks, r) => (i :: marks, r)
    | .line _ | .frame _ => (nextReal? referenced rest).map fun (marks, r) => (i :: marks, r)
    | _ => some ([], i, rest)

/-- What follows the first instruction is shorter than the list. -/
theorem length_nextReal?_lt {referenced : Std.HashSet Label} {l marks rest : List Instruction}
    {i : Instruction} (h : nextReal? referenced l = some (marks, i, rest)) :
    rest.length < l.length := by
  induction l generalizing marks with
  | nil => simp [nextReal?] at h
  | cons j l ih =>
    unfold nextReal? at h
    split at h
    · split at h
      · simp at h
      · rcases Option.map_eq_some_iff.1 h with ⟨⟨m, r⟩, hm, he⟩
        rcases Prod.mk.inj he with ⟨-, rfl⟩
        exact Nat.lt_succ_of_lt (ih hm)
    · rcases Option.map_eq_some_iff.1 h with ⟨⟨m, r⟩, hm, he⟩
      rcases Prod.mk.inj he with ⟨-, rfl⟩
      exact Nat.lt_succ_of_lt (ih hm)
    · rcases Option.map_eq_some_iff.1 h with ⟨⟨m, r⟩, hm, he⟩
      rcases Prod.mk.inj he with ⟨-, rfl⟩
      exact Nat.lt_succ_of_lt (ih hm)
    · simp only [Option.some.injEq, Prod.mk.injEq] at h
      simp [h.2.2]

/-- Whether a field of a type can start with a constant. -/
def admits : FieldType → Constant → Bool
  | .int, .int _ | .long, .long _ | .float, .float _ | .double, .double _ => true
  | .boolean, .int v => 0 ≤ v ∧ v ≤ 1
  | .byte, .int v => -128 ≤ v ∧ v ≤ 127
  | .short, .int v => -32768 ≤ v ∧ v ≤ 32767
  | .char, .int v => 0 ≤ v ∧ v ≤ 65535
  | .object name, .string _ => name == "java/lang/String"
  | _, _ => false

/-- How often a body assigns each static field that it assigns. -/
def assignments (b : Body) : Std.HashMap Member Nat :=
  b.instructions.foldl
    (fun counts i =>
      match i with
      | .field .putstatic f => counts.alter f fun n => some (n.getD 0 + 1)
      | _ => counts)
    ∅

/-- Whether an assignment of the initializer can be moved. -/
def isInlinable (c : ClassFile) (counts : Std.HashMap Member Nat) (f : Member) (k : Constant) :
    Bool :=
  f.owner == c.name
    && (c.field? f.signature).any (fun field => field.isStaticFinal && field.constant.isNone)
    && counts.getD f 0 == 1
    && ((FieldType.parse f.descriptor).toOption.any fun t => admits t k)

/-- The assignments at the front that pass a test, and what is left without them. -/
def leading (referenced : Std.HashSet Label) (test : Member → Constant → Bool)
    (l : List Instruction) : List (Member × Constant) × List Instruction :=
  match _h₁ : nextReal? referenced l with
  | none => ([], l)
  | some (marks₁, load, rest₁) =>
    match _h₂ : nextReal? referenced rest₁ with
    | none => ([], l)
    | some (marks₂, store, rest₂) =>
      match load.literal?, store with
      | some k, .field .putstatic f =>
        if test f k then
          let (pairs, left) := leading referenced test rest₂
          ((f, k) :: pairs, marks₁ ++ marks₂ ++ left)
        else ([], l)
      | _, _ => ([], l)
termination_by l.length
decreasing_by exact Nat.lt_trans (length_nextReal?_lt _h₂) (length_nextReal?_lt _h₁)

/-- Whether a body does nothing. -/
def isEmpty (b : Body) : Bool :=
  b.handlers.isEmpty && b.real.map Instruction.opcode? == [some .voidReturn]

/-- The body without the assignments at the front, and these. -/
def prune (c : ClassFile) (b : Body) : List (Member × Constant) × Body :=
  let (pairs, left) :=
    leading (Std.HashSet.ofList b.referenced) (isInlinable c (assignments b)) b.instructions
  (pairs, if pairs.isEmpty then b else { b with instructions := left, modified := true })

/-- Gives the first field of a signature a value to start with. -/
def setConstant (s : Signature) (k : Constant) : List Field → List Field
  | [] => []
  | f :: rest =>
    if f.signature = s then { f with constant := some k } :: rest
    else f :: setConstant s k rest

end Initializer

namespace ClassFile

/-- Puts another body into the first method of a signature, or removes it if there is none. -/
def replaceMethodBody (s : Signature) (b : Option Body) : List Method → List Method
  | [] => []
  | m :: rest =>
    if m.signature = s then
      match b with
      | some b => { m with body := some b } :: rest
      | none => rest
    else m :: replaceMethodBody s b rest

/-- The event of an assignment that was moved. -/
def inlinedEvent (c : ClassFile) (pass : Nat) (f : Member) (k : Constant) : Event :=
  { kind := .constantValueInlined, method := some (initializer.on c.name), member := some f,
    message := f.display ++ " = " ++ k.display, pass := some pass }

/-- The event of an initializer that was removed. -/
def removedEvent (c : ClassFile) (pass : Nat) : Event :=
  { kind := .initializerRemoved, method := some (initializer.on c.name),
    message := "static initializer of " ++ dotted c.name ++ " removed", pass := some pass }

/-- The class with its initializer pruned, and the events of that. -/
def pruneInitializer (c : ClassFile) (pass : Nat) : ClassFile × List Event :=
  match (c.method? initializer).bind (·.body) with
  | none => (c, [])
  | some b =>
    let (pairs, left) := Initializer.prune c b
    let isRemoved := Initializer.isEmpty left
    let pruned :=
      { c with
        fields := pairs.foldl (fun l (f, k) => Initializer.setConstant f.signature k l) c.fields
        methods :=
          replaceMethodBody initializer (if isRemoved then none else some left) c.methods }
    (pruned, pairs.map (fun (f, k) => c.inlinedEvent pass f k)
      ++ if isRemoved then [c.removedEvent pass] else [])

end ClassFile

end JvmFold
