import JvmFold.Error

/-!
# Descriptors

The type of a field is written as a descriptor: a letter for a primitive type,
`L`, a class name and `;` for a class, and `[` in front of the component for an
array. A class name is any text without a semicolon that is not empty. The
descriptor of a method lists those of its parameters between parentheses and
ends in that of the result, or in `V` if there is none.

## Main definitions

* `FieldType`: A type.
* `FieldType.parse`, `FieldType.descriptor`: Reads and writes its descriptor.
* `MethodType`: Parameters and result.
* `MethodType.parse`, `MethodType.descriptor`: Reads and writes its descriptor.
-/

namespace JvmFold

/-- The type of a field, a parameter or a result. -/
inductive FieldType where
  | byte | char | double | float | int | long | short | boolean
  | object (name : String)
  | array (component : FieldType)
deriving DecidableEq, Hashable, Inhabited, Repr

/-- The parameters and the result of a method; no result for `void`. -/
structure MethodType where
  /-- The types of the parameters, in order. -/
  parameters : List FieldType
  /-- The type of the result. -/
  result : Option FieldType
deriving DecidableEq, Hashable, Inhabited, Repr

namespace FieldType

/-- The primitive type of a descriptor letter. -/
def ofLetter? : Char → Option FieldType
  | 'B' => some .byte
  | 'C' => some .char
  | 'D' => some .double
  | 'F' => some .float
  | 'I' => some .int
  | 'J' => some .long
  | 'S' => some .short
  | 'Z' => some .boolean
  | _ => none

/-- A class name up to the semicolon and what follows it; `whole` is named in errors. -/
def parseName (whole : List Char) (cs : List Char) : Except Error (FieldType × List Char) :=
  let name := cs.takeWhile (· != ';')
  match cs.dropWhile (· != ';') with
  | [] => .error (.malformed (.unterminatedClass (String.ofList whole)))
  | _ :: rest =>
    if name.isEmpty then .error (.malformed (.emptyClassName (String.ofList whole)))
    else .ok (.object (String.ofList name), rest)

/-- A type at the start of the text and what follows it. Errors name the text from the innermost
    component on. -/
def parseFrom : List Char → Except Error (FieldType × List Char)
  | [] => .error (.malformed .emptyDescriptor)
  | c :: rest =>
    if c = '[' then do
      let (component, rest) ← parseFrom rest
      return (.array component, rest)
    else if c = 'L' then parseName (c :: rest) rest
    else
      match ofLetter? c with
      | some t => .ok (t, rest)
      | none => .error (.malformed (.invalidDescriptorChar c (String.ofList (c :: rest))))

/-- The type of a whole descriptor. -/
def parse (descriptor : String) : Except Error FieldType := do
  match ← parseFrom descriptor.toList with
  | (t, []) => return t
  | (_, _ :: _) => throw (.malformed (.trailingDescriptor descriptor))

/-- The type of a class by its internal name; the name of an array class is its descriptor. -/
def ofClassName (name : String) : Except Error FieldType :=
  if name.toList.head? = some '[' then parse name else .ok (.object name)

/-- The slots of a value of the type. -/
def slots : FieldType → Nat
  | .long | .double => 2
  | _ => 1

/-- Whether values of the type are references. -/
def isReference : FieldType → Bool
  | .object _ | .array _ => true
  | _ => false

/-- Whether values of the type are primitive. -/
def isPrimitive (t : FieldType) : Bool :=
  !t.isReference

/-- Whether values of the type are computed with as `int`. -/
def isIntLike : FieldType → Bool
  | .int | .short | .char | .byte | .boolean => true
  | _ => false

/-- The characters of the descriptor. -/
def chars : FieldType → List Char
  | .byte => ['B']
  | .char => ['C']
  | .double => ['D']
  | .float => ['F']
  | .int => ['I']
  | .long => ['J']
  | .short => ['S']
  | .boolean => ['Z']
  | .object name => 'L' :: (name.toList ++ [';'])
  | .array component => '[' :: component.chars

/-- The descriptor of the type. -/
def descriptor (t : FieldType) : String :=
  String.ofList t.chars

/-- The internal name of the class of a reference type. -/
def className? : FieldType → Option String
  | .object name => some name
  | .array component => some (FieldType.array component).descriptor
  | _ => none

/-- The class whose objects hold values of a primitive type. -/
def wrapperClass? : FieldType → Option String
  | .byte => some "java/lang/Byte"
  | .char => some "java/lang/Character"
  | .double => some "java/lang/Double"
  | .float => some "java/lang/Float"
  | .int => some "java/lang/Integer"
  | .long => some "java/lang/Long"
  | .short => some "java/lang/Short"
  | .boolean => some "java/lang/Boolean"
  | .object _ | .array _ => none

/-- The type as source code writes it. -/
def display : FieldType → String
  | .byte => "byte"
  | .char => "char"
  | .double => "double"
  | .float => "float"
  | .int => "int"
  | .long => "long"
  | .short => "short"
  | .boolean => "boolean"
  | .object name => dotted name
  | .array component => component.display ++ "[]"

/-- The rest that reading a type leaves is shorter than the text. -/
theorem length_parseFrom_lt {cs rest : List Char} {t : FieldType}
    (h : parseFrom cs = .ok (t, rest)) : rest.length < cs.length := by
  induction cs generalizing t rest with
  | nil => simp [parseFrom] at h
  | cons c cs ih =>
    unfold parseFrom at h
    split at h
    · cases hc : parseFrom cs with
      | error e => simp [hc, bind, Except.bind] at h
      | ok p =>
        rcases p with ⟨component, r⟩
        simp only [hc, bind, Except.bind, pure, Except.pure, Except.ok.injEq, Prod.mk.injEq] at h
        have := ih hc
        simp [← h.2]
        omega
    · split at h
      · -- A class name ends in front of the rest, so the rest is a proper tail.
        unfold parseName at h
        split at h
        · simp at h
        next _ _ r hd =>
          dsimp only at h
          split at h
          · simp at h
          · simp only [Except.ok.injEq, Prod.mk.injEq] at h
            have hl : (cs.dropWhile (· != ';')).length ≤ cs.length := by
              simpa using (List.dropWhile_sublist (· != ';') (l := cs)).length_le
            rw [hd] at hl
            simp only [List.length_cons] at hl ⊢
            rw [← h.2]
            omega
      · split at h
        · simp only [Except.ok.injEq, Prod.mk.injEq] at h
          simp [h.2]
        · simp at h

end FieldType

namespace MethodType

/-- The parameters up to the closing parenthesis, and what follows it. `whole` is named in errors
    and `acc` holds the parameters already read in reverse. -/
def parseParameters (whole : String) (acc : List FieldType) (cs : List Char) :
    Except Error (List FieldType × List Char) :=
  match cs with
  | [] => .error (.malformed (.unterminatedMethod whole))
  | c :: rest =>
    if c = ')' then .ok (acc.reverse, rest)
    else
      match _h : FieldType.parseFrom (c :: rest) with
      | .error e => .error e
      | .ok (t, rest) => parseParameters whole (t :: acc) rest
termination_by cs.length
decreasing_by exact FieldType.length_parseFrom_lt _h

/-- The type of a whole method descriptor. -/
def parse (descriptor : String) : Except Error MethodType :=
  match descriptor.toList with
  | '(' :: rest => do
    let (parameters, rest) ← parseParameters descriptor [] rest
    if rest = ['V'] then return ⟨parameters, none⟩
    else return ⟨parameters, some (← FieldType.parse (String.ofList rest))⟩
  | _ => .error (.malformed (.missingParenthesis descriptor))

/-- The slots of the parameters together, counted modulo 65536. -/
def parameterSlots (t : MethodType) : Nat :=
  t.parameters.foldl (fun n p => n + p.slots) 0 % 65536

/-- The slots of the result. -/
def resultSlots (t : MethodType) : Nat :=
  t.result.elim 0 FieldType.slots

/-- The descriptor of the method. -/
def descriptor (t : MethodType) : String :=
  "(" ++ String.join (t.parameters.map FieldType.descriptor) ++ ")"
    ++ t.result.elim "V" FieldType.descriptor

end MethodType

end JvmFold
