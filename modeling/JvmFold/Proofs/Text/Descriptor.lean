import JvmFold.Descriptor
import JvmFold.Proofs.Bytes.Reading

/-!
# The Grammar of Descriptors

Which texts are descriptors is said twice. The grammar says it by rules about
texts that know of no types. The types say it too, since each of them is
written in one way. Reading accepts what the grammar allows, and answers the
one type that is written like that.

Reading decides by the first character alone, and the characters that come
behind are looked at only where a type can begin. So a name is taken as it
stands up to its semicolon, whatever brackets and parentheses are in it, and
a parameter list ends at the first closing parenthesis outside a name. Neither
the dimensions of an array nor the parameters are counted.

## Main definitions

* `IsClassName`: The names of classes that descriptors can hold.
* `FieldText`, `MethodText`: The grammar.
* `FieldType.WellNamed`, `MethodType.WellNamed`: Types with such names alone.

## Theorems

* `FieldType.parseFrom_eq_ok_iff`: A type is read from its own characters, whatever follows them.
* `FieldType.parse_eq_ok_iff`, `MethodType.parse_eq_ok_iff`: A descriptor is read to the type
  that is written like that.
* `fieldText_iff`, `methodText_iff`: The grammar generates what types are written as.
* `descriptors_read_exactly`: Reading accepts the grammar, and is the inverse of writing.
-/

namespace JvmFold

/-- A name of a class in a descriptor: any text without a semicolon that is not empty. -/
def IsClassName (name : List Char) : Prop :=
  name ≠ [] ∧ ';' ∉ name

/-- The descriptors of fields. -/
inductive FieldText : List Char → Prop where
  | base {c : Char} (hc : c ∈ ['B', 'C', 'D', 'F', 'I', 'J', 'S', 'Z']) : FieldText [c]
  | object {name : List Char} (hname : IsClassName name) : FieldText ('L' :: (name ++ [';']))
  | array {component : List Char} (hcomponent : FieldText component) :
      FieldText ('[' :: component)

/-- The descriptors of methods: those of the parameters between parentheses, and that of the
    result or the letter for none. -/
inductive MethodText : List Char → Prop where
  | method {parameters : List (List Char)} {result : List Char}
      (hparameters : ∀ w ∈ parameters, FieldText w)
      (hresult : result = ['V'] ∨ FieldText result) :
      MethodText ('(' :: (parameters.flatten ++ ')' :: result))

/-- The classes in the type have names that a descriptor can hold. -/
def FieldType.WellNamed : FieldType → Prop
  | .object name => IsClassName name.toList
  | .array component => component.WellNamed
  | _ => True

/-- The same of all types of the parameters and the result. -/
structure MethodType.WellNamed (t : MethodType) : Prop where
  parameters : ∀ p ∈ t.parameters, p.WellNamed
  result : ∀ r, t.result = some r → r.WellNamed

namespace FieldType

variable {cs rest : List Char} {t : FieldType}

/-- A primitive type is one letter. -/
theorem chars_of_ofLetter? {c : Char} (h : ofLetter? c = some t) : t.chars = [c] := by
  unfold ofLetter? at h
  split at h <;> cases h <;> rfl

theorem wellNamed_of_ofLetter? {c : Char} (h : ofLetter? c = some t) : t.WellNamed := by
  unfold ofLetter? at h
  split at h <;> cases h <;> exact trivial

/-- What is read as a name is a name, up to its semicolon. -/
theorem parseName_eq_ok {whole : List Char} (h : parseName whole cs = .ok (t, rest)) :
    ∃ name : String, t = .object name ∧ IsClassName name.toList ∧
      cs = name.toList ++ ';' :: rest := by
  unfold parseName at h
  have hsplit := List.takeWhile_append_dropWhile (p := (· != ';')) (l := cs)
  split at h
  · cases h
  next c tail hdrop =>
    dsimp only at h
    split at h
    · cases h
    next hempty =>
      cases h
      -- What stops the name is the semicolon, and nothing in the name is one.
      have hc : c = ';' := by
        have hhead := List.head?_dropWhile_not (· != ';') cs
        rw [hdrop] at hhead
        simpa using hhead
      have hname : ';' ∉ cs.takeWhile (· != ';') := by
        intro hmem
        simpa using List.mem_takeWhile_imp hmem
      rw [hdrop, hc] at hsplit
      refine ⟨_, rfl, ⟨?_, ?_⟩, ?_⟩
      · simpa using hempty
      · simpa using hname
      · simpa using hsplit.symm

/-- A name is read up to the semicolon behind it. -/
theorem parseName_append {name : List Char} (h : IsClassName name) (whole rest : List Char) :
    parseName whole (name ++ ';' :: rest) = .ok (.object (String.ofList name), rest) := by
  have hall : ∀ c ∈ name, (c != ';') = true := by
    intro c hc
    simp only [bne_iff_ne]
    rintro rfl
    exact h.2 hc
  have htake : (name ++ ';' :: rest).takeWhile (· != ';') = name := by
    rw [List.takeWhile_append_of_pos hall]
    simp
  have hdrop : (name ++ ';' :: rest).dropWhile (· != ';') = ';' :: rest := by
    rw [List.dropWhile_append_of_pos hall]
    simp
  simp [parseName, htake, hdrop, h.1]

/-- What is read is a type with names that a descriptor can hold, from the text that it has. -/
theorem parseFrom_eq_ok (h : parseFrom cs = .ok (t, rest)) :
    t.WellNamed ∧ cs = t.chars ++ rest := by
  induction cs generalizing t rest with
  | nil => cases h
  | cons c cs ih =>
      unfold parseFrom at h
      -- The first character decides between the three kinds of types.
      by_cases harray : c = '['
      · rw [if_pos harray] at h
        rcases except_bind_ok h with ⟨⟨component, behind⟩, hcomponent, h⟩
        cases h
        rcases ih hcomponent with ⟨hnamed, hcs⟩
        exact ⟨hnamed, by simp [chars, harray, hcs]⟩
      rw [if_neg harray] at h
      by_cases hobject : c = 'L'
      · rw [if_pos hobject] at h
        rcases parseName_eq_ok h with ⟨name, rfl, hname, hcs⟩
        exact ⟨hname, by simp [chars, hobject, hcs]⟩
      rw [if_neg hobject] at h
      cases hletter : ofLetter? c with
      | none =>
          rw [hletter] at h
          cases h
      | some s =>
          rw [hletter] at h
          cases h
          exact ⟨wellNamed_of_ofLetter? hletter, by simp [chars_of_ofLetter? hletter]⟩

/-- The characters of a type are read to it, whatever follows them. -/
theorem parseFrom_chars (h : t.WellNamed) (rest : List Char) :
    parseFrom (t.chars ++ rest) = .ok (t, rest) := by
  induction t with
  | object name =>
      have hread := parseName_append h ('L' :: (name.toList ++ ';' :: rest)) rest
      simpa [chars, parseFrom] using hread
  | array component ih =>
      simp only [chars, List.cons_append, parseFrom, if_pos, ih h]
      rfl
  | _ => rfl

/-- A type is read from its own characters, whatever follows them, and from nothing else. -/
theorem parseFrom_eq_ok_iff :
    parseFrom cs = .ok (t, rest) ↔ t.WellNamed ∧ cs = t.chars ++ rest := by
  constructor
  · exact parseFrom_eq_ok
  · rintro ⟨hnamed, rfl⟩
    exact parseFrom_chars hnamed rest

/-- A descriptor is read to the type that is written like that. -/
theorem parse_eq_ok_iff {text : String} :
    parse text = .ok t ↔ t.WellNamed ∧ t.descriptor = text := by
  have hwhole : parse text = .ok t ↔ parseFrom text.toList = .ok (t, []) := by
    unfold parse
    cases hread : parseFrom text.toList with
    | error e => simp [bind, Except.bind]
    | ok read =>
        rcases read with ⟨s, behind⟩
        cases behind <;> simp [bind, Except.bind, pure, Except.pure, throw, throwThe,
          MonadExceptOf.throw]
  rw [hwhole, parseFrom_eq_ok_iff, List.append_nil, descriptor, ← String.toList_inj,
    String.toList_ofList, eq_comm (a := text.toList)]

example : parse "[Lé)[;" = .ok (.array (.object "é)[")) := by rfl

/-- A type is written as it was read. -/
theorem chars_of_parse {text : String} (h : parse text = .ok t) : t.chars = text.toList := by
  rw [← (parse_eq_ok_iff.1 h).2, descriptor, String.toList_ofList]

/-- No type begins with the parenthesis behind the parameters. -/
theorem exists_chars (t : FieldType) : ∃ c cs, t.chars = c :: cs ∧ c ≠ ')' := by
  cases t <;> exact ⟨_, _, rfl, by decide⟩

end FieldType

/-- The grammar generates what types are written as. -/
theorem fieldText_iff {cs : List Char} :
    FieldText cs ↔ ∃ t : FieldType, t.WellNamed ∧ t.chars = cs := by
  constructor
  · intro h
    induction h with
    | base hc =>
        simp only [List.mem_cons, List.not_mem_nil, or_false] at hc
        -- One letter for each of the primitive types.
        rcases hc with rfl | rfl | rfl | rfl | rfl | rfl | rfl | rfl
        · exact ⟨.byte, trivial, rfl⟩
        · exact ⟨.char, trivial, rfl⟩
        · exact ⟨.double, trivial, rfl⟩
        · exact ⟨.float, trivial, rfl⟩
        · exact ⟨.int, trivial, rfl⟩
        · exact ⟨.long, trivial, rfl⟩
        · exact ⟨.short, trivial, rfl⟩
        · exact ⟨.boolean, trivial, rfl⟩
    | @object name hname =>
        refine ⟨.object (String.ofList name), ?_, by simp [FieldType.chars]⟩
        simpa [FieldType.WellNamed] using hname
    | array _ ih =>
        rcases ih with ⟨t, hnamed, rfl⟩
        exact ⟨.array t, hnamed, rfl⟩
  · rintro ⟨t, hnamed, rfl⟩
    induction t with
    | object name => exact .object hnamed
    | array component ih => exact .array (ih hnamed)
    | _ => exact .base (by decide)

namespace MethodType

variable {whole text : String} {acc : List FieldType} {cs rest : List Char} {t : MethodType}

/-- The characters of the descriptor of a method. -/
theorem toList_descriptor (t : MethodType) :
    t.descriptor.toList = '(' :: (t.parameters.flatMap FieldType.chars ++
      ')' :: t.result.elim ['V'] FieldType.chars) := by
  have hresult : (t.result.elim "V" FieldType.descriptor).toList =
      t.result.elim ['V'] FieldType.chars := by
    cases t.result <;> simp [FieldType.descriptor]
  simp [descriptor, hresult, List.flatMap_map, FieldType.descriptor]

/-- What is read up to the closing parenthesis are the characters of types. -/
theorem parseParameters_eq_ok {read : List FieldType}
    (h : parseParameters whole acc cs = .ok (read, rest)) :
    ∃ more, (∀ p ∈ more, p.WellNamed) ∧ read = acc.reverse ++ more ∧
      cs = more.flatMap FieldType.chars ++ ')' :: rest := by
  fun_induction parseParameters whole acc cs with
  | case1 => cases h
  | case2 acc behind =>
      cases h
      exact ⟨[], by simp⟩
  | case3 => cases h
  | case4 acc c behind hclose p behind' hread ih =>
      rcases ih h with ⟨more, hnamed, rfl, rfl⟩
      rcases FieldType.parseFrom_eq_ok hread with ⟨hp, hcs⟩
      refine ⟨p :: more, List.forall_mem_cons.2 ⟨hp, hnamed⟩, by simp, ?_⟩
      rw [hcs, List.flatMap_cons, List.append_assoc]

/-- The characters of types are read to them, up to the closing parenthesis. -/
theorem parseParameters_chars {more : List FieldType} (h : ∀ p ∈ more, p.WellNamed)
    (whole : String) (acc : List FieldType) (rest : List Char) :
    parseParameters whole acc (more.flatMap FieldType.chars ++ ')' :: rest) =
      .ok (acc.reverse ++ more, rest) := by
  induction more generalizing acc with
  | nil => simp [parseParameters]
  | cons p more ih =>
      rw [List.forall_mem_cons] at h
      have hread := FieldType.parseFrom_chars h.1 (more.flatMap FieldType.chars ++ ')' :: rest)
      -- A parameter does not begin with what ends the list, so it is read as a type.
      rcases p.exists_chars with ⟨c, cs, hchars, hclose⟩
      rw [List.flatMap_cons, List.append_assoc]
      rw [hchars, List.cons_append] at hread ⊢
      rw [parseParameters, if_neg hclose]
      split
      next e hfail =>
        rw [hread] at hfail
        cases hfail
      next q behind hread' =>
        rw [hread] at hread'
        cases hread'
        rw [ih h.2]
        simp

/-- A descriptor is read to the method type that is written like that. -/
theorem parse_eq_ok_iff : parse text = .ok t ↔ t.WellNamed ∧ t.descriptor = text := by
  rw [← String.toList_inj, toList_descriptor]
  constructor
  · intro h
    unfold parse at h
    split at h
    next behind hopen =>
      rcases except_bind_ok h with ⟨⟨parameters, result⟩, hparameters, hresult⟩
      rcases parseParameters_eq_ok hparameters with ⟨more, hnamed, rfl, rfl⟩
      dsimp only at hresult
      split at hresult
      next hvoid =>
        cases hresult
        exact ⟨⟨by simpa using hnamed, by simp⟩, by simp [hopen, hvoid]⟩
      next hvoid =>
        rcases except_bind_ok hresult with ⟨r, hr, hread⟩
        cases hread
        rcases FieldType.parse_eq_ok_iff.1 hr with ⟨hrnamed, hrtext⟩
        have hrchars : r.chars = result := by simpa using FieldType.chars_of_parse hr
        refine ⟨⟨by simpa using hnamed, ?_⟩, by simp [hopen, hrchars]⟩
        rintro _ ⟨⟩
        exact hrnamed
    next => cases h
  · rintro ⟨hnamed, htext⟩
    have hparameters := parseParameters_chars hnamed.parameters text []
      (t.result.elim ['V'] FieldType.chars)
    unfold parse
    rw [← htext]
    rcases t with ⟨parameters, result⟩
    cases result with
    | none =>
        simp only [Option.elim] at hparameters ⊢
        simp [hparameters, bind, Except.bind, pure, Except.pure]
    | some r =>
        -- The result of a method that has one is not written as that of one without.
        have hvoid : r.chars ≠ ['V'] := by
          cases r <;> simp [FieldType.chars]
        have hr : FieldType.parse (String.ofList r.chars) = .ok r :=
          FieldType.parse_eq_ok_iff.2 ⟨hnamed.result r rfl, rfl⟩
        simp only [Option.elim] at hparameters ⊢
        simp [hparameters, hvoid, hr, bind, Except.bind, pure, Except.pure]

example : parse "(L(I)V;[[J)V" = .ok ⟨[.object "(I)V", .array (.array .long)], none⟩ := by cbv

end MethodType

/-- Descriptors of fields one after the other are those of as many types. -/
theorem exists_types_of_fieldTexts {texts : List (List Char)} (h : ∀ w ∈ texts, FieldText w) :
    ∃ ps : List FieldType, (∀ p ∈ ps, p.WellNamed) ∧ ps.map FieldType.chars = texts := by
  induction texts with
  | nil => exact ⟨[], by simp⟩
  | cons w texts ih =>
      rw [List.forall_mem_cons] at h
      rcases fieldText_iff.1 h.1 with ⟨p, hp, rfl⟩
      rcases ih h.2 with ⟨ps, hps, rfl⟩
      exact ⟨p :: ps, List.forall_mem_cons.2 ⟨hp, hps⟩, rfl⟩

/-- The grammar generates what method types are written as. -/
theorem methodText_iff {cs : List Char} :
    MethodText cs ↔ ∃ t : MethodType, t.WellNamed ∧ t.descriptor.toList = cs := by
  constructor
  · rintro ⟨hparameters, hresult⟩
    rcases exists_types_of_fieldTexts hparameters with ⟨ps, hps, rfl⟩
    -- hresult | A method returns nothing or a type.
    rcases hresult with rfl | hresult
    · exact ⟨⟨ps, none⟩, ⟨hps, by simp⟩, by simp [MethodType.toList_descriptor, List.flatMap_def]⟩
    · rcases fieldText_iff.1 hresult with ⟨r, hr, rfl⟩
      refine ⟨⟨ps, some r⟩, ⟨hps, ?_⟩, by simp [MethodType.toList_descriptor, List.flatMap_def]⟩
      rintro _ ⟨⟩
      exact hr
  · rintro ⟨⟨ps, result⟩, hnamed, rfl⟩
    rw [MethodType.toList_descriptor, List.flatMap_def]
    refine .method ?_ ?_
    · intro w hw
      rcases List.mem_map.1 hw with ⟨p, hp, rfl⟩
      exact fieldText_iff.2 ⟨p, hnamed.parameters p hp, rfl⟩
    · cases result with
      | none => exact .inl rfl
      | some r => exact .inr (fieldText_iff.2 ⟨r, hnamed.result r rfl, rfl⟩)

/-- Reading accepts exactly the descriptors of the grammar, for fields and for methods. It answers
    the type whose descriptor is the text, so a descriptor that is accepted is that of the type
    it is read to, and a type with names that a descriptor can hold is read back from its own. -/
theorem descriptors_read_exactly (text : String) :
    ((∃ t, FieldType.parse text = .ok t) ↔ FieldText text.toList) ∧
      (∀ t, FieldType.parse text = .ok t ↔ t.WellNamed ∧ t.descriptor = text) ∧
      ((∃ t, MethodType.parse text = .ok t) ↔ MethodText text.toList) ∧
      ∀ t, MethodType.parse text = .ok t ↔ t.WellNamed ∧ t.descriptor = text := by
  refine ⟨?_, fun t => FieldType.parse_eq_ok_iff, ?_, fun t => MethodType.parse_eq_ok_iff⟩
  · simp only [FieldType.parse_eq_ok_iff, fieldText_iff, ← String.toList_inj,
      FieldType.descriptor, String.toList_ofList]
  · simp only [MethodType.parse_eq_ok_iff, methodText_iff, String.toList_inj]

end JvmFold
