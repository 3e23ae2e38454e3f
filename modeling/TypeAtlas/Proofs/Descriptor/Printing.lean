import TypeAtlas.Proofs.Descriptor.Reading

namespace TypeAtlas

/-!
# Descriptors printed and read back

A type that is printed and read back comes out with its array dimensions in one
place: the reader counts all brackets before a name as one array, however many
arrays the printed type had inside one another. In the other direction a text
that can be read is printed as it was, but for the dots in it, which are not
told apart from slashes.

The two directions meet in the relation `Descriptor.Writes`: it holds of the
texts that can be read, and of what is printed.
-/

/-- A primitive type is found by its tag. -/
@[simp] theorem BaseType.ofTag?_tag
    (type : BaseType) :
    BaseType.ofTag? type.tag = some type := by
  cases type <;> rfl

namespace Descriptor

/-! ## Reading what is written -/

/-- No text of a type that is not an array starts with a bracket. -/
theorem WritesElement.head_ne
    {text : List Char}
    {type : Descriptor}
    (written : WritesElement text type) :
    ∃ first more, text = first :: more ∧ first ≠ '[' := by
  cases written with
  | base type =>
      exact ⟨type.tag, [], rfl, by cases type <;> decide⟩
  | object =>
      exact ⟨'L', _, rfl, by decide⟩

/-- A class name is read up to the semicolon that ends it. -/
theorem scanObject_append
    {name : List Char}
    (nonempty : name ≠ [])
    (ended : ';' ∉ name)
    (rest : List Char) :
    scanObject (name ++ ';' :: rest) =
      .ok (.object (TypeName.ofInternal (String.ofList name)), rest) := by
  have inside : ∀ c ∈ name, (c != ';') = true := by
    intro c member
    rw [bne_iff_ne]
    rintro rfl
    exact ended member
  have front : (name ++ ';' :: rest).takeWhile (· != ';') = name := by
    rw [List.takeWhile_append_of_pos inside, List.takeWhile_cons_of_neg (by simp),
      List.append_nil]
  have back : (name ++ ';' :: rest).dropWhile (· != ';') = ';' :: rest := by
    rw [List.dropWhile_append_of_pos inside, List.dropWhile_cons_of_neg (by simp)]
  simp [scanObject, front, back, nonempty]

theorem WritesElement.scanElement_append
    {text : List Char}
    {type : Descriptor}
    (written : WritesElement text type)
    (rest : List Char) :
    scanElement (text ++ rest) = .ok (type, rest) := by
  cases written with
  | base type =>
      simp [scanElement]
  | @object name nonempty ended =>
      have noTag : BaseType.ofTag? 'L' = none := rfl
      simpa [scanElement, noTag] using scanObject_append nonempty ended rest

/-- An array of a type, or the type itself where there are no dimensions. -/
def ofElement
    (type : Descriptor)
    (dimensions : Nat) :
    Descriptor :=
  if dimensions = 0 then type else array type dimensions

/-- All brackets in front of a type are read as dimensions of one array. -/
theorem WritesElement.scan_append
    {text : List Char}
    {type : Descriptor}
    (written : WritesElement text type)
    (dimensions : Nat)
    (rest : List Char) :
    scan (List.replicate dimensions '[' ++ text ++ rest) =
      .ok (type.ofElement dimensions, rest) := by
  obtain ⟨first, more, rfl, unbracketed⟩ := written.head_ne
  have inside : ∀ c ∈ List.replicate dimensions '[', (c == '[') = true := by
    intro c member
    rw [List.eq_of_mem_replicate member]
    rfl
  have front :
      (List.replicate dimensions '[' ++ first :: more ++ rest).takeWhile
        (· == '[') = List.replicate dimensions '[' := by
    rw [List.append_assoc, List.takeWhile_append_of_pos inside, List.cons_append,
      List.takeWhile_cons_of_neg (by simpa using unbracketed), List.append_nil]
  have back :
      (List.replicate dimensions '[' ++ first :: more ++ rest).dropWhile
        (· == '[') = first :: more ++ rest := by
    rw [List.append_assoc, List.dropWhile_append_of_pos inside, List.cons_append,
      List.dropWhile_cons_of_neg (by simpa using unbracketed)]
  unfold scan
  rw [front, back, written.scanElement_append rest, List.length_replicate]
  rfl

/-- What is written of a type is read, whatever comes after it. -/
theorem Writes.scan_append
    {text : List Char}
    {type : Descriptor}
    (written : Writes text type)
    (rest : List Char) :
    scan (text ++ rest) = .ok (type, rest) := by
  cases written with
  | element written =>
      exact written.scan_append 0 rest
  | @array _ _ dimensions positive written =>
      rw [written.scan_append dimensions rest, ofElement, if_neg positive]

/-- The texts that can be read, and what they are read as. -/
theorem parse_eq_ok_iff
    {text : String}
    {type : Descriptor} :
    parse text = .ok type ↔ Writes text.toList type := by
  refine ⟨parse_writes, fun written => ?_⟩
  have scanned := written.scan_append []
  rw [List.append_nil] at scanned
  simp [parse, scanned]

/-! ## Printing -/

/-- The dimensions of all arrays inside one another. -/
def depth : Descriptor → Nat
  | array inner dimensions => dimensions + inner.depth
  | _ => 0

/--
The type with all its dimensions in one array. No array is left where there are
no dimensions.
-/
def merged (type : Descriptor) : Descriptor :=
  type.element.ofElement type.depth

/-- A type whose class, if it has one, has a name that can be written. -/
def Nameable (type : Descriptor) : Prop :=
  ∀ name ∈ type.objectName?, name ≠ "" ∧ ';' ∉ name.toList ∧ '/' ∉ name.toList

instance (type : Descriptor) : Decidable type.Nameable :=
  inferInstanceAs (Decidable (∀ name ∈ type.objectName?, _))

/-- The brackets of all arrays stand in front of the type under them. -/
theorem toList_render
    (type : Descriptor) :
    type.render.toList =
      List.replicate type.depth '[' ++ type.element.render.toList := by
  induction type with
  | base | object =>
      rfl
  | array inner dimensions inductionHypothesis =>
      rw [render, String.toList_append, String.toList_ofList,
        inductionHypothesis, ← List.append_assoc, List.replicate_append_replicate]
      rfl

/-- Slashes for dots, as in a printed name. -/
def slashed (text : List Char) : List Char :=
  text.map fun c => if c = '.' then '/' else c

theorem toList_toInternal
    (name : TypeName) :
    (TypeName.toInternal name).toList = slashed name.toList := by
  simp [TypeName.toInternal, replaceChar, slashed]

/-- Names are ended by the same semicolon in both forms. -/
theorem semicolon_notMem_slashed
    {text : List Char}
    (ended : ';' ∉ text) :
    ';' ∉ slashed text := by
  simp only [slashed, List.mem_map, not_exists, not_and]
  intro c member
  split
  · decide
  · rintro rfl
    exact ended member

theorem isArray_element
    (type : Descriptor) :
    type.element.isArray = false := by
  induction type with
  | base | object =>
      rfl
  | array _ _ inductionHypothesis =>
      exact inductionHypothesis

/-- What is printed of the type under all arrays is the text of it. -/
theorem writesElement_render
    {type : Descriptor}
    (nameable : type.Nameable) :
    WritesElement type.element.render.toList type.element := by
  have flat := type.isArray_element
  unfold Nameable objectName? at nameable
  cases shape : type.element with
  | base base =>
      rw [render, String.toList_singleton]
      exact .base base
  | object name =>
      rw [shape] at nameable
      obtain ⟨nonempty, ended, dotted⟩ := nameable name rfl
      have inText : (TypeName.toInternal name).toList ≠ [] := by
        simpa [toList_toInternal, slashed] using nonempty
      have inEnd : ';' ∉ (TypeName.toInternal name).toList := by
        rw [toList_toInternal]
        exact semicolon_notMem_slashed ended
      have named : TypeName.ofInternal (TypeName.toInternal name) = name :=
        (replaceChar_replaceChar '/' '.' name).trans (replaceChar_eq_self dotted)
      have written := WritesElement.object inText inEnd
      rw [String.ofList_toList, named] at written
      simpa [render] using written
  | array inner dimensions =>
      rw [shape] at flat
      cases flat

/-- A type that is printed and read back has its dimensions in one array. -/
theorem parse_render
    {type : Descriptor}
    (nameable : type.Nameable) :
    parse type.render = .ok type.merged := by
  have scanned :=
    (writesElement_render nameable).scan_append type.depth []
  rw [List.append_nil, ← toList_render] at scanned
  simp [parse, scanned, merged]

/-! ## Printing what was read -/

theorem WritesElement.render_eq
    {text : List Char}
    {type : Descriptor}
    (written : WritesElement text type) :
    type.render.toList = slashed text := by
  cases written with
  | base type =>
      cases type <;> rfl
  | @object name =>
      have internal :
          TypeName.toInternal (TypeName.ofInternal (String.ofList name)) =
            TypeName.toInternal (String.ofList name) :=
        replaceChar_replaceChar '.' '/' _
      simp [render, internal, toList_toInternal, slashed]

theorem WritesElement.merged_ofElement
    {text : List Char}
    {type : Descriptor}
    (written : WritesElement text type)
    (dimensions : Nat) :
    (type.ofElement dimensions).merged = type.ofElement dimensions := by
  cases written <;> cases dimensions <;> rfl

theorem Writes.merged_eq
    {text : List Char}
    {type : Descriptor}
    (written : Writes text type) :
    type.merged = type := by
  cases written with
  | element written =>
      exact written.merged_ofElement 0
  | @array _ _ dimensions positive written =>
      have same := written.merged_ofElement dimensions
      rwa [ofElement, if_neg positive] at same

theorem Writes.render_eq
    {text : List Char}
    {type : Descriptor}
    (written : Writes text type) :
    type.render.toList = slashed text := by
  cases written with
  | element written =>
      exact written.render_eq
  | array _ written =>
      simp [render, written.render_eq, slashed]

/-! ## The texts of types -/

/-- The tags of the primitive types. -/
def tags : List Char :=
  ['B', 'C', 'D', 'F', 'I', 'J', 'S', 'Z']

/--
A run of brackets, followed by a tag, or by a class name between `L` and the
first semicolon.
-/
def IsText (text : List Char) : Prop :=
  ∃ dimensions element,
    text = List.replicate dimensions '[' ++ element ∧
      ((∃ tag ∈ tags, element = [tag]) ∨
        ∃ name, name ≠ [] ∧ ';' ∉ name ∧ element = 'L' :: name ++ [';'])

theorem WritesElement.isText
    {text : List Char}
    {type : Descriptor}
    (written : WritesElement text type)
    (dimensions : Nat) :
    IsText (List.replicate dimensions '[' ++ text) := by
  refine ⟨dimensions, text, rfl, ?_⟩
  cases written with
  | base type =>
      exact .inl ⟨type.tag, by cases type <;> decide, rfl⟩
  | object nonempty ended =>
      exact .inr ⟨_, nonempty, ended, rfl⟩

/-- The texts of types are those that a type is written as. -/
theorem isText_iff
    {text : List Char} :
    IsText text ↔ ∃ type, Writes text type := by
  constructor
  · rintro ⟨dimensions, element, rfl, shape⟩
    have written : ∃ type, WritesElement element type := by
      rcases shape with ⟨tag, member, rfl⟩ | ⟨name, nonempty, ended, rfl⟩
      · have known : tags = BaseType.all.map BaseType.tag := rfl
        rw [known, List.mem_map] at member
        obtain ⟨type, -, rfl⟩ := member
        exact ⟨_, .base type⟩
      · exact ⟨_, .object nonempty ended⟩
    obtain ⟨type, written⟩ := written
    by_cases flat : dimensions = 0
    · subst flat
      exact ⟨type, .element written⟩
    · exact ⟨_, .array flat written⟩
  · rintro ⟨type, written⟩
    cases written with
    | element written =>
        exact written.isText 0
    | array _ written =>
        exact written.isText _

/-! ## Both directions -/

/--
A type is printed and read back as its merged form, if its class has a name
that can be written. The texts that can be read are those of a run of brackets
before a tag or a class name; they are read as types that are merged already,
and printed as they were, with slashes for dots.
-/
theorem parse_render_inverse :
    (∀ type : Descriptor, type.Nameable →
      parse type.render = .ok type.merged) ∧
      ∀ text : String,
        ((∃ type, parse text = .ok type) ↔ IsText text.toList) ∧
          ∀ type, parse text = .ok type →
            type.merged = type ∧ type.render = replaceChar '.' '/' text := by
  refine ⟨fun type nameable => parse_render nameable, fun text => ⟨?_, ?_⟩⟩
  · rw [isText_iff]
    exact exists_congr fun type => parse_eq_ok_iff
  · intro type parsed
    have written := parse_eq_ok_iff.mp parsed
    refine ⟨written.merged_eq, ?_⟩
    rw [← String.toList_inj, written.render_eq]
    exact (toList_toInternal text).symm

/-- Arrays inside one another, some of them without dimensions. -/
def stackedArrays : Descriptor :=
  .array (.array (.array (.object "shop.Order$Line") 2) 0) 1

/-- Arrays inside one another are printed as one, and a dotted text as well. -/
theorem parse_render_inverse_stackedArrays :
    stackedArrays.Nameable ∧
      parse stackedArrays.render =
        .ok (.array (.object "shop.Order$Line") 3) ∧
      (∃ type, parse "[[La.b/C;" = .ok type) ∧
      parse "[[La.b/C;" = .ok (.array (.object "a.b.C") 2) ∧
      render (.array (.object "a.b.C") 2) = replaceChar '.' '/' "[[La.b/C;" := by
  have nameable : stackedArrays.Nameable := by decide
  have parsed : parse "[[La.b/C;" = .ok (.array (.object "a.b.C") 2) := by
    decide +kernel
  exact ⟨nameable, parse_render_inverse.1 stackedArrays nameable, ⟨_, parsed⟩,
    parsed, ((parse_render_inverse.2 _).2 _ parsed).2⟩

end Descriptor

end TypeAtlas
