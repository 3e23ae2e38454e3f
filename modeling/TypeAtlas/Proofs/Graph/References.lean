import TypeAtlas.Graph.Node

namespace TypeAtlas

/-!
# What nodes refer to

The references of a node are those of its supertypes, its type parameters, its
fields, its methods with their parameters, its annotations and its defaults,
with all type arguments and with the values of annotations at any depth. The
annotations in a value are listed at any depth as well.

Attaching an annotation to an element attaches all annotations in it, and leaves
its references alone.
-/

/-! ## Annotations -/

mutual

/-- The references in a value, at any depth. -/
def Value.references : Value → List Reference
  | .scalar _ => []
  | .classLiteral type => [type]
  | .enumConstant type _ => [type]
  | .annotated use => use.references
  | .sequence items => Value.referencesOfItems items

/-- The references in a sequence. -/
def Value.referencesOfItems : List Value → List Reference
  | [] => []
  | item :: items => item.references ++ Value.referencesOfItems items

/-- The type of an annotation, and the references in its values. -/
def AnnotationUse.references : AnnotationUse → List Reference
  | ⟨type, _, values⟩ => type :: AnnotationUse.referencesOfPairs values

/-- The references in named values. -/
def AnnotationUse.referencesOfPairs :
    List (String × Value) → List Reference
  | [] => []
  | (_, value) :: pairs =>
      value.references ++ AnnotationUse.referencesOfPairs pairs

end

mutual

/-- The annotations in a value, at any depth. -/
def Value.uses : Value → List AnnotationUse
  | .annotated use => use :: use.nested
  | .sequence items => Value.usesOfItems items
  | _ => []

/-- The annotations in a sequence. -/
def Value.usesOfItems : List Value → List AnnotationUse
  | [] => []
  | item :: items => item.uses ++ Value.usesOfItems items

/-- The annotations in the values of an annotation, at any depth. -/
def AnnotationUse.nested : AnnotationUse → List AnnotationUse
  | ⟨_, _, values⟩ => AnnotationUse.usesOfPairs values

/-- The annotations in named values. -/
def AnnotationUse.usesOfPairs :
    List (String × Value) → List AnnotationUse
  | [] => []
  | (_, value) :: pairs => value.uses ++ AnnotationUse.usesOfPairs pairs

end

namespace Value

/-- A reference in an array is one in an item. -/
theorem mem_referencesOfItems
    {reference : Reference}
    {items : List Value} :
    reference ∈ referencesOfItems items ↔
      ∃ item ∈ items, reference ∈ item.references := by
  induction items with
  | nil =>
      simp [referencesOfItems]
  | cons item items inductionHypothesis =>
      simp [referencesOfItems, inductionHypothesis]

/-- An annotation in an array is one in an item. -/
theorem mem_usesOfItems
    {use : AnnotationUse}
    {items : List Value} :
    use ∈ usesOfItems items ↔ ∃ item ∈ items, use ∈ item.uses := by
  induction items with
  | nil =>
      simp [usesOfItems]
  | cons item items inductionHypothesis =>
      simp [usesOfItems, inductionHypothesis]

end Value

namespace AnnotationUse

/-- A reference among values is one in a value. -/
theorem mem_referencesOfPairs
    {reference : Reference}
    {values : Values} :
    reference ∈ referencesOfPairs values ↔
      ∃ pair ∈ values, reference ∈ pair.2.references := by
  induction values with
  | nil =>
      simp [referencesOfPairs]
  | cons pair values inductionHypothesis =>
      obtain ⟨key, value⟩ := pair
      simp [referencesOfPairs, inductionHypothesis]

/-- An annotation among values is one in a value. -/
theorem mem_usesOfPairs
    {use : AnnotationUse}
    {values : Values} :
    use ∈ usesOfPairs values ↔ ∃ pair ∈ values, use ∈ pair.2.uses := by
  induction values with
  | nil =>
      simp [usesOfPairs]
  | cons pair values inductionHypothesis =>
      obtain ⟨key, value⟩ := pair
      simp [usesOfPairs, inductionHypothesis]

/-- The type of an annotation is among its references. -/
theorem type_mem_references
    (use : AnnotationUse) :
    use.type ∈ use.references := by
  obtain ⟨type, _, _⟩ := use
  exact List.mem_cons_self

/-- Attaching an annotation keeps its type. -/
@[simp] theorem type_attach
    (element : Element)
    (use : AnnotationUse) :
    (use.attach element).type = use.type := by
  obtain ⟨_, _, _⟩ := use
  rfl

/-- An annotation is attached to the element it is given. -/
@[simp] theorem element_attach
    (element : Element)
    (use : AnnotationUse) :
    (use.attach element).element = some element := by
  obtain ⟨_, _, _⟩ := use
  rfl

end AnnotationUse

mutual

/-- Attaching a value keeps its references. -/
theorem Value.references_attach
    (element : Element) :
    (value : Value) →
      (value.attach element).references = value.references
  | .scalar _ | .classLiteral _ | .enumConstant _ _ => by
      rw [Value.attach] <;> simp
  | .annotated use => by
      rw [Value.attach, Value.references, Value.references,
        AnnotationUse.references_attach element use]
  | .sequence items => by
      rw [Value.attach, Value.references, Value.references,
        Value.referencesOfItems_attachAll element items]

/-- So it is for the items of an array. -/
theorem Value.referencesOfItems_attachAll
    (element : Element) :
    (items : List Value) →
      Value.referencesOfItems (Value.attachAll element items) =
        Value.referencesOfItems items
  | [] => by
      rw [Value.attachAll]
  | item :: items => by
      rw [Value.attachAll, Value.referencesOfItems, Value.referencesOfItems,
        Value.references_attach element item,
        Value.referencesOfItems_attachAll element items]

/-- Attaching an annotation leaves its references alone. -/
theorem AnnotationUse.references_attach
    (element : Element) :
    (use : AnnotationUse) →
      (use.attach element).references = use.references
  | ⟨type, _, values⟩ => by
      rw [AnnotationUse.attach, AnnotationUse.references,
        AnnotationUse.references,
        AnnotationUse.referencesOfPairs_attachPairs element values]

/-- So it is for the values of an annotation. -/
theorem AnnotationUse.referencesOfPairs_attachPairs
    (element : Element) :
    (values : List (String × Value)) →
      AnnotationUse.referencesOfPairs
          (AnnotationUse.attachPairs element values) =
        AnnotationUse.referencesOfPairs values
  | [] => by
      rw [AnnotationUse.attachPairs]
  | (key, value) :: values => by
      rw [AnnotationUse.attachPairs, AnnotationUse.referencesOfPairs,
        AnnotationUse.referencesOfPairs,
        Value.references_attach element value,
        AnnotationUse.referencesOfPairs_attachPairs element values]

end

mutual

/-- The annotations in a value are attached along with it. -/
theorem Value.element_of_uses_attach
    (element : Element) :
    (value : Value) →
      ∀ use ∈ (value.attach element).uses, use.element = some element
  | .scalar _ | .classLiteral _ | .enumConstant _ _ => by
      rw [Value.attach] <;> simp [Value.uses]
  | .annotated use => by
      rw [Value.attach, Value.uses]
      intro inner member
      rcases List.mem_cons.mp member with rfl | deeper
      · exact AnnotationUse.element_attach element use
      · exact AnnotationUse.element_of_nested_attach element use inner deeper
  | .sequence items => by
      rw [Value.attach, Value.uses]
      exact Value.element_of_usesOfItems_attachAll element items

/-- So are those in the items of an array. -/
theorem Value.element_of_usesOfItems_attachAll
    (element : Element) :
    (items : List Value) →
      ∀ use ∈ Value.usesOfItems (Value.attachAll element items),
        use.element = some element
  | [] => by
      simp [Value.attachAll, Value.usesOfItems]
  | item :: items => by
      rw [Value.attachAll, Value.usesOfItems]
      intro use member
      rcases List.mem_append.mp member with first | later
      · exact Value.element_of_uses_attach element item use first
      · exact Value.element_of_usesOfItems_attachAll element items use later

/-- Attaching an annotation attaches all annotations in it. -/
theorem AnnotationUse.element_of_nested_attach
    (element : Element) :
    (use : AnnotationUse) →
      ∀ inner ∈ (use.attach element).nested, inner.element = some element
  | ⟨type, _, values⟩ => by
      rw [AnnotationUse.attach, AnnotationUse.nested]
      exact AnnotationUse.element_of_usesOfPairs_attachPairs element values

/-- So are those in the values of an annotation. -/
theorem AnnotationUse.element_of_usesOfPairs_attachPairs
    (element : Element) :
    (values : List (String × Value)) →
      ∀ use ∈
        AnnotationUse.usesOfPairs (AnnotationUse.attachPairs element values),
        use.element = some element
  | [] => by
      simp [AnnotationUse.attachPairs, AnnotationUse.usesOfPairs]
  | (key, value) :: values => by
      rw [AnnotationUse.attachPairs, AnnotationUse.usesOfPairs]
      intro use member
      rcases List.mem_append.mp member with first | later
      · exact Value.element_of_uses_attach element value use first
      · exact AnnotationUse.element_of_usesOfPairs_attachPairs element values
          use later

end

/-! ## Generic types -/

mutual

/-- The type or bound of a type use, and those of its arguments. -/
def Generic.references : Generic → List Reference
  | ⟨type, _, arguments, _⟩ =>
      type.toList ++ Generic.referencesOfAll arguments

/-- The references of type uses. -/
def Generic.referencesOfAll : List Generic → List Reference
  | [] => []
  | generic :: generics =>
      generic.references ++ Generic.referencesOfAll generics

end

/-- A reference in a row of types is one in a type of the row. -/
theorem Generic.mem_referencesOfAll
    {reference : Reference}
    {generics : List Generic} :
    reference ∈ Generic.referencesOfAll generics ↔
      ∃ generic ∈ generics, reference ∈ generic.references := by
  induction generics with
  | nil =>
      simp [referencesOfAll]
  | cons generic generics inductionHypothesis =>
      simp [referencesOfAll, inductionHypothesis]

/-- A reference in a type is its own class, or one in an argument. -/
theorem Generic.mem_references
    {reference : Reference}
    {generic : Generic} :
    reference ∈ generic.references ↔
      generic.type = some reference ∨
        ∃ argument ∈ generic.arguments, reference ∈ argument.references := by
  obtain ⟨type, formal, arguments, dimensions⟩ := generic
  simp [references, mem_referencesOfAll]

/-! ## Members and nodes -/

def Formals.references (formals : Formals) : List Reference :=
  formals.flatMap (·.2.references)

def Field.references (field : Field) : List Reference :=
  field.type :: (field.arguments.flatMap (·.references)
    ++ field.annotations.flatMap (·.references))

def Parameter.references (parameter : Parameter) : List Reference :=
  parameter.type :: (parameter.generic.references
    ++ parameter.annotations.flatMap (·.references))

def Method.references (method : Method) : List Reference :=
  method.parameters.flatMap (·.references)
    ++ method.result.toList.flatMap (·.references)
    ++ method.thrown.flatMap (·.references)
    ++ method.annotations.flatMap (·.references)

def Lineage.references (lineage : Lineage) : List Reference :=
  lineage.parent.toList
    ++ lineage.genericParent.toList.flatMap (·.references)
    ++ lineage.interfaces
    ++ lineage.genericInterfaces.flatMap (·.references)
    ++ lineage.formals.references
    ++ lineage.fields.flatMap (·.references)
    ++ lineage.staticFields.flatMap (·.references)

/-- Everything a node refers to. -/
def Node.references (node : Node) : List Reference :=
  node.lineage.references
    ++ node.methods.flatMap (·.references)
    ++ node.annotations.flatMap (·.references)
    ++ node.defaults.flatMap (·.2.references)

end TypeAtlas
