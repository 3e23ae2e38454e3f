import TypeAtlas.Entering.Mentions
import TypeAtlas.Proofs.Store.Effect

namespace TypeAtlas

/-!
# Where references come from

Every reference goes back to a place where a declaration names a type: a
supertype, a class type in a signature, the descriptor of a member, or a
descriptor in an annotation. Such a place leads to a tracked reference if it
names a class other than the root type, and the class is mentioned then and
there; otherwise the reference is untracked.
-/

/-! ## Origins -/

/-- A place where a declaration names a type. -/
inductive Origin where
  /-- A superclass or an interface. -/
  | supertype (name : TypeName)
  /-- A class type in a signature. -/
  | signature (name : TypeName)
  /-- The type of a field, a parameter or a result, under its dimensions. -/
  | element (type : Descriptor)
  | annotationType (descriptor : String)
  | enumConstant (descriptor : String)
  | classLiteral (descriptor : String)
  deriving DecidableEq

namespace Origin

/-- The reference that comes from an origin. -/
def reference : Origin → Reference
  | supertype name => Reference.toType name
  | signature name => Reference.toType name
  | element type =>
      match type.objectName? with
      | some name => Reference.toType name
      | none => Reference.untracked type.elementName
  | annotationType descriptor | enumConstant descriptor =>
      match Descriptor.parse descriptor with
      | .ok (.object name) => Reference.toType name
      | _ => Reference.untracked descriptor
  | classLiteral descriptor =>
      match Descriptor.parseResult descriptor with
      | .ok (some (.object name)) => Reference.toType name
      | .ok (some type) => Reference.untracked type.sourceName
      | .ok none => Reference.untracked "void"
      | .error _ => Reference.untracked descriptor

/--
The origin does not lead to an entry: it names the root type, or is primitive,
or is an annotation's, an enum's or a literal's descriptor that is not the one
of a class, such as that of an array or of `void`, or one that cannot be read.
-/
def LeadsNowhere : Origin → Prop
  | supertype name => name = TypeName.root
  | signature name => name = TypeName.root
  | element type =>
      type.objectName? = some TypeName.root ∨
        ∃ base, type.element = .base base
  | annotationType descriptor | enumConstant descriptor =>
      ∀ name, Descriptor.parse descriptor = .ok (.object name) →
        name = TypeName.root
  | classLiteral descriptor =>
      ∀ name, Descriptor.parseResult descriptor = .ok (some (.object name)) →
        name = TypeName.root

end Origin

namespace Descriptor

/-- Under all dimensions there is no array. -/
theorem element_ne_array
    (type inner : Descriptor)
    (dimensions : Nat) :
    type.element ≠ .array inner dimensions := by
  induction type with
  | base _ | object _ =>
      simp [element]
  | array type _ inductionHypothesis =>
      simpa [element] using inductionHypothesis

theorem objectName?_eq_none_iff
    {type : Descriptor} :
    type.objectName? = none ↔ ∃ base, type.element = .base base := by
  unfold objectName?
  cases shape : type.element with
  | base base =>
      simp
  | object name =>
      simp
  | array inner dimensions =>
      exact absurd shape (element_ne_array type inner dimensions)

end Descriptor

namespace Reference

@[simp] theorem tracked_toType
    (name : TypeName) :
    (toType name).tracked = true ↔ name ≠ TypeName.root := by
  simp [toType]

@[simp] theorem tracked_untracked
    (name : String) :
    (untracked name).tracked = false :=
  rfl

end Reference

namespace Origin

/-- An origin leads nowhere exactly if its reference is untracked. -/
theorem leadsNowhere_iff
    (origin : Origin) :
    origin.LeadsNowhere ↔ origin.reference.tracked = false := by
  rw [← Bool.not_eq_true]
  cases origin with
  | supertype name | signature name =>
      simp [LeadsNowhere, reference]
  | element type =>
      simp only [LeadsNowhere, reference, ← Descriptor.objectName?_eq_none_iff]
      cases type.objectName? <;> simp
  | annotationType descriptor | enumConstant descriptor =>
      simp only [LeadsNowhere, reference]
      split
      · next name parsed =>
          simp [parsed]
      · next other =>
          simp only [Reference.tracked_untracked, Bool.false_eq_true,
            not_false_eq_true, iff_true]
          exact fun name parsed => absurd parsed (other name)
  | classLiteral descriptor =>
      simp only [LeadsNowhere, reference]
      split
      · next name parsed =>
          simp [parsed]
      · next type other parsed =>
          simp only [Reference.tracked_untracked, Bool.false_eq_true,
            not_false_eq_true, iff_true, parsed, Except.ok.injEq,
            Option.some.injEq]
          exact fun name same => absurd same (other name)
      · next parsed =>
          simp [parsed]
      · next fault parsed =>
          simp [parsed]

/-- The root type has no tracked reference. -/
theorem name_ne_root
    {origin : Origin}
    (tracked : origin.reference.tracked = true) :
    origin.reference.name ≠ TypeName.root := by
  have tracks :
      ∀ name, (Reference.toType name).tracked = true →
        (Reference.toType name).name ≠ TypeName.root :=
    fun name known => (Reference.tracked_toType name).mp known
  revert tracked
  cases origin with
  | supertype name | signature name =>
      exact tracks name
  | element type =>
      simp only [reference]
      split
      · exact tracks _
      · simp
  | annotationType descriptor | enumConstant descriptor =>
      simp only [reference]
      split
      · exact tracks _
      · simp
  | classLiteral descriptor =>
      simp only [reference]
      split
      · exact tracks _
      all_goals simp

end Origin

/-- The reference is the type of an annotation. -/
def Reference.OfUse (reference : Reference) : Prop :=
  ∃ descriptor, reference = (Origin.annotationType descriptor).reference

/-- An annotation is of a class, or of what its descriptor says if it is none's. -/
theorem Reference.OfUse.eq_or
    {reference : Reference}
    (typed : reference.OfUse) :
    reference = Reference.toType reference.name ∨
      reference = Reference.untracked reference.name ∧
        ∀ name, Descriptor.parse reference.name ≠ .ok (.object name) := by
  obtain ⟨descriptor, rfl⟩ := typed
  simp only [Origin.reference]
  split
  · exact Or.inl rfl
  · next other =>
      exact Or.inr ⟨rfl, other⟩

/-! ## The origins in a declaration -/

mutual

def ElementValue.origins : ElementValue → List Origin
  | .scalar _ => []
  | .enumConstant descriptor _ => [.enumConstant descriptor]
  | .classLiteral descriptor => [.classLiteral descriptor]
  | .annotated decl => decl.origins
  | .array items => ElementValue.originsOfItems items

def ElementValue.originsOfItems : List ElementValue → List Origin
  | [] => []
  | item :: items => item.origins ++ ElementValue.originsOfItems items

/-- The type of an annotation, and the types that its values name. -/
def AnnotationDecl.origins : AnnotationDecl → List Origin
  | ⟨descriptor, _, values⟩ =>
      .annotationType descriptor :: AnnotationDecl.originsOfPairs values

def AnnotationDecl.originsOfPairs :
    List (String × ElementValue) → List Origin
  | [] => []
  | (_, value) :: pairs =>
      value.origins ++ AnnotationDecl.originsOfPairs pairs

end

/-- The class types of a signature. -/
def Signature.origins
    (trace : String → Signature.Trace)
    (signature : Option String) :
    List Origin :=
  (Signature.mentioned trace signature).map .signature

def FieldDecl.origins (decl : FieldDecl) : List Origin :=
  decl.annotations.flatMap (·.origins)
    ++ (match Descriptor.parse decl.descriptor with
      | .ok type => [.element type]
      | .error _ => [])
    ++ Signature.origins Signature.traceField decl.signature

def MethodDecl.origins (decl : MethodDecl) : List Origin :=
  decl.default.toList.flatMap (·.origins)
    ++ decl.annotations.flatMap (·.origins)
    ++ decl.parameterAnnotations.flatten.flatMap (·.origins)
    ++ (match MethodDescriptor.parse decl.descriptor with
      | .ok type => (type.parameters ++ type.result.toList).map .element
      | .error _ => [])
    ++ Signature.origins Signature.traceMethod decl.signature

/-- The supertypes of a declaration, with and without arguments. -/
def ClassDecl.headerOrigins (decl : ClassDecl) : List Origin :=
  decl.superName.toList.map .supertype
    ++ decl.interfaces.map .supertype
    ++ Signature.origins Signature.traceClass decl.signature

def ClassDecl.bodyOrigins (decl : ClassDecl) : List Origin :=
  decl.annotations.flatMap (·.origins)
    ++ decl.fields.flatMap (·.origins)
    ++ decl.methods.flatMap (·.origins)

/-! ## References that are accounted for -/

namespace Store

/-- A reference has an entry if it is tracked, and comes from an origin. -/
def Admits
    (store : Store)
    (origins : List Origin)
    (reference : Reference) :
    Prop :=
  (reference.tracked = true → reference.name ∈ store.names) ∧
    ∃ origin ∈ origins, reference = origin.reference

theorem Admits.replay
    {store : Store}
    {origins : List Origin}
    {reference : Reference}
    (admits : store.Admits origins reference)
    (script : List Change) :
    (store.replay script).Admits origins reference :=
  ⟨fun tracked => mem_names_replay.mpr (Or.inl (admits.1 tracked)), admits.2⟩

end Store

end TypeAtlas
