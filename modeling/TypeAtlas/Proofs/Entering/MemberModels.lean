import Mathlib.Data.List.DropRight
import TypeAtlas.Proofs.Entering.Annotations

namespace TypeAtlas

/-!
# What is kept of members

A member is kept if a person wrote it, its descriptor can be read, and it is
annotated or the settings keep members without annotations. What is kept of it
is made of its declaration and the type parameters of its type: its types come
from its signature where that says something, and from its descriptor
otherwise. This module writes down both, what is kept and what is made of it,
without any store.
-/

/-! ## Answers -/

namespace Filing

/-- Annotations are answered as they are taken one by one. -/
theorem answerOf_takeUses
    (decls : List AnnotationDecl) :
    answerOf (takeUses decls) = decls.map (·.use) := by
  induction decls with
  | nil =>
      rfl
  | cons decl decls inductionHypothesis =>
      obtain ⟨uses, hints, noted, -⟩ := takeUses_notes decls
      have first := (takeUse_hinting decl).notes
      rw [noted.answerOf_eq] at inductionHypothesis
      rw [takeUses, (first.bind (noted.map (_ :: ·))).answerOf_eq,
        inductionHypothesis]
      rfl

/-- Tables of annotations are answered as they are taken slot by slot. -/
theorem answerOf_takeTable
    (table : List (List AnnotationDecl)) :
    answerOf (takeTable table) = table.map (List.map (·.use)) := by
  induction table with
  | nil =>
      rfl
  | cons decls table inductionHypothesis =>
      obtain ⟨slots, hints, noted, -⟩ := takeTable_notes table
      obtain ⟨uses, early, first, -⟩ := takeUses_notes decls
      rw [noted.answerOf_eq] at inductionHypothesis
      rw [takeTable, (first.bind (noted.map (_ :: ·))).answerOf_eq,
        inductionHypothesis, ← first.answerOf_eq, answerOf_takeUses]
      rfl

end Filing

/-- A descriptor as a generic type, which has no arguments. -/
def Descriptor.raw (type : Descriptor) : Generic :=
  (Generic.ofReference (Origin.element type).reference).withDimensions
    type.dimensions

namespace Filing

/-- A descriptor answers its raw type, and hints at the class in it. -/
theorem rawGeneric_notes
    (type : Descriptor) :
    Notes (rawGeneric type) type.raw (Origin.element type).hints :=
  (referToElement_hints type).map
    fun reference =>
      (Generic.ofReference reference).withDimensions type.dimensions

/-- A method without a result in its signature has that of its descriptor. -/
theorem answerOf_methodResult
    (generic : Option Generic)
    (raw : Option Descriptor) :
    answerOf (methodResult generic raw) =
      (generic <|> raw.map (·.raw)) := by
  cases generic with
  | some generic =>
      rfl
  | none =>
      cases raw with
      | none =>
          rfl
      | some type =>
          exact ((rawGeneric_notes type).map some).answerOf_eq

end Filing

/-! ## Models -/

/-- What is made of a field with a given type; its annotations are loose. -/
def FieldDecl.model
    (decl : FieldDecl)
    (formals : Formals)
    (type : Descriptor) :
    Field :=
  let resolved := decl.signature.bind fun signature =>
    Filing.answerOf (Filing.resolveField formals signature)
  { name := decl.name
    type := (Origin.element type).reference
    formal := resolved.bind (·.formal)
    isStatic := decl.isStatic
    isTransient := decl.isTransient
    isArray := type.isArray
    arguments := (resolved.map (·.arguments)).getD []
    annotations := decl.annotations.map (·.use) }

namespace Filing

/-- What is made of a parameter; its annotations are loose. -/
def ParameterDraft.model
    (draft : ParameterDraft)
    (index : Nat) :
    Parameter :=
  { index := index
    recordedName := draft.recordedName
    type := (Origin.element draft.type).reference
    dimensions := draft.type.dimensions
    generic := draft.generic.getD draft.type.raw
    annotations := draft.uses }

/--
Parameters are answered as their drafts tell, wherever they have their places.
-/
theorem answerOf_enterParameters
    (method : MethodId)
    (index : Nat)
    (drafts : List ParameterDraft)
    (element : Element) :
    (answerOf (enterParameters method index drafts)).map
        (Parameter.onto element) =
      ((drafts.zipIdx index).map fun (draft, index) =>
        draft.model index).map (Parameter.onto element) := by
  induction drafts generalizing index with
  | nil =>
      rfl
  | cons draft drafts inductionHypothesis =>
      obtain ⟨rest, hints, noted⟩ :=
        enterParameters_mentioning method (index + 1) drafts
      have typed := referToElement_hints draft.type
      have same := inductionHypothesis (index + 1)
      rw [noted.answerOf_eq] at same
      unfold enterParameters
      dsimp only
      cases given : draft.generic with
      | some generic =>
          rw [((notes_pure generic).bind
            (typed.bind (noted.map (_ :: ·)))).answerOf_eq]
          simp [ParameterDraft.model, Parameter.onto, given,
            attachedTo_map_attach, same]
      | none =>
          rw [((rawGeneric_notes draft.type).bind
            (typed.bind (noted.map (_ :: ·)))).answerOf_eq]
          simp [ParameterDraft.model, Parameter.onto, given,
            attachedTo_map_attach, same]

end Filing

/-- What is made of a method of a given type; its annotations are loose. -/
def MethodDecl.model
    (decl : MethodDecl)
    (formals : Formals)
    (type : MethodDescriptor) :
    Method :=
  let count := type.parameters.length
  let generics :=
    Filing.answerOf (Filing.methodGenerics formals count decl.signature)
  let table := (alignTable decl.parameterAnnotations count).map
    (List.map (·.use))
  let drafts := Filing.parameterDrafts decl type.parameters
    generics.parameters table
  { name := decl.name
    descriptor := decl.descriptor
    signature := decl.signature
    isStatic := decl.isStatic
    parameters := drafts.zipIdx.map fun (draft, index) => draft.model index
    resultName := type.result.map (·.sourceName)
    result := generics.result <|> type.result.map (·.raw)
    thrown := generics.thrown
    annotations := decl.annotations.map (·.use) }

/-- A field is what is made of a declaration, wherever it has its place. -/
def Field.Models
    (formals : Formals)
    (decl : FieldDecl)
    (field : Field) :
    Prop :=
  ∃ type,
    Descriptor.parse decl.descriptor = .ok type ∧
      ∀ element, field.onto element = (decl.model formals type).onto element

/-- A method is what is made of a declaration, wherever it has its place. -/
def Method.Models
    (formals : Formals)
    (decl : MethodDecl)
    (method : Method) :
    Prop :=
  ∃ type,
    MethodDescriptor.parse decl.descriptor = .ok type ∧
      ∀ element, method.onto element = (decl.model formals type).onto element

/-! ## What is kept -/

/-- Whether a field is kept in a type whose members are entered. -/
def FieldDecl.isRetained
    (settings : Settings)
    (decl : FieldDecl) :
    Bool :=
  !decl.isSynthetic
    && (Descriptor.parse decl.descriptor).toBool
    && (!decl.annotations.isEmpty || settings.keepUnannotated)

/--
Whether a method is annotated, or a parameter of it. A table of parameter
annotations belongs to the last parameters, so its last slots count.
-/
def MethodDecl.isAnnotated
    (decl : MethodDecl)
    (parameters : Nat) :
    Bool :=
  !decl.annotations.isEmpty
    || (decl.parameterAnnotations.rtake parameters).any (!·.isEmpty)

/-- Whether a method is kept in a type whose members are entered. -/
def MethodDecl.isRetained
    (settings : Settings)
    (decl : MethodDecl) :
    Bool :=
  !decl.isSynthetic
    && !decl.isInitializer
    && match MethodDescriptor.parse decl.descriptor with
      | .ok type =>
          decl.isAnnotated type.parameters.length || settings.keepUnannotated
      | .error _ => false

theorem Settings.keeping_eq
    (settings : Settings)
    (isAnnotated : Bool)
    (member : α) :
    settings.keeping isAnnotated member =
      if isAnnotated || settings.keepUnannotated then [member] else [] := by
  unfold keeping
  cases isAnnotated <;> cases settings.keepUnannotated <;> rfl

/-- A field has a draft, which models it, exactly if it is kept. -/
theorem FieldDecl.drafts_models
    {decl : FieldDecl}
    (formals : Formals)
    (settings : Settings)
    (written : decl.isSynthetic = false) :
    if decl.isRetained settings then
      ∃ draft,
        decl.drafts formals settings = [draft] ∧
          draft.Models formals decl
    else
      decl.drafts formals settings = [] := by
  unfold isRetained drafts
  cases parsed : Descriptor.parse decl.descriptor with
  | error fault =>
      simp [Except.toBool]
  | ok type =>
      simp only [written, Except.toBool, Filing.answerOf_takeUses,
        (Filing.referToElement_hints type).answerOf_eq, Settings.keeping_eq,
        List.isEmpty_map, Bool.not_false, Bool.true_and]
      split
      · exact ⟨_, rfl, type, parsed, fun _ => rfl⟩
      · rfl

/-- Only slots at the end of a table are given to parameters. -/
theorem any_alignTable
    (table : List (List α))
    (parameters : Nat) :
    (alignTable table parameters).any (!·.isEmpty) =
      (table.rtake parameters).any (!·.isEmpty) := by
  have padding :
      (List.replicate (parameters - table.length) ([] : List α)).any
        (!·.isEmpty) = false := by
    simp
  rw [alignTable, List.any_append, padding, Bool.false_or, List.rtake]

/-- A method has a draft, which models it, exactly if it is kept. -/
theorem MethodDecl.drafts_models
    {decl : MethodDecl}
    (formals : Formals)
    (settings : Settings)
    (written : (decl.isSynthetic || decl.isInitializer) = false) :
    if decl.isRetained settings then
      ∃ draft,
        decl.drafts formals settings = [draft] ∧
          draft.Models formals decl
    else
      decl.drafts formals settings = [] := by
  rw [Bool.or_eq_false_iff] at written
  unfold isRetained drafts
  cases parsed : MethodDescriptor.parse decl.descriptor with
  | error fault =>
      simp
  | ok type =>
      have slots :
          ((alignTable decl.parameterAnnotations type.parameters.length).map
            (List.map (·.use))).any (!·.isEmpty) =
              (decl.parameterAnnotations.rtake type.parameters.length).any
                (!·.isEmpty) := by
        rw [← any_alignTable, List.any_map]
        simp [Function.comp_def]
      simp only [written, Filing.answerOf_takeUses, Filing.answerOf_takeTable,
        Filing.answerOf_methodResult, Settings.keeping_eq, List.isEmpty_map,
        slots, isAnnotated, Bool.not_false, Bool.true_and]
      split
      · refine ⟨_, rfl, type, parsed, fun element => ?_⟩
        simp only [Method.onto, MethodDecl.model]
        rw [Filing.answerOf_enterParameters]
      · rfl

end TypeAtlas
