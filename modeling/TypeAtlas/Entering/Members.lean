import TypeAtlas.Entering.Annotate
import TypeAtlas.Entering.Resolve
import TypeAtlas.Settings

namespace TypeAtlas

/-!
# Entering members

A member is entered when its descriptor can be read and it carries an
annotation, or the settings keep members without. Its types come from its
signature as far as that can be used, and from its descriptor otherwise.
-/

/--
Give each parameter its slot of a table of parameter annotations.

A table may leave out parameters a compiler added in front, or have slots for
more; it belongs to the last parameters.
-/
def alignTable
    (table : List (List α))
    (parameters : Nat) :
    List (List α) :=
  List.replicate (parameters - table.length) []
    ++ table.drop (table.length - parameters)

namespace Store

/-- The type parameters of a type. -/
def formalsOf
    (store : Store)
    (name : TypeName) :
    Formals :=
  ((store.node? name).map (·.lineage.formals)).getD []

/-- The place of a new field among the fields of its kind. -/
def nextField
    (store : Store)
    (owner : TypeName)
    (isStatic : Bool) :
    FieldId :=
  { owner := owner
    isStatic := isStatic
    index :=
      ((store.node? owner).map (·.fieldsOf isStatic |>.length)).getD 0 }

/-- The place of a new method among the methods. -/
def nextMethod
    (store : Store)
    (owner : TypeName) :
    MethodId :=
  { owner := owner
    index := ((store.node? owner).map (·.methods.length)).getD 0 }

end Store

namespace Filing

/-- Refer to the type under the array dimensions of a descriptor. -/
def referToElement (type : Descriptor) : Filing Reference :=
  match type.objectName? with
  | some name => refer name none
  | none => return Reference.untracked type.elementName

/-- The generic type of a descriptor, which has no arguments. -/
def rawGeneric (type : Descriptor) : Filing Generic := do
  let reference ← referToElement type
  return (Generic.ofReference reference).withDimensions type.dimensions

/-! ## Fields -/

/-- Enter a field, unless it is not kept. -/
def enterField
    (settings : Settings)
    (owner : TypeName)
    (decl : FieldDecl) :
    Filing (Except Problem (Option FieldId)) := do
  match Descriptor.parse decl.descriptor with
  | .error _ =>
      return .error (.malformedDescriptor owner decl.name decl.descriptor)
  | .ok type =>
      let uses ← takeUses decl.annotations
      if uses.isEmpty && !settings.keepUnannotated then
        return .ok none
      let reference ← referToElement type
      let formals := (← get).formalsOf owner
      let resolved ←
        match decl.signature with
        | some signature => resolveField formals signature
        | none => pure none
      let id := (← get).nextField owner decl.isStatic
      let element := Element.field id
      let field : Field :=
        { name := decl.name
          type := reference
          formal := resolved.bind (·.formal)
          isStatic := decl.isStatic
          isTransient := decl.isTransient
          isArray := type.isArray
          arguments := (resolved.map (·.arguments)).getD []
          annotations := uses.map (AnnotationUse.attach element) }
      modify (·.recordUses uses element)
      modify (·.updateReferent reference (·.addFieldUse id))
      modify (·.updateNode owner (·.addField field))
      return .ok (some id)

/-! ## Methods -/

/-- What is known of a parameter before it is entered. -/
structure ParameterDraft where
  type : Descriptor
  generic : Option Generic
  recordedName : Option String
  uses : List AnnotationUse
  deriving Repr

/-- Enter parameters one after another, counted from `index`. -/
def enterParameters
    (method : MethodId) :
    Nat → List ParameterDraft → Filing (List Parameter)
  | _, [] => return []
  | index, draft :: drafts => do
      let generic ←
        match draft.generic with
        | some generic => pure generic
        | none => rawGeneric draft.type
      let reference ← referToElement draft.type
      let element := Element.parameter method index
      let first : Parameter :=
        { index := index
          recordedName := draft.recordedName
          type := reference
          dimensions := draft.type.dimensions
          generic := generic
          annotations := draft.uses.map (AnnotationUse.attach element) }
      let rest ← enterParameters method (index + 1) drafts
      return first :: rest

/-- What is known of the parameters of a method before they are entered. -/
def parameterDrafts
    (decl : MethodDecl)
    (types : List Descriptor)
    (generics : List (Option Generic))
    (table : List (List AnnotationUse)) :
    List ParameterDraft :=
  types.zipIdx.map fun (type, index) =>
    { type := type
      generic := (generics[index]?).join
      recordedName := decl.parameterName? index
      uses := (table[index]?).getD [] }

/--
The signature of a method, as far as it fits the descriptor. One that has
another number of parameters says nothing about them.
-/
def methodGenerics
    (formals : Formals)
    (parameters : Nat) :
    Option String → Filing MethodGenerics
  | none => return ⟨[], none, []⟩
  | some signature => do
      match ← resolveMethod formals signature with
      | none => return ⟨[], none, []⟩
      | some generics =>
          if generics.parameters.length = parameters then
            return generics
          else
            return { generics with parameters := [] }

/-- The result type of a method, from the descriptor if need be. -/
def methodResult
    (generic : Option Generic)
    (raw : Option Descriptor) :
    Filing (Option Generic) :=
  match generic, raw with
  | some generic, _ => return some generic
  | none, some type => some <$> rawGeneric type
  | none, none => return none

/-- Record the annotations of parameters, counted from `index`. -/
def recordParameters
    (method : MethodId)
    (drafts : List ParameterDraft) :
    Filing Unit :=
  drafts.zipIdx.forM fun (draft, index) =>
    modify (·.recordUses draft.uses (.parameter method index))

/-- Enter a method, unless it is not kept. -/
def enterMethod
    (settings : Settings)
    (owner : TypeName)
    (decl : MethodDecl) :
    Filing (Except Problem (Option MethodId)) := do
  match MethodDescriptor.parse decl.descriptor with
  | .error _ =>
      return .error (.malformedDescriptor owner decl.name decl.descriptor)
  | .ok type =>
      let uses ← takeUses decl.annotations
      let table ← takeTable
        (alignTable decl.parameterAnnotations type.parameters.length)
      let isAnnotated := !uses.isEmpty || table.any (!·.isEmpty)
      if !isAnnotated && !settings.keepUnannotated then
        return .ok none
      let formals := (← get).formalsOf owner
      let generics ←
        methodGenerics formals type.parameters.length decl.signature
      let result ← methodResult generics.result type.result
      let id := (← get).nextMethod owner
      let drafts :=
        parameterDrafts decl type.parameters generics.parameters table
      let parameters ← enterParameters id 0 drafts
      let element := Element.method id
      let method : Method :=
        { name := decl.name
          descriptor := decl.descriptor
          signature := decl.signature
          isStatic := decl.isStatic
          parameters := parameters
          resultName := type.result.map (·.sourceName)
          result := result
          thrown := generics.thrown
          annotations := uses.map (AnnotationUse.attach element) }
      modify (·.recordUses uses element)
      recordParameters id drafts
      modify (·.updateNode owner (·.addMethod method))
      return .ok (some id)

/-- Record the default of an annotation type's element. -/
def enterDefault
    (owner : TypeName)
    (decl : MethodDecl) :
    Filing Unit := do
  match decl.default with
  | none => return
  | some value =>
      let value ← takeDefault value
      modify (·.updateNode owner (·.addDefault decl.name value))

end Filing

end TypeAtlas
