import TypeAtlas.Proofs.Entering.Comparison
import TypeAtlas.Proofs.Entering.MemberModels

namespace TypeAtlas

/-!
# Members in their places

What entering a member does to a store is written out here to the last mark:
the names that are mentioned, in their order, the marks on the types that the
member leads to, and the member itself in its place. The signature comes in by
what it says and by the names that it mentions, so the same account holds for
members with and without one.
-/

/-! ## Steps one after another -/

namespace Store

/-- Mentions do not move the place of the next method. -/
theorem nextMethod_replay_mentions
    (store : Store)
    (hints : List Hint)
    (owner : TypeName) :
    (store.replay (mentions hints)).nextMethod owner =
      store.nextMethod owner := by
  rw [nextMethod, nextMethod, node?_replay_mentions]

theorem nextField_replay_mentions
    (store : Store)
    (hints : List Hint)
    (owner : TypeName)
    (isStatic : Bool) :
    (store.replay (mentions hints)).nextField owner isStatic =
      store.nextField owner isStatic := by
  rw [nextField, nextField, node?_replay_mentions]

end Store

namespace Filing

/-- A step that only mentions names, and what comes after. -/
theorem Notes.run_bind
    {step : Filing α}
    {answer : α}
    {hints : List Hint}
    (noted : Notes step answer hints)
    (next : α → Filing β)
    (store : Store) :
    (step >>= next).run store =
      (next answer).run (store.replay (mentions hints)) := by
  rw [StateT.run_bind, noted store]
  rfl

/-- The store is looked at before. -/
theorem run_get_bind
    (next : Store → Filing β)
    (store : Store) :
    (get >>= next).run store = (next store).run store :=
  rfl

end Filing

/-! ## Fields -/

/-- What is made of a field in its place. -/
def FieldDecl.placed
    (decl : FieldDecl)
    (type : Descriptor)
    (resolved : Option Generic)
    (uses : List AnnotationUse)
    (id : FieldId) :
    Field :=
  { name := decl.name
    type := (Origin.element type).reference
    formal := resolved.bind (·.formal)
    isStatic := decl.isStatic
    isTransient := decl.isTransient
    isArray := type.isArray
    arguments := (resolved.map (·.arguments)).getD []
    annotations := uses.map (AnnotationUse.attach (.field id)) }

namespace Filing

/-- The signature of a field, if there is one. -/
def fieldGenerics
    (formals : Formals) :
    Option String → Filing (Option Generic)
  | some signature => resolveField formals signature
  | none => return none

/-- The marks that go with a field. -/
def fieldMarks
    (uses : List AnnotationUse)
    (reference : Reference)
    (id : FieldId) :
    List Change :=
  useMarks uses (.field id) ++ fieldUseMarks reference id

theorem hidden_fieldMarks
    (uses : List AnnotationUse)
    (reference : Reference)
    (id : FieldId) :
    ∀ change ∈ fieldMarks uses reference id, change.Hidden := by
  intro change member
  rcases List.mem_append.mp member with used | typed
  · exact hidden_useMarks rfl uses change used
  · unfold fieldUseMarks at typed
    split at typed
    · rw [List.mem_singleton.mp typed]
      trivial
    · simp at typed

/-- The last steps of a field. -/
theorem run_keepField
    (owner : TypeName)
    (uses : List AnnotationUse)
    (reference : Reference)
    (id : FieldId)
    (field : Field)
    (answer : α)
    (store : Store) :
    (do
      modify (·.recordUses uses (.field id))
      modify (·.updateReferent reference (·.addFieldUse id))
      modify (·.updateNode owner (·.addField field))
      return answer : Filing α).run store =
        (answer,
          (store.replay (fieldMarks uses reference id)).updateNode owner
            (·.addField field)) := by
  rw [fieldMarks, Store.replay_append, ← Store.recordUses_eq_replay,
    ← addFieldUse_eq_replay]
  rfl

/-- The store that has a field in its place, with all that goes with it. -/
def withField
    (store : Store)
    (owner : TypeName)
    (decl : FieldDecl)
    (type : Descriptor)
    (resolved : Option Generic)
    (hints : List Hint)
    (uses : List AnnotationUse) :
    Store :=
  let id := store.nextField owner decl.isStatic
  let named := store.replay (mentions ((Origin.element type).hints ++ hints))
  let marked := named.replay
    (fieldMarks uses (Origin.element type).reference id)
  marked.updateNode owner (·.addField (decl.placed type resolved uses id))

/-- A field is dropped, or it has its place in the end. -/
theorem run_enterField
    (settings : Settings)
    (owner : TypeName)
    (decl : FieldDecl)
    {type : Descriptor}
    (parsed : Descriptor.parse decl.descriptor = .ok type)
    {uses : List AnnotationUse}
    {useHints : List Hint}
    (usesNoted : Notes (takeUses decl.annotations) uses useHints)
    {resolved : Option Generic}
    {hints : List Hint}
    (noted :
      ∀ formals,
        Notes (fieldGenerics formals decl.signature) resolved hints)
    (store : Store) :
    (enterField settings owner decl).run store =
      let heard := store.replay (mentions useHints)
      if uses.isEmpty && !settings.keepUnannotated then
        (.ok none, heard)
      else
        (.ok (some (store.nextField owner decl.isStatic)),
          withField heard owner decl type resolved hints uses) := by
  unfold enterField
  rw [parsed]
  refine (usesNoted.run_bind _ store).trans ?_
  dsimp only
  split
  · rfl
  · refine ((referToElement_hints type).run_bind _ _).trans ?_
    rw [run_get_bind, withField, mentions_append, Store.replay_append]
    cases signature : decl.signature with
    | none =>
        rw [signature] at noted
        refine ((noted []).run_bind _ _).trans ?_
        rw [run_get_bind]
        simp only [Store.nextField_replay_mentions]
        exact run_keepField owner uses _ _ _ _ _
    | some text =>
        rw [signature] at noted
        refine ((noted _).run_bind _ _).trans ?_
        rw [run_get_bind]
        simp only [Store.nextField_replay_mentions]
        exact run_keepField owner uses _ _ _ _ _

end Filing

/-- A field that was added to a type with fields is found in its place. -/
theorem Store.getElem?_addField
    {store : Store}
    {owner : TypeName}
    {isStatic : Bool}
    {id : FieldId}
    (place : store.nextField owner isStatic = id)
    {field : Field}
    (kind : field.isStatic = isStatic)
    {node : Node}
    (installed :
      (store.updateNode owner (·.addField field)).node? id.owner = some node)
    (extensible : node.isExtensible = true) :
    (node.fieldsOf id.isStatic)[id.index]? = some field := by
  subst place kind
  rw [nextField, node?_updateNode, if_pos rfl] at installed
  obtain ⟨old, known, rfl⟩ := Option.map_eq_some_iff.mp installed
  have same : (old.addField field).isExtensible = old.isExtensible :=
    Node.isExtensible_updateLineage ..
  rw [same] at extensible
  simp [nextField, known, Node.fieldsOf_addField, extensible]

/-! ## Methods -/

namespace Filing

namespace ParameterDraft

/-- What is made of a parameter in its place. -/
def placed
    (draft : ParameterDraft)
    (method : MethodId)
    (index : Nat) :
    Parameter :=
  { draft.model index with
    annotations :=
      draft.uses.map (AnnotationUse.attach (.parameter method index)) }

/-- The names that are mentioned for a parameter. -/
def hints (draft : ParameterDraft) : List Hint :=
  (if draft.generic.isSome then [] else (Origin.element draft.type).hints) ++
    (Origin.element draft.type).hints

end ParameterDraft

theorem enterParameters_notes
    (method : MethodId)
    (index : Nat)
    (drafts : List ParameterDraft) :
    Notes (enterParameters method index drafts)
      ((drafts.zipIdx index).map fun (draft, index) =>
        draft.placed method index)
      (drafts.flatMap (·.hints)) := by
  induction drafts generalizing index with
  | nil =>
      exact notes_pure []
  | cons draft drafts inductionHypothesis =>
      have rest := inductionHypothesis (index + 1)
      have typed := referToElement_hints draft.type
      rw [List.zipIdx_cons, List.map_cons, List.flatMap_cons]
      unfold enterParameters
      dsimp only
      cases given : draft.generic with
      | some generic =>
          simp only [ParameterDraft.hints, ParameterDraft.placed,
            ParameterDraft.model, given, Option.isSome_some, ↓reduceIte,
            List.nil_append, Option.getD_some]
          exact (notes_pure generic).bind (typed.bind (rest.map (_ :: ·)))
      | none =>
          simp only [ParameterDraft.hints, ParameterDraft.placed,
            ParameterDraft.model, given, Option.isSome_none,
            if_neg Bool.false_ne_true, List.append_assoc, Option.getD_none]
          exact (rawGeneric_notes draft.type).bind
            (typed.bind (rest.map (_ :: ·)))

/-- The names that are mentioned for a result. -/
def resultHints
    (generic : Option Generic)
    (raw : Option Descriptor) :
    List Hint :=
  if generic.isSome then
    []
  else
    raw.toList.flatMap fun type => (Origin.element type).hints

theorem methodResult_notes
    (generic : Option Generic)
    (raw : Option Descriptor) :
    Notes (methodResult generic raw) (generic <|> raw.map (·.raw))
      (resultHints generic raw) := by
  cases generic with
  | some generic =>
      exact notes_pure (some generic)
  | none =>
      cases raw with
      | none =>
          exact notes_pure none
      | some type =>
          have hints :
              resultHints none (some type) = (Origin.element type).hints := by
            simp [resultHints]
          rw [hints]
          exact (rawGeneric_notes type).map some

end Filing

/-- What is made of a method in its place. -/
def MethodDecl.placed
    (decl : MethodDecl)
    (type : MethodDescriptor)
    (generics : MethodGenerics)
    (uses : List AnnotationUse)
    (table : List (List AnnotationUse))
    (id : MethodId) :
    Method :=
  { name := decl.name
    descriptor := decl.descriptor
    signature := decl.signature
    isStatic := decl.isStatic
    parameters :=
      (Filing.parameterDrafts decl type.parameters generics.parameters
        table).zipIdx.map fun (draft, index) => draft.placed id index
    resultName := type.result.map (·.sourceName)
    result := generics.result <|> type.result.map (·.raw)
    thrown := generics.thrown
    annotations := uses.map (AnnotationUse.attach (.method id)) }

namespace Filing

/-- The names that are mentioned for a method, annotations apart. -/
def methodHints
    (decl : MethodDecl)
    (type : MethodDescriptor)
    (generics : MethodGenerics)
    (table : List (List AnnotationUse)) :
    List Hint :=
  resultHints generics.result type.result ++
    (parameterDrafts decl type.parameters generics.parameters table).flatMap
      (·.hints)

/-- The marks that go with a method and its parameters. -/
def methodMarks
    (uses : List AnnotationUse)
    (drafts : List ParameterDraft)
    (id : MethodId) :
    List Change :=
  useMarks uses (.method id) ++ parameterMarks id drafts.zipIdx

theorem hidden_methodMarks
    (uses : List AnnotationUse)
    (drafts : List ParameterDraft)
    (id : MethodId) :
    ∀ change ∈ methodMarks uses drafts id, change.Hidden := by
  intro change member
  rcases List.mem_append.mp member with used | ofParameter
  · exact hidden_useMarks rfl uses change used
  · obtain ⟨⟨draft, index⟩, -, marked⟩ := List.mem_flatMap.mp ofParameter
    exact hidden_useMarks rfl draft.uses change marked

/-- The last steps of a method. -/
theorem run_keepMethod
    (owner : TypeName)
    (uses : List AnnotationUse)
    (drafts : List ParameterDraft)
    (id : MethodId)
    (method : Method)
    (answer : α)
    (store : Store) :
    (do
      modify (·.recordUses uses (.method id))
      recordParameters id drafts
      modify (·.updateNode owner (·.addMethod method))
      return answer : Filing α).run store =
        (answer,
          (store.replay (methodMarks uses drafts id)).updateNode owner
            (·.addMethod method)) := by
  have recorded := recordParameters_eq_replay id drafts
    (store.recordUses uses (.method id))
  rw [methodMarks, Store.replay_append, ← Store.recordUses_eq_replay]
  exact congrArg
    (fun ran : PUnit × Store =>
      (answer, ran.2.updateNode owner (·.addMethod method))) recorded

/-- The store that has a method in its place, with all that goes with it. -/
def withMethod
    (store : Store)
    (owner : TypeName)
    (decl : MethodDecl)
    (type : MethodDescriptor)
    (generics : MethodGenerics)
    (hints : List Hint)
    (uses : List AnnotationUse)
    (table : List (List AnnotationUse)) :
    Store :=
  let id := store.nextMethod owner
  let drafts := parameterDrafts decl type.parameters generics.parameters table
  let named := store.replay
    (mentions (hints ++ methodHints decl type generics table))
  let marked := named.replay (methodMarks uses drafts id)
  marked.updateNode owner
    (·.addMethod (decl.placed type generics uses table id))

/-- A method is dropped, or it has its place in the end. -/
theorem run_enterMethod
    (settings : Settings)
    (owner : TypeName)
    (decl : MethodDecl)
    {type : MethodDescriptor}
    (parsed : MethodDescriptor.parse decl.descriptor = .ok type)
    {uses : List AnnotationUse}
    {useHints : List Hint}
    (usesNoted : Notes (takeUses decl.annotations) uses useHints)
    {table : List (List AnnotationUse)}
    {tableHints : List Hint}
    (tableNoted :
      Notes
        (takeTable
          (alignTable decl.parameterAnnotations type.parameters.length))
        table tableHints)
    {generics : MethodGenerics}
    {hints : List Hint}
    (noted :
      ∀ formals,
        Notes
          (methodGenerics formals type.parameters.length decl.signature)
          generics hints)
    (store : Store) :
    (enterMethod settings owner decl).run store =
      let heard := (store.replay (mentions useHints)).replay
        (mentions tableHints)
      if !(!uses.isEmpty || table.any (!·.isEmpty)) &&
          !settings.keepUnannotated then
        (.ok none, heard)
      else
        (.ok (some (store.nextMethod owner)),
          withMethod heard owner decl type generics hints uses table) := by
  unfold enterMethod
  rw [parsed]
  refine (usesNoted.run_bind _ store).trans ?_
  refine (tableNoted.run_bind _ _).trans ?_
  dsimp only
  split
  · rfl
  · rw [run_get_bind]
    refine ((noted _).run_bind _ _).trans ?_
    refine ((methodResult_notes _ _).run_bind _ _).trans ?_
    rw [run_get_bind]
    refine ((enterParameters_notes _ 0 _).run_bind _ _).trans ?_
    rw [withMethod, methodHints, mentions_append hints,
      mentions_append (resultHints _ _), Store.replay_append _ (mentions hints),
      Store.replay_append _ (mentions (resultHints _ _))]
    simp only [Store.nextMethod_replay_mentions]
    exact run_keepMethod owner uses _ _ _ _ _

end Filing

/-- A method that was added to a type is found in its place. -/
theorem Store.getElem?_addMethod
    {store : Store}
    {owner : TypeName}
    {id : MethodId}
    (place : store.nextMethod owner = id)
    {method : Method}
    {node : Node}
    (installed :
      (store.updateNode owner (·.addMethod method)).node? id.owner =
        some node) :
    node.methods[id.index]? = some method := by
  subst place
  rw [nextMethod, node?_updateNode, if_pos rfl] at installed
  obtain ⟨old, known, rfl⟩ := Option.map_eq_some_iff.mp installed
  simp [nextMethod, known, Node.addMethod]

end TypeAtlas
