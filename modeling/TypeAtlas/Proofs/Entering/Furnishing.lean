import TypeAtlas.Proofs.Entering.Resolving
import TypeAtlas.Proofs.Graph.Closure

namespace TypeAtlas

/-!
# Entering members

A field, a method or a default is entered in two parts. The first resolves
annotations and types and mentions names at most. The second adds the member to
the node of its type together with its marks, which is one addition to the
store: the marks are those that the member calls for, since its annotations are
attached after they are recorded, which leaves their types alone.
-/

/-! ## Attached annotations -/

/-- The marks of annotations do not depend on what they are attached to. -/
theorem useMarks_attach
    (uses : List AnnotationUse)
    (target element : Element) :
    useMarks (uses.map (AnnotationUse.attach target)) element =
      useMarks uses element := by
  induction uses with
  | nil =>
      rfl
  | cons use uses inductionHypothesis =>
      unfold useMarks at inductionHypothesis ⊢
      by_cases tracked : use.type.tracked = true <;>
        simp [tracked, inductionHypothesis]

/-- An annotation that is attached to an element stands on it. -/
theorem standsOn_attach
    {use : AnnotationUse}
    (type : use.type.OfUse)
    (element : Element) :
    (use.attach element).StandsOn element :=
  ⟨AnnotationUse.element_attach element use,
    AnnotationUse.element_of_nested_attach element use,
    by rwa [AnnotationUse.type_attach]⟩

/-- So do annotations that are attached together. -/
theorem standsOn_of_mem_attached
    {uses : List AnnotationUse}
    (types : ∀ use ∈ uses, use.type.OfUse)
    {element : Element} :
    ∀ use ∈ uses.map (AnnotationUse.attach element),
      use.StandsOn element := by
  intro use member
  obtain ⟨taken, used, rfl⟩ := List.mem_map.mp member
  exact standsOn_attach (types taken used) element

/-- Attached annotations refer to what is admitted, as they did before. -/
theorem references_attach_of_taken
    {admits : Reference → Prop}
    {uses : List AnnotationUse}
    (taken : ∀ use ∈ uses, use.Taken admits)
    (element : Element) :
    ∀ reference ∈
        (uses.map (AnnotationUse.attach element)).flatMap (·.references),
      admits reference := by
  intro reference member
  simp only [List.mem_flatMap, List.mem_map] at member
  obtain ⟨_, ⟨use, used, rfl⟩, inside⟩ := member
  rw [AnnotationUse.references_attach] at inside
  exact (taken use used).references reference inside

/-! ## Types that take members -/

namespace Store

/-- All references are accounted for, and the type of a declaration is entered. -/
structure Ready
    (origins : List Origin)
    (owner : ClassDecl)
    (store : Store) :
    Prop where
  closed : store.Closed origins
  entered : store.Entered owner

namespace Ready

variable {origins : List Origin} {owner : ClassDecl} {store : Store}

/-- A store stays ready for a type while it is populated. -/
theorem populates
    {last : Store}
    (ready : store.Ready origins owner)
    (populates : Populates origins store last) :
    last.Ready origins owner :=
  ⟨populates.closed ready.closed, ready.entered.evolves populates.evolves⟩

/-- Mentioning names keeps a store ready. -/
theorem mentions
    (ready : store.Ready origins owner)
    (hints : List Hint) :
    (store.replay (TypeAtlas.mentions hints)).Ready origins owner :=
  ready.populates (.mentions hints store)

/-- The bounds of a type's own parameters are accounted for. -/
theorem formals
    (ready : store.Ready origins owner) :
    (store.formalsOf owner.name).Within (store.Admits origins) := by
  obtain ⟨node, -, installed, -⟩ := ready.entered
  intro formal member reference inside
  simp only [formalsOf, installed, Option.map_some, Option.getD_some] at member
  refine ready.closed owner.name node installed reference ?_
  simp only [Node.references, Lineage.references, Formals.references,
    List.mem_append, List.mem_flatMap]
  exact Or.inl (Or.inl (Or.inl (Or.inl (Or.inl (Or.inr
    ⟨formal, member, inside⟩)))))

end Ready

end Store

namespace Filing

variable {origins : List Origin} {owner : ClassDecl} {store : Store}

/-- A step populates a store. -/
def PopulatesAt
    (origins : List Origin)
    (store : Store)
    (step : Filing α) :
    Prop :=
  store.Populates origins (step.run store).2

theorem populatesAt_pure
    (answer : α) :
    PopulatesAt origins store (pure answer) :=
  .refl store

/-- A step may look at the store it meets. -/
theorem populatesAt_get
    {next : Store → Filing α}
    (after : PopulatesAt origins store (next store)) :
    PopulatesAt origins store (get >>= next) :=
  after

/-- After a step that mentions names at most comes one that populates. -/
theorem ReadsAt.andThen
    {step : Filing α}
    {next : α → Filing β}
    {between : Store → α → Prop}
    (reads : ReadsAt store step between)
    (after :
      ∀ hints answer, between (store.replay (mentions hints)) answer →
        PopulatesAt origins (store.replay (mentions hints)) (next answer)) :
    PopulatesAt origins store (step >>= next) := by
  obtain ⟨hints, left, fits⟩ := reads
  rw [left] at fits
  have later := after hints _ fits
  unfold PopulatesAt at later ⊢
  rw [← left] at later
  rw [StateT.run_bind]
  refine Store.Populates.trans ?_ later
  rw [left]
  exact .mentions hints store

/-! ## Annotations on types -/

/-- An annotation on a type is added with its mark. -/
theorem annotateOwner_populates
    (ready : store.Ready origins owner)
    {decl : AnnotationDecl}
    (listed : ∀ origin ∈ decl.origins, origin ∈ origins) :
    PopulatesAt origins store (do
      let use ← takeUse decl
      modify (·.recordUses [use] (.type owner.name))
      modify (·.updateNode owner.name
        (·.addUse (use.attach (.type owner.name))))) := by
  refine (takeUse_reads decl listed).andThen fun hints use taken => ?_
  have marks :
      (store.replay (mentions hints)).marksOf owner.name
          (.use (use.attach (.type owner.name))) =
        useMarks [use] (.type owner.name) := by
    simp [Store.marksOf, Store.carried,
      ← useMarks_attach [use] (.type owner.name)]
  have furnished :
      ((store.replay (mentions hints)).recordUses [use]
          (.type owner.name)).updateNode owner.name
            (·.addUse (use.attach (.type owner.name))) =
        (store.replay (mentions hints)).furnish owner.name
          (.use (use.attach (.type owner.name))) := by
    rw [Store.furnish, marks, Store.replay_append, Store.recordUses_eq_replay]
    rfl
  change (store.replay (mentions hints)).Populates origins
    (((store.replay (mentions hints)).recordUses [use]
      (.type owner.name)).updateNode owner.name
        (·.addUse (use.attach (.type owner.name))))
  rw [furnished]
  refine .addition ⟨(ready.mentions hints).entered, by simp, ?_, by simp, ?_⟩
  · intro element given carried
    rw [Store.carried, List.mem_singleton] at carried
    obtain ⟨rfl, rfl⟩ := Prod.mk.inj carried
    intro other used
    rw [List.mem_singleton.mp used]
    exact standsOn_attach taken.type _
  · intro reference member
    rw [Amendment.references, AnnotationUse.references_attach] at member
    exact taken.references reference member

/-! ## Fields -/

/-- A field is added with its marks. -/
theorem furnish_field
    (store : Store)
    (owner : TypeName)
    {uses : List AnnotationUse}
    {reference : Reference}
    {field : Field}
    {id : FieldId}
    (type : field.type = reference)
    (place : id = store.nextField owner field.isStatic)
    (annotations :
      field.annotations = uses.map (AnnotationUse.attach (.field id))) :
    ((store.recordUses uses (.field id)).updateReferent reference
        (·.addFieldUse id)).updateNode owner (·.addField field) =
      store.furnish owner (.field field) := by
  have marks :
      store.marksOf owner (.field field) =
        useMarks uses (.field id) ++ fieldUseMarks reference id := by
    simp [Store.marksOf, Store.carried, ← place, annotations, type,
      useMarks_attach]
  rw [Store.furnish, marks, Store.replay_append, Store.replay_append,
    addFieldUse_eq_replay, Store.recordUses_eq_replay]
  rfl

/-- A field is added with its marks, and all it refers to is accounted for. -/
theorem keepField_populates
    (ready : store.Ready origins owner)
    (extensible : owner.category.isExtensible = true)
    {uses : List AnnotationUse}
    (taken : ∀ use ∈ uses, use.Taken (store.Admits origins))
    {reference : Reference}
    (admitted : store.Admits origins reference)
    {field : Field}
    {id : FieldId}
    (type : field.type = reference)
    (place : id = store.nextField owner.name field.isStatic)
    (annotations :
      field.annotations = uses.map (AnnotationUse.attach (.field id)))
    (arguments :
      ∀ argument ∈ field.arguments, argument.Within (store.Admits origins))
    (answer : α) :
    PopulatesAt origins store (do
      modify (·.recordUses uses (.field id))
      modify (·.updateReferent reference (·.addFieldUse id))
      modify (·.updateNode owner.name (·.addField field))
      return answer) := by
  change store.Populates origins
    (((store.recordUses uses (.field id)).updateReferent reference
      (·.addFieldUse id)).updateNode owner.name (·.addField field))
  rw [furnish_field store owner.name type place annotations]
  refine .addition ⟨ready.entered, fun _ _ => extensible, ?_, ?_, ?_⟩
  · intro element given carried
    rw [Store.carried, List.mem_singleton, ← place] at carried
    obtain ⟨rfl, rfl⟩ := Prod.mk.inj carried
    rw [annotations]
    exact standsOn_of_mem_attached fun use used => (taken use used).type
  · simp
  · intro other member
    simp only [Amendment.references, Field.references, List.mem_cons,
      List.mem_append, List.mem_flatMap, type] at member
    rcases member with rfl | ⟨argument, among, inside⟩ | ⟨use, used, inside⟩
    · exact admitted
    · exact arguments argument among other inside
    · refine references_attach_of_taken taken (.field id) other ?_
      rw [← annotations]
      exact List.mem_flatMap.mpr ⟨use, used, inside⟩

/-- The arguments of a type that is within are within. -/
theorem within_arguments
    {admits : Reference → Prop}
    {resolved : Option Generic}
    (within : ∀ generic ∈ resolved, generic.Within admits) :
    ∀ argument ∈ (resolved.map (·.arguments)).getD [],
      argument.Within admits := by
  cases resolved with
  | none =>
      simp
  | some generic =>
      exact (Generic.within_iff.mp (within generic rfl)).2

/-- Entering a field populates the store from the field's origins. -/
theorem enterField_populates
    (ready : store.Ready origins owner)
    (extensible : owner.category.isExtensible = true)
    (settings : Settings)
    {decl : FieldDecl}
    (listed : ∀ origin ∈ decl.origins, origin ∈ origins) :
    PopulatesAt origins store (enterField settings owner.name decl) := by
  have annotations :
      ∀ annotationDecl ∈ decl.annotations, ∀ origin ∈ annotationDecl.origins,
        origin ∈ origins := by
    intro annotationDecl member origin inside
    refine listed origin ?_
    simp only [FieldDecl.origins, List.mem_append, List.mem_flatMap]
    exact Or.inl (Or.inl ⟨annotationDecl, member, inside⟩)
  have signed :
      ∀ origin ∈ Signature.origins Signature.traceField decl.signature,
        origin ∈ origins :=
    fun origin member => listed origin (List.mem_append_right _ member)
  unfold enterField
  cases parsed : Descriptor.parse decl.descriptor with
  | error fault =>
      exact populatesAt_pure _
  | ok type =>
      have element : .element type ∈ origins := by
        refine listed _ ?_
        simp [FieldDecl.origins, parsed]
      refine (takeUses_reads annotations).andThen fun early uses taken => ?_
      dsimp only
      split
      · exact populatesAt_pure _
      · refine (referToElement_reads element).andThen
          fun late reference admitted => ?_
        have before := (ready.mentions early).mentions late
        have usesTaken :
            ∀ last, ∀ use ∈ uses,
              use.Taken
                ((((store.replay (mentions early)).replay
                  (mentions late)).replay (mentions last)).Admits origins) :=
          fun last use used => (taken use used).mono
            fun _ admits => (admits.replay _).replay _
        apply populatesAt_get
        cases signature : decl.signature with
        | none =>
            have nothing :
                ReadsAt ((store.replay (mentions early)).replay
                  (mentions late)) (pure none) fun after resolved =>
                    ∀ generic ∈ resolved,
                      Generic.Within (after.Admits origins) generic :=
              readsAt_pure (by simp)
            refine nothing.andThen fun last resolved within =>
              populatesAt_get ?_
            refine keepField_populates (before.mentions last) extensible
              (usesTaken last) (admitted.replay _) ?_ ?_ ?_ ?_ _
            · rfl
            · rfl
            · rfl
            · exact within_arguments within
        | some text =>
            rw [signature] at signed
            refine (resolveField_reads before.formals signed).andThen
              fun last resolved within => populatesAt_get ?_
            refine keepField_populates (before.mentions last) extensible
              (usesTaken last) (admitted.replay _) ?_ ?_ ?_ ?_ _
            · rfl
            · rfl
            · rfl
            · exact within_arguments within

/-! ## Methods -/

/-- Items that are numbered twice have the same number twice. -/
theorem zipIdx_zipIdx
    (items : List α)
    (start : Nat) :
    (items.zipIdx start).zipIdx start =
      (items.zipIdx start).map fun item => (item, item.2) := by
  induction items generalizing start with
  | nil =>
      rfl
  | cons item items inductionHypothesis =>
      simp [List.zipIdx_cons, inductionHypothesis]

/-- A method is added with its marks and those of its parameters. -/
theorem furnish_method
    (store : Store)
    (owner : TypeName)
    {uses : List AnnotationUse}
    {drafts : List ParameterDraft}
    {method : Method}
    {id : MethodId}
    (place : id = store.nextMethod owner)
    (annotations :
      method.annotations = uses.map (AnnotationUse.attach (.method id)))
    (parameters :
      method.parameters.map (·.annotations) =
        drafts.zipIdx.map fun (draft, index) =>
          draft.uses.map (AnnotationUse.attach (.parameter id index))) :
    ((recordParameters id drafts).run
        (store.recordUses uses (.method id))).2.updateNode owner
          (·.addMethod method) =
      store.furnish owner (.method method) := by
  have marks :
      store.marksOf owner (.method method) =
        useMarks uses (.method id) ++ parameterMarks id drafts.zipIdx := by
    simp only [Store.marksOf, Store.carried, ← place, annotations,
      parameters, List.zipIdx_map, zipIdx_zipIdx, List.map_map,
      List.flatMap_cons, List.flatMap_map, useMarks_attach, List.append_nil,
      parameterMarks, Function.comp_def, Prod.map, id_eq]
  rw [Store.furnish, marks, Store.replay_append, Store.replay_append,
    recordParameters_eq_replay, Store.recordUses_eq_replay]
  rfl

/-- A method is added with its marks, and all it refers to is accounted for. -/
theorem keepMethod_populates
    (ready : store.Ready origins owner)
    {uses : List AnnotationUse}
    (taken : ∀ use ∈ uses, use.Taken (store.Admits origins))
    {drafts : List ParameterDraft}
    (drafted :
      ∀ draft ∈ drafts, ∀ use ∈ draft.uses, use.type.OfUse)
    {method : Method}
    {id : MethodId}
    (place : id = store.nextMethod owner.name)
    (annotations :
      method.annotations = uses.map (AnnotationUse.attach (.method id)))
    (parameters : parametersFit origins id 0 drafts store method.parameters)
    (result :
      ∀ generic ∈ method.result, generic.Within (store.Admits origins))
    (thrown :
      ∀ generic ∈ method.thrown, generic.Within (store.Admits origins))
    (answer : α) :
    PopulatesAt origins store (do
      modify (·.recordUses uses (.method id))
      recordParameters id drafts
      modify (·.updateNode owner.name (·.addMethod method))
      return answer) := by
  change store.Populates origins
    (((recordParameters id drafts).run
      (store.recordUses uses (.method id))).2.updateNode owner.name
        (·.addMethod method))
  rw [furnish_method store owner.name place annotations parameters.2]
  refine .addition ⟨ready.entered, by simp, ?_, by simp, ?_⟩
  · intro element given carried
    simp only [Store.carried, List.mem_cons, ← place, List.mem_map] at carried
    rcases carried with own | ⟨⟨slot, index⟩, indexed, same⟩
    · obtain ⟨rfl, rfl⟩ := Prod.mk.inj own
      rw [annotations]
      exact standsOn_of_mem_attached fun use used => (taken use used).type
    · obtain ⟨rfl, rfl⟩ := Prod.mk.inj same
      rw [parameters.2, List.zipIdx_map, zipIdx_zipIdx] at indexed
      simp only [List.map_map, List.mem_map, Function.comp_def, Prod.map,
        Prod.mk.injEq, Prod.exists] at indexed
      obtain ⟨draft, _, member, rfl, rfl⟩ := indexed
      refine standsOn_of_mem_attached (drafted draft ?_)
      exact (List.mem_zipIdx' member).2 ▸ List.getElem_mem _
  · intro reference member
    simp only [Amendment.references, Method.references, List.mem_append,
      List.mem_flatMap, Option.mem_toList] at member
    rcases member with
      ((⟨parameter, among, inside⟩ | ⟨generic, known, inside⟩) |
        ⟨generic, known, inside⟩) | ⟨use, used, inside⟩
    · exact parameters.1 parameter among reference inside
    · exact result generic known reference inside
    · exact thrown generic known reference inside
    · refine references_attach_of_taken taken (.method id) reference ?_
      rw [← annotations]
      exact List.mem_flatMap.mpr ⟨use, used, inside⟩

/-- What is known of parameters before they are entered fits their method. -/
theorem parameterDrafts_reads
    (method : MethodId)
    (decl : MethodDecl)
    {types : List Descriptor}
    {generics : List (Option Generic)}
    {table : List (List AnnotationUse)}
    (listed : ∀ type ∈ types, .element type ∈ origins)
    (within :
      ∀ slot ∈ generics, ∀ generic ∈ slot,
        generic.Within (store.Admits origins))
    (taken :
      ∀ slot ∈ table, ∀ use ∈ slot, use.Taken (store.Admits origins)) :
    ReadsAt store
      (enterParameters method 0 (parameterDrafts decl types generics table))
      (parametersFit origins method 0
        (parameterDrafts decl types generics table)) := by
  refine enterParameters_reads method 0 (fun draft member => ?_)
    (fun draft member generic given => ?_)
    (fun draft member use used => ?_)
  · obtain ⟨⟨type, index⟩, indexed, rfl⟩ := List.mem_map.mp member
    exact listed type ((List.mem_zipIdx' indexed).2 ▸ List.getElem_mem _)
  · obtain ⟨⟨type, index⟩, indexed, rfl⟩ := List.mem_map.mp member
    have slot : generics[index]? = some (some generic) :=
      Option.join_eq_some_iff.mp given
    exact within _ (List.mem_of_getElem? slot) generic rfl
  · obtain ⟨slot, present, inSlot⟩ := slot_of_draft member used
    exact taken slot present use inSlot

end Filing

/-- What a method names, by the step that resolves it. -/
structure MethodDecl.Listed
    (origins : List Origin)
    (decl : MethodDecl)
    (type : MethodDescriptor) :
    Prop where
  annotations :
    ∀ annotationDecl ∈ decl.annotations, ∀ origin ∈ annotationDecl.origins,
      origin ∈ origins
  table :
    ∀ slot ∈ alignTable decl.parameterAnnotations type.parameters.length,
      ∀ annotationDecl ∈ slot, ∀ origin ∈ annotationDecl.origins, origin ∈ origins
  types :
    ∀ element ∈ type.parameters ++ type.result.toList,
      .element element ∈ origins
  signature :
    ∀ origin ∈ Signature.origins Signature.traceMethod decl.signature,
      origin ∈ origins

/-- A method's origins list all that its types name. -/
theorem MethodDecl.listed
    {origins : List Origin}
    {decl : MethodDecl}
    {type : MethodDescriptor}
    (parsed : MethodDescriptor.parse decl.descriptor = .ok type)
    (named : ∀ origin ∈ decl.origins, origin ∈ origins) :
    decl.Listed origins type := by
  refine ⟨fun annotationDecl member origin inside => named origin ?_,
    fun slot aligned annotationDecl member origin inside => named origin ?_,
    fun element member => named _ ?_,
    fun origin member => named origin ?_⟩
  · simp only [MethodDecl.origins, List.mem_append, List.mem_flatMap]
    exact Or.inl (Or.inl (Or.inl (Or.inr ⟨annotationDecl, member, inside⟩)))
  · have present := Filing.mem_of_mem_alignTable aligned member
    simp only [MethodDecl.origins, List.mem_append, List.mem_flatMap]
    exact Or.inl (Or.inl (Or.inr ⟨annotationDecl,
      List.mem_flatten.mpr ⟨slot, present, member⟩, inside⟩))
  · simp only [MethodDecl.origins, parsed, List.mem_append, List.mem_map]
    exact Or.inl (Or.inr ⟨element, List.mem_append.mp member, rfl⟩)
  · simp [MethodDecl.origins, member]

namespace Filing

variable {origins : List Origin} {owner : ClassDecl} {store : Store}

/-- Entering a method populates the store from the method's origins. -/
theorem enterMethod_populates
    (ready : store.Ready origins owner)
    (settings : Settings)
    {decl : MethodDecl}
    (named : ∀ origin ∈ decl.origins, origin ∈ origins) :
    PopulatesAt origins store (enterMethod settings owner.name decl) := by
  unfold enterMethod
  cases parsed : MethodDescriptor.parse decl.descriptor with
  | error fault =>
      exact populatesAt_pure _
  | ok type =>
      have listed := MethodDecl.listed parsed named
      refine (takeUses_reads listed.annotations).andThen
        fun first uses taken => ?_
      refine (takeTable_reads listed.table).andThen
        fun second table tableTaken => ?_
      dsimp only
      split
      · exact populatesAt_pure _
      · have before := (ready.mentions first).mentions second
        refine populatesAt_get ((methodGenerics_reads before.formals _
          listed.signature).andThen fun third generics within => ?_)
        refine (methodResult_reads within.result fun element given =>
          listed.types element (List.mem_append_right _
            (Option.mem_toList.mpr given))).andThen
          fun fourth result resultWithin => populatesAt_get ?_
        refine (parameterDrafts_reads _ decl
          (fun element member =>
            listed.types element (List.mem_append_left _ member))
          (fun slot member generic given reference inside =>
            (within.parameters slot member generic given reference
              inside).replay _)
          (fun slot member use used => (tableTaken slot member use used).mono
            fun _ admits => (admits.replay _).replay _)).andThen
          fun fifth parameters fit => ?_
        refine keepMethod_populates
          (((before.mentions third).mentions fourth).mentions fifth)
          (fun use used => (taken use used).mono fun _ admits =>
            (((admits.replay _).replay _).replay _).replay _)
          (fun draft member use used => ?_) ?_ rfl fit ?_ ?_ _
        · obtain ⟨slot, present, inSlot⟩ := slot_of_draft member used
          exact (tableTaken slot present use inSlot).type
        · -- The parameters are entered meanwhile, which leaves the place free.
          simp [Store.nextMethod]
        · exact fun generic given reference inside =>
            (resultWithin generic given reference inside).replay _
        · exact fun generic given reference inside =>
            ((within.thrown generic given reference inside).replay _).replay _

/-! ## Defaults -/

/-- Entering a default populates the store from the method's origins. -/
theorem enterDefault_populates
    (ready : store.Ready origins owner)
    {decl : MethodDecl}
    (listed : ∀ origin ∈ decl.origins, origin ∈ origins) :
    PopulatesAt origins store (enterDefault owner.name decl) := by
  unfold enterDefault
  cases given : decl.default with
  | none =>
      exact populatesAt_pure _
  | some value =>
      have inside : ∀ origin ∈ value.origins, origin ∈ origins := by
        intro origin member
        refine listed origin ?_
        simp [MethodDecl.origins, given, member]
      refine (takeValue_reads (by simp) value inside).andThen
        fun hints taken fits => ?_
      have suits :
          (store.replay (mentions hints)).Suits origins owner
            (.default decl.name taken) := by
        refine ⟨(ready.mentions hints).entered, by simp,
          by simp [Store.carried], ?_, fits.references⟩
        rintro _ _ ⟨⟩
        exact fits.unattached
      exact .addition suits

end Filing

end TypeAtlas
