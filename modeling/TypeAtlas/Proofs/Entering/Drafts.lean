import TypeAtlas.Proofs.Entering.MemberScripts
import TypeAtlas.Proofs.Store.Sketch

namespace TypeAtlas

/-!
# What members are made of

A field or a method that is entered is made of its declaration, the type
parameters of its type and, as far as it is kept at all, the settings. The rest
of the store decides on its place only, and its place shows in one thing: the
element that its annotations are attached to. Members are therefore compared
with all their annotations attached to one and the same element.
-/

/-! ## Attaching -/

mutual

/-- What is attached anew is attached to the new element only. -/
theorem Value.attach_attach
    (first second : Element) :
    (value : Value) →
      Value.attach second (Value.attach first value) =
        Value.attach second value
  | .scalar _ | .classLiteral _ | .enumConstant _ _ => rfl
  | .annotated use => by
      simp only [Value.attach, AnnotationUse.attach_attach first second use]
  | .sequence items => by
      simp only [Value.attach, Value.attachAll_attachAll first second items]

/-- So it is for the items of an array. -/
theorem Value.attachAll_attachAll
    (first second : Element) :
    (values : List Value) →
      Value.attachAll second (Value.attachAll first values) =
        Value.attachAll second values
  | [] => rfl
  | value :: values => by
      simp only [Value.attachAll, Value.attach_attach first second value,
        Value.attachAll_attachAll first second values]

/-- An annotation is attached to the last element it is given. -/
theorem AnnotationUse.attach_attach
    (first second : Element) :
    (use : AnnotationUse) →
      AnnotationUse.attach second (AnnotationUse.attach first use) =
        AnnotationUse.attach second use
  | ⟨_, _, values⟩ => by
      simp only [AnnotationUse.attach,
        AnnotationUse.attachPairs_attachPairs first second values]

/-- So are the annotations among its values. -/
theorem AnnotationUse.attachPairs_attachPairs
    (first second : Element) :
    (pairs : List (String × Value)) →
      AnnotationUse.attachPairs second
          (AnnotationUse.attachPairs first pairs) =
        AnnotationUse.attachPairs second pairs
  | [] => rfl
  | (key, value) :: rest => by
      simp only [AnnotationUse.attachPairs,
        Value.attach_attach first second value,
        AnnotationUse.attachPairs_attachPairs first second rest]

end

/-- Annotations, attached to an element. -/
def attachedTo
    (element : Element)
    (uses : List AnnotationUse) :
    List AnnotationUse :=
  uses.map (AnnotationUse.attach element)

/-- Where annotations were attached before does not matter. -/
theorem attachedTo_map_attach
    (first second : Element)
    (uses : List AnnotationUse) :
    attachedTo second (uses.map (AnnotationUse.attach first)) =
      attachedTo second uses := by
  simp [attachedTo, Function.comp_def, AnnotationUse.attach_attach]

/-- A field with its annotations attached to an element. -/
def Field.onto
    (element : Element)
    (field : Field) :
    Field :=
  { field with annotations := attachedTo element field.annotations }

/-- A parameter with its annotations attached to an element. -/
def Parameter.onto
    (element : Element)
    (parameter : Parameter) :
    Parameter :=
  { parameter with annotations := attachedTo element parameter.annotations }

/-- A method with all annotations, those of parameters too, on an element. -/
def Method.onto
    (element : Element)
    (method : Method) :
    Method :=
  { method with
    parameters := method.parameters.map (·.onto element)
    annotations := attachedTo element method.annotations }

/-! ## Drafts -/

/-- What a step answers that only mentions names. -/
def Filing.answerOf (step : Filing α) : α :=
  (step.run {}).1

/-- A step that is noted answers as it is noted to. -/
theorem Filing.Notes.answerOf_eq
    {step : Filing α}
    {answer : α}
    {hints : List Hint}
    (noted : Notes step answer hints) :
    answerOf step = answer := by
  rw [answerOf, noted]

/-- A member, if it is kept. -/
def Settings.keeping
    (settings : Settings)
    (isAnnotated : Bool)
    (member : α) :
    List α :=
  if !isAnnotated && !settings.keepUnannotated then [] else [member]

/-- Settings that keep more keep at least as many members. -/
theorem Settings.keeping_sublist
    {first second : Settings}
    (more :
      first.keepUnannotated = true → second.keepUnannotated = true)
    (isAnnotated : Bool)
    (member : α) :
    (first.keeping isAnnotated member).Sublist
      (second.keeping isAnnotated member) := by
  unfold keeping
  cases isAnnotated with
  | true =>
      exact List.Sublist.refl _
  | false =>
      cases kept : first.keepUnannotated with
      | false =>
          exact List.nil_sublist _
      | true =>
          rw [more kept]

/-- The field that is entered, if it is kept; its annotations are loose. -/
def FieldDecl.drafts
    (decl : FieldDecl)
    (formals : Formals)
    (settings : Settings) :
    List Field :=
  match Descriptor.parse decl.descriptor with
  | .error _ => []
  | .ok type =>
      let uses := Filing.answerOf (Filing.takeUses decl.annotations)
      let resolved := decl.signature.bind fun signature =>
        Filing.answerOf (Filing.resolveField formals signature)
      let field : Field :=
        { name := decl.name
          type := Filing.answerOf (Filing.referToElement type)
          formal := resolved.bind (·.formal)
          isStatic := decl.isStatic
          isTransient := decl.isTransient
          isArray := type.isArray
          arguments := (resolved.map (·.arguments)).getD []
          annotations := uses }
      settings.keeping (!uses.isEmpty) field

/-- The method that is entered, if it is kept; its place is made up. -/
def MethodDecl.drafts
    (decl : MethodDecl)
    (formals : Formals)
    (settings : Settings) :
    List Method :=
  match MethodDescriptor.parse decl.descriptor with
  | .error _ => []
  | .ok type =>
      let uses := Filing.answerOf (Filing.takeUses decl.annotations)
      let table := Filing.answerOf (Filing.takeTable
        (alignTable decl.parameterAnnotations type.parameters.length))
      let generics := Filing.answerOf
        (Filing.methodGenerics formals type.parameters.length decl.signature)
      let place : MethodId := ⟨"", 0⟩
      let method : Method :=
        { name := decl.name
          descriptor := decl.descriptor
          signature := decl.signature
          isStatic := decl.isStatic
          parameters := Filing.answerOf (Filing.enterParameters place 0
            (Filing.parameterDrafts decl type.parameters generics.parameters
              table))
          resultName := type.result.map (·.sourceName)
          result := Filing.answerOf
            (Filing.methodResult generics.result type.result)
          thrown := generics.thrown
          annotations := uses }
      settings.keeping (!uses.isEmpty || table.any (!·.isEmpty)) method

/-- Settings that keep more keep the same fields and more. -/
theorem FieldDecl.drafts_sublist
    (decl : FieldDecl)
    (formals : Formals)
    {first second : Settings}
    (more :
      first.keepUnannotated = true → second.keepUnannotated = true) :
    (decl.drafts formals first).Sublist (decl.drafts formals second) := by
  unfold drafts
  split
  · exact .slnil
  · exact Settings.keeping_sublist more _ _

/-- Settings that keep more keep the same methods and more. -/
theorem MethodDecl.drafts_sublist
    (decl : MethodDecl)
    (formals : Formals)
    {first second : Settings}
    (more :
      first.keepUnannotated = true → second.keepUnannotated = true) :
    (decl.drafts formals first).Sublist (decl.drafts formals second) := by
  unfold drafts
  split
  · exact .slnil
  · exact Settings.keeping_sublist more _ _

/-! ## Receiving members -/

/-- A store after members were added to a type, with all that goes with them. -/
def Store.Receives
    (owner : TypeName)
    (additions : List Amendment)
    (before after : Store) :
    Prop :=
  ∃ script : List Change,
    (∀ change ∈ script, change.Hidden) ∧
      after = before.replay (script ++ additions.map (.amend owner))

namespace Store

/-- Changes that go with a member leave all sketches as they are. -/
theorem agrees_replay_hidden
    {script : List Change}
    (hidden : ∀ change ∈ script, change.Hidden)
    (store : Store) :
    (store.replay script).Agrees store := by
  induction script generalizing store with
  | nil =>
      exact .refl store
  | cons change script inductionHypothesis =>
      have rest := inductionHypothesis
        (fun other member => hidden other (List.mem_cons_of_mem _ member))
        (change.apply store)
      exact rest.trans (agrees_hidden (hidden change (by simp)) store)

/-- Changes that go with a member leave all nodes as they are. -/
theorem node?_replay_hidden
    {script : List Change}
    (hidden : ∀ change ∈ script, change.Hidden)
    (store : Store)
    (name : TypeName) :
    (store.replay script).node? name = store.node? name := by
  induction script generalizing store with
  | nil =>
      rfl
  | cons change script inductionHypothesis =>
      rw [replay_cons, inductionHypothesis fun other member =>
        hidden other (List.mem_cons_of_mem _ member)]
      have first := hidden change (by simp)
      cases change with
      | mention target hint =>
          exact store.node?_mention target name hint
      | mark target added =>
          exact store.node?_update target name
            (fun entry => entry.name_addMark added)
            fun entry => entry.node_addMark added
      | file _ _ | found _ _ | claim _ _ | link _ _ | amend _ _ | take =>
          exact first.elim

namespace Receives

variable {owner : TypeName} {additions : List Amendment} {before after : Store}

/-- Members do not show in sketches. -/
theorem agrees
    (receives : Receives owner additions before after)
    (unseen :
      ∀ amendment ∈ additions, ∀ node,
        (amendment.apply node).outline = node.outline) :
    after.Agrees before := by
  obtain ⟨script, hidden, rfl⟩ := receives
  rw [replay_append]
  refine Agrees.trans ?_ (agrees_replay_hidden hidden before)
  generalize before.replay script = middle
  induction additions generalizing middle with
  | nil =>
      exact .refl _
  | cons amendment additions inductionHypothesis =>
      have rest := inductionHypothesis
        (fun other member => unseen other (List.mem_cons_of_mem _ member))
        ((Change.amend owner amendment).apply middle)
      exact rest.trans (agrees_amend (unseen amendment (by simp)) middle owner)

/-- Names that have entries keep them when members are added. -/
theorem mem_names
    (receives : Receives owner additions before after)
    {name : TypeName}
    (known : name ∈ before.names) :
    name ∈ after.names := by
  obtain ⟨script, -, rfl⟩ := receives
  exact mem_names_replay.mpr (Or.inl known)

/-- Members are added to the node of their type, and to no other. -/
theorem node?_eq
    (receives : Receives owner additions before after)
    (name : TypeName) :
    after.node? name =
      if name = owner then
        (before.node? name).map fun node =>
          additions.foldl (fun node amendment => amendment.apply node) node
      else
        before.node? name := by
  obtain ⟨script, hidden, rfl⟩ := receives
  rw [replay_append, ← node?_replay_hidden hidden before name]
  generalize before.replay script = middle
  induction additions generalizing middle with
  | nil =>
      simp
  | cons amendment additions inductionHypothesis =>
      rw [List.map_cons, replay_cons, inductionHypothesis]
      simp only [Change.apply, node?_updateNode]
      split <;> simp [Function.comp_def]

end Receives

end Store

/-! ## Fields -/

/-- Mentioning names brings no formals into scope. -/
theorem Store.formalsOf_replay_mentions
    (store : Store)
    (hints : List Hint)
    (owner : TypeName) :
    (store.replay (mentions hints)).formalsOf owner =
      store.formalsOf owner := by
  rw [formalsOf, formalsOf, node?_replay_mentions]

/-- A name that is mentioned shows in no sketch. -/
theorem hidden_mentions
    (hints : List Hint) :
    ∀ change ∈ mentions hints, change.Hidden := by
  intro change member
  obtain ⟨name, hint, rfl⟩ := eq_mention_of_mem_mentions member
  trivial

/-- The marks of a member's annotations show in no sketch. -/
theorem hidden_useMarks
    {element : Element}
    (isMember : element.typeName? = none)
    (uses : List AnnotationUse) :
    ∀ change ∈ useMarks uses element, change.Hidden := by
  intro change member
  obtain ⟨use, -, rfl⟩ := List.mem_map.mp member
  exact isMember

/--
A store after its type obtained members, made of drafts: they are in their
places now, which shows in nothing but what their annotations are attached to.
-/
def Store.Obtains
    (onto : Element → α → α)
    (addition : α → Amendment)
    (owner : TypeName)
    (drafts : List α)
    (before after : Store) :
    Prop :=
  ∃ added : List α,
    (∀ element, added.map (onto element) = drafts.map (onto element)) ∧
      Receives owner (added.map addition) before after

namespace Store.Obtains

variable
  {onto : Element → α → α} {addition : α → Amendment} {owner : TypeName}

theorem nil
    (store : Store) :
    Obtains onto addition owner [] store store :=
  ⟨[], fun _ => rfl, [], by simp, rfl⟩

/-- One member is obtained where one draft was. -/
theorem single
    {draft member : α}
    {before after : Store}
    (same : ∀ element, onto element member = onto element draft)
    (receives : Receives owner [addition member] before after) :
    Obtains onto addition owner [draft] before after :=
  ⟨[member], fun element => by simp [same element], receives⟩

/-- Names may be mentioned before. -/
theorem bindNotes
    {step : Filing β}
    {answer : β}
    {hints : List Hint}
    {next : β → Filing γ}
    {drafts : List α}
    {store : Store}
    (noted : Filing.Notes step answer hints)
    (later :
      Obtains onto addition owner drafts (store.replay (mentions hints))
        ((next answer).run (store.replay (mentions hints))).2) :
    Obtains onto addition owner drafts store
      ((step >>= next).run store).2 := by
  obtain ⟨added, same, script, hidden, replayed⟩ := later
  refine ⟨added, same, mentions hints ++ script, fun change member => ?_, ?_⟩
  · rcases List.mem_append.mp member with early | late
    · exact hidden_mentions hints change early
    · exact hidden change late
  · rw [StateT.run_bind, noted store, List.append_assoc, replay_append]
    exact replayed

/-- The store may be looked at before. -/
theorem bindGet
    {next : Store → Filing γ}
    {drafts : List α}
    {store : Store}
    (later :
      Obtains onto addition owner drafts store ((next store).run store).2) :
    Obtains onto addition owner drafts store ((get >>= next).run store).2 :=
  later

end Store.Obtains

namespace Filing

/-- The last steps of a field hand it to its type. -/
theorem keepField_receives
    (owner : TypeName)
    (uses : List AnnotationUse)
    (reference : Reference)
    (id : FieldId)
    (field : Field)
    (answer : α)
    (store : Store) :
    Store.Receives owner [.field field] store
      ((do
        modify (·.recordUses uses (.field id))
        modify (·.updateReferent reference (·.addFieldUse id))
        modify (·.updateNode owner (·.addField field))
        return answer : Filing α).run store).2 := by
  refine ⟨useMarks uses (.field id) ++ fieldUseMarks reference id, ?_, ?_⟩
  · intro change member
    rcases List.mem_append.mp member with used | typed
    · exact hidden_useMarks rfl uses change used
    · unfold fieldUseMarks at typed
      split at typed
      · rw [List.mem_singleton.mp typed]
        trivial
      · simp at typed
  · rw [List.append_assoc, Store.replay_append,
      ← Store.recordUses_eq_replay, Store.replay_append,
      ← addFieldUse_eq_replay]
    rfl

/-- A type obtains the draft of a field that is entered. -/
theorem enterField_obtains
    (settings : Settings)
    (owner : TypeName)
    (decl : FieldDecl)
    (store : Store) :
    Store.Obtains Field.onto .field owner
      (decl.drafts (store.formalsOf owner) settings) store
      ((enterField settings owner decl).run store).2 := by
  unfold enterField FieldDecl.drafts
  cases Descriptor.parse decl.descriptor with
  | error fault =>
      exact .nil store
  | ok type =>
      obtain ⟨uses, useHints, usesNoted, -⟩ := takeUses_notes decl.annotations
      obtain ⟨reference, typeHints, typeNoted, -⟩ := referToElement_notes type
      simp only [usesNoted.answerOf_eq, typeNoted.answerOf_eq,
        Settings.keeping, Bool.not_not]
      by_cases dropped : (uses.isEmpty && !settings.keepUnannotated) = true
      · simp only [dropped, ↓reduceIte]
        refine .bindNotes usesNoted ?_
        simp only [dropped, ↓reduceIte]
        exact .nil _
      · simp only [dropped, if_neg Bool.false_ne_true]
        refine .bindNotes usesNoted ?_
        simp only [dropped, if_neg Bool.false_ne_true]
        refine .bindNotes typeNoted (.bindGet ?_)
        simp only [Store.formalsOf_replay_mentions]
        cases decl.signature with
        | none =>
            refine .bindNotes (notes_pure none) (.bindGet ?_)
            refine .single (fun element => ?_) (keepField_receives ..)
            simp [Field.onto, attachedTo_map_attach]
        | some signature =>
            obtain ⟨resolved, hints, noted⟩ :=
              resolveField_mentioning (store.formalsOf owner) signature
            simp only [Option.bind_some, noted.answerOf_eq]
            refine .bindNotes noted (.bindGet ?_)
            refine .single (fun element => ?_) (keepField_receives ..)
            simp [Field.onto, attachedTo_map_attach]

/-! ## Methods -/

/-- The place of a method shows in nothing but the annotations. -/
theorem enterParameters_places
    (first second : MethodId)
    (index : Nat)
    (drafts : List ParameterDraft) :
    ∃ here there hints,
      Notes (enterParameters first index drafts) here hints ∧
        Notes (enterParameters second index drafts) there hints ∧
        ∀ element,
          here.map (Parameter.onto element) =
            there.map (Parameter.onto element) := by
  induction drafts generalizing index with
  | nil =>
      exact ⟨[], [], [], notes_pure _, notes_pure _, fun _ => rfl⟩
  | cons draft drafts inductionHypothesis =>
      obtain ⟨reference, _, typeNoted, -⟩ := referToElement_notes draft.type
      obtain ⟨here, there, _, noted, otherNoted, same⟩ :=
        inductionHypothesis (index + 1)
      -- The continuation is in both branches, where the generic type is known.
      unfold enterParameters
      dsimp only
      cases draft.generic with
      | some generic =>
          refine ⟨_, _, _,
            (notes_pure generic).bind
              (typeNoted.bind (noted.bind (notes_pure _))),
            (notes_pure generic).bind
              (typeNoted.bind (otherNoted.bind (notes_pure _))),
            fun element => ?_⟩
          simp [Parameter.onto, attachedTo_map_attach, same element]
      | none =>
          obtain ⟨generic, _, rawNoted⟩ := rawGeneric_mentioning draft.type
          refine ⟨_, _, _,
            rawNoted.bind (typeNoted.bind (noted.bind (notes_pure _))),
            rawNoted.bind (typeNoted.bind (otherNoted.bind (notes_pure _))),
            fun element => ?_⟩
          simp [Parameter.onto, attachedTo_map_attach, same element]

/-- A method that is kept is received with all its annotations. -/
theorem keepMethod_receives
    (owner : TypeName)
    (uses : List AnnotationUse)
    (drafts : List ParameterDraft)
    (id : MethodId)
    (method : Method)
    (answer : α)
    (store : Store) :
    Store.Receives owner [.method method] store
      ((do
        modify (·.recordUses uses (.method id))
        recordParameters id drafts
        modify (·.updateNode owner (·.addMethod method))
        return answer : Filing α).run store).2 := by
  refine ⟨useMarks uses (.method id) ++ parameterMarks id drafts.zipIdx,
    ?_, ?_⟩
  · intro change member
    rcases List.mem_append.mp member with used | ofParameter
    · exact hidden_useMarks rfl uses change used
    · obtain ⟨⟨draft, index⟩, -, marked⟩ := List.mem_flatMap.mp ofParameter
      exact hidden_useMarks rfl draft.uses change marked
  · rw [List.append_assoc, Store.replay_append,
      ← Store.recordUses_eq_replay, Store.replay_append]
    have marked :
        ((recordParameters id drafts).run
          (store.recordUses uses (.method id))).2 =
            (store.recordUses uses (.method id)).replay
              (parameterMarks id drafts.zipIdx) := by
      rw [recordParameters_eq_replay]
    rw [← marked]
    rfl

/-- A type obtains the draft of a method that is entered. -/
theorem enterMethod_obtains
    (settings : Settings)
    (owner : TypeName)
    (decl : MethodDecl)
    (store : Store) :
    Store.Obtains Method.onto .method owner
      (decl.drafts (store.formalsOf owner) settings) store
      ((enterMethod settings owner decl).run store).2 := by
  unfold enterMethod MethodDecl.drafts
  cases MethodDescriptor.parse decl.descriptor with
  | error fault =>
      exact .nil store
  | ok type =>
      obtain ⟨uses, useHints, usesNoted, -⟩ := takeUses_notes decl.annotations
      obtain ⟨table, tableHints, tableNoted, -⟩ :=
        takeTable_notes
          (alignTable decl.parameterAnnotations type.parameters.length)
      obtain ⟨generics, _, genericsNoted⟩ := methodGenerics_mentioning
        (store.formalsOf owner) type.parameters.length decl.signature
      obtain ⟨result, _, resultNoted⟩ :=
        methodResult_mentioning generics.result type.result
      simp only [usesNoted.answerOf_eq, tableNoted.answerOf_eq,
        genericsNoted.answerOf_eq, resultNoted.answerOf_eq, Settings.keeping]
      refine .bindNotes usesNoted (.bindNotes tableNoted ?_)
      by_cases dropped :
          (!(!uses.isEmpty || table.any (!·.isEmpty)) &&
            !settings.keepUnannotated) = true
      · simp only [dropped, ↓reduceIte]
        exact .nil _
      · simp only [dropped, if_neg Bool.false_ne_true]
        refine .bindGet ?_
        simp only [Store.formalsOf_replay_mentions]
        refine .bindNotes genericsNoted (.bindNotes resultNoted (.bindGet ?_))
        generalize Store.nextMethod _ owner = id
        obtain ⟨parameters, made, _, noted, madeNoted, same⟩ :=
          enterParameters_places id ⟨"", 0⟩ 0
            (parameterDrafts decl type.parameters generics.parameters table)
        rw [madeNoted.answerOf_eq]
        refine .bindNotes noted ?_
        refine .single (fun element => ?_) (keepMethod_receives ..)
        simp only [Method.onto, attachedTo_map_attach, same element]

end Filing

end TypeAtlas
