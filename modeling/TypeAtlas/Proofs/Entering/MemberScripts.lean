import TypeAtlas.Proofs.Entering.Mentioning
import TypeAtlas.Proofs.Graph.Node

namespace TypeAtlas

/-!
# Members as scripts

Entering an annotation, a field or a method of a type looks at one thing in the
store: the node of that type, and there not at the superclass. With this node
given, what the step answers and the script it makes of the store are the same
for every store. The script only mentions names, marks names it has mentioned,
and adds members to the node.
-/

/-- The changes that do nothing to nodes but add to that of a type. -/
def Change.OfMember
    (owner : TypeName) :
    Change → Prop
  | .mention _ _ => True
  | .mark _ _ => True
  | .amend name _ => name = owner
  | _ => False

/-- The changes that entering a member of a type makes. -/
def Change.AddsMember
    (owner : TypeName) :
    Change → Prop
  | .mention _ _ => True
  | .mark _ _ => True
  | .amend name amendment => name = owner ∧ amendment.AddsMember
  | _ => False

/-- The changes for a member of a type are about the type. -/
theorem Change.AddsMember.ofMember
    {owner : TypeName}
    {change : Change}
    (adds : change.AddsMember owner) :
    change.OfMember owner := by
  cases change with
  | mention _ _ | mark _ _ =>
      trivial
  | amend _ _ =>
      exact adds.1
  | file _ _ | found _ _ | claim _ _ | link _ _ | take =>
      exact adds.elim

/-- The node of a name after a script, from the one before. -/
def nodeAfter
    (name : TypeName)
    (script : List Change)
    (node : Option Node) :
    Option Node :=
  script.foldl (fun node change => change.nodeAt name node) node

/-- A node goes through scripts one after the other. -/
theorem nodeAfter_append
    (name : TypeName)
    (first second : List Change)
    (node : Option Node) :
    nodeAfter name (first ++ second) node =
      nodeAfter name second (nodeAfter name first node) := by
  simp [nodeAfter]

/-- A script of member changes acts on nodes whether or not names have entries. -/
theorem Store.node?_replay_members
    {owner : TypeName}
    {script : List Change}
    (members : ∀ change ∈ script, change.OfMember owner)
    (store : Store)
    (name : TypeName) :
    (store.replay script).node? name =
      nodeAfter name script (store.node? name) := by
  induction script generalizing store with
  | nil =>
      rfl
  | cons change script inductionHypothesis =>
      have rest : ∀ change ∈ script, change.OfMember owner :=
        fun change member => members change (List.mem_cons_of_mem _ member)
      have first : change.OfMember owner := members change (by simp)
      have acts :
          (change.apply store).node? name =
            change.nodeAt name (store.node? name) := by
        cases change with
        | mention target hint =>
            exact store.node?_mention target name hint
        | mark target added =>
            exact store.node?_update target name
              (fun entry => entry.name_addMark added)
              (fun entry => entry.node_addMark added)
        | amend target amendment =>
            exact store.node?_updateNode target name amendment.apply
        | file _ _ | found _ _ | claim _ _ | link _ _ | take =>
            exact first.elim
      rw [replay_cons, inductionHypothesis rest, acts]
      rfl

/-- Members are added in the same way whatever the superclass is. -/
theorem orphan_nodeAfter
    {owner : TypeName}
    {script : List Change}
    (adds : ∀ change ∈ script, change.AddsMember owner)
    (node : Option Node) :
    (nodeAfter owner script node).map Node.orphan =
      nodeAfter owner script (node.map Node.orphan) := by
  induction script generalizing node with
  | nil =>
      rfl
  | cons change script inductionHypothesis =>
      have first : change.AddsMember owner := adds change (by simp)
      have commutes :
          (change.nodeAt owner node).map Node.orphan =
            change.nodeAt owner (node.map Node.orphan) := by
        cases change with
        | mention _ _ | mark _ _ =>
            rfl
        | amend target amendment =>
            obtain ⟨rfl, members⟩ := first
            cases node <;> simp [Change.nodeAt, members.orphan_apply]
        | file _ _ | found _ _ | claim _ _ | link _ _ | take =>
            exact first.elim
      rw [nodeAfter, nodeAfter, List.foldl_cons, List.foldl_cons, ← commutes]
      exact inductionHypothesis
        (fun change member => adds change (List.mem_cons_of_mem _ member)) _

namespace Store

/-- The node of a name, without its superclass. -/
def orphan?
    (store : Store)
    (name : TypeName) :
    Option Node :=
  (store.node? name).map Node.orphan

/-- Changes for members do not look at the superclass of the node. -/
theorem orphan?_replay_members
    {owner : TypeName}
    {script : List Change}
    (adds : ∀ change ∈ script, change.AddsMember owner)
    (store : Store) :
    (store.replay script).orphan? owner =
      nodeAfter owner script (store.orphan? owner) := by
  rw [orphan?,
    node?_replay_members fun change member => (adds change member).ofMember,
    orphan_nodeAfter adds]
  rfl

end Store

namespace Filing

/--
With the node of a type given, its superclass apart, a step answers and writes
the same on every store. Its script takes no name to have an entry but the
type's own, those already known, and those it mentions itself.
-/
def WritesAt
    (owner : TypeName)
    (known : List TypeName)
    (node : Option Node)
    (step : Filing α) :
    Prop :=
  ∃ answer script,
    Grounded (owner :: known) script ∧
      (∀ change ∈ script, change.AddsMember owner) ∧
      ∀ store, store.orphan? owner = node →
        step.run store = (answer, store.replay script)

namespace WritesAt

theorem pure
    (owner : TypeName)
    (known : List TypeName)
    (node : Option Node)
    (answer : α) :
    WritesAt owner known node (Pure.pure answer) :=
  ⟨answer, [], trivial, by simp, fun _ _ => rfl⟩

/-- After a step that only mentions names, those names are known. -/
theorem bindNotes
    {owner : TypeName}
    {known : List TypeName}
    {node : Option Node}
    {step : Filing α}
    {next : α → Filing β}
    {first : α}
    {hints : List Hint}
    (noted : Notes step first hints)
    (later :
      WritesAt owner
        ((mentions hints).flatMap Change.introduces ++ known)
        node (next first)) :
    WritesAt owner known node (step >>= next) := by
  obtain ⟨answer, script, grounded, members, written⟩ := later
  refine ⟨answer, mentions hints ++ script, ?_, ?_, ?_⟩
  · refine (grounded_mentions _ hints).append (grounded.mono ?_)
    intro name member
    simp only [List.mem_cons, List.mem_append] at member ⊢
    tauto
  · intro change member
    rcases List.mem_append.mp member with early | late
    · obtain ⟨name, hint, rfl⟩ := eq_mention_of_mem_mentions early
      trivial
    · exact members change late
  · intro store here
    have after :
        (store.replay (mentions hints)).orphan? owner = node := by
      rw [Store.orphan?, Store.node?_replay_mentions, ← Store.orphan?, here]
    rw [StateT.run_bind, noted store, Store.replay_append]
    exact written _ after

/-- A step that mentions names writes them before the rest. -/
theorem bindMentioning
    {owner : TypeName}
    {known : List TypeName}
    {node : Option Node}
    {step : Filing α}
    {next : α → Filing β}
    (mentioning : Mentioning step)
    (later : ∀ answer, WritesAt owner known node (next answer)) :
    WritesAt owner known node (step >>= next) := by
  obtain ⟨first, hints, noted⟩ := mentioning
  obtain ⟨answer, script, grounded, rest⟩ := later first
  refine bindNotes noted ⟨answer, script, grounded.mono ?_, rest⟩
  intro name member
  simp only [List.mem_cons, List.mem_append] at member ⊢
  tauto

/-- Looking at the store is looking at the node. -/
theorem bindGet
    {owner : TypeName}
    {known : List TypeName}
    {node : Option Node}
    {next : Store → Filing β}
    {body : Filing β}
    (looks : ∀ store, store.orphan? owner = node → next store = body)
    (later : WritesAt owner known node body) :
    WritesAt owner known node (get >>= next) := by
  obtain ⟨answer, script, grounded, members, written⟩ := later
  refine ⟨answer, script, grounded, members, fun store here => ?_⟩
  have same := looks store here
  rw [← written store here, ← same]
  rfl

/-- A step that replays a script is followed by steps on the node it leaves. -/
theorem bindReplay
    {owner : TypeName}
    {known : List TypeName}
    {node : Option Node}
    {step : Filing PUnit}
    {next : PUnit → Filing β}
    {script : List Change}
    (replays :
      ∀ store, step.run store = (PUnit.unit, store.replay script))
    (grounded : Grounded (owner :: known) script)
    (members : ∀ change ∈ script, change.AddsMember owner)
    (later :
      WritesAt owner known (nodeAfter owner script node) (next PUnit.unit)) :
    WritesAt owner known node (step >>= next) := by
  obtain ⟨answer, rest, groundedRest, membersRest, written⟩ := later
  refine ⟨answer, script ++ rest, ?_, ?_, ?_⟩
  · refine grounded.append (groundedRest.mono ?_)
    exact fun name member => List.mem_append_right _ member
  · intro change member
    rcases List.mem_append.mp member with early | late
    · exact members change early
    · exact membersRest change late
  · intro store here
    have after :
        (store.replay script).orphan? owner = nodeAfter owner script node := by
      rw [Store.orphan?_replay_members members, here]
    rw [StateT.run_bind, replays store, Store.replay_append]
    exact written _ after

end WritesAt

end Filing

/-! ## Recording uses -/

/-- The marks that record an element on the entries of annotation types. -/
def useMarks
    (uses : List AnnotationUse)
    (element : Element) :
    List Change :=
  (uses.filter (·.type.tracked)).map fun use =>
    .mark use.type.name (.annotated element)

/-- Annotations are recorded by marks on their types. -/
theorem Store.recordUses_eq_replay
    (store : Store)
    (uses : List AnnotationUse)
    (element : Element) :
    store.recordUses uses element = store.replay (useMarks uses element) := by
  induction uses generalizing store with
  | nil =>
      rfl
  | cons use uses inductionHypothesis =>
      have first :
          store.recordUses (use :: uses) element =
            (store.updateReferent use.type
              (·.addAnnotated element)).recordUses uses element :=
        rfl
      rw [first, inductionHypothesis]
      by_cases tracked : use.type.tracked = true
      · simp only [Store.updateReferent, tracked, ↓reduceIte, useMarks,
          List.filter_cons_of_pos, List.map_cons, Store.replay_cons]
        rfl
      · simp [Store.updateReferent, tracked, useMarks]

/-- The marks of annotations add no member themselves. -/
theorem addsMember_useMarks
    {owner : TypeName}
    {uses : List AnnotationUse}
    {element : Element} :
    ∀ change ∈ useMarks uses element, change.AddsMember owner := by
  intro change member
  obtain ⟨use, -, rfl⟩ := List.mem_map.mp member
  trivial

/-- A script of marks is grounded when all marked names are known. -/
theorem grounded_of_marks
    {known : List TypeName}
    {script : List Change}
    (marks :
      ∀ change ∈ script,
        ∃ name added, change = .mark name added ∧ name ∈ known) :
    Grounded known script := by
  induction script with
  | nil =>
      trivial
  | cons change script inductionHypothesis =>
      obtain ⟨name, added, rfl, present⟩ := marks change (by simp)
      refine ⟨by simpa [Change.expects] using present, ?_⟩
      exact inductionHypothesis
        fun change member => marks change (List.mem_cons_of_mem _ member)

/-- The marks of annotations are on names that are known. -/
theorem marks_useMarks
    {known : List TypeName}
    {uses : List AnnotationUse}
    {element : Element}
    (named :
      ∀ use ∈ uses, use.type.tracked = true → use.type.name ∈ known) :
    ∀ change ∈ useMarks uses element,
      ∃ name added, change = .mark name added ∧ name ∈ known := by
  intro change member
  obtain ⟨use, selected, rfl⟩ := List.mem_map.mp member
  obtain ⟨present, tracked⟩ := List.mem_filter.mp selected
  exact ⟨_, _, rfl, named use present tracked⟩

/-- Names that a step refers to are known once it has mentioned them. -/
theorem Filing.Names.known
    {reference : Reference}
    {hints : List Hint}
    (names : Filing.Names reference hints)
    (tracked : reference.tracked = true) :
    reference.name ∈ (mentions hints).flatMap Change.introduces := by
  obtain ⟨notRoot, mentioned⟩ := names tracked
  exact mem_introduces_mentions mentioned notRoot

/-! ## Fields -/

/-- What a new field looks at is part of its type's node. -/
theorem Store.formalsOf_congr
    {store : Store}
    {owner : TypeName}
    {node : Option Node}
    (here : store.orphan? owner = node) :
    store.formalsOf owner = (node.map (·.lineage.formals)).getD [] := by
  rw [← here]
  cases known : store.node? owner <;>
    simp [orphan?, formalsOf, known]

/-- The next field has the place that the node tells. -/
theorem Store.nextField_congr
    {store : Store}
    {owner : TypeName}
    {node : Option Node}
    (here : store.orphan? owner = node)
    (isStatic : Bool) :
    store.nextField owner isStatic =
      { owner := owner
        isStatic := isStatic
        index := (node.map (·.fieldsOf isStatic |>.length)).getD 0 } := by
  rw [← here]
  cases known : store.node? owner <;>
    simp [orphan?, nextField, known]

/-- The next method has the place that the node tells. -/
theorem Store.nextMethod_congr
    {store : Store}
    {owner : TypeName}
    {node : Option Node}
    (here : store.orphan? owner = node) :
    store.nextMethod owner =
      { owner := owner
        index := (node.map (·.methods.length)).getD 0 } := by
  rw [← here]
  cases known : store.node? owner <;>
    simp [orphan?, nextMethod, known]

namespace Filing

/-- The script that records a reference from a field. -/
def fieldUseMarks
    (reference : Reference)
    (id : FieldId) :
    List Change :=
  if reference.tracked then [.mark reference.name (.fieldUse id)] else []

/-- A field is noted by a mark on its type. -/
theorem addFieldUse_eq_replay
    (reference : Reference)
    (id : FieldId)
    (store : Store) :
    store.updateReferent reference (·.addFieldUse id) =
      store.replay (fieldUseMarks reference id) := by
  by_cases tracked : reference.tracked = true
  · simp only [Store.updateReferent, fieldUseMarks, tracked, ↓reduceIte]
    rfl
  · simp [Store.updateReferent, fieldUseMarks, tracked]

/-- The last steps of a field: its marks, and the field itself. -/
theorem keepField_writes
    {owner : TypeName}
    {known : List TypeName}
    {node : Option Node}
    {uses : List AnnotationUse}
    {reference : Reference}
    (usesKnown :
      ∀ use ∈ uses, use.type.tracked = true → use.type.name ∈ known)
    (typeKnown : reference.tracked = true → reference.name ∈ known)
    (id : FieldId)
    (field : Field)
    (answer : α) :
    WritesAt owner known node (do
      modify (·.recordUses uses (.field id))
      modify (·.updateReferent reference (·.addFieldUse id))
      modify (·.updateNode owner (·.addField field))
      return answer) := by
  have usesOwner :
      ∀ use ∈ uses, use.type.tracked = true →
        use.type.name ∈ owner :: known :=
    fun use member tracked =>
      List.mem_cons_of_mem _ (usesKnown use member tracked)
  refine WritesAt.bindReplay
    (fun store => congrArg (Prod.mk PUnit.unit)
      (store.recordUses_eq_replay uses (.field id)))
    (grounded_of_marks (marks_useMarks usesOwner)) addsMember_useMarks ?_
  refine WritesAt.bindReplay
    (fun store => congrArg (Prod.mk PUnit.unit)
      (addFieldUse_eq_replay reference id store)) ?_ ?_ ?_
  · by_cases tracked : reference.tracked = true
    · simp [fieldUseMarks, tracked, Grounded, Change.expects,
        typeKnown tracked]
    · simp [fieldUseMarks, tracked, Grounded]
  · by_cases tracked : reference.tracked = true <;>
      simp [fieldUseMarks, tracked, Change.AddsMember]
  · refine WritesAt.bindReplay
      (fun _ => congrArg (Prod.mk PUnit.unit)
        (show _ = Store.replay _ [.amend owner (.field field)] from rfl))
      ?_ ?_ (WritesAt.pure _ _ _ answer)
    · simp [Grounded, Change.expects]
    · simp [Change.AddsMember, Amendment.AddsMember]

/-- Entering a field looks at nothing but the node of its type. -/
theorem enterField_writes
    (settings : Settings)
    (owner : TypeName)
    (decl : FieldDecl)
    (node : Option Node) :
    WritesAt owner [] node (enterField settings owner decl) := by
  unfold enterField
  cases Descriptor.parse decl.descriptor with
  | error fault =>
      exact WritesAt.pure _ _ _ _
  | ok type =>
      obtain ⟨uses, useHints, usesNoted, usesNamed⟩ :=
        takeUses_notes decl.annotations
      obtain ⟨reference, typeHints, typeNoted, typeNamed⟩ :=
        referToElement_notes type
      refine WritesAt.bindNotes usesNoted ?_
      dsimp only
      split
      · exact WritesAt.pure _ _ _ _
      · refine WritesAt.bindNotes typeNoted ?_
        have usesKnown :
            ∀ use ∈ uses, use.type.tracked = true →
              use.type.name ∈
                (mentions typeHints).flatMap Change.introduces ++
                  ((mentions useHints).flatMap Change.introduces ++ []) := by
          intro use member tracked
          have known := (usesNamed use member).known tracked
          simp [known]
        have typeKnown :
            reference.tracked = true →
              reference.name ∈
                (mentions typeHints).flatMap Change.introduces ++
                  ((mentions useHints).flatMap Change.introduces ++ []) :=
          fun tracked => List.mem_append_left _ (typeNamed.known tracked)
        refine WritesAt.bindGet
          (fun store here => by rw [Store.formalsOf_congr here]) ?_
        cases decl.signature with
        | some signature =>
            refine WritesAt.bindMentioning
              (resolveField_mentioning _ signature) fun resolved => ?_
            refine WritesAt.bindGet
              (fun store here => by rw [Store.nextField_congr here]) ?_
            exact keepField_writes usesKnown typeKnown _ _ _
        | none =>
            refine WritesAt.bindMentioning
              (mentioning_pure none) fun resolved => ?_
            refine WritesAt.bindGet
              (fun store here => by rw [Store.nextField_congr here]) ?_
            exact keepField_writes usesKnown typeKnown _ _ _

/-! ## Methods -/

/-- The marks that record the annotations of parameters. -/
def parameterMarks
    (method : MethodId)
    (drafts : List (ParameterDraft × Nat)) :
    List Change :=
  drafts.flatMap fun (draft, index) =>
    useMarks draft.uses (.parameter method index)

/-- Parameters are recorded by the marks of their annotations. -/
theorem recordParameters_eq_replay
    (method : MethodId)
    (drafts : List ParameterDraft)
    (store : Store) :
    (recordParameters method drafts).run store =
      (PUnit.unit, store.replay (parameterMarks method drafts.zipIdx)) := by
  unfold recordParameters
  induction drafts.zipIdx generalizing store with
  | nil =>
      rfl
  | cons indexed rest inductionHypothesis =>
      obtain ⟨draft, index⟩ := indexed
      have marked :
          store.recordUses draft.uses (.parameter method index) =
            store.replay (useMarks draft.uses (.parameter method index)) :=
        store.recordUses_eq_replay _ _
      have later := inductionHypothesis
        (store.recordUses draft.uses (.parameter method index))
      rw [parameterMarks, List.flatMap_cons, Store.replay_append, ← marked]
      exact later

/-- A parameter has the annotations of a slot of the table. -/
theorem slot_of_draft
    {decl : MethodDecl}
    {types : List Descriptor}
    {generics : List (Option Generic)}
    {table : List (List AnnotationUse)}
    {draft : ParameterDraft}
    {use : AnnotationUse}
    (member : draft ∈ parameterDrafts decl types generics table)
    (used : use ∈ draft.uses) :
    ∃ slot ∈ table, use ∈ slot := by
  obtain ⟨⟨type, index⟩, -, rfl⟩ := List.mem_map.mp member
  simp only at used
  cases slot : table[index]? with
  | none =>
      simp [slot] at used
  | some uses =>
      exact ⟨uses, List.mem_of_getElem? slot, by simpa [slot] using used⟩

/-- The marks of parameters are on names that are known. -/
theorem marks_parameterMarks
    {known : List TypeName}
    {method : MethodId}
    {drafts : List ParameterDraft}
    (named :
      ∀ draft ∈ drafts, ∀ use ∈ draft.uses,
        use.type.tracked = true → use.type.name ∈ known) :
    ∀ change ∈ parameterMarks method drafts.zipIdx,
      ∃ name added, change = .mark name added ∧ name ∈ known := by
  intro change member
  obtain ⟨⟨draft, index⟩, indexed, marked⟩ := List.mem_flatMap.mp member
  have present : draft ∈ drafts := (List.mem_zipIdx' indexed).2 ▸
    List.getElem_mem _
  exact marks_useMarks (named draft present) change marked

/-- The last steps of a method: its marks, and the method itself. -/
theorem keepMethod_writes
    {owner : TypeName}
    {known : List TypeName}
    {node : Option Node}
    {uses : List AnnotationUse}
    {drafts : List ParameterDraft}
    (usesKnown :
      ∀ use ∈ uses, use.type.tracked = true → use.type.name ∈ known)
    (draftsKnown :
      ∀ draft ∈ drafts, ∀ use ∈ draft.uses,
        use.type.tracked = true → use.type.name ∈ known)
    (id : MethodId)
    (method : Method)
    (answer : α) :
    WritesAt owner known node (do
      modify (·.recordUses uses (.method id))
      recordParameters id drafts
      modify (·.updateNode owner (·.addMethod method))
      return answer) := by
  have usesOwner :
      ∀ use ∈ uses, use.type.tracked = true →
        use.type.name ∈ owner :: known :=
    fun use member tracked =>
      List.mem_cons_of_mem _ (usesKnown use member tracked)
  have draftsOwner :
      ∀ draft ∈ drafts, ∀ use ∈ draft.uses,
        use.type.tracked = true → use.type.name ∈ owner :: known :=
    fun draft member use used tracked =>
      List.mem_cons_of_mem _ (draftsKnown draft member use used tracked)
  refine WritesAt.bindReplay
    (fun store => congrArg (Prod.mk PUnit.unit)
      (store.recordUses_eq_replay uses (.method id)))
    (grounded_of_marks (marks_useMarks usesOwner)) addsMember_useMarks ?_
  refine WritesAt.bindReplay (recordParameters_eq_replay id drafts)
    (grounded_of_marks (marks_parameterMarks draftsOwner)) ?_ ?_
  · intro change member
    obtain ⟨name, added, rfl, -⟩ :=
      marks_parameterMarks draftsOwner change member
    trivial
  · refine WritesAt.bindReplay
      (fun _ => congrArg (Prod.mk PUnit.unit)
        (show _ = Store.replay _ [.amend owner (.method method)] from rfl))
      ?_ ?_ (WritesAt.pure _ _ _ answer)
    · simp [Grounded, Change.expects]
    · simp [Change.AddsMember, Amendment.AddsMember]

/-- Entering a method looks at nothing but the node of its type. -/
theorem enterMethod_writes
    (settings : Settings)
    (owner : TypeName)
    (decl : MethodDecl)
    (node : Option Node) :
    WritesAt owner [] node (enterMethod settings owner decl) := by
  unfold enterMethod
  cases MethodDescriptor.parse decl.descriptor with
  | error fault =>
      exact WritesAt.pure _ _ _ _
  | ok type =>
      obtain ⟨uses, useHints, usesNoted, usesNamed⟩ :=
        takeUses_notes decl.annotations
      obtain ⟨table, tableHints, tableNoted, tableNamed⟩ :=
        takeTable_notes
          (alignTable decl.parameterAnnotations type.parameters.length)
      refine WritesAt.bindNotes usesNoted (WritesAt.bindNotes tableNoted ?_)
      dsimp only
      split
      · exact WritesAt.pure _ _ _ _
      · refine WritesAt.bindGet
          (fun store here => by rw [Store.formalsOf_congr here]) ?_
        refine WritesAt.bindMentioning
          (methodGenerics_mentioning _ _ decl.signature) fun generics => ?_
        refine WritesAt.bindMentioning
          (methodResult_mentioning generics.result type.result)
          fun result => ?_
        refine WritesAt.bindGet
          (fun store here => by rw [Store.nextMethod_congr here]) ?_
        refine WritesAt.bindMentioning
          (enterParameters_mentioning _ 0 _) fun parameters => ?_
        apply keepMethod_writes
        · intro use member tracked
          have known := (usesNamed use member).known tracked
          simp [known]
        · intro draft member use used tracked
          obtain ⟨slot, present, inSlot⟩ := slot_of_draft member used
          have known := (tableNamed slot present use inSlot).known tracked
          simp [known]

/-- Recording a default looks at nothing in the store. -/
theorem enterDefault_writes
    (owner : TypeName)
    (decl : MethodDecl)
    (node : Option Node) :
    WritesAt owner [] node (enterDefault owner decl) := by
  unfold enterDefault
  cases decl.default with
  | none =>
      exact WritesAt.pure _ _ _ _
  | some value =>
      refine WritesAt.bindMentioning
        (takeValue_mentioning none value) fun taken => ?_
      refine ⟨PUnit.unit, [.amend owner (.default decl.name taken)], ?_, ?_,
        fun _ _ => rfl⟩
      · simp [Grounded, Change.expects]
      · simp [Change.AddsMember, Amendment.AddsMember]

end Filing

end TypeAtlas
