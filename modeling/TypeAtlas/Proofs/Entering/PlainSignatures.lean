import TypeAtlas.Proofs.Entering.Fallback
import TypeAtlas.Proofs.Entering.MemberRuns
import TypeAtlas.Proofs.Entering.Rearranging
import TypeAtlas.Proofs.Signature.Descriptors

namespace TypeAtlas

/-!
# Signatures that repeat the descriptor

The signature of a member that uses no generics is its descriptor over again.
Such a member is entered in one of two ways: through its descriptor, or through
the signature, which says nothing of primitive types and of the root type and
leaves these to the descriptor. This module says that both ways lead to the
same member, and that nothing shows which one was taken but the text of the
signature and the order of new names.
-/

/-- The field with another signature. -/
def FieldDecl.signed
    (decl : FieldDecl)
    (signature : Option String) :
    FieldDecl :=
  { decl with signature := signature }

/-- The method with another signature. -/
def MethodDecl.signed
    (decl : MethodDecl)
    (signature : Option String) :
    MethodDecl :=
  { decl with signature := signature }

/-! ## Fields -/

/-- The type of a field is mentioned in vain by its signature. -/
theorem Store.replay_hints_twice
    (store : Store)
    (type : Descriptor) :
    store.replay
        (mentions
          ((Origin.element type).hints ++ (Origin.element type).hints)) =
      store.replay (mentions ((Origin.element type).hints ++ [])) := by
  rw [mentions_append, replay_append, List.append_nil]
  unfold Origin.hints
  split
  · exact store.mention_mention_none _ _
  · rfl

/-- Neither a type variable nor arguments come from a repeated descriptor. -/
theorem FieldDecl.placed_descriptor
    (decl : FieldDecl)
    (type : Descriptor)
    (uses : List AnnotationUse)
    (id : FieldId) :
    (decl.signed (some decl.descriptor)).placed type type.generic? uses id =
      (decl.signed none).placed type none uses id := by
  have formal : type.generic?.bind (·.formal) = none := by
    unfold Descriptor.generic?
    split <;> rfl
  have arguments : (type.generic?.map (·.arguments)).getD [] = [] := by
    unfold Descriptor.generic?
    split <;> rfl
  unfold placed
  rw [formal, arguments]
  rfl

namespace Filing

/-- A field whose signature repeats its descriptor might as well have none. -/
theorem enterField_descriptor
    {decl : FieldDecl}
    {type : Descriptor}
    (parsed : Descriptor.parse decl.descriptor = .ok type)
    (plain : Descriptor.IsPlain decl.descriptor.toList)
    (settings : Settings)
    (owner : TypeName) :
    enterField settings owner (decl.signed (some decl.descriptor)) =
      enterField settings owner (decl.signed none) := by
  funext store
  obtain ⟨uses, useHints, usesNoted, -⟩ := takeUses_notes decl.annotations
  have signed :=
    run_enterField settings owner (decl.signed (some decl.descriptor)) parsed
      usesNoted (resolveField_descriptor parsed plain) store
  have bare :=
    run_enterField settings owner (decl.signed none) parsed usesNoted
      (fun _ => notes_pure none) store
  refine signed.trans (Eq.trans ?_ bare.symm)
  simp only [withField, Store.replay_hints_twice, decl.placed_descriptor]
  rfl

/-- A field without a signature has its raw type. -/
theorem isRaw_of_enterField
    {decl : FieldDecl}
    {type : Descriptor}
    (parsed : Descriptor.parse decl.descriptor = .ok type)
    {settings : Settings}
    {owner : TypeName}
    {store : Store}
    {id : FieldId}
    (kept :
      ((enterField settings owner (decl.signed none)).run store).1 =
        .ok (some id))
    {node : Node}
    (installed :
      ((enterField settings owner (decl.signed none)).run store).2.node?
        id.owner = some node)
    (extensible : node.isExtensible = true) :
    ∃ field,
      (node.fieldsOf id.isStatic)[id.index]? = some field ∧
        field.IsRaw type := by
  obtain ⟨uses, useHints, usesNoted, -⟩ := takeUses_notes decl.annotations
  rw [run_enterField settings owner (decl.signed none) parsed usesNoted
    (fun _ => notes_pure none)] at kept installed
  dsimp only at kept installed
  split at kept
  · simp at kept
  · next retained =>
      obtain rfl : store.nextField owner (decl.signed none).isStatic = id := by
        simpa using kept
      rw [if_neg retained] at installed
      refine ⟨_, Store.getElem?_addField ?_ rfl installed extensible, rfl,
        rfl, rfl⟩
      simp only [Store.nextField, Store.node?_replay_hidden
        (hidden_fieldMarks _ _ _), Store.node?_replay_mentions]
      rfl

end Filing

/-! ## What a repeated descriptor says of a method -/

namespace Filing

theorem methodGenerics_descriptor
    {text : String}
    {type : MethodDescriptor}
    (parsed : MethodDescriptor.parse text = .ok type)
    (plain : Descriptor.IsPlain text.toList)
    (formals : Formals) :
    Notes (methodGenerics formals type.parameters.length (some text))
      type.generics type.hints := by
  have fits : type.generics.parameters.length = type.parameters.length := by
    simp [MethodDescriptor.generics]
  intro store
  refine ((resolveMethod_descriptor parsed plain formals).run_bind _
    store).trans ?_
  dsimp only
  rw [if_pos fits]
  rfl

/-- Parameters have their annotations whatever the signature says. -/
theorem methodMarks_parameterDrafts
    (uses : List AnnotationUse)
    (id : MethodId)
    (decl : MethodDecl)
    (types : List Descriptor)
    (generics others : List (Option Generic))
    (table : List (List AnnotationUse)) :
    methodMarks uses (parameterDrafts decl types generics table) id =
      methodMarks uses (parameterDrafts decl types others table) id := by
  simp [methodMarks, parameterMarks, parameterDrafts, List.zipIdx_map,
    List.flatMap_map]

/-- What a signature leaves open, the descriptor says of each parameter. -/
theorem placed_parameterDrafts
    (id : MethodId)
    (decl : MethodDecl)
    (types : List Descriptor)
    (table : List (List AnnotationUse)) :
    ((parameterDrafts decl types (types.map (·.generic?)) table).zipIdx.map
      fun (draft, index) => draft.placed id index) =
        (parameterDrafts decl types [] table).zipIdx.map
          fun (draft, index) => draft.placed id index := by
  simp only [parameterDrafts, List.zipIdx_map, List.map_map]
  refine List.map_congr_left ?_
  rintro ⟨⟨type, index⟩, place⟩ member
  have stored : (type, index) ∈ types.zipIdx :=
    List.mem_of_getElem? (List.mem_zipIdx_iff_getElem?.mp member)
  have here : types[index]? = some type :=
    List.mem_zipIdx_iff_getElem?.mp stored
  simp [ParameterDraft.placed, ParameterDraft.model, here,
    Descriptor.getD_generic?]

/-- Without a signature, or with one that repeats it, the descriptor decides. -/
theorem placed_descriptor
    (decl : MethodDecl)
    (type : MethodDescriptor)
    (uses : List AnnotationUse)
    (table : List (List AnnotationUse))
    (id : MethodId) :
    (decl.signed (some decl.descriptor)).placed type type.generics uses table
        id =
      { (decl.signed none).placed type ⟨[], none, []⟩ uses table id with
        signature := some decl.descriptor } := by
  have parameters := placed_parameterDrafts id decl type.parameters table
  have result := Descriptor.generic?_or_raw type.result
  unfold MethodDecl.placed
  simp only [MethodDescriptor.generics, result]
  congr 1

/-- What is made of a method without a signature is raw. -/
theorem isRaw_placed
    (decl : MethodDecl)
    (type : MethodDescriptor)
    (uses : List AnnotationUse)
    (table : List (List AnnotationUse))
    (id : MethodId) :
    (decl.placed type ⟨[], none, []⟩ uses table id).IsRaw type := by
  refine ⟨?_, rfl, rfl⟩
  rw [← generics_parameterDrafts decl type.parameters table]
  simp [MethodDecl.placed, ParameterDraft.placed]

/-! ## The names in a descriptor -/

theorem mem_hints_parameterDrafts
    {decl : MethodDecl}
    {types : List Descriptor}
    {generics : List (Option Generic)}
    {table : List (List AnnotationUse)}
    {hint : Hint} :
    hint ∈ (parameterDrafts decl types generics table).flatMap (·.hints) ↔
      hint ∈ types.flatMap fun type => (Origin.element type).hints := by
  have single :
      ∀ draft : ParameterDraft,
        hint ∈ draft.hints ↔ hint ∈ (Origin.element draft.type).hints := by
    intro draft
    unfold ParameterDraft.hints
    split <;> simp
  have typed :
      (parameterDrafts decl types generics table).map (·.type) = types := by
    simp [parameterDrafts, Function.comp_def]
  calc
    _ ↔ hint ∈ (parameterDrafts decl types generics table).flatMap
          fun draft => (Origin.element draft.type).hints := by
        simp only [List.mem_flatMap, single]
    _ ↔ hint ∈ ((parameterDrafts decl types generics table).map
          (·.type)).flatMap fun type => (Origin.element type).hints := by
        rw [List.flatMap_map]
    _ ↔ _ := by rw [typed]

/-- All that is mentioned for a method is in its descriptor. -/
theorem mem_hints_of_mem_methodHints
    {decl : MethodDecl}
    {type : MethodDescriptor}
    {generics : MethodGenerics}
    {table : List (List AnnotationUse)}
    {hint : Hint}
    (mentioned : hint ∈ methodHints decl type generics table) :
    hint ∈ type.hints := by
  rw [MethodDescriptor.hints, List.flatMap_append]
  rcases List.mem_append.mp mentioned with ofResult | ofParameter
  · unfold resultHints at ofResult
    split at ofResult
    · simp at ofResult
    · exact List.mem_append_right _ ofResult
  · exact List.mem_append_left _ (mem_hints_parameterDrafts.mp ofParameter)

/-- Without a signature, all that is in the descriptor is mentioned. -/
theorem mem_methodHints_bare
    {decl : MethodDecl}
    {type : MethodDescriptor}
    {table : List (List AnnotationUse)}
    {hint : Hint}
    (named : hint ∈ type.hints) :
    hint ∈ methodHints decl type ⟨[], none, []⟩ table := by
  rw [MethodDescriptor.hints, List.flatMap_append] at named
  rcases List.mem_append.mp named with ofParameter | ofResult
  · exact List.mem_append_right _ (mem_hints_parameterDrafts.mpr ofParameter)
  · exact List.mem_append_left _ ofResult

end Filing

/-- Of the types of a method the root type is left out, and no category told. -/
theorem MethodDescriptor.hints_plain
    (type : MethodDescriptor) :
    ∀ hint ∈ type.hints, hint.1 ≠ TypeName.root ∧ hint.2 = none := by
  intro hint member
  obtain ⟨named, -, ofNamed⟩ := List.mem_flatMap.mp member
  refine ⟨fun isRoot => ?_, ?_⟩
  · exact (Origin.element named).root_not_mem_hints
      (List.mem_map.mpr ⟨hint, ofNamed, isRoot⟩)
  · unfold Origin.hints at ofNamed
    split at ofNamed
    · rw [List.mem_singleton.mp ofNamed]
      rfl
    · simp at ofNamed

/-- A repeated descriptor names the same as the descriptor alone. -/
theorem Filing.growsAlike_descriptor
    (decl : MethodDecl)
    (type : MethodDescriptor)
    (table : List (List AnnotationUse))
    (store : Store) :
    store.GrowsAlike
      (store.replay
        (mentions (type.hints ++ methodHints decl type type.generics table)))
      (store.replay
        (mentions ([] ++ methodHints decl type ⟨[], none, []⟩ table))) := by
  have signed :
      ∀ hint,
        hint ∈ type.hints ++ methodHints decl type type.generics table ↔
          hint ∈ type.hints := by
    intro hint
    rw [List.mem_append]
    exact or_iff_left_of_imp mem_hints_of_mem_methodHints
  refine store.growsAlike_mentions
    (fun hint member => type.hints_plain hint ((signed hint).mp member))
    fun hint => ?_
  rw [signed, List.nil_append]
  exact ⟨mem_methodHints_bare, mem_hints_of_mem_methodHints⟩

/-! ## Methods with and without -/

namespace Store

theorem names_updateNode
    (store : Store)
    (name : TypeName)
    (change : Node → Node) :
    (store.updateNode name change).names = store.names :=
  store.names_update name fun _ => rfl

/-- The store with the text of a signature at a method. -/
def sign
    (store : Store)
    (id : MethodId)
    (text : String) :
    Store :=
  store.updateNode id.owner fun node =>
    { node with
      methods := node.methods.modify id.index fun method =>
        { method with signature := some text } }

/-- A method is added with a text on one side, and gets it on the other. -/
theorem GrowsAlike.addMethod
    {before store other : Store}
    (alike : GrowsAlike before store other)
    {owner : TypeName}
    {id : MethodId}
    (place : other.nextMethod owner = id)
    (method : Method)
    (text : String) :
    GrowsAlike before
      (store.updateNode owner
        (·.addMethod { method with signature := some text }))
      ((other.updateNode owner (·.addMethod method)).sign id text) := by
  subst place
  obtain ⟨names, otherNames, same, grown, waiting, otherGrown,
    otherWaiting⟩ := alike.added
  refine ⟨fun name => ?_, names, otherNames, same, ?_⟩
  · simp only [sign, updateNode, nextMethod]
    rw [find?_update, find?_update, find?_update, alike.entries]
    · cases known : other.find? name with
      | none =>
          rfl
      | some entry =>
          by_cases here : name = owner
          · subst here
            cases installed : entry.node with
            | none =>
                simp [installed]
            | some node =>
                have last := List.modify_eq_take_cons_drop
                  (f := fun method : Method =>
                    { method with signature := some text })
                  (show node.methods.length <
                    (node.methods ++ [method]).length by simp)
                simp [installed, node?, known, Node.addMethod, last]
          · simp [here]
    all_goals exact fun _ => rfl
  · refine ⟨?_, waiting, ?_, otherWaiting⟩
    · rw [names_updateNode, grown]
    · rw [sign, names_updateNode, names_updateNode, otherGrown]

/--
A store after a method was entered with a text for its signature, beside the
store after the same method was entered without: new names may be in another
order, and the method has the text in one and not in the other. Its types are
the raw ones in both, and it throws nothing.
-/
structure SignedAlike
    (before : Store)
    (type : MethodDescriptor)
    (text : String)
    (answer : Except Problem (Option MethodId))
    (signed bare : Store) :
    Prop where
  kept :
    ∀ id, answer = .ok (some id) →
      before.GrowsAlike signed (bare.sign id text) ∧
        ∀ node, bare.node? id.owner = some node →
          ∃ method,
            node.methods[id.index]? = some method ∧
              method.signature = none ∧
              method.IsRaw type
  dropped : (∀ id, answer ≠ .ok (some id)) → signed = bare

/-- The stores may have had some growth in common before. -/
theorem SignedAlike.of_grown
    {before : Store}
    {type : MethodDescriptor}
    {text : String}
    {answer : Except Problem (Option MethodId)}
    {signed bare : Store}
    (alike : before.SignedAlike type text answer signed bare)
    {names : List TypeName}
    {first : Store}
    (grown : Grown names first before) :
    first.SignedAlike type text answer signed bare :=
  { alike with
    kept := fun id same =>
      ⟨(alike.kept id same).1.of_grown grown, (alike.kept id same).2⟩ }

end Store

namespace Filing

/-- The marks of a method bring in no names. -/
theorem quiet_methodMarks
    (uses : List AnnotationUse)
    (drafts : List ParameterDraft)
    (id : MethodId) :
    ∀ change ∈ methodMarks uses drafts id,
      change ≠ .take ∧ change.introduces = [] := by
  intro change member
  rcases List.mem_append.mp member with used | ofParameter
  · obtain ⟨use, -, rfl⟩ := List.mem_map.mp used
    exact ⟨by simp, rfl⟩
  · obtain ⟨⟨draft, index⟩, -, marked⟩ := List.mem_flatMap.mp ofParameter
    obtain ⟨use, -, rfl⟩ := List.mem_map.mp marked
    exact ⟨by simp, rfl⟩

/-- A method that is kept with its descriptor for a signature, or without. -/
theorem withMethod_descriptor
    (store : Store)
    (owner : TypeName)
    (decl : MethodDecl)
    (type : MethodDescriptor)
    (uses : List AnnotationUse)
    (table : List (List AnnotationUse)) :
    store.SignedAlike type decl.descriptor
      (.ok (some (store.nextMethod owner)))
      (withMethod store owner (decl.signed (some decl.descriptor)) type
        type.generics type.hints uses table)
      (withMethod store owner (decl.signed none) type ⟨[], none, []⟩ [] uses
        table) := by
  let id := store.nextMethod owner
  let marks := methodMarks uses
    (parameterDrafts decl type.parameters [] table) id
  let named := store.replay
    (mentions ([] ++ methodHints decl type ⟨[], none, []⟩ table))
  let method := (decl.signed none).placed type ⟨[], none, []⟩ uses table id
  have place : (named.replay marks).nextMethod owner = id := by
    rw [Store.nextMethod, Store.node?_replay_hidden
      (hidden_methodMarks _ _ _), ← Store.nextMethod]
    exact store.nextMethod_replay_mentions _ owner
  have alike := ((growsAlike_descriptor decl type table store).replay
    (quiet_methodMarks _ _ _)).addMethod place method decl.descriptor
  have signed :
      withMethod store owner (decl.signed (some decl.descriptor)) type
          type.generics type.hints uses table =
        ((store.replay
          (mentions
            (type.hints ++ methodHints decl type type.generics table))).replay
          marks).updateNode owner
            (·.addMethod { method with signature := some decl.descriptor }) := by
    simp only [marks, method, ← placed_descriptor]
    rw [methodMarks_parameterDrafts uses id decl type.parameters []
      type.generics.parameters table]
    rfl
  refine ⟨fun other same => ?_, fun dropped => absurd rfl (dropped _)⟩
  obtain rfl : id = other := by simpa using same
  refine ⟨?_, fun node installed => ⟨method, ?_, rfl, isRaw_placed ..⟩⟩
  · rw [signed]
    exact alike
  · exact Store.getElem?_addMethod place installed

/-- A method whose signature repeats its descriptor, and one without. -/
theorem enterMethod_descriptor
    {decl : MethodDecl}
    {type : MethodDescriptor}
    (parsed : MethodDescriptor.parse decl.descriptor = .ok type)
    (plain : Descriptor.IsPlain decl.descriptor.toList)
    (settings : Settings)
    (owner : TypeName)
    (store : Store) :
    let signed :=
      (enterMethod settings owner
        (decl.signed (some decl.descriptor))).run store
    let bare := (enterMethod settings owner (decl.signed none)).run store
    signed.1 = bare.1 ∧
      store.SignedAlike type decl.descriptor bare.1 signed.2 bare.2 := by
  obtain ⟨uses, useHints, usesNoted, -⟩ := takeUses_notes decl.annotations
  obtain ⟨table, tableHints, tableNoted, -⟩ :=
    takeTable_notes
      (alignTable decl.parameterAnnotations type.parameters.length)
  have signed :=
    run_enterMethod settings owner (decl.signed (some decl.descriptor)) parsed
      usesNoted tableNoted (methodGenerics_descriptor parsed plain) store
  have bare :=
    run_enterMethod settings owner (decl.signed none) parsed usesNoted
      tableNoted (fun _ => notes_pure (⟨[], none, []⟩ : MethodGenerics)) store
  dsimp only at signed bare ⊢
  rw [signed, bare]
  split
  · exact ⟨rfl, by simp, fun _ => rfl⟩
  · have alike := withMethod_descriptor
      ((store.replay (mentions useHints)).replay (mentions tableHints)) owner
      decl type uses table
    simp only [Store.nextMethod_replay_mentions] at alike
    exact ⟨rfl,
      (alike.of_grown (Store.grown_mentions _ tableHints)).of_grown
        (Store.grown_mentions _ useHints)⟩

end Filing

/-! ## Visits -/

namespace Visit

/-- The signature of a method is looked at where the method is entered only. -/
theorem method_signed
    (visit : Visit)
    (atlas : Atlas)
    (decl : MethodDecl)
    (signature : Option String) :
    visit.method atlas (decl.signed signature) =
      match visit.openMembers? with
      | none => visit.refuse atlas .method
      | some current =>
          let visit := { visit with progress := .members current }
          let recorded :=
            if current.category = .annotationType then
              (atlas.file (Filing.enterDefault current.name decl)).2
            else
              atlas
          if current.merging || decl.isSynthetic || decl.isInitializer then
            ⟨visit, atlas, .ok none⟩
          else if current.deep then
            let entered := (Filing.enterMethod recorded.settings current.name
              (decl.signed signature)).run recorded.store
            ⟨visit, { recorded with store := entered.2 }, entered.1⟩
          else
            ⟨visit, recorded, .ok none⟩ :=
  rfl

theorem grown_recorded
    (atlas : Atlas)
    (current : Current)
    (decl : MethodDecl) :
    atlas.store.Grown decl.mentions
      (if current.category = .annotationType then
        (atlas.file (Filing.enterDefault current.name decl)).2
      else
        atlas).store := by
  split
  · exact (Filing.brings_enterDefault current.name decl atlas.store).grown
  · exact .refl _ _

theorem method_descriptor
    (visit : Visit)
    (atlas : Atlas)
    {decl : MethodDecl}
    {type : MethodDescriptor}
    (parsed : MethodDescriptor.parse decl.descriptor = .ok type)
    (plain : Descriptor.IsPlain decl.descriptor.toList) :
    let signed := visit.method atlas (decl.signed (some decl.descriptor))
    let bare := visit.method atlas (decl.signed none)
    signed.visit = bare.visit ∧
      signed.answer = bare.answer ∧
      signed.atlas.settings = bare.atlas.settings ∧
      signed.atlas.problems = bare.atlas.problems ∧
      atlas.store.SignedAlike type decl.descriptor bare.answer
        signed.atlas.store bare.atlas.store := by
  dsimp only
  rw [method_signed, method_signed]
  cases visit.openMembers? with
  | none =>
      exact ⟨rfl, rfl, rfl, rfl, by simp [refuse], fun _ => rfl⟩
  | some current =>
      have grown := grown_recorded atlas current decl
      dsimp only
      generalize (if current.category = .annotationType then
        (atlas.file (Filing.enterDefault current.name decl)).2
      else
        atlas) = recorded at grown ⊢
      split
      · exact ⟨rfl, rfl, rfl, rfl, by simp, fun _ => rfl⟩
      · split
        · obtain ⟨answers, alike⟩ := Filing.enterMethod_descriptor parsed plain
            recorded.settings current.name recorded.store
          exact ⟨rfl, answers, rfl, rfl, alike.of_grown grown⟩
        · exact ⟨rfl, rfl, rfl, rfl, by simp, fun _ => rfl⟩

theorem field_descriptor
    (visit : Visit)
    (atlas : Atlas)
    {decl : FieldDecl}
    {type : Descriptor}
    (parsed : Descriptor.parse decl.descriptor = .ok type)
    (plain : Descriptor.IsPlain decl.descriptor.toList) :
    visit.field atlas (decl.signed (some decl.descriptor)) =
      visit.field atlas (decl.signed none) := by
  have entered := Filing.enterField_descriptor parsed plain
  unfold field
  simp only [entered]
  rfl

/-- A field that is kept without a signature has its raw type. -/
theorem isRaw_of_field
    {visit : Visit}
    {atlas : Atlas}
    {decl : FieldDecl}
    {type : Descriptor}
    (parsed : Descriptor.parse decl.descriptor = .ok type)
    {id : FieldId}
    (kept : (visit.field atlas (decl.signed none)).answer = .ok (some id))
    {node : Node}
    (installed :
      (visit.field atlas (decl.signed none)).atlas.store.node? id.owner =
        some node)
    (extensible : node.isExtensible = true) :
    ∃ field,
      (node.fieldsOf id.isStatic)[id.index]? = some field ∧
        field.IsRaw type := by
  unfold Visit.field at kept installed
  cases stage : visit.openMembers? with
  | none =>
      simp [stage, refuse] at kept
  | some current =>
      simp only [stage] at kept installed
      split at kept
      · simp at kept
      · next entered =>
          rw [if_neg entered] at installed
          split at kept
          · split at kept <;> simp at kept
          · next hasFields =>
              rw [if_neg hasFields] at installed
              exact Filing.isRaw_of_enterField parsed kept installed extensible

/--
A member whose signature is its own descriptor is entered as if it had none.
Of a field nothing shows the difference. Of a method the text of the signature
does, and new names may be in another order; everything else is the same, in
the store and in the answer. The member is kept with the types of its
descriptor, whatever mix of primitive types, the root type, classes and arrays
these are.
-/
theorem descriptor_for_signature
    (visit : Visit)
    (atlas : Atlas) :
    (∀ (decl : FieldDecl) (type : Descriptor),
      Descriptor.parse decl.descriptor = .ok type →
      Descriptor.IsPlain decl.descriptor.toList →
        let signed := visit.field atlas (decl.signed (some decl.descriptor))
        let bare := visit.field atlas (decl.signed none)
        signed = bare ∧
          ∀ id, bare.answer = .ok (some id) →
            ∀ node, bare.atlas.store.node? id.owner = some node →
              node.isExtensible = true →
                ∃ field,
                  (node.fieldsOf id.isStatic)[id.index]? = some field ∧
                    field.IsRaw type) ∧
      ∀ (decl : MethodDecl) (type : MethodDescriptor),
        MethodDescriptor.parse decl.descriptor = .ok type →
        Descriptor.IsPlain decl.descriptor.toList →
          let signed := visit.method atlas (decl.signed (some decl.descriptor))
          let bare := visit.method atlas (decl.signed none)
          signed.visit = bare.visit ∧
            signed.answer = bare.answer ∧
            signed.atlas.settings = bare.atlas.settings ∧
            signed.atlas.problems = bare.atlas.problems ∧
            atlas.store.SignedAlike type decl.descriptor bare.answer
              signed.atlas.store bare.atlas.store := by
  constructor
  · intro decl type parsed plain
    exact ⟨visit.field_descriptor atlas parsed plain,
      fun id kept node installed extensible =>
        isRaw_of_field parsed kept installed extensible⟩
  · intro decl type parsed plain
    exact visit.method_descriptor atlas parsed plain

/-- A class with a type parameter, whose members are being entered. -/
def atBox : Visit :=
  { progress := .members ⟨"c.Box", .classType, true, false⟩ }

def boxed : Atlas :=
  (Atlas.enter { settings := { keepUnannotated := true } }
    { access := 0x21
      name := "c.Box"
      signature := some "<T:>Ljava/lang/Object;" } none true).2

/-- A method of arrays, a primitive type, the root type and classes. -/
def boxMethod : MethodDecl :=
  ⟨0x1, "pack", "([[Lc/A;I[Ljava/lang/Object;)[Lc/B;", none, [], [], [], none⟩

def boxField : FieldDecl :=
  ⟨0x2, "rows", "[[Lc/A;", none, []⟩

-- The signature names `c.A` first, the descriptor alone `c.B`.
theorem descriptor_for_signature_box :
    let field := atBox.field boxed (boxField.signed none)
    let signed :=
      atBox.method boxed (boxMethod.signed (some boxMethod.descriptor))
    let bare := atBox.method boxed (boxMethod.signed none)
    field.answer = .ok (some ⟨"c.Box", false, 0⟩) ∧
      atBox.field boxed (boxField.signed (some boxField.descriptor)) = field ∧
      bare.answer = .ok (some ⟨"c.Box", 0⟩) ∧
      signed.atlas.store.pending = ["c.Box", "c.A", "c.B"] ∧
      bare.atlas.store.pending = ["c.Box", "c.B", "c.A"] ∧
      boxed.store.GrowsAlike signed.atlas.store
        (bare.atlas.store.sign ⟨"c.Box", 0⟩ boxMethod.descriptor) := by
  have fields := (descriptor_for_signature atBox boxed).1 boxField
    (.array (.object "c.A") 2) (by decide +kernel) (by decide +kernel)
  have methods := (descriptor_for_signature atBox boxed).2 boxMethod
    ⟨[.array (.object "c.A") 2, .base .int,
      .array (.object "java.lang.Object") 1], some (.array (.object "c.B") 1)⟩
    (by decide +kernel) (by decide +kernel)
  have answered :
      (atBox.method boxed (boxMethod.signed none)).answer =
        .ok (some ⟨"c.Box", 0⟩) := by
    decide +kernel
  exact ⟨by decide +kernel, fields.1, answered, by decide +kernel,
    by decide +kernel, (methods.2.2.2.2.kept _ answered).1⟩

end Visit

end TypeAtlas
