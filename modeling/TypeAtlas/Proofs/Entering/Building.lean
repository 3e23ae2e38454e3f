import TypeAtlas.Proofs.Store.Building

namespace TypeAtlas

/-!
# Building by visits

Annotations, fields and methods link nothing. The header of a declaration links
the superclass and the interfaces that the declaration names, after its type
was entered. So entering a declaration builds on the store, with the supertypes
of that declaration alone.
-/

/-! ## Members link nothing -/

/-- A script of changes that are always allowed and link nothing. -/
theorem Store.builds_replay
    {decls : List ClassDecl}
    {script : List Change}
    (free :
      ∀ change ∈ script,
        change.LinksNothing ∧ ∀ store, change.Allowed store)
    (store : Store) :
    Store.Builds decls store (store.replay script) := by
  induction script generalizing store with
  | nil =>
      exact .refl store
  | cons change script inductionHypothesis =>
      obtain ⟨plain, allowed⟩ := free change (by simp)
      refine .change change plain (allowed store) ?_
      exact inductionHypothesis
        (fun change member => free change (List.mem_cons_of_mem _ member)) _

namespace Filing

/-- A step that builds on every store without linking anything. -/
def Furnishes (step : Filing α) : Prop :=
  ∀ store, Store.Builds [] store (step.run store).2

theorem furnishes_pure
    (answer : α) :
    Furnishes (pure answer) :=
  fun store => .refl store

/-- Looking at the store links nothing. -/
theorem furnishes_get :
    Furnishes get :=
  fun store => .refl store

/-- Two steps that link nothing link nothing together. -/
theorem Furnishes.bind
    {step : Filing α}
    {next : α → Filing β}
    (before : Furnishes step)
    (after : ∀ answer, Furnishes (next answer)) :
    Furnishes (step >>= next) := by
  intro store
  exact (before store).trans (after _ _)

/-- Mentioning names links nothing. -/
theorem furnishes_of_mentioning
    {step : Filing α}
    (mentioning : Mentioning step) :
    Furnishes step := by
  obtain ⟨answer, hints, noted⟩ := mentioning
  intro store
  rw [noted store]
  refine Store.builds_replay (fun change member => ?_) store
  obtain ⟨name, hint, rfl⟩ := eq_mention_of_mem_mentions member
  exact ⟨trivial, fun _ => trivial⟩

/-- Recording annotations links nothing. -/
theorem furnishes_recordUses
    (uses : List AnnotationUse)
    (element : Element) :
    Furnishes (modify (·.recordUses uses element)) := by
  intro store
  have marked :
      ∀ change ∈ useMarks uses element,
        change.LinksNothing ∧ ∀ store, change.Allowed store := by
    intro change member
    obtain ⟨use, -, rfl⟩ := List.mem_map.mp member
    exact ⟨id, fun _ => trivial⟩
  have builds : Store.Builds [] store _ := Store.builds_replay marked store
  rw [← store.recordUses_eq_replay] at builds
  exact builds

/-- Noting a field under its type links nothing. -/
theorem furnishes_addFieldUse
    (reference : Reference)
    (id : FieldId) :
    Furnishes (modify (·.updateReferent reference (·.addFieldUse id))) := by
  intro store
  change Store.Builds [] store
    (store.updateReferent reference (·.addFieldUse id))
  unfold Store.updateReferent
  split
  · exact .single (.mark reference.name (.fieldUse id)) (fun link => link)
      trivial
  · exact .refl store

/-- Adding anything but an interface to a node links nothing. -/
theorem furnishes_amend
    (owner : TypeName)
    (amendment : Amendment)
    (plain : (Change.amend owner amendment).LinksNothing) :
    Furnishes (modify (·.updateNode owner amendment.apply)) :=
  fun _ => .single (.amend owner amendment) plain trivial

/-- Recording the parameters of a method links nothing. -/
theorem furnishes_recordParameters
    (method : MethodId)
    (drafts : List ParameterDraft) :
    Furnishes (recordParameters method drafts) := by
  unfold recordParameters
  induction drafts.zipIdx with
  | nil =>
      exact furnishes_pure _
  | cons indexed rest inductionHypothesis =>
      exact (furnishes_recordUses _ _).bind fun _ => inductionHypothesis

/-- The last steps of a field: its marks, and the field itself. -/
theorem keepField_furnishes
    (owner : TypeName)
    (uses : List AnnotationUse)
    (reference : Reference)
    (id : FieldId)
    (field : Field)
    (answer : α) :
    Furnishes (do
      modify (·.recordUses uses (.field id))
      modify (·.updateReferent reference (·.addFieldUse id))
      modify (·.updateNode owner (·.addField field))
      return answer) :=
  (furnishes_recordUses uses _).bind fun _ =>
    (furnishes_addFieldUse reference id).bind fun _ =>
      (furnishes_amend owner (.field field) trivial).bind fun _ =>
        furnishes_pure answer

/-- Entering a field links nothing, whether it is kept or not. -/
theorem enterField_furnishes
    (settings : Settings)
    (owner : TypeName)
    (decl : FieldDecl) :
    Furnishes (enterField settings owner decl) := by
  unfold enterField
  cases Descriptor.parse decl.descriptor with
  | error fault =>
      exact furnishes_pure _
  | ok type =>
      obtain ⟨_, _, usesNoted, -⟩ := takeUses_notes decl.annotations
      obtain ⟨_, _, typeNoted, -⟩ := referToElement_notes type
      refine (furnishes_of_mentioning ⟨_, _, usesNoted⟩).bind fun uses => ?_
      dsimp only
      split
      · exact furnishes_pure _
      · refine (furnishes_of_mentioning ⟨_, _, typeNoted⟩).bind
          fun reference => furnishes_get.bind fun store => ?_
        cases decl.signature with
        | some signature =>
            exact (furnishes_of_mentioning
              (resolveField_mentioning _ signature)).bind fun resolved =>
                furnishes_get.bind fun store =>
                  keepField_furnishes owner uses reference _ _ _
        | none =>
            exact (furnishes_pure none).bind fun resolved =>
              furnishes_get.bind fun store =>
                keepField_furnishes owner uses reference _ _ _

/-- The last steps of a method: its marks, and the method itself. -/
theorem keepMethod_furnishes
    (owner : TypeName)
    (uses : List AnnotationUse)
    (drafts : List ParameterDraft)
    (id : MethodId)
    (method : Method)
    (answer : α) :
    Furnishes (do
      modify (·.recordUses uses (.method id))
      recordParameters id drafts
      modify (·.updateNode owner (·.addMethod method))
      return answer) :=
  (furnishes_recordUses uses _).bind fun _ =>
    (furnishes_recordParameters id drafts).bind fun _ =>
      (furnishes_amend owner (.method method) trivial).bind fun _ =>
        furnishes_pure answer

/-- Entering a method links nothing, whether it is kept or not. -/
theorem enterMethod_furnishes
    (settings : Settings)
    (owner : TypeName)
    (decl : MethodDecl) :
    Furnishes (enterMethod settings owner decl) := by
  unfold enterMethod
  cases MethodDescriptor.parse decl.descriptor with
  | error fault =>
      exact furnishes_pure _
  | ok type =>
      obtain ⟨_, _, usesNoted, -⟩ := takeUses_notes decl.annotations
      obtain ⟨_, _, tableNoted, -⟩ :=
        takeTable_notes
          (alignTable decl.parameterAnnotations type.parameters.length)
      refine (furnishes_of_mentioning ⟨_, _, usesNoted⟩).bind fun uses =>
        (furnishes_of_mentioning ⟨_, _, tableNoted⟩).bind fun table => ?_
      dsimp only
      split
      · exact furnishes_pure _
      · exact furnishes_get.bind fun store =>
          (furnishes_of_mentioning
            (methodGenerics_mentioning _ _ decl.signature)).bind
              fun generics =>
          (furnishes_of_mentioning
            (methodResult_mentioning generics.result type.result)).bind
              fun result =>
          furnishes_get.bind fun store =>
          (furnishes_of_mentioning
            (enterParameters_mentioning _ 0 _)).bind fun parameters =>
          keepMethod_furnishes owner uses _ _ _ _

/-- Entering a default links nothing. -/
theorem enterDefault_furnishes
    (owner : TypeName)
    (decl : MethodDecl) :
    Furnishes (enterDefault owner decl) := by
  unfold enterDefault
  cases decl.default with
  | none =>
      exact furnishes_pure _
  | some value =>
      exact (furnishes_of_mentioning
        (takeValue_mentioning none value)).bind fun taken =>
          furnishes_amend owner (.default decl.name taken) trivial

end Filing

/-! ## Visits -/

namespace Visit

/-- A call that brings an annotation builds on the store. -/
theorem annotate_builds
    (visit : Visit)
    (atlas : Atlas)
    (decl : AnnotationDecl) :
    Store.Builds [] atlas.store (visit.annotate atlas decl).atlas.store := by
  unfold annotate
  cases visit.progress with
  | start | members _ | ended =>
      exact .refl _
  | header current =>
      dsimp only
      split
      · exact .refl _
      · obtain ⟨_, _, noted, -⟩ := Filing.takeUse_notes decl
        have taken := Filing.furnishes_of_mentioning ⟨_, _, noted⟩ atlas.store
        have recorded :=
          Filing.furnishes_recordUses
            [(atlas.file (Filing.takeUse decl)).1] (.type current.name)
            (atlas.file (Filing.takeUse decl)).2.store
        exact taken.trans (recorded.trans
          (Filing.furnishes_amend current.name (.use _) trivial _))

/-- A call that brings a field builds on the store. -/
theorem field_builds
    (visit : Visit)
    (atlas : Atlas)
    (decl : FieldDecl) :
    Store.Builds [] atlas.store (visit.field atlas decl).atlas.store := by
  unfold field
  cases visit.openMembers? with
  | none =>
      exact .refl _
  | some current =>
      dsimp only
      split
      · exact .refl _
      · split
        · split <;> exact .refl _
        · exact Filing.enterField_furnishes _ _ decl atlas.store

/-- A call that brings a method builds on the store. -/
theorem method_builds
    (visit : Visit)
    (atlas : Atlas)
    (decl : MethodDecl) :
    Store.Builds [] atlas.store (visit.method atlas decl).atlas.store := by
  unfold method
  cases visit.openMembers? with
  | none =>
      exact .refl _
  | some current =>
      dsimp only
      split
      · exact .refl _
      · have recorded :
            Store.Builds [] atlas.store
              (if current.category = .annotationType then
                (atlas.file (Filing.enterDefault current.name decl)).2
              else
                atlas).store := by
          split
          · exact Filing.enterDefault_furnishes _ decl atlas.store
          · exact .refl _
        split
        · exact recorded.trans (Filing.enterMethod_furnishes _ _ decl _)
        · exact recorded

/-- The call that ends a visit leaves the store as it is. -/
theorem finish_builds
    (visit : Visit)
    (atlas : Atlas) :
    Store.Builds [] atlas.store (visit.finish atlas).atlas.store := by
  unfold finish
  cases visit.openMembers? <;> exact .refl _

/-- What each step of a row does to the store, the whole row does. -/
theorem settleAll_builds
    {step : Visit → Atlas → δ → Outcome α}
    (builds :
      ∀ visit atlas decl,
        Store.Builds [] atlas.store (step visit atlas decl).atlas.store)
    (decls : List δ)
    (state : Visit × Atlas) :
    Store.Builds [] state.2.store (settleAll step decls state).2.store := by
  induction decls generalizing state with
  | nil =>
      exact .refl _
  | cons decl decls inductionHypothesis =>
      have first :
          Store.Builds [] state.2.store
            (settle (step state.1 state.2 decl)).2.store := by
        have stepped := builds state.1 state.2 decl
        unfold settle
        split <;> exact stepped
      exact first.trans (inductionHypothesis _)

/-- The members of a declaration build on the store, one after the other. -/
theorem enterBody_builds
    (decl : ClassDecl)
    (state : Visit × Atlas) :
    Store.Builds [] state.2.store (enterBody decl state).2.store := by
  have annotated := settleAll_builds annotate_builds decl.annotations state
  have fields := settleAll_builds field_builds decl.fields
    (settleAll annotate decl.annotations state)
  have methods := settleAll_builds method_builds decl.methods
    (settleAll field decl.fields (settleAll annotate decl.annotations state))
  refine annotated.trans (fields.trans (methods.trans ?_))
  have finished := finish_builds
    (settleAll method decl.methods (settleAll field decl.fields
      (settleAll annotate decl.annotations state))).1
    (settleAll method decl.methods (settleAll field decl.fields
      (settleAll annotate decl.annotations state))).2
  simp only [enterBody, settle]
  split <;> exact finished

/-! ## Headers -/

/-- The superclass that is linked is the one of the declaration. -/
theorem linkSuperclass_builds
    {store : Store}
    {decl : ClassDecl}
    (extensible : decl.category.isExtensible = true)
    (entered : store.Entered decl) :
    Store.Builds [decl] store (store.linkSuperclass decl).1 := by
  unfold Store.linkSuperclass
  cases named : decl.superName with
  | none =>
      exact .refl store
  | some parent =>
      simp only [Store.linkParent_eq]
      split
      · exact .refl store
      · next tracked =>
          have mentioned :
              Store.Builds [decl] store
                (store.mention parent (some .classType)) :=
            .single (.mention parent (some .classType)) trivial trivial
          split
          · exact mentioned
          · next free =>
              rw [not_or, Bool.not_eq_true] at free
              have present :
                  parent ∈
                    (store.mention parent (some .classType)).names :=
                Store.mem_names_mention.mpr (Or.inr ⟨rfl, tracked⟩)
              exact mentioned.trans
                (.superclass (by simp) named tracked extensible
                  (entered.evolves mentioned.evolves)
                  ⟨present, free.1, free.2⟩ (.refl _))

/-- The interfaces that are linked are among those of the declaration. -/
theorem linkInterfaces_builds
    {decl : ClassDecl}
    (extensible : decl.category.isExtensible = true)
    {interfaces : List TypeName}
    (named : ∀ interface ∈ interfaces, interface ∈ decl.interfaces)
    {store : Store}
    (entered : store.Entered decl) :
    Store.Builds [decl] store
      (interfaces.foldl (·.linkInterface decl.name decl.category ·) store) := by
  induction interfaces generalizing store with
  | nil =>
      exact .refl store
  | cons interface interfaces inductionHypothesis =>
      have linked :=
        store.linkInterface_evolves decl.name decl.category interface
      refine .interface (by simp) (named interface (by simp)) extensible
        entered ?_
      exact inductionHypothesis
        (fun other member => named other (List.mem_cons_of_mem _ member))
        (entered.evolves linked)

/-- A class signature links nothing, whatever it resolves to. -/
theorem linkSignature_builds
    (store : Store)
    (name : TypeName)
    (signature : String) :
    Store.Builds [] store (store.linkSignature name signature) := by
  have mentioned := Filing.furnishes_of_mentioning
    (Filing.resolveClass_mentioning signature) store
  unfold Store.linkSignature
  cases ran : (Filing.resolveClass signature).run store with
  | mk resolved after =>
      rw [ran] at mentioned
      cases resolved with
      | none =>
          exact mentioned
      | some generics =>
          exact mentioned.trans
            (Filing.furnishes_amend name (.generics generics) trivial after)

/-- The supertypes of an entered type are linked one after another. -/
theorem linkHeader_builds
    {store : Store}
    {decl : ClassDecl}
    (entered : store.Entered decl) :
    Store.Builds [decl] store (linkHeader decl store).1 := by
  unfold linkHeader
  split
  · next extensible =>
      have superclass := linkSuperclass_builds extensible entered
      have interfaces :=
        linkInterfaces_builds extensible (fun _ member => member)
          (entered.evolves superclass.evolves)
      refine superclass.trans (interfaces.trans ?_)
      cases signed : decl.signature with
      | none =>
          simp only [Store.linkSupertypes, signed]
          exact .refl _
      | some signature =>
          simp only [Store.linkSupertypes, signed]
          exact (linkSignature_builds _ decl.name signature).mono (by simp)
  · exact .refl store

/-- A type that is claimed for a declaration is entered. -/
theorem entered_claim
    {store : Store}
    {decl : ClassDecl}
    (claimed : (Change.claim decl.name decl.category).Allowed store) :
    ((Change.claim decl.name decl.category).apply store).Entered decl := by
  obtain ⟨entry, node, found, -, installed, -⟩ := claimed
  have here : store.node? decl.name = some node := by
    simp [Store.node?, found, installed]
  have known : decl.name ∈ store.names :=
    Store.mem_names_of_node? (by simp [here])
  refine ⟨{ node with category := decl.category }, ?_, ?_, rfl⟩
  · exact (Change.isVisited_apply (by simpa [Change.expects] using known)).mpr
      (Or.inr ⟨decl.category, rfl⟩)
  · rw [Change.node?_apply_of_mem known, here]
    simp [Change.nodeAt]

/-- After the opening changes of a header its type is entered. -/
theorem entered_opening
    {store : Store}
    (visit : Visit)
    {decl : ClassDecl}
    (claimed :
      (Change.claim decl.name decl.category).Allowed
        (store.replay (founding decl))) :
    (store.replay (visit.opening decl)).Entered decl :=
  (entered_claim claimed).evolves
    (.single (.amend decl.name (.origin visit)) trivial)

/-- Whatever becomes of a header, it builds with its own supertypes only. -/
theorem header_builds
    (visit : Visit)
    (atlas : Atlas)
    (decl : ClassDecl) :
    Store.Builds [decl] atlas.store
      (visit.header atlas decl).atlas.store := by
  have founded :
      (Change.file decl.name decl.category).Allowed atlas.store →
        Store.Builds [decl] atlas.store
          (atlas.store.replay (founding decl)) :=
    fun filed => .change (.file decl.name decl.category) trivial filed
      (.single (.found decl.name decl.category) trivial trivial)
  rcases header_cases visit atlas decl with
    ⟨problem, refused⟩ | ⟨filed, -, problem, unclaimed⟩ |
      ⟨filed, claimed, entered⟩
  · rw [refused]
    exact .refl _
  · rw [unclaimed]
    exact founded filed
  · rw [entered]
    have opened :
        Store.Builds [decl] (atlas.store.replay (founding decl))
          (atlas.store.replay (visit.opening decl)) :=
      .change (.claim decl.name decl.category) trivial claimed
        (.single (.amend decl.name (.origin visit)) trivial trivial)
    exact (founded filed).trans (opened.trans
      (linkHeader_builds (entered_opening visit claimed)))

/-- A visit links the supertypes of its declaration at most. -/
theorem accept_builds
    (visit : Visit)
    (atlas : Atlas)
    (decl : ClassDecl) :
    Store.Builds [decl] atlas.store (visit.accept atlas decl).2.store := by
  rw [accept_eq]
  split
  · exact .refl _
  · have opened := header_builds visit atlas decl
    dsimp only
    split
    · exact opened
    · have body := enterBody_builds decl
        ((visit.header atlas decl).visit, (visit.header atlas decl).atlas)
      exact opened.trans (body.mono (by simp))

/-- Entering a whole declaration makes allowed changes only. -/
theorem accept_evolves
    (visit : Visit)
    (atlas : Atlas)
    (decl : ClassDecl) :
    Store.Evolves atlas.store (visit.accept atlas decl).2.store :=
  (visit.accept_builds atlas decl).evolves

end Visit

end TypeAtlas
