import TypeAtlas.Proofs.Entering.FirstVisits
import TypeAtlas.Proofs.Entering.Naming

namespace TypeAtlas

/-!
# Growing by visits

Entering a declaration puts no name into a store but those that the declaration
mentions: its own, those of its supertypes, and those in its annotations,
descriptors and signatures. Each new name goes on the worklist, and the type of
the declaration is the only one that can become visited, which it does exactly
when the declaration is accepted.
-/

/-! ## Members -/

namespace Visit

/-- A call that brings an annotation gains the names in it. -/
theorem annotate_gains
    (visit : Visit)
    (atlas : Atlas)
    (decl : AnnotationDecl) :
    atlas.store.Gains decl.mentions (visit.annotate atlas decl).atlas.store := by
  unfold annotate
  cases visit.progress with
  | start | members _ | ended =>
      exact .refl _ _
  | header current =>
      dsimp only
      split
      · exact .refl _ _
      · exact (Filing.brings_takeUse decl atlas.store).trans
          ((Store.gains_recordUses _ _ _ _).trans
            (Filing.brings_amend _ current.name (.use _) _))

/-- A call that brings a field gains the names in it. -/
theorem field_gains
    (visit : Visit)
    (atlas : Atlas)
    (decl : FieldDecl) :
    atlas.store.Gains decl.mentions (visit.field atlas decl).atlas.store := by
  unfold field
  cases visit.openMembers? with
  | none =>
      exact .refl _ _
  | some current =>
      dsimp only
      split
      · exact .refl _ _
      · split
        · split <;> exact .refl _ _
        · exact Filing.brings_enterField _ _ decl atlas.store

/-- A call that brings a method gains the names in it. -/
theorem method_gains
    (visit : Visit)
    (atlas : Atlas)
    (decl : MethodDecl) :
    atlas.store.Gains decl.mentions (visit.method atlas decl).atlas.store := by
  unfold method
  cases visit.openMembers? with
  | none =>
      exact .refl _ _
  | some current =>
      dsimp only
      split
      · exact .refl _ _
      · have recorded :
            atlas.store.Gains decl.mentions
              (if current.category = .annotationType then
                (atlas.file (Filing.enterDefault current.name decl)).2
              else
                atlas).store := by
          split
          · exact Filing.brings_enterDefault _ decl atlas.store
          · exact .refl _ _
        split
        · exact recorded.trans (Filing.brings_enterMethod _ _ decl _)
        · exact recorded

/-- The call that ends a visit gains nothing. -/
theorem finish_gains
    (names : List TypeName)
    (visit : Visit)
    (atlas : Atlas) :
    atlas.store.Gains names (visit.finish atlas).atlas.store := by
  unfold finish
  cases visit.openMembers? <;> exact .refl _ _

/-- A settled call gains what the call did. -/
theorem settle_gains
    {names : List TypeName}
    {before : Store}
    {outcome : Outcome α}
    (gains : before.Gains names outcome.atlas.store) :
    before.Gains names (settle outcome).2.store := by
  unfold settle
  split <;> exact gains

/-- A row of steps brings in what its declarations mention. -/
theorem settleAll_gains
    {mentions : δ → List TypeName}
    {step : Visit → Atlas → δ → Outcome α}
    (gains :
      ∀ visit atlas decl,
        Store.Gains (mentions decl) atlas.store
          (step visit atlas decl).atlas.store)
    (decls : List δ)
    (state : Visit × Atlas) :
    state.2.store.Gains (decls.flatMap mentions)
      (settleAll step decls state).2.store := by
  induction decls generalizing state with
  | nil =>
      exact .refl _ _
  | cons decl decls inductionHypothesis =>
      have first := settle_gains (gains state.1 state.2 decl)
      have rest := inductionHypothesis (settle (step state.1 state.2 decl))
      rw [List.flatMap_cons]
      exact (first.mono fun name => List.mem_append_left _).trans
        (rest.mono fun name => List.mem_append_right _)

/-- The members of a declaration gain the names in them. -/
theorem enterBody_gains
    (decl : ClassDecl)
    (state : Visit × Atlas) :
    state.2.store.Gains decl.mentions (enterBody decl state).2.store := by
  have annotated := settleAll_gains annotate_gains decl.annotations state
  have fields := settleAll_gains field_gains decl.fields
    (settleAll annotate decl.annotations state)
  have methods := settleAll_gains method_gains decl.methods
    (settleAll field decl.fields (settleAll annotate decl.annotations state))
  have finished := settle_gains (finish_gains decl.mentions
    (settleAll method decl.methods (settleAll field decl.fields
      (settleAll annotate decl.annotations state))).1
    (settleAll method decl.methods (settleAll field decl.fields
      (settleAll annotate decl.annotations state))).2)
  refine (annotated.mono fun name named => ?_).trans
    ((fields.mono fun name named => ?_).trans
      ((methods.mono fun name named => ?_).trans finished))
  · exact List.mem_append_left _ (List.mem_append_left _
      (List.mem_append_right _ named))
  · exact List.mem_append_left _ (List.mem_append_right _ named)
  · exact List.mem_append_right _ named

/-! ## Headers -/

/-- A superclass gains its own name at most. -/
theorem linkSuperclass_gains
    (store : Store)
    (decl : ClassDecl) :
    store.Gains decl.superName.toList (store.linkSuperclass decl).1 := by
  unfold Store.linkSuperclass
  cases decl.superName with
  | none =>
      exact .refl _ _
  | some parent =>
      have mentioned := store.gains_mention parent (some .classType)
      simp only [Store.linkParent_eq]
      split
      · exact .refl _ _
      · split
        · exact mentioned
        · refine mentioned.trans ?_
          have linked :
              ∀ store : Store,
                store.Gains [parent]
                  ((Change.link decl.name parent).apply store) :=
            fun store => (Change.gains_apply store
              (.link decl.name parent) trivial).mono
                (by simp [Change.introduces])
          simp only [Store.linked]
          split
          · exact (linked _).trans ((Change.gains_apply _
              (.mark parent (.subType decl.name)) trivial).mono
                (by simp [Change.introduces]))
          · exact linked _

/-- Interfaces gain their own names at most. -/
theorem linkInterfaces_gains
    (store : Store)
    (name : TypeName)
    (category : Category)
    (interfaces : List TypeName) :
    store.Gains interfaces
      (interfaces.foldl (·.linkInterface name category ·) store) := by
  rw [Store.linkInterfaces_eq_replay]
  refine Store.gains_replay (fun change member => ?_)
    (fun change member other introduced => ?_) store
  · obtain ⟨interface, -, scripted⟩ := List.mem_flatMap.mp member
    by_cases isRoot : interface = TypeName.root <;>
      simp only [interfaceScript, isRoot, ↓reduceIte, List.nil_append,
        List.cons_append, List.mem_cons, List.not_mem_nil,
        or_false] at scripted
    · rcases scripted with rfl | rfl <;> trivial
    · rcases scripted with rfl | rfl | rfl <;> trivial
  · obtain ⟨interface, present, scripted⟩ := List.mem_flatMap.mp member
    by_cases isRoot : interface = TypeName.root <;>
      simp only [interfaceScript, isRoot, ↓reduceIte, List.nil_append,
        List.cons_append, List.mem_cons, List.not_mem_nil,
        or_false] at scripted
    · rcases scripted with rfl | rfl <;>
        simp [Change.introduces] at introduced
    · rcases scripted with rfl | rfl | rfl
      · simp only [Change.introduces, isRoot, ↓reduceIte,
          List.mem_singleton] at introduced
        rw [introduced]
        exact present
      all_goals simp [Change.introduces] at introduced

/-- A class signature gains the names that its events mention. -/
theorem linkSignature_gains
    (store : Store)
    (name : TypeName)
    (signature : String) :
    store.Gains
      (Signature.mentioned Signature.traceClass (some signature))
      (store.linkSignature name signature) := by
  have mentioned := Filing.brings_resolveClass signature store
  unfold Store.linkSignature
  cases ran : (Filing.resolveClass signature).run store with
  | mk resolved after =>
      rw [ran] at mentioned
      cases resolved with
      | none =>
          exact mentioned
      | some generics =>
          exact mentioned.trans
            (Filing.brings_amend _ name (.generics generics) after)

/-- Supertypes bring in the names that the header mentions. -/
theorem linkHeader_gains
    (decl : ClassDecl)
    (store : Store) :
    store.Gains decl.mentions (linkHeader decl store).1 := by
  unfold linkHeader
  split
  · have superclass := linkSuperclass_gains store decl
    have interfaces := linkInterfaces_gains (store.linkSuperclass decl).1
      decl.name decl.category decl.interfaces
    refine (superclass.mono fun name named => ?_).trans
      ((interfaces.mono fun name named => ?_).trans ?_)
    · simp only [ClassDecl.mentions, List.cons_append, List.append_assoc]
      exact List.mem_cons_of_mem _ (List.mem_append_left _ named)
    · simp only [ClassDecl.mentions, List.cons_append, List.append_assoc]
      exact List.mem_cons_of_mem _
        (List.mem_append_right _ (List.mem_append_left _ named))
    · cases signed : decl.signature with
      | none =>
          simp only [Store.linkSupertypes, signed]
          exact .refl _ _
      | some signature =>
          simp only [Store.linkSupertypes, signed]
          refine (linkSignature_gains _ decl.name signature).mono
            fun name named => ?_
          simp only [ClassDecl.mentions, signed, List.cons_append,
            List.append_assoc]
          exact List.mem_cons_of_mem _
            (List.mem_append_right _
              (List.mem_append_right _ (List.mem_append_left _ named)))
  · exact .refl _ _

/-- The first changes of a header gain its name at most. -/
theorem founding_gains
    (decl : ClassDecl)
    (store : Store) :
    store.Gains decl.mentions (store.replay (founding decl)) := by
  refine Store.gains_replay (fun change member => ?_)
    (fun change member => ?_) store
  · simp only [founding, List.mem_cons, List.not_mem_nil,
      or_false] at member
    rcases member with rfl | rfl <;> trivial
  · simp only [founding, List.mem_cons, List.not_mem_nil,
      or_false] at member
    rcases member with rfl | rfl <;>
      simp [Change.introduces, ClassDecl.mentions]

/-- All changes of a header gain names of the declaration. -/
theorem opening_grown
    (visit : Visit)
    (decl : ClassDecl)
    (store : Store) :
    store.Grown decl.mentions (store.replay (visit.opening decl)) := by
  have claimed :=
    Change.grown_apply (store.replay (founding decl))
      (.claim decl.name decl.category) (by simp)
  have amended :=
    Change.grown_apply
      ((Change.claim decl.name decl.category).apply
        (store.replay (founding decl)))
      (.amend decl.name (.origin visit)) (by simp)
  exact (founding_gains decl store).grown.trans
    ((claimed.mono (by simp [Change.introduces])).trans
      (amended.mono (by simp [Change.introduces])))

/-- The call that brings a header gains names of the declaration. -/
theorem header_grown
    (visit : Visit)
    (atlas : Atlas)
    (decl : ClassDecl) :
    atlas.store.Grown decl.mentions
      (visit.header atlas decl).atlas.store := by
  rcases header_cases visit atlas decl with
    ⟨problem, refused⟩ | ⟨-, -, problem, unclaimed⟩ | ⟨-, -, entered⟩
  · rw [refused]
    exact .refl _ _
  · rw [unclaimed]
    exact (founding_gains decl atlas.store).grown
  · rw [entered]
    exact (opening_grown visit decl atlas.store).trans
      (linkHeader_gains decl _).grown

/-- Entering a declaration brings in names that the declaration mentions. -/
theorem accept_grown
    (visit : Visit)
    (atlas : Atlas)
    (decl : ClassDecl) :
    atlas.store.Grown decl.mentions (visit.accept atlas decl).2.store := by
  rw [accept_eq]
  split
  · exact .refl _ _
  · have opened := header_grown visit atlas decl
    dsimp only
    split
    · exact opened
    · exact opened.trans (enterBody_gains decl
        ((visit.header atlas decl).visit,
          (visit.header atlas decl).atlas)).grown

/-- A header makes its own type visited, if it succeeds, and no other. -/
theorem isVisited_header
    (visit : Visit)
    (atlas : Atlas)
    (decl : ClassDecl)
    (name : TypeName) :
    (visit.header atlas decl).atlas.store.isVisited name = true ↔
      atlas.store.isVisited name = true ∨
        (visit.header atlas decl).answer = .ok name := by
  rcases header_cases visit atlas decl with
    ⟨problem, refused⟩ | ⟨-, -, problem, unclaimed⟩ | ⟨-, -, entered⟩
  · rw [refused]
    simp
  · rw [unclaimed]
    simp [(founding_gains decl atlas.store).visited]
  · have claims :
        (∃ category, Change.claim name category ∈ visit.opening decl) ↔
          decl.name = name := by
      simp only [opening, List.mem_cons, Change.claim.injEq, reduceCtorEq,
        List.not_mem_nil, or_false, false_or, exists_and_left,
        exists_eq, and_true]
      exact eq_comm
    rw [entered]
    simp only [(linkHeader_gains decl _).visited, Except.ok.injEq]
    rw [Store.isVisited_replay (by simp) (grounded_opening visit decl),
      claims]

/-- Entering a declaration makes its own type visited, if it is accepted. -/
theorem isVisited_accept
    (visit : Visit)
    (atlas : Atlas)
    (decl : ClassDecl)
    (name : TypeName) :
    (visit.accept atlas decl).2.store.isVisited name = true ↔
      atlas.store.isVisited name = true ∨
        (visit.accept atlas decl).1 = some name := by
  rw [accept_eq]
  split
  · simp
  · have opened := isVisited_header visit atlas decl name
    dsimp only
    split
    · next problem failed =>
        rw [failed] at opened
        simpa [Atlas.report] using opened
    · next entered succeeded =>
        rw [succeeded] at opened
        have body := enterBody_gains decl
          ((visit.header atlas decl).visit, (visit.header atlas decl).atlas)
        rw [body.visited]
        simpa using opened

/-- A declaration that is accepted is answered with its own name. -/
theorem name_of_accept
    {visit : Visit}
    {atlas : Atlas}
    {decl : ClassDecl}
    {name : TypeName}
    (accepted : (visit.accept atlas decl).1 = some name) :
    decl.name = name := by
  rw [accept_eq] at accepted
  split at accepted
  · simp at accepted
  · rcases header_cases visit atlas decl with
      ⟨problem, refused⟩ | ⟨-, -, problem, unclaimed⟩ | ⟨-, -, entered⟩
    · rw [refused] at accepted
      simp at accepted
    · rw [unclaimed] at accepted
      simp at accepted
    · rw [entered] at accepted
      simpa using accepted

end Visit

end TypeAtlas
