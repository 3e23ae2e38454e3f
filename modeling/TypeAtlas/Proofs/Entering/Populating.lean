import TypeAtlas.Proofs.Entering.Furnishing
import TypeAtlas.Proofs.Session

namespace TypeAtlas

/-!
# Populating by visits

A visit adds annotations and members to the type whose header it has entered,
and a header adds supertypes to its own type. So whatever visits do, alone or
side by side, populates the store, with what the declarations handed in refer
to and nothing else.
-/

/-! ## Steps of a visit -/

namespace Visit

/-- The type that members may be entered for was entered itself. -/
def Serves
    (visit : Visit)
    (store : Store) :
    Prop :=
  ∀ current, visit.openMembers? = some current →
    ∃ owner : ClassDecl,
      store.Entered owner ∧
        owner.name = current.name ∧
        owner.category = current.category

/-- A visit serves its type as long as the type is not given up. -/
theorem Serves.evolves
    {visit : Visit}
    {first last : Store}
    (serves : visit.Serves first)
    (evolves : Store.Evolves first last) :
    visit.Serves last := by
  intro current opened
  obtain ⟨owner, entered, same⟩ := serves current opened
  exact ⟨owner, entered.evolves evolves, same⟩

/-- A visit that stays with its type serves it, whatever else it notes. -/
theorem Serves.stay
    {visit other : Visit}
    {store : Store}
    (serves : visit.Serves store)
    {current : Current}
    (opened : visit.openMembers? = some current)
    (stays :
      ∀ later, other.openMembers? = some later →
        later.name = current.name ∧ later.category = current.category) :
    other.Serves store := by
  intro later reopened
  obtain ⟨owner, entered, named, category⟩ := serves current opened
  obtain ⟨sameName, sameCategory⟩ := stays later reopened
  exact ⟨owner, entered, named.trans sameName.symm,
    category.trans sameCategory.symm⟩

/-- A step populates the store, and leaves a visit that serves its type. -/
structure Keeps
    (origins : List Origin)
    (store : Store)
    (state : Visit × Atlas) :
    Prop where
  populates : store.Populates origins state.2.store
  serves : state.1.Serves state.2.store

theorem Keeps.trans
    {origins : List Origin}
    {store : Store}
    {state later : Visit × Atlas}
    (first : Keeps origins store state)
    (second : Keeps origins state.2.store later) :
    Keeps origins store later :=
  ⟨first.populates.trans second.populates, second.serves⟩

/--
A step that populates the store keeps all, if the visit goes on with its type.
-/
theorem Keeps.of_populates
    {origins : List Origin}
    {visit other : Visit}
    {before after : Atlas}
    (serves : visit.Serves before.store)
    {current : Current}
    (opened : visit.openMembers? = some current)
    (populates : before.store.Populates origins after.store)
    (stays :
      ∀ later, other.openMembers? = some later →
        later.name = current.name ∧ later.category = current.category) :
    Keeps origins before.store (other, after) :=
  ⟨populates, (serves.stay opened stays).evolves populates.evolves⟩

variable
  {origins : List Origin}
  {visit : Visit}
  {atlas : Atlas}

/-- A call that brings an annotation keeps what references stand for. -/
theorem annotate_keeps
    (closed : atlas.store.Closed origins)
    (serves : visit.Serves atlas.store)
    {decl : AnnotationDecl}
    (listed : ∀ origin ∈ decl.origins, origin ∈ origins) :
    Keeps origins atlas.store
      ((visit.annotate atlas decl).visit,
        (visit.annotate atlas decl).atlas) := by
  unfold annotate
  cases reached : visit.progress with
  | start | members _ | ended =>
      exact ⟨.refl _, serves⟩
  | header current =>
      have opened : visit.openMembers? = some current := by
        simp [openMembers?, reached]
      obtain ⟨owner, entered, named, -⟩ := serves current opened
      dsimp only
      split
      · exact ⟨.refl _, serves⟩
      · rw [← named]
        refine .of_populates serves opened
          (Filing.annotateOwner_populates ⟨closed, entered⟩ listed) ?_
        simp [openMembers?, named]

/-- A call that brings a field keeps what references stand for. -/
theorem field_keeps
    (closed : atlas.store.Closed origins)
    (serves : visit.Serves atlas.store)
    {decl : FieldDecl}
    (listed : ∀ origin ∈ decl.origins, origin ∈ origins) :
    Keeps origins atlas.store
      ((visit.field atlas decl).visit, (visit.field atlas decl).atlas) := by
  unfold field
  cases opened : visit.openMembers? with
  | none =>
      exact ⟨.refl _, serves⟩
  | some current =>
      obtain ⟨owner, entered, named, category⟩ := serves current opened
      have unchanged :
          Keeps origins atlas.store
            ({ visit with progress := .members current }, atlas) :=
        .of_populates serves opened (.refl _) (by simp [openMembers?])
      dsimp only
      split
      · exact unchanged
      · split
        · split <;> exact unchanged
        · next extensible =>
            have fits : owner.category.isExtensible = true := by
              rw [category, ← Bool.not_eq_false,
                Category.isExtensible_eq_false_iff]
              exact extensible
            rw [← named]
            exact .of_populates serves opened
              (Filing.enterField_populates ⟨closed, entered⟩ fits _ listed)
              (by simp [openMembers?])

/-- A call that brings a method keeps what references stand for. -/
theorem method_keeps
    (closed : atlas.store.Closed origins)
    (serves : visit.Serves atlas.store)
    {decl : MethodDecl}
    (listed : ∀ origin ∈ decl.origins, origin ∈ origins) :
    Keeps origins atlas.store
      ((visit.method atlas decl).visit, (visit.method atlas decl).atlas) := by
  unfold method
  cases opened : visit.openMembers? with
  | none =>
      exact ⟨.refl _, serves⟩
  | some current =>
      obtain ⟨name, category, deep, merging⟩ := current
      obtain ⟨owner, entered, rfl, rfl⟩ := serves _ opened
      have ready : atlas.store.Ready origins owner := ⟨closed, entered⟩
      dsimp only
      split
      · exact .of_populates serves opened (.refl _) (by simp [openMembers?])
      · have recorded :
            atlas.store.Populates origins
              (if owner.category = .annotationType then
                (atlas.file (Filing.enterDefault owner.name decl)).2
              else
                atlas).store := by
          split
          · exact Filing.enterDefault_populates ready listed
          · exact .refl _
        split
        · exact .of_populates serves opened
            (recorded.trans (Filing.enterMethod_populates
              (ready.populates recorded) _ listed))
            (by simp [openMembers?])
        · exact .of_populates serves opened recorded (by simp [openMembers?])

/-- The call that ends a visit keeps all there is. -/
theorem finish_keeps
    (serves : visit.Serves atlas.store) :
    Keeps origins atlas.store
      ((visit.finish atlas).visit, (visit.finish atlas).atlas) := by
  unfold finish
  cases opened : visit.openMembers? with
  | none =>
      exact ⟨.refl _, serves⟩
  | some current =>
      exact .of_populates serves opened (.refl _) (by simp [openMembers?])

/-! ## Rows of steps -/

/-- A call keeps all that it would if it were not refused. -/
theorem settle_keeps
    {store : Store}
    {outcome : Outcome α}
    (keeps : Keeps origins store (outcome.visit, outcome.atlas)) :
    Keeps origins store (settle outcome) := by
  unfold settle
  split
  · exact keeps
  · exact ⟨keeps.populates, keeps.serves⟩

/-- What each step of a row keeps, the whole row keeps. -/
theorem Keeps.settleAll
    {store : Store}
    {state : Visit × Atlas}
    (before : Keeps origins store state)
    (closed : store.Closed origins)
    {step : Visit → Atlas → δ → Outcome α}
    {decls : List δ}
    (keeps :
      ∀ {visit atlas}, atlas.store.Closed origins →
        visit.Serves atlas.store → ∀ decl ∈ decls,
          Keeps origins atlas.store
            ((step visit atlas decl).visit, (step visit atlas decl).atlas)) :
    Keeps origins store (settleAll step decls state) := by
  induction decls generalizing state with
  | nil =>
      exact before
  | cons decl decls inductionHypothesis =>
      have first := settle_keeps
        (keeps (before.populates.closed closed) before.serves decl (by simp))
      exact inductionHypothesis (before.trans first)
        fun closed serves other member =>
          keeps closed serves other (List.mem_cons_of_mem _ member)

/-- The members of a declaration keep what references stand for. -/
theorem enterBody_keeps
    {decl : ClassDecl}
    (listed : ∀ origin ∈ decl.bodyOrigins, origin ∈ origins)
    {state : Visit × Atlas}
    (closed : state.2.store.Closed origins)
    (serves : state.1.Serves state.2.store) :
    Keeps origins state.2.store (enterBody decl state) := by
  simp only [ClassDecl.bodyOrigins, List.mem_append,
    List.mem_flatMap] at listed
  have start : Keeps origins state.2.store state := ⟨.refl _, serves⟩
  have annotated :=
    start.settleAll closed fun closed serves annotationDecl member =>
      annotate_keeps closed serves fun origin inside =>
        listed origin (Or.inl (Or.inl ⟨annotationDecl, member, inside⟩))
  have fields :=
    annotated.settleAll closed fun closed serves field member =>
      field_keeps closed serves fun origin inside =>
        listed origin (Or.inl (Or.inr ⟨field, member, inside⟩))
  have methods :=
    fields.settleAll closed fun closed serves method member =>
      method_keeps closed serves fun origin inside =>
        listed origin (Or.inr ⟨method, member, inside⟩)
  exact methods.trans (settle_keeps (finish_keeps methods.serves))

/-! ## Headers -/

/-- Linking a superclass populates the store from the header's origins. -/
theorem linkSuperclass_populates
    (store : Store)
    {decl : ClassDecl}
    (listed : ∀ origin ∈ decl.headerOrigins, origin ∈ origins) :
    store.Populates origins (store.linkSuperclass decl).1 := by
  unfold Store.linkSuperclass
  cases named : decl.superName with
  | none =>
      exact .refl store
  | some parent =>
      have listedParent : .supertype parent ∈ origins :=
        listed _ (by simp [ClassDecl.headerOrigins, named])
      simp only [Store.linkParent_eq]
      split
      · exact .refl store
      · next tracked =>
          have mentioned :
              store.Populates origins
                (store.mention parent (some .classType)) :=
            .single (.mention parent (some .classType)) trivial trivial
          split
          · exact mentioned
          · next free =>
              rw [not_or, Bool.not_eq_true] at free
              have present :
                  parent ∈
                    (store.mention parent (some .classType)).names :=
                Store.mem_names_mention.mpr (Or.inr ⟨rfl, tracked⟩)
              refine mentioned.trans (.change (.link decl.name parent)
                listedParent ⟨present, free.1, free.2⟩ ?_)
              dsimp only [Store.linked]
              split
              · exact .single (.mark parent (.subType decl.name)) id trivial
              · exact .refl _

/-- Linking an interface populates the store from the interface's origin. -/
theorem linkInterface_populates
    {store : Store}
    {decl : ClassDecl}
    (entered : store.Entered decl)
    {interface : TypeName}
    (listed : .supertype interface ∈ origins) :
    store.Populates origins
      (store.linkInterface decl.name decl.category interface) := by
  have mentioned :
      store.Populates origins
        (store.mention interface (some .interfaceType)) :=
    .single (.mention interface (some .interfaceType)) trivial trivial
  have plain :
      ¬ (interfaceMark decl.name decl.category).LeadsToElement := by
    unfold interfaceMark
    split <;> exact id
  have marked :
      (store.mention interface (some .interfaceType)).Populates origins
        ((store.mention interface (some .interfaceType)).replay
          (if interface = TypeName.root then
            []
          else
            [.mark interface (interfaceMark decl.name decl.category)])) := by
    split
    · exact .refl _
    · exact .single (.mark interface _) plain trivial
  have both := mentioned.trans marked
  rw [Store.linkInterface_eq_replay, interfaceScript, Store.replay_cons,
    Store.replay_append]
  refine both.trans (.heading (entered.evolves both.evolves)
    (.interface interface) id fun reference member => ?_)
  rw [List.mem_singleton.mp member]
  refine Store.Admits.replay ⟨fun tracked => ?_, _, listed, rfl⟩ _
  exact Store.mem_names_mention.mpr
    (Or.inr ⟨rfl, (Reference.tracked_toType interface).mp tracked⟩)

/-- So do all interfaces, one after the other. -/
theorem linkInterfaces_populates
    {decl : ClassDecl}
    {interfaces : List TypeName}
    (listed : ∀ interface ∈ interfaces, .supertype interface ∈ origins)
    {store : Store}
    (entered : store.Entered decl) :
    store.Populates origins
      (interfaces.foldl (·.linkInterface decl.name decl.category ·) store) := by
  induction interfaces generalizing store with
  | nil =>
      exact .refl store
  | cons interface interfaces inductionHypothesis =>
      have first := linkInterface_populates entered (listed interface (by simp))
      exact first.trans (inductionHypothesis
        (fun other member => listed other (List.mem_cons_of_mem _ member))
        (entered.evolves first.evolves))

/-- What a class signature resolves to populates the store from its origins. -/
theorem linkSignature_populates
    {store : Store}
    {decl : ClassDecl}
    (entered : store.Entered decl)
    {signature : String}
    (listed :
      ∀ origin ∈ Signature.origins Signature.traceClass (some signature),
        origin ∈ origins) :
    store.Populates origins (store.linkSignature decl.name signature) := by
  have reads : Filing.ReadsAt store (Filing.resolveClass signature) _ :=
    Filing.resolveClass_reads listed
  obtain ⟨hints, left, within⟩ := reads
  have mentioned : store.Populates origins (store.replay (mentions hints)) :=
    .mentions hints store
  unfold Store.linkSignature
  cases ran : (Filing.resolveClass signature).run store with
  | mk resolved after =>
      rw [ran] at left within
      obtain rfl : after = store.replay (mentions hints) := left
      cases resolved with
      | none =>
          exact mentioned
      | some generics =>
          obtain ⟨superclass, interfaces, formals⟩ := within generics rfl
          refine mentioned.trans (.heading (entered.evolves mentioned.evolves)
            (.generics generics) id fun reference member => ?_)
          simp only [Amendment.references, Formals.references,
            List.mem_append, List.mem_flatMap, Option.mem_toList] at member
          rcases member with (⟨generic, known, inside⟩ |
            ⟨generic, known, inside⟩) | ⟨formal, known, inside⟩
          · exact superclass generic known reference inside
          · exact interfaces generic known reference inside
          · exact formals formal known reference inside

/-- The supertypes of an entered type are added one after another. -/
theorem linkHeader_populates
    {store : Store}
    {decl : ClassDecl}
    (entered : store.Entered decl)
    (listed : ∀ origin ∈ decl.headerOrigins, origin ∈ origins) :
    store.Populates origins (linkHeader decl store).1 := by
  unfold linkHeader
  split
  · have superclass := linkSuperclass_populates store listed
    have extended := entered.evolves superclass.evolves
    have named :
        ∀ interface ∈ decl.interfaces, .supertype interface ∈ origins :=
      fun interface member => listed _
        (by simp [ClassDecl.headerOrigins, member])
    have interfaces := linkInterfaces_populates named extended
    refine superclass.trans (interfaces.trans ?_)
    cases signed : decl.signature with
    | none =>
        simp only [Store.linkSupertypes, signed]
        exact .refl _
    | some signature =>
        simp only [Store.linkSupertypes, signed]
        refine linkSignature_populates (extended.evolves interfaces.evolves)
          fun origin member => listed origin ?_
        simp [ClassDecl.headerOrigins, signed, member]
  · exact .refl store

/-- The call that brings a header populates the store and serves its type. -/
theorem header_keeps
    (serves : visit.Serves atlas.store)
    {decl : ClassDecl}
    (listed : ∀ origin ∈ decl.headerOrigins, origin ∈ origins) :
    Keeps origins atlas.store
      ((visit.header atlas decl).visit, (visit.header atlas decl).atlas) := by
  have founded :
      (Change.file decl.name decl.category).Allowed atlas.store →
        atlas.store.Populates origins
          (atlas.store.replay (founding decl)) :=
    fun filed => .change (.file decl.name decl.category) trivial filed
      (.single (.found decl.name decl.category) trivial trivial)
  rcases header_cases visit atlas decl with
    ⟨problem, refused⟩ | ⟨filed, -, problem, unclaimed⟩ |
      ⟨filed, claimed, entered⟩
  · rw [refused]
    exact ⟨.refl _, serves⟩
  · rw [unclaimed]
    exact ⟨founded filed, serves.evolves (founded filed).evolves⟩
  · rw [entered]
    have opened :
        (atlas.store.replay (founding decl)).Populates origins
          (atlas.store.replay (visit.opening decl)) :=
      .change (.claim decl.name decl.category) trivial claimed
        (.heading (entered_claim claimed) (.origin visit) id
          (by simp [Amendment.references]))
    have linked :=
      linkHeader_populates (entered_opening visit claimed) listed
    refine ⟨(founded filed).trans (opened.trans linked), ?_⟩
    rintro current ⟨⟩
    exact ⟨decl, (entered_opening visit claimed).evolves linked.evolves,
      rfl, rfl⟩

/-- A visit populates the store from the origins of its declaration. -/
theorem accept_populates
    (closed : atlas.store.Closed origins)
    (serves : visit.Serves atlas.store)
    {decl : ClassDecl}
    (headed : ∀ origin ∈ decl.headerOrigins, origin ∈ origins)
    (listed : ∀ origin ∈ decl.bodyOrigins, origin ∈ origins) :
    atlas.store.Populates origins (visit.accept atlas decl).2.store := by
  rw [accept_eq]
  split
  · exact .refl _
  · have opened := header_keeps serves headed
    dsimp only
    split
    · exact opened.populates
    · have body := enterBody_keeps listed
        (opened.populates.closed closed) opened.serves
      exact opened.populates.trans body.populates

end Visit

/-! ## Sessions -/

/-- Where an act names types. -/
def Act.origins : Act → List Origin
  | .header _ decl => decl.headerOrigins
  | .annotate _ decl => decl.origins
  | .field _ decl => decl.origins
  | .method _ decl => decl.origins
  | .accept _ decl => decl.headerOrigins ++ decl.bodyOrigins
  | _ => []

namespace Session

variable {origins : List Origin} {session : Session}

/-- All references are accounted for, and all visits serve their types. -/
structure Sound
    (origins : List Origin)
    (session : Session) :
    Prop where
  closed : session.atlas.store.Closed origins
  serves : ∀ visit ∈ session.visits, visit.Serves session.atlas.store

/-- The empty session refers to nothing. -/
theorem sound_empty :
    Sound origins {} :=
  ⟨.empty, by simp⟩

/-- A session stays sound when its store is populated and its visits serve. -/
theorem Sound.populates
    {after : Session}
    (sound : session.Sound origins)
    (populates :
      session.atlas.store.Populates origins after.atlas.store)
    (serves :
      ∀ visit ∈ after.visits,
        visit ∈ session.visits ∨ visit.Serves after.atlas.store) :
    after.Sound origins := by
  refine ⟨populates.closed sound.closed, fun visit member => ?_⟩
  rcases serves visit member with old | new
  · exact (sound.serves visit old).evolves populates.evolves
  · exact new

/-- What a session does to its store, with all it stands for kept. -/
structure Advances
    (origins : List Origin)
    (session after : Session) :
    Prop where
  populates : session.atlas.store.Populates origins after.atlas.store
  sound : after.Sound origins

/-- The visits stay as they are. -/
theorem Sound.advances
    {after : Session}
    (sound : session.Sound origins)
    (populates :
      session.atlas.store.Populates origins after.atlas.store)
    (visits : after.visits = session.visits) :
    session.Advances origins after :=
  ⟨populates, sound.populates populates fun _ member =>
    Or.inl (visits ▸ member)⟩

/-- A call of a visit keeps a session sound if it keeps what the visit needs. -/
theorem Sound.proceed
    (sound : session.Sound origins)
    (place : Nat)
    (step : Visit → Atlas → Outcome α)
    (keeps :
      ∀ visit, visit.Serves session.atlas.store →
        Visit.Keeps origins session.atlas.store
          ((step visit session.atlas).visit,
            (step visit session.atlas).atlas)) :
    session.Advances origins (session.proceed place step) := by
  unfold Session.proceed
  split
  · exact ⟨.refl _, sound⟩
  · next visit here =>
      have kept := keeps visit (sound.serves visit (List.mem_of_getElem? here))
      refine ⟨kept.populates, sound.populates kept.populates ?_⟩
      intro other member
      rcases List.mem_or_eq_of_mem_set member with old | rfl
      · exact Or.inl old
      · exact Or.inr kept.serves

/-- Every act populates with what it hands in. -/
theorem Sound.step
    (sound : session.Sound origins)
    {act : Act}
    (listed : ∀ origin ∈ act.origins, origin ∈ origins) :
    session.Advances origins (session.step act) := by
  cases act with
  | configure settings =>
      exact sound.advances (.refl _) rfl
  | mention name hint =>
      exact sound.advances (.single (.mention name hint) trivial trivial) rfl
  | define name category =>
      simp only [Session.step]
      split
      · next store defined =>
          obtain ⟨allowed, rfl⟩ := Store.define_eq_ok_iff.mp defined
          exact sound.advances
            (.single (.file name category) trivial allowed) rfl
      · exact ⟨.refl _, sound⟩
  | take =>
      simp only [Session.step]
      split
      · next taken =>
          rw [Store.nextPending?_eq_take taken]
          exact sound.advances (.single .take trivial trivial) rfl
      · exact ⟨.refl _, sound⟩
  | drain mentions =>
      obtain ⟨script, drains, replayed⟩ :=
        session.atlas.store.drain_scripted mentions
      simp only [Session.step, replayed]
      refine sound.advances (.replay (fun change member => ?_) _) rfl
      cases change with
      | mention _ _ | take =>
          exact ⟨trivial, fun _ => trivial⟩
      | file _ _ | found _ _ | claim _ _ | link _ _ | mark _ _ | amend _ _ =>
          exact (drains _ member).elim
  | visit location isApplication =>
      refine ⟨.refl _, sound.populates (.refl _) fun visit member => ?_⟩
      rcases List.mem_append.mp member with old | new
      · exact Or.inl old
      · rw [List.mem_singleton.mp new]
        exact Or.inr (by simp [Visit.Serves, Visit.openMembers?])
  | header place decl =>
      exact sound.proceed place (·.header · decl) fun _ serves =>
        Visit.header_keeps serves listed
  | annotate place decl =>
      exact sound.proceed place (·.annotate · decl) fun _ serves =>
        Visit.annotate_keeps sound.closed serves listed
  | field place decl =>
      exact sound.proceed place (·.field · decl) fun _ serves =>
        Visit.field_keeps sound.closed serves listed
  | method place decl =>
      exact sound.proceed place (·.method · decl) fun _ serves =>
        Visit.method_keeps sound.closed serves listed
  | finish place =>
      exact sound.proceed place (·.finish ·) fun _ serves =>
        Visit.finish_keeps serves
  | accept place decl =>
      simp only [Session.step, enterAt]
      split
      · exact ⟨.refl _, sound⟩
      · next visit here =>
          refine sound.advances (Visit.accept_populates sound.closed
            (sound.serves visit (List.mem_of_getElem? here)) ?_ ?_) rfl
          · exact fun origin member =>
              listed origin (List.mem_append_left _ member)
          · exact fun origin member =>
              listed origin (List.mem_append_right _ member)

/-- A session populates with what all its acts hand in. -/
theorem Sound.run
    (sound : session.Sound origins)
    {acts : List Act}
    (listed : ∀ act ∈ acts, ∀ origin ∈ act.origins, origin ∈ origins) :
    session.Advances origins (session.run acts) := by
  induction acts generalizing session with
  | nil =>
      exact ⟨.refl _, sound⟩
  | cons act acts inductionHypothesis =>
      have first := sound.step (listed act (by simp))
      have rest := inductionHypothesis first.sound fun other member =>
        listed other (List.mem_cons_of_mem _ member)
      exact ⟨first.populates.trans rest.populates, rest.sound⟩

/-- The store of a session is populated from the empty one. -/
theorem run_populates
    (acts : List Act) :
    Store.Populates (acts.flatMap Act.origins) {}
      (run {} acts).atlas.store :=
  (sound_empty.run fun act member _ inside =>
    List.mem_flatMap.mpr ⟨act, member, inside⟩).populates

end Session

end TypeAtlas
