import TypeAtlas.Proofs.Entering.Comparison
import TypeAtlas.Proofs.Entering.Skipping
import TypeAtlas.Proofs.Store.Settled

namespace TypeAtlas

/-!
# What the settings have an effect on

The same declarations are entered in the same order under two settings. The two
runs go in step: they accept the same declarations, and their stores differ in
members only. Settings that keep no more members than others, and look at the
members of no other types, lead to a part of the members, in the same order.
-/

/-- Settings that ask for no other members than others do. -/
structure Settings.Narrower
    (settings other : Settings) :
    Prop where
  keeps : settings.keepUnannotated = true → other.keepUnannotated = true
  interest :
    other.interest = [] ∨
      ∀ name, name ∈ other.interest ↔ name ∈ settings.interest

/-! ## Decisions -/

namespace Store.Agrees

variable {store other : Store}

/-- The superclass of a type is part of its sketch. -/
theorem parent?
    (agrees : store.Agrees other)
    (name : TypeName) :
    (store.node? name).bind (·.lineage.parent) =
      (other.node? name).bind (·.lineage.parent) := by
  have same := congrArg (Option.bind · (·.lineage.parent))
    (agrees.outline? name)
  simpa [Option.bind_map, Function.comp_def] using same

/-- So is whether a type inherits from another one. -/
theorem inheritsFrom
    (agrees : store.Agrees other)
    (start name : TypeName) :
    store.inheritsFrom start name = other.inheritsFrom start name := by
  have parents : store.parentOf = other.parentOf := by
    funext child
    simp only [parentOf, agrees.parent?, agrees.isSome_node?]
  rw [Bool.eq_iff_iff, inheritsFrom_iff, inheritsFrom_iff, parents,
    agrees.isSome_node?]

/-- Agreeing stores have the same formals in scope. -/
theorem formalsOf
    (agrees : store.Agrees other)
    (name : TypeName) :
    store.formalsOf name = other.formalsOf name := by
  rw [Store.formalsOf, Store.formalsOf,
    agrees.congrOutline (·.lineage.formals) (by simp) name]

/-- A declaration that is filed in one store is filed in the other. -/
theorem file_allowed
    (agrees : store.Agrees other)
    {name : TypeName}
    {category : Category}
    (allowed : (Change.file name category).Allowed store) :
    (Change.file name category).Allowed other := by
  refine ⟨allowed.1, fun node given => ?_⟩
  obtain ⟨entry, found, old, -⟩ := exists_of_visitedNode? given
  have visited : other.isVisited name = true := by
    simp [Store.isVisited, found, old]
  have same := agrees.congrOutline Node.category (by simp) name
  rw [visitedNode?_of_visited visited] at given
  rw [given, Option.map_some, Option.map_eq_some_iff] at same
  obtain ⟨before, here, category⟩ := same
  rw [← category]
  rw [← agrees.isVisited] at visited
  exact allowed.2 before ((visitedNode?_of_visited visited).trans here)

/-- Whether a declaration claims its type is decided on sketches. -/
theorem claim_allowed_iff
    (agrees : store.Agrees other)
    (decl : ClassDecl) :
    (Change.claim decl.name decl.category).Allowed
        (store.replay (Visit.founding decl)) ↔
      (Change.claim decl.name decl.category).Allowed
        (other.replay (Visit.founding decl)) := by
  have category := agrees.congrOutline Node.category (by simp) decl.name
  have kind := agrees.congrOutline Node.isExtensible (by simp) decl.name
  simp only [Visit.claim_allowed_iff, agrees.isVisited]
  rw [← Option.getD_map Node.category, ← Option.getD_map Node.isExtensible,
    category, kind, Option.getD_map, Option.getD_map]

end Store.Agrees

/-! ## Headers -/

/-- A script that adds nothing that counts as a member adds no member. -/
theorem Visit.HeadScript.keepsMembers
    {owner : TypeName}
    {script : List Change}
    (head : HeadScript owner script) :
    ∀ change ∈ script, change.KeepsMembers := by
  intro change member
  cases change with
  | amend name amendment =>
      have other := head.noMember name amendment member
      cases amendment with
      | origin _ | interface _ | generics _ =>
          exact ⟨fun _ => rfl, rfl⟩
      | use _ | field _ | method _ | default _ _ =>
          exact absurd trivial other
  | mention _ _ | file _ _ | found _ _ | claim _ _ | link _ _ | mark _ _
  | take =>
      trivial

namespace Store.Parallels

variable {fewer : Prop} {known : List TypeName} {store other : Store}

/-- A superclass that is accepted is the superclass in both stores or in none. -/
theorem linked
    (parallels : Parallels fewer known store other)
    {name parent : TypeName}
    (present : name ∈ known)
    (parentPresent : parent ∈ known) :
    Parallels fewer known (store.linked name parent)
      (other.linked name parent) := by
  have links := parallels.apply (.link name parent)
    (by simp [Change.expects, present, parentPresent]) trivial
  have marks := links.apply (.mark parent (.subType name))
    (by simp [Change.expects, parentPresent]) trivial
  unfold Store.linked
  dsimp only
  rw [links.agrees.parent? name]
  split
  · exact marks.of_append.of_append
  · exact links.of_append

/-- A superclass is refused in both stores or in none. -/
theorem linkSuperclass
    (parallels : Parallels fewer known store other)
    {decl : ClassDecl}
    (present : decl.name ∈ known) :
    Parallels fewer known (store.linkSuperclass decl).1
      (other.linkSuperclass decl).1 := by
  unfold Store.linkSuperclass
  cases decl.superName with
  | none =>
      exact parallels
  | some parent =>
      have mentions := parallels.apply (.mention parent (some .classType))
        (by simp [Change.expects]) trivial
      have decided := mentions.agrees.inheritsFrom parent decl.name
      simp only [Change.apply] at mentions decided
      simp only [linkParent_eq, decided]
      split
      · exact parallels
      · next tracked =>
          split
          · exact mentions.of_append
          · have linked := mentions.linked
              (by simp [present] : decl.name ∈ _)
              (by simp [Change.introduces, tracked] : parent ∈ _)
            exact linked.of_append

/-- The supertypes of a declaration are linked on both sides. -/
theorem linkHeader
    (parallels : Parallels fewer known store other)
    {decl : ClassDecl}
    (present : decl.name ∈ known) :
    Parallels fewer known (Visit.linkHeader decl store).1
      (Visit.linkHeader decl other).1 := by
  unfold Visit.linkHeader
  split
  · obtain ⟨script, head, replayed⟩ :=
      linkSupertypes_scripted decl.category decl
    have supers := parallels.linkSuperclass present
    simp only [replayed]
    have rest := supers.replay (head.grounded.mono (by simpa using present))
      head.keepsMembers
    exact rest.of_append
  · exact parallels

end Store.Parallels

/-! ## Visits in step -/

/-- Two atlases under two settings, with stores that differ in members only. -/
structure Atlas.Parallels
    (settings other : Settings)
    (known : List TypeName)
    (atlas otherAtlas : Atlas) :
    Prop where
  ruled : atlas.settings = settings
  otherRuled : otherAtlas.settings = other
  stores :
    Store.Parallels (settings.Narrower other) known atlas.store
      otherAtlas.store

/-- A type that is being entered under two settings. -/
structure Current.InStep
    (settings other : Settings)
    (owner : TypeName)
    (current otherCurrent : Current) :
    Prop where
  name : current.name = owner
  otherName : otherCurrent.name = owner
  category : otherCurrent.category = current.category
  merging : otherCurrent.merging = current.merging
  deeper :
    settings.Narrower other → current.deep = true → otherCurrent.deep = true
  always : other.alwaysDeep = true → otherCurrent.deep = true

/-- An annotation opens the way to members under wider settings if it does so. -/
theorem Current.InStep.look
    {settings other : Settings}
    {owner : TypeName}
    {current otherCurrent : Current}
    (currents : InStep settings other owner current otherCurrent)
    (name : TypeName) :
    InStep settings other owner
      { current with deep := current.deep || settings.isOfInterest name }
      { otherCurrent with
        deep := otherCurrent.deep || other.isOfInterest name } := by
  refine { currents with
    deeper := fun narrower deep => ?_
    always := fun every => ?_ }
  · simp only [Bool.or_eq_true] at deep ⊢
    rcases deep with before | interesting
    · exact Or.inl (currents.deeper narrower before)
    · rcases narrower.interest with every | same
      · exact Or.inl (currents.always (by simp [Settings.alwaysDeep, every]))
      · simp only [Settings.isOfInterest, List.contains_iff_mem] at interesting ⊢
        exact Or.inr ((same name).mpr interesting)
  · simp only [Bool.or_eq_true]
    exact Or.inl (currents.always every)

/-- Two visits that have come equally far with their types. -/
inductive Progress.Alike
    (current otherCurrent : Current) :
    Progress → Progress → Prop where
  | header : Alike current otherCurrent (.header current) (.header otherCurrent)
  | members :
      Alike current otherCurrent (.members current) (.members otherCurrent)

/-- Visits that have come equally far have members open together. -/
theorem Progress.Alike.openMembers?
    {current otherCurrent : Current}
    {visit otherVisit : Visit}
    (alike :
      Alike current otherCurrent visit.progress otherVisit.progress) :
    visit.openMembers? = some current ∧
      otherVisit.openMembers? = some otherCurrent := by
  obtain ⟨location, isApplication, progress⟩ := visit
  obtain ⟨otherLocation, otherIsApplication, otherProgress⟩ := otherVisit
  cases alike <;> exact ⟨rfl, rfl⟩

namespace Visit

/-- Two runs of the same visit, under two settings. -/
structure InStep
    (settings other : Settings)
    (owner : TypeName)
    (state otherState : Visit × Atlas) :
    Prop where
  atlases : Atlas.Parallels settings other [owner] state.2 otherState.2
  visits :
    ∃ current otherCurrent,
      Current.InStep settings other owner current otherCurrent ∧
        Progress.Alike current otherCurrent state.1.progress
          otherState.1.progress

namespace InStep

variable {settings other : Settings} {owner : TypeName}

/-- Problems are kept beside the store. -/
theorem settle
    {outcome : Outcome α}
    {otherOutcome : Outcome α}
    (inStep :
      InStep settings other owner (outcome.visit, outcome.atlas)
        (otherOutcome.visit, otherOutcome.atlas)) :
    InStep settings other owner (Visit.settle outcome)
      (Visit.settle otherOutcome) := by
  obtain ⟨⟨ruled, otherRuled, stores⟩, visits⟩ := inStep
  unfold Visit.settle
  split <;> split <;> exact ⟨⟨ruled, otherRuled, stores⟩, visits⟩

/-- Steps that keep two runs in step keep them so one after another. -/
theorem settleAll
    {step : Visit → Atlas → δ → Outcome α}
    (keeps :
      ∀ {visit otherVisit : Visit} {atlas otherAtlas : Atlas} (decl : δ),
        InStep settings other owner (visit, atlas) (otherVisit, otherAtlas) →
          let outcome := step visit atlas decl
          let otherOutcome := step otherVisit otherAtlas decl
          InStep settings other owner (outcome.visit, outcome.atlas)
            (otherOutcome.visit, otherOutcome.atlas))
    (decls : List δ)
    {state otherState : Visit × Atlas}
    (inStep : InStep settings other owner state otherState) :
    InStep settings other owner (Visit.settleAll step decls state)
      (Visit.settleAll step decls otherState) := by
  induction decls generalizing state otherState with
  | nil =>
      exact inStep
  | cons decl decls inductionHypothesis =>
      exact inductionHypothesis (keeps decl inStep).settle

end InStep

/-! ## Annotations -/

/-- Recording an annotation keeps the members. -/
theorem keepsMembers_useScript
    (owner : TypeName)
    (use : AnnotationUse)
    (hints : List Hint) :
    ∀ change ∈ useScript owner use hints, change.KeepsMembers := by
  intro change member
  simp only [useScript, List.mem_append] at member
  rcases member with mentioned | marked | amended
  · obtain ⟨name, hint, rfl⟩ := eq_mention_of_mem_mentions mentioned
    trivial
  · obtain ⟨_, -, rfl⟩ := List.mem_map.mp marked
    trivial
  · rw [List.mem_singleton.mp amended]
    exact ⟨fun _ => rfl, rfl⟩

/-- A call that brings an annotation keeps both sides in step. -/
theorem annotate_inStep
    {settings other : Settings}
    {owner : TypeName}
    {visit otherVisit : Visit}
    {atlas otherAtlas : Atlas}
    (decl : AnnotationDecl)
    (inStep :
      InStep settings other owner (visit, atlas) (otherVisit, otherAtlas)) :
    let outcome := visit.annotate atlas decl
    let otherOutcome := otherVisit.annotate otherAtlas decl
    InStep settings other owner (outcome.visit, outcome.atlas)
      (otherOutcome.visit, otherOutcome.atlas) := by
  obtain ⟨location, isApplication, progress⟩ := visit
  obtain ⟨otherLocation, otherIsApplication, otherProgress⟩ := otherVisit
  obtain ⟨current, otherCurrent, currents, alike⟩ := inStep.visits
  cases alike with
  | members =>
      exact inStep
  | header =>
      cases merging : current.merging with
      | true =>
          have otherMerging := currents.merging.trans merging
          dsimp only
          rw [annotate_idle rfl merging, annotate_idle rfl otherMerging]
          exact inStep
      | false =>
          have otherMerging := currents.merging.trans merging
          obtain ⟨use, hints, noted, names⟩ := Filing.takeUse_notes decl
          dsimp only
          rw [annotate_eq rfl merging currents.name atlas noted,
            annotate_eq rfl otherMerging currents.otherName otherAtlas noted]
          obtain ⟨ruled, otherRuled, stores⟩ := inStep.atlases
          have changed := stores.replay (bodyScript_useScript names).grounded
            (keepsMembers_useScript owner use hints)
          refine ⟨⟨ruled, otherRuled, changed.of_append⟩, _, _, ?_, .header⟩
          dsimp only at ruled otherRuled
          rw [ruled, otherRuled]
          exact currents.look use.type.name

/-! ## Fields -/

/-- The fields that a declaration adds to the type that is being entered. -/
def fieldDrafts
    (settings : Settings)
    (formals : Formals)
    (current : Current)
    (decl : FieldDecl) :
    List Field :=
  if current.merging || !current.deep || decl.isSynthetic
      || current.category = .annotationType then
    []
  else
    decl.drafts formals settings

/-- Narrower settings keep some of the drafts of a field. -/
theorem fieldDrafts_sublist
    {settings other : Settings}
    {owner : TypeName}
    {current otherCurrent : Current}
    (currents : Current.InStep settings other owner current otherCurrent)
    (narrower : settings.Narrower other)
    (formals : Formals)
    (decl : FieldDecl) :
    (fieldDrafts settings formals current decl).Sublist
      (fieldDrafts other formals otherCurrent decl) := by
  unfold fieldDrafts
  split
  · exact List.nil_sublist _
  · next entered =>
      have deeper := currents.deeper narrower
      rw [if_neg (by simp_all [currents.merging, currents.category])]
      exact decl.drafts_sublist formals narrower.keeps

/-- A step for a field hands its draft, if any, to the type. -/
theorem field_obtains
    {visit : Visit}
    {current : Current}
    (opened : visit.openMembers? = some current)
    (atlas : Atlas)
    (decl : FieldDecl) :
    let outcome := visit.field atlas decl
    outcome.visit.progress = .members current ∧
      outcome.atlas.settings = atlas.settings ∧
      Store.Obtains Field.onto .field current.name
        (fieldDrafts atlas.settings (atlas.store.formalsOf current.name)
          current decl)
        atlas.store outcome.atlas.store := by
  unfold field fieldDrafts
  simp only [opened]
  by_cases passed :
      (current.merging || !current.deep || decl.isSynthetic) = true
  · simp only [passed, Bool.true_or, ↓reduceIte, true_and]
    exact .nil _
  · rw [Bool.not_eq_true] at passed
    by_cases annotates : current.category = .annotationType
    · simp only [passed, annotates, decide_true, Bool.or_true,
        Bool.false_eq_true, ↓reduceIte]
      split <;> exact ⟨rfl, rfl, .nil _⟩
    · simp only [passed, annotates, decide_false, Bool.or_false,
        Bool.false_eq_true, ↓reduceIte]
      exact ⟨trivial, rfl, Filing.enterField_obtains atlas.settings
        current.name decl atlas.store⟩

/-- A call that brings a field keeps both sides in step. -/
theorem field_inStep
    {settings other : Settings}
    {owner : TypeName}
    {visit otherVisit : Visit}
    {atlas otherAtlas : Atlas}
    (decl : FieldDecl)
    (inStep :
      InStep settings other owner (visit, atlas) (otherVisit, otherAtlas)) :
    let outcome := visit.field atlas decl
    let otherOutcome := otherVisit.field otherAtlas decl
    InStep settings other owner (outcome.visit, outcome.atlas)
      (otherOutcome.visit, otherOutcome.atlas) := by
  obtain ⟨⟨ruled, otherRuled, stores⟩, current, otherCurrent, currents, alike⟩ :=
    inStep
  obtain ⟨opened, otherOpened⟩ := alike.openMembers?
  obtain ⟨moved, kept, obtains⟩ := field_obtains opened atlas decl
  obtain ⟨otherMoved, otherKept, otherObtains⟩ :=
    field_obtains otherOpened otherAtlas decl
  dsimp only at ruled otherRuled stores
  rw [currents.name, ruled] at obtains
  rw [currents.otherName, otherRuled, ← stores.agrees.formalsOf]
    at otherObtains
  refine ⟨⟨kept.trans ruled, otherKept.trans otherRuled, ?_⟩, current,
    otherCurrent, currents, ?_⟩
  · exact stores.obtainFields obtains otherObtains fun narrower =>
      fieldDrafts_sublist currents narrower _ decl
  · dsimp only
    rw [moved, otherMoved]
    exact .members

/-! ## Methods -/

/-- A default is recorded by the same script in every store. -/
theorem enterDefault_scripted
    (owner : TypeName)
    (decl : MethodDecl) :
    ∃ script,
      Grounded [owner] script ∧
        (∀ change ∈ script, change.KeepsMembers) ∧
        ∀ store,
          ((Filing.enterDefault owner decl).run store).2 =
            store.replay script := by
  unfold Filing.enterDefault
  cases decl.default with
  | none =>
      exact ⟨[], trivial, by simp, fun _ => rfl⟩
  | some value =>
      obtain ⟨taken, hints, noted⟩ := Filing.takeValue_mentioning none value
      refine ⟨mentions hints ++ [.amend owner (.default decl.name taken)],
        ?_, ?_, fun store => ?_⟩
      · exact (grounded_mentions _ hints).append
          (by simp [Grounded, Change.expects])
      · intro change member
        rcases List.mem_append.mp member with mentioned | amended
        · obtain ⟨name, hint, rfl⟩ := eq_mention_of_mem_mentions mentioned
          trivial
        · rw [List.mem_singleton.mp amended]
          exact ⟨fun _ => rfl, rfl⟩
      · simp only [StateT.run_bind, Filing.takeDefault, noted store,
          Store.replay_append]
        rfl

/-- The methods that a declaration adds to the type that is being entered. -/
def methodDrafts
    (settings : Settings)
    (formals : Formals)
    (current : Current)
    (decl : MethodDecl) :
    List Method :=
  if current.merging || decl.isSynthetic || decl.isInitializer
      || !current.deep then
    []
  else
    decl.drafts formals settings

/-- Narrower settings keep some of the drafts of a method. -/
theorem methodDrafts_sublist
    {settings other : Settings}
    {owner : TypeName}
    {current otherCurrent : Current}
    (currents : Current.InStep settings other owner current otherCurrent)
    (narrower : settings.Narrower other)
    (formals : Formals)
    (decl : MethodDecl) :
    (methodDrafts settings formals current decl).Sublist
      (methodDrafts other formals otherCurrent decl) := by
  unfold methodDrafts
  split
  · exact List.nil_sublist _
  · next entered =>
      have deeper := currents.deeper narrower
      rw [if_neg (by simp_all [currents.merging])]
      exact decl.drafts_sublist formals narrower.keeps

/-- The last step of a method hands its draft, if any, to the type. -/
theorem keepMethod_obtains
    (visit : Visit)
    (current : Current)
    (atlas : Atlas)
    {decl : MethodDecl}
    (entered :
      (current.merging || decl.isSynthetic || decl.isInitializer) = false) :
    let outcome := visit.keepMethod current.name current.deep decl atlas
    outcome.visit = visit ∧
      outcome.atlas.settings = atlas.settings ∧
      Store.Obtains Method.onto .method current.name
        (methodDrafts atlas.settings (atlas.store.formalsOf current.name)
          current decl)
        atlas.store outcome.atlas.store := by
  unfold keepMethod methodDrafts
  rw [entered]
  cases current.deep with
  | true =>
      exact ⟨rfl, rfl, Filing.enterMethod_obtains atlas.settings current.name
        decl atlas.store⟩
  | false =>
      exact ⟨rfl, rfl, .nil _⟩

/-- What comes before it is the default, if the type is an annotation type. -/
theorem method_eq
    (owner : TypeName)
    (category : Category)
    (decl : MethodDecl) :
    ∃ script,
      Grounded [owner] script ∧
        (∀ change ∈ script, change.KeepsMembers) ∧
        ∀ {visit : Visit} {current : Current},
          visit.openMembers? = some current → current.name = owner →
            current.category = category →
              (current.merging || decl.isSynthetic || decl.isInitializer) =
                  false →
                ∀ atlas,
                  visit.method atlas decl =
                    keepMethod { visit with progress := .members current }
                      owner current.deep decl
                      { atlas with store := atlas.store.replay script } := by
  by_cases annotates : category = .annotationType
  · obtain ⟨script, grounded, keeps, replayed⟩ :=
      enterDefault_scripted owner decl
    refine ⟨script, grounded, keeps, ?_⟩
    rintro visit current opened rfl rfl entered atlas
    have recorded :
        (atlas.file (Filing.enterDefault current.name decl)).2 =
          { atlas with store := atlas.store.replay script } := by
      rw [← replayed]
      rfl
    simp only [method, opened, entered, annotates, Bool.false_eq_true,
      ↓reduceIte, recorded]
    rfl
  · refine ⟨[], trivial, by simp, ?_⟩
    rintro visit current opened rfl rfl entered atlas
    simp only [method, opened, entered, annotates, Bool.false_eq_true,
      ↓reduceIte]
    rfl

/--
A step for a method makes a script that hangs on the type and the declaration
only, and then hands the draft, if any, to the type.
-/
theorem method_obtains
    (owner : TypeName)
    (category : Category)
    (merging : Bool)
    (decl : MethodDecl) :
    ∃ script,
      Grounded [owner] script ∧
        (∀ change ∈ script, change.KeepsMembers) ∧
        ∀ {visit : Visit} {current : Current},
          visit.openMembers? = some current → current.name = owner →
            current.category = category → current.merging = merging →
              ∀ atlas,
                let outcome := visit.method atlas decl
                let middle := atlas.store.replay script
                outcome.visit.progress = .members current ∧
                  outcome.atlas.settings = atlas.settings ∧
                  Store.Obtains Method.onto .method owner
                    (methodDrafts atlas.settings (middle.formalsOf owner)
                      current decl)
                    middle outcome.atlas.store := by
  cases passed : merging || decl.isSynthetic || decl.isInitializer with
  | true =>
      refine ⟨[], trivial, by simp, ?_⟩
      rintro visit current opened - - rfl atlas
      simp only [method, methodDrafts, opened, passed, Bool.true_or,
        ↓reduceIte, true_and]
      exact .nil _
  | false =>
      obtain ⟨script, grounded, keeps, runs⟩ := method_eq owner category decl
      refine ⟨script, grounded, keeps, ?_⟩
      rintro visit current opened rfl rfl rfl atlas
      rw [runs opened rfl rfl passed]
      obtain ⟨same, kept, obtains⟩ := keepMethod_obtains
        { visit with progress := .members current } current
        { atlas with store := atlas.store.replay script } passed
      exact ⟨congrArg Visit.progress same, kept, obtains⟩

/-- A call that brings a method keeps both sides in step. -/
theorem method_inStep
    {settings other : Settings}
    {owner : TypeName}
    {visit otherVisit : Visit}
    {atlas otherAtlas : Atlas}
    (decl : MethodDecl)
    (inStep :
      InStep settings other owner (visit, atlas) (otherVisit, otherAtlas)) :
    let outcome := visit.method atlas decl
    let otherOutcome := otherVisit.method otherAtlas decl
    InStep settings other owner (outcome.visit, outcome.atlas)
      (otherOutcome.visit, otherOutcome.atlas) := by
  obtain ⟨⟨ruled, otherRuled, stores⟩, current, otherCurrent, currents, alike⟩ :=
    inStep
  obtain ⟨opened, otherOpened⟩ := alike.openMembers?
  obtain ⟨script, grounded, keeps, runs⟩ :=
    method_obtains owner current.category current.merging decl
  obtain ⟨moved, kept, obtains⟩ := runs opened currents.name rfl rfl atlas
  obtain ⟨otherMoved, otherKept, otherObtains⟩ :=
    runs otherOpened currents.otherName currents.category currents.merging
      otherAtlas
  have middle := (stores.replay grounded keeps).of_append
  dsimp only at ruled otherRuled middle
  rw [ruled] at obtains
  rw [otherRuled, ← middle.agrees.formalsOf] at otherObtains
  refine ⟨⟨kept.trans ruled, otherKept.trans otherRuled, ?_⟩, current,
    otherCurrent, currents, ?_⟩
  · exact middle.obtainMethods obtains otherObtains fun narrower =>
      methodDrafts_sublist currents narrower _ decl
  · dsimp only
    rw [moved, otherMoved]
    exact .members

/-! ## Declarations -/

/-- The body of a declaration leaves stores that differ in members only. -/
theorem enterBody_parallels
    {settings other : Settings}
    {owner : TypeName}
    {state otherState : Visit × Atlas}
    (inStep : InStep settings other owner state otherState)
    (decl : ClassDecl) :
    Atlas.Parallels settings other [] (enterBody decl state).2
      (enterBody decl otherState).2 := by
  have annotated := inStep.settleAll annotate_inStep decl.annotations
  have withFields := annotated.settleAll field_inStep decl.fields
  have withMethods := withFields.settleAll method_inStep decl.methods
  obtain ⟨⟨ruled, otherRuled, stores⟩, _, _, -, alike⟩ := withMethods
  obtain ⟨opened, otherOpened⟩ := alike.openMembers?
  have ended : ∀ {visit : Visit} {current : Current} (atlas : Atlas),
      visit.openMembers? = some current →
        (settle (visit.finish atlas)).2 = atlas := by
    intro visit current atlas opened
    simp only [finish, opened, settle]
  unfold enterBody
  dsimp only
  rw [ended _ opened, ended _ otherOpened]
  exact ⟨ruled, otherRuled, stores.mono (by simp)⟩

/-- What a type begins with under two settings. -/
theorem inStep_headed
    {settings other : Settings}
    (visit : Visit)
    {atlas otherAtlas : Atlas}
    (parallels : Atlas.Parallels settings other [] atlas otherAtlas)
    (decl : ClassDecl) :
    ∃ current otherCurrent,
      Current.InStep settings other decl.name current otherCurrent ∧
        Progress.Alike current otherCurrent
          (visit.headed atlas decl).progress
          (visit.headed otherAtlas decl).progress := by
  refine ⟨_, _, ?_, .header⟩
  refine ⟨rfl, rfl, rfl, ?_, ?_, ?_⟩
  · exact (parallels.stores.agrees.isVisited decl.name).symm
  · intro narrower
    simp only [parallels.ruled, parallels.otherRuled, Settings.alwaysDeep,
      List.isEmpty_iff]
    intro every
    rcases narrower.interest with none | same
    · exact none
    · rw [every] at same
      exact List.eq_nil_iff_forall_not_mem.mpr fun name member =>
        absurd ((same name).mp member) List.not_mem_nil
  · rw [parallels.otherRuled]
    exact id

/--
A header is refused under both settings or under none, and what is refused
leaves stores that differ in members only as well.
-/
theorem header_parallels
    {settings other : Settings}
    {visit : Visit}
    (fresh : visit.progress = .start)
    {atlas otherAtlas : Atlas}
    (parallels : Atlas.Parallels settings other [] atlas otherAtlas)
    (decl : ClassDecl) :
    let outcome := visit.header atlas decl
    let otherOutcome := visit.header otherAtlas decl
    (∃ problem otherProblem,
      outcome.answer = .error problem ∧
        otherOutcome.answer = .error otherProblem ∧
        Atlas.Parallels settings other [] outcome.atlas otherOutcome.atlas) ∨
      outcome.answer = .ok decl.name ∧
        otherOutcome.answer = .ok decl.name ∧
        InStep settings other decl.name (outcome.visit, outcome.atlas)
          (otherOutcome.visit, otherOutcome.atlas) := by
  obtain ⟨ruled, otherRuled, stores⟩ := parallels
  by_cases filed : (Change.file decl.name decl.category).Allowed atlas.store
  · have otherFiled := stores.agrees.file_allowed filed
    by_cases claimed :
        (Change.claim decl.name decl.category).Allowed
          (atlas.store.replay (founding decl))
    · have otherClaimed := (stores.agrees.claim_allowed_iff decl).mp claimed
      right
      rw [header_of_claimed fresh filed claimed,
        header_of_claimed fresh otherFiled otherClaimed]
      have opened := stores.replay (grounded_opening visit decl)
        (by simp [opening, Change.KeepsMembers, Amendment.fieldsOf,
          Amendment.methods])
      have known :
          decl.name ∈ (visit.opening decl).flatMap Change.introduces ++ [] := by
        simp [opening, Change.introduces]
      have linked := (opened.linkHeader known).mono
        (List.forall_mem_singleton.mpr known)
      refine ⟨rfl, rfl, ⟨ruled, otherRuled, linked⟩, ?_⟩
      exact inStep_headed visit ⟨ruled, otherRuled, stores⟩ decl
    · have otherClaimed :=
        mt (stores.agrees.claim_allowed_iff decl).mpr claimed
      obtain ⟨problem, refused⟩ := header_of_not_claimed fresh filed claimed
      obtain ⟨otherProblem, otherRefused⟩ :=
        header_of_not_claimed fresh otherFiled otherClaimed
      left
      rw [refused, otherRefused]
      have founded := stores.replay (grounded_founding decl)
        (by simp [founding, Change.KeepsMembers])
      exact ⟨problem, otherProblem, rfl, rfl, ruled, otherRuled,
        founded.of_append⟩
  · have otherFiled := mt stores.agrees.symm.file_allowed filed
    obtain ⟨problem, refused⟩ := header_of_not_filed fresh filed
    obtain ⟨otherProblem, otherRefused⟩ := header_of_not_filed fresh otherFiled
    left
    rw [refused, otherRefused]
    exact ⟨problem, otherProblem, rfl, rfl, ruled, otherRuled, stores⟩

/-- A declaration is accepted under both settings or under none. -/
theorem accept_parallels
    {settings other : Settings}
    {visit : Visit}
    (fresh : visit.progress = .start)
    {atlas otherAtlas : Atlas}
    (parallels : Atlas.Parallels settings other [] atlas otherAtlas)
    (decl : ClassDecl) :
    (visit.accept atlas decl).1 = (visit.accept otherAtlas decl).1 ∧
      Atlas.Parallels settings other [] (visit.accept atlas decl).2
        (visit.accept otherAtlas decl).2 := by
  rw [accept_eq, accept_eq]
  split
  · exact ⟨rfl, parallels⟩
  · rcases header_parallels fresh parallels decl with
      ⟨problem, otherProblem, refused, otherRefused, left⟩ |
        ⟨entered, otherEntered, inStep⟩
    · simp only [refused, otherRefused]
      exact ⟨trivial, left.ruled, left.otherRuled, left.stores⟩
    · simp only [entered, otherEntered]
      exact ⟨trivial, enterBody_parallels inStep decl⟩

end Visit

/-! ## Whole runs -/

namespace Atlas

/-- Two runs over the same sources go in step. -/
theorem Parallels.enterSources
    {settings other : Settings}
    {atlas otherAtlas : Atlas}
    (parallels : Parallels settings other [] atlas otherAtlas)
    (sources : List Source) :
    atlas.accepted sources = otherAtlas.accepted sources ∧
      Parallels settings other [] (atlas.enterSources sources)
        (otherAtlas.enterSources sources) := by
  induction sources generalizing atlas otherAtlas with
  | nil =>
      exact ⟨rfl, parallels⟩
  | cons source sources inductionHypothesis =>
      have fresh : source.visit.progress = .start := rfl
      obtain ⟨answers, first⟩ :=
        Visit.accept_parallels fresh parallels source.decl
      obtain ⟨later, rest⟩ := inductionHypothesis first
      refine ⟨?_, rest⟩
      have entering :
          ∀ atlas : Atlas,
            atlas.enter source.decl source.location source.isApplication =
              source.visit.accept atlas source.decl :=
        fun _ => rfl
      simp only [accepted, entering]
      rw [answers, later]

end Atlas

/-- Two nodes that differ in fields and methods at most. -/
structure Node.SameType
    (node other : Node) :
    Prop where
  category : node.category = other.category
  locations : node.locations = other.locations
  isApplication : node.isApplication = other.isApplication
  parent : node.lineage.parent = other.lineage.parent
  interfaces : node.lineage.interfaces = other.lineage.interfaces
  genericParent : node.lineage.genericParent = other.lineage.genericParent
  genericInterfaces :
    node.lineage.genericInterfaces = other.lineage.genericInterfaces
  formals : node.lineage.formals = other.lineage.formals
  annotations : node.annotations = other.annotations
  defaults : node.defaults = other.defaults

/-- Two stores that know the same of every type, its members apart. -/
structure Store.SameTypes
    (store other : Store) :
    Prop where
  visited : ∀ name, store.isVisited name = other.isVisited name
  nodes : ∀ name, Option.Rel Node.SameType (store.node? name) (other.node? name)
  subTypes : ∀ name, store.subTypes name = other.subTypes name
  implementers : ∀ name, store.implementers name = other.implementers name
  annotatedTypes :
    ∀ name, store.annotatedTypes name = other.annotatedTypes name

/-- The outline of a node is a type of the same kind. -/
theorem Node.sameType_outline
    (node : Node) :
    node.outline.SameType node := by
  obtain ⟨_, _, _, _, _, body⟩ := node
  cases body <;> exact ⟨rfl, rfl, rfl, rfl, rfl, rfl, rfl, rfl, rfl, rfl⟩

/-- Nodes with one outline are of the same type. -/
theorem Node.sameType_of_outline_eq
    {node other : Node}
    (same : node.outline = other.outline) :
    node.SameType other := by
  have here := node.sameType_outline
  have there := other.sameType_outline
  rw [same] at here
  exact
    { category := here.category.symm.trans there.category
      locations := here.locations.symm.trans there.locations
      isApplication := here.isApplication.symm.trans there.isApplication
      parent := here.parent.symm.trans there.parent
      interfaces := here.interfaces.symm.trans there.interfaces
      genericParent := here.genericParent.symm.trans there.genericParent
      genericInterfaces :=
        here.genericInterfaces.symm.trans there.genericInterfaces
      formals := here.formals.symm.trans there.formals
      annotations := here.annotations.symm.trans there.annotations
      defaults := here.defaults.symm.trans there.defaults }

/-- Stores that agree know the same of all types. -/
theorem Store.Agrees.sameTypes
    {store other : Store}
    (agrees : store.Agrees other) :
    store.SameTypes other := by
  refine ⟨agrees.isVisited, fun name => ?_, fun name => ?_, fun name => ?_,
    fun name => ?_⟩
  · rcases agrees.node?_cases name with
      ⟨here, there⟩ | ⟨node, otherNode, here, there, outlines⟩
    · rw [here, there]
      exact .none
    · rw [here, there]
      exact .some (Node.sameType_of_outline_eq outlines)
  · rw [← subTypes_sketch, ← subTypes_sketch, agrees name]
  · rw [← implementers_sketch, ← implementers_sketch, agrees name]
  · rw [← annotatedTypes_sketch, ← annotatedTypes_sketch, agrees name]

/-- The members of every node are among those of the node of the same name. -/
theorem Store.Parallels.within_nodes
    {fewer : Prop}
    {known : List TypeName}
    {store other : Store}
    (parallels : Parallels fewer known store other)
    (narrower : fewer)
    (name : TypeName) :
    Option.Rel Node.Within (store.node? name) (other.node? name) := by
  have within := parallels.within narrower name
  rcases parallels.agrees.node?_cases name with
    ⟨here, there⟩ | ⟨node, otherNode, here, there, -⟩
  · rw [here, there]
    exact .none
  · simp only [nodeOrBlank, here, there, Option.getD_some] at within
    rw [here, there]
    exact .some within

namespace Atlas

/--
Whatever declarations are entered in whatever order, the settings have an
effect on members only. Under narrower settings the members of every type are,
in order, among those that there are under wider ones.
-/
theorem settings_affect_members_only
    (settings other : Settings)
    (sources : List Source) :
    let atlas := Atlas.enterSources { settings := settings } sources
    let otherAtlas := Atlas.enterSources { settings := other } sources
    Atlas.accepted { settings := settings } sources =
        Atlas.accepted { settings := other } sources ∧
      atlas.store.SameTypes otherAtlas.store ∧
      (settings.Narrower other →
        ∀ name,
          Option.Rel Node.Within (atlas.store.node? name)
            (otherAtlas.store.node? name)) := by
  have start :
      Parallels settings other [] { settings := settings }
        { settings := other } :=
    ⟨rfl, rfl, .refl _,
      fun _ _ => ⟨fun _ _ => List.Sublist.refl _, fun _ => List.Sublist.refl _⟩,
      by simp⟩
  obtain ⟨accepted, run⟩ := start.enterSources sources
  exact ⟨accepted, run.stores.agrees.sameTypes,
    fun narrower name => run.stores.within_nodes narrower name⟩

-- The marked field is the first one or the second one, depending on what is
-- kept; its annotation is attached to another place each time.
example :
    let shape : Source :=
      { decl :=
          { access := 0x1
            name := "c.Shape"
            fields :=
              [{ access := 0, name := "plain", descriptor := "I" },
                { access := 0
                  name := "marked"
                  descriptor := "I"
                  annotations := [⟨"Lc/Mark;", true, []⟩] }] } }
    let fields (settings : Settings) :=
      ((Atlas.enterSources { settings := settings } [shape]).store.node?
        "c.Shape").map fun node => node.lineage.fields.map (·.name)
    fields {} = some ["marked"] ∧
      fields { keepUnannotated := true } = some ["plain", "marked"] := by
  decide +kernel

end Atlas

end TypeAtlas
