import TypeAtlas.Proofs.Entering.Definitions
import TypeAtlas.Proofs.Session
import TypeAtlas.Proofs.Survey.Directories

namespace TypeAtlas

/-!
# Trails

However classes are found, in directories, in archives or by a locator, all
that a survey or a reconciliation does to an atlas is to enter declarations and
to take names off the worklist. A survey enters what there is at its path, in
order, and a reconciliation what its locator gives. A *trail* keeps the
declarations, each with the atlas that it was entered into, and tells which one
of a type was the first to be accepted.
-/

/-! ## Surveys -/

/-- The declarations at a path, in the order in which a survey enters them. -/
def FileTree.sources
    (tree : FileTree)
    (path : String) :
    List Source :=
  let location := tree.location? path
  match tree.resolve path with
  | .error _ => []
  | .ok (parts, .directory) =>
      let files : Listing := tree.below path parts
      Atlas.found location files.loose ++ files.untilBroken.packedSources tree
  | .ok (_, content) =>
      if Path.isArchive path then
        Atlas.found location (content.classes?.getD [])
      else if Path.isClassFile path then
        Atlas.found location [Atlas.looseBytes content]
      else
        []

namespace Atlas

theorem surveyArchive_enters
    (atlas : Atlas)
    (tree : FileTree)
    (path : String)
    (content : FileContent) :
    (atlas.surveyArchive tree path content).2 =
      atlas.enterSources
        (found (tree.location? path) (content.classes?.getD [])) := by
  cases readable : content.classes? with
  | none =>
      rw [surveyArchive_of_broken atlas tree path readable]
      rfl
  | some classes =>
      rw [surveyArchive_of_readable atlas tree path readable]
      rfl

theorem survey_enters
    (atlas : Atlas)
    (tree : FileTree)
    (path : String) :
    (atlas.survey tree path).2 = atlas.enterSources (tree.sources path) := by
  unfold survey FileTree.sources
  rcases tree.resolve path with fault | ⟨parts, content⟩
  · rfl
  · cases content with
    | directory =>
        exact congrArg Prod.snd (atlas.surveyDirectory_eq tree path parts)
    | bytes _ | archive _ =>
        dsimp only
        split
        · exact atlas.surveyArchive_enters tree path _
        · split
          · rw [enterAll_eq]
          · rfl

/-- A survey of several paths that meets no fault enters all they have. -/
theorem surveyAll_enters
    {tree : FileTree}
    {paths : List String}
    {atlas after : Atlas}
    {tally : Tally}
    (surveyed : atlas.surveyAll tree paths = (.ok tally, after)) :
    after = atlas.enterSources (paths.flatMap tree.sources) := by
  induction paths generalizing atlas tally with
  | nil =>
      exact (Prod.mk.inj surveyed).2.symm
  | cons path paths inductionHypothesis =>
      have first := atlas.survey_enters tree path
      rw [surveyAll] at surveyed
      rcases outcome : atlas.survey tree path with ⟨fault | counted, middle⟩
      · simp [outcome] at surveyed
      · rw [outcome] at surveyed first
        dsimp only at surveyed first
        rcases rest : middle.surveyAll tree paths with ⟨fault | more, last⟩
        · simp [rest] at surveyed
        · simp only [rest, Prod.mk.injEq] at surveyed
          rw [List.flatMap_cons, enterSources_append, ← first]
          exact inductionHypothesis (surveyed.2 ▸ rest)

end Atlas

/-! ## Trails -/

/--
A way on which an atlas comes about under some settings. The steps are the
declarations that were entered, with the atlas that each of them met.
-/
inductive Atlas.Trail
    (settings : Settings) :
    List Acceptance → Atlas → Prop where
  | start : Trail settings [] { settings := settings }
  | enter
      {steps : List Acceptance}
      {atlas : Atlas}
      (trail : Trail settings steps atlas)
      (source : Source) :
      Trail settings (steps ++ [⟨source, atlas⟩])
        (Acceptance.mk source atlas).outcome.2
  | take
      {steps : List Acceptance}
      {atlas : Atlas}
      (trail : Trail settings steps atlas)
      {name : TypeName}
      {store : Store}
      (taken : atlas.store.nextPending? = some (name, store)) :
      Trail settings steps { atlas with store := store }

namespace Atlas.Trail

variable {settings : Settings} {steps : List Acceptance} {atlas : Atlas}

theorem settings_eq
    (trail : Trail settings steps atlas) :
    atlas.settings = settings := by
  induction trail with
  | start =>
      rfl
  | enter _ source inductionHypothesis =>
      exact (Visit.settings_accept source.visit _ source.decl).trans
        inductionHypothesis
  | take _ _ inductionHypothesis =>
      exact inductionHypothesis

theorem evolves
    (trail : Trail settings steps atlas) :
    Store.Evolves {} atlas.store := by
  induction trail with
  | start =>
      exact .refl _
  | enter _ source inductionHypothesis =>
      exact inductionHypothesis.trans
        (Visit.accept_evolves source.visit _ source.decl)
  | take _ taken inductionHypothesis =>
      rw [Store.nextPending?_eq_take taken]
      exact inductionHypothesis.trans (.single .take trivial)

/-- The steps that were accepted as declarations of a type are what is known. -/
theorem records
    (trail : Trail settings steps atlas)
    (name : TypeName) :
    atlas.Records settings name
      (steps.filter (·.outcome.1 = some name)) := by
  induction trail with
  | start =>
      exact ⟨rfl, fun node here => absurd here
        (by simp [Store.node?, Store.find?])⟩
  | @enter steps atlas trail source inductionHypothesis =>
      let acceptance : Acceptance := ⟨source, atlas⟩
      have wellFormed : acceptance.before.store.WellFormed :=
        trail.evolves.wellFormed Store.wellFormed_empty
      have known := Acceptance.records_outcome wellFormed trail.settings_eq
        inductionHypothesis
      change acceptance.outcome.2.Records settings name
        ((steps ++ [acceptance]).filter (·.outcome.1 = some name))
      rw [List.filter_append, List.filter_singleton]
      split at known
      · next accepted =>
          simpa [accepted] using known
      · next refused =>
          simpa [refused] using known
  | @take steps atlas _ taken store next inductionHypothesis =>
      -- What is known does not hang on the worklist.
      unfold Store.nextPending? at next
      split at next
      · simp at next
      · obtain ⟨-, rfl⟩ := Prod.mk.inj (Option.some.inj next)
        cases known : steps.filter (·.outcome.1 = some name) with
        | nil =>
            rw [known] at inductionHypothesis
            exact inductionHypothesis
        | cons first more =>
            rw [known] at inductionHypothesis
            exact inductionHypothesis

/-- Declarations that are entered one after another are further steps. -/
theorem enterSources
    (trail : Trail settings steps atlas)
    (sources : List Source) :
    ∃ further : List Acceptance,
      further.map (·.source) = sources ∧
        Trail settings (steps ++ further) (atlas.enterSources sources) := by
  induction sources generalizing steps atlas with
  | nil =>
      exact ⟨[], rfl, (List.append_nil steps).symm ▸ trail⟩
  | cons source sources inductionHypothesis =>
      obtain ⟨further, entered, onward⟩ :=
        inductionHypothesis (trail.enter source)
      refine ⟨⟨source, atlas⟩ :: further, by rw [List.map_cons, entered], ?_⟩
      rw [List.append_assoc] at onward
      exact onward

end Atlas.Trail

/-! ## Reconciliations -/

/-- A declaration that a locator has for a name. -/
def Locator.Gives
    (locator : Locator)
    (source : Source) :
    Prop :=
  source.isApplication = false ∧
    ∃ name found,
      locator.locate? name = some found ∧
        ClassFile.decode found.bytes = .ok source.decl ∧
        source.location = found.location

namespace Atlas.Trail

variable {settings : Settings} {steps : List Acceptance}

/-- A turn of a reconciliation enters a declaration of its locator at most. -/
theorem handle
    {state : Reconciliation}
    (trail : Trail settings steps state.atlas)
    (locator : Locator)
    (name : TypeName) :
    ∃ further : List Acceptance,
      (∀ step ∈ further, locator.Gives step.source) ∧
        Trail settings (steps ++ further)
          (state.handle (some locator) name).atlas := by
  have nothing :
      ∃ further : List Acceptance,
        (∀ step ∈ further, locator.Gives step.source) ∧
          Trail settings (steps ++ further) state.atlas :=
    ⟨[], by simp, by simpa using trail⟩
  unfold Reconciliation.handle
  split
  · exact nothing
  · split
    · exact nothing
    · next found located =>
        rw [apply_ite Reconciliation.atlas, ite_self, enterBytes]
        cases decoded : ClassFile.decode found.bytes with
        | error fault =>
            exact nothing
        | ok decl =>
            refine ⟨[⟨⟨decl, found.location, false⟩, state.atlas⟩], ?_,
              trail.enter _⟩
            simp only [List.mem_singleton, forall_eq]
            exact ⟨rfl, name, found, located, decoded, rfl⟩

theorem reconcile
    {atlas : Atlas}
    (trail : Trail settings steps atlas)
    (locator : Locator) :
    ∃ further : List Acceptance,
      (∀ step ∈ further, locator.Gives step.source) ∧
        Trail settings (steps ++ further)
          (atlas.reconcile (some locator)).atlas := by
  refine workThrough_keeps
    (fun state : Reconciliation =>
      ∃ further : List Acceptance,
        (∀ step ∈ further, locator.Gives step.source) ∧
          Trail settings (steps ++ further) state.atlas)
    ?_ ?_ _ ⟨[], by simp, by simpa using trail⟩
  · rintro state name rest ⟨further, given, reached⟩ taken
    simp only [Reconciliation.next?, Option.map_eq_some_iff, Prod.mk.injEq,
      Prod.exists] at taken
    obtain ⟨_, store, next, -, rfl⟩ := taken
    exact ⟨further, given, reached.take next⟩
  · rintro name state ⟨further, given, reached⟩
    obtain ⟨more, also, onward⟩ := reached.handle locator name
    refine ⟨further ++ more, ?_, by rwa [← List.append_assoc]⟩
    intro step member
    rcases List.mem_append.mp member with old | new
    · exact given step old
    · exact also step new

end Atlas.Trail

end TypeAtlas
