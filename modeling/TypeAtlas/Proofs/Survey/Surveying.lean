import TypeAtlas.CommandLine.Run
import TypeAtlas.Proofs.Survey.Trails

namespace TypeAtlas

/-!
# Runs

A run enters what its paths have and then what its class path gives for names
that are unresolved. So the atlas that a command is answered from comes about
on a trail under the settings of the run. Every trail can be followed by acts
of a session, and the store at its end comes out of the empty one by changes
that are allowed when they are made.
-/

/-! ## Trails in a session -/

namespace Atlas

/-- One atlas becomes another by acts, beside whatever visits were begun. -/
def LeadsTo (before after : Atlas) : Prop :=
  ∀ visits, ∃ acts,
    (Session.run { atlas := before, visits := visits } acts).atlas = after

namespace LeadsTo

variable {first middle last : Atlas}

theorem refl
    (atlas : Atlas) :
    LeadsTo atlas atlas :=
  fun _ => ⟨[], rfl⟩

theorem trans
    (earlier : LeadsTo first middle)
    (later : LeadsTo middle last) :
    LeadsTo first last := by
  intro visits
  obtain ⟨early, rfl⟩ := earlier visits
  let reached := Session.run { atlas := first, visits := visits } early
  obtain ⟨late, rfl⟩ := later reached.visits
  exact ⟨early ++ late, congrArg _ (Session.run_append _ early late)⟩

end LeadsTo

theorem leadsTo_enter
    (atlas : Atlas)
    (decl : ClassDecl)
    (location : Option String)
    (isApplication : Bool) :
    LeadsTo atlas (atlas.enter decl location isApplication).2 := by
  intro visits
  refine ⟨[.visit location isApplication, .accept visits.length decl], ?_⟩
  simp [Session.run, Session.step, Session.enterAt, enter]

/-- What a trail does can be done by acts. -/
theorem Trail.leadsTo
    {settings : Settings}
    {steps : List Acceptance}
    {atlas : Atlas}
    (trail : Trail settings steps atlas) :
    LeadsTo { settings := settings } atlas := by
  induction trail with
  | start =>
      exact .refl _
  | enter _ source inductionHypothesis =>
      exact inductionHypothesis.trans
        (leadsTo_enter _ source.decl source.location source.isApplication)
  | take _ taken inductionHypothesis =>
      refine inductionHypothesis.trans fun visits => ⟨[.take], ?_⟩
      simp [Session.run, Session.step, Session.withStore, taken]

end Atlas

/-! ## What a run enters -/

namespace CommandLine.Invocation

/-- What an invocation answers its command from. -/
def gather
    (invocation : Invocation)
    (tree : FileTree) :
    Except RunFault (Atlas × Tally) := do
  let settings ← invocation.options.settings tree
  let classPath := ClassPath.split invocation.options.classPath
  let (surveyed, atlas) :=
    Atlas.surveyAll { settings := settings } tree invocation.paths
  match surveyed with
  | .error fault => throw (.inputs fault)
  | .ok tally =>
      let atlas :=
        if classPath.isEmpty then
          atlas
        else
          (atlas.reconcile (some (Locator.ofPaths tree classPath))).atlas
      return (atlas, tally)

variable {invocation : Invocation} {tree : FileTree}

/-- A run gathers an atlas and answers its command from it. -/
theorem run_eq :
    invocation.run tree =
      (invocation.gather tree).bind fun (atlas, tally) =>
        (invocation.command.answer atlas tally).map Report.text := by
  simp only [run, gather, bind, Except.bind]
  cases invocation.options.settings tree with
  | error fault =>
      rfl
  | ok settings =>
      dsimp only
      rcases Atlas.surveyAll { settings := settings } tree invocation.paths with
        ⟨fault | tally, atlas⟩
      · rfl
      · dsimp only [pure, Except.pure]
        cases invocation.command.answer _ tally <;> rfl

/--
What a run enters under its settings: all that its paths have, in order, and
then what is given for unresolved names on its class path.
-/
structure Enters
    (invocation : Invocation)
    (tree : FileTree)
    (settings : Settings)
    (steps : List Acceptance)
    (atlas : Atlas) :
    Prop where
  configured : invocation.options.settings tree = .ok settings
  trail : Atlas.Trail settings steps atlas
  sources :
    ∃ surveyed located,
      steps = surveyed ++ located ∧
        surveyed.map (·.source) = invocation.paths.flatMap tree.sources ∧
        let locator := Locator.ofPaths tree
          (ClassPath.split invocation.options.classPath)
        ∀ step ∈ located, locator.Gives step.source

/-- What a command is answered from is what the run entered. -/
theorem gather_enters
    {atlas : Atlas}
    {tally : Tally}
    (gathered : invocation.gather tree = .ok (atlas, tally)) :
    ∃ settings steps, invocation.Enters tree settings steps atlas := by
  simp only [gather, bind, Except.bind] at gathered
  cases configured : invocation.options.settings tree with
  | error fault =>
      simp [configured] at gathered
  | ok settings =>
      rw [configured] at gathered
      dsimp only at gathered
      rcases outcome :
          Atlas.surveyAll { settings := settings } tree invocation.paths with
        ⟨fault | counted, found⟩
      · simp [outcome, throw, throwThe, MonadExceptOf.throw] at gathered
      · simp only [outcome, pure, Except.pure, Except.ok.injEq,
          Prod.mk.injEq] at gathered
        obtain ⟨rfl, -⟩ := gathered
        obtain ⟨surveyed, entered, trail⟩ :=
          Atlas.Trail.start.enterSources
            (invocation.paths.flatMap tree.sources)
        rw [← Atlas.surveyAll_enters outcome, List.nil_append] at trail
        split
        · exact ⟨settings, surveyed, configured, trail, surveyed, [], by simp,
            entered, by simp⟩
        · obtain ⟨located, given, onward⟩ := trail.reconcile _
          exact ⟨settings, _, configured, onward, surveyed, located, rfl,
            entered, given⟩

/-- What is gathered comes out of a session. -/
theorem exists_acts_of_gather
    {atlas : Atlas}
    {tally : Tally}
    (gathered : invocation.gather tree = .ok (atlas, tally)) :
    ∃ acts, (Session.run {} acts).atlas = atlas := by
  obtain ⟨settings, steps, enters⟩ := gather_enters gathered
  obtain ⟨acts, rfl⟩ := enters.trail.leadsTo []
  exact ⟨.configure settings :: acts, rfl⟩

/-! ## What a run prints -/

/-- A run that prints something answers its command from what it gathered. -/
theorem gather_of_run_eq_ok
    {text : String}
    (printed : invocation.run tree = .ok text) :
    ∃ atlas tally lines,
      invocation.gather tree = .ok (atlas, tally) ∧
        invocation.command.answer atlas tally = .ok lines ∧
        text = Report.text lines := by
  rw [run_eq] at printed
  cases gathered : invocation.gather tree with
  | error fault =>
      simp [gathered, Except.bind] at printed
  | ok found =>
      obtain ⟨atlas, tally⟩ := found
      cases answered : invocation.command.answer atlas tally with
      | error fault =>
          simp [gathered, answered, Except.bind, Except.map] at printed
      | ok lines =>
          refine ⟨atlas, tally, lines, rfl, answered, ?_⟩
          simpa [gathered, answered, Except.bind, Except.map, eq_comm] using
            printed

end CommandLine.Invocation

/-- A text is made of lines, with a line break behind each of them. -/
def Report.Prints
    (text : String)
    (lines : List String) :
    Prop :=
  text.toList = lines.flatMap fun line => line.toList ++ ['\n']

/-- What a run prints is made of the lines of the answer. -/
theorem Report.prints_text
    (lines : List String) :
    Prints (text lines) lines := by
  simp [Prints, text, String.toList_join, List.flatMap_def, Function.comp_def]

end TypeAtlas
