import TypeAtlas.Proofs.Entering.VisitScripts

namespace TypeAtlas

/-!
# Problems of bodies

A category that contradicts what is known of the type, and a superclass that
inherits from its own subtype, are found by the header of a declaration. The
steps after the header report minor problems only: a member that cannot be
kept, or a step out of turn.
-/

/-- A problem of one member or of one step, and not of the type. -/
def Problem.IsMinor : Problem → Prop
  | .unsupportedMember _ _ => True
  | .outOfTurn _ _ => True
  | .malformedDescriptor _ _ _ => True
  | _ => False

/-- An answer that is a minor problem, if it is one at all. -/
def Minor (answer : Except Problem α) : Prop :=
  ∀ problem, answer = .error problem → problem.IsMinor

/-- An answer that is no problem is no grave one. -/
theorem minor_ok
    (value : α) :
    Minor (.ok value : Except Problem α) := by
  intro problem failed
  exact absurd failed (by simp)

/-- A minor problem may be answered. -/
theorem minor_error
    {problem : Problem}
    (minor : problem.IsMinor) :
    Minor (.error problem : Except Problem α) := by
  intro same failed
  rw [← Except.error.inj failed]
  exact minor

namespace Filing

/-- A step answers with minor problems at most. -/
def MeetsMinor (step : Filing (Except Problem α)) : Prop :=
  ∀ store, Minor (step.run store).1

theorem meetsMinor_pure
    {answer : Except Problem α}
    (minor : Minor answer) :
    MeetsMinor (pure answer) :=
  fun _ => minor

/-- A step meets the problems of its last part alone. -/
theorem meetsMinor_bind
    {step : Filing α}
    {next : α → Filing (Except Problem β)}
    (later : ∀ answer, MeetsMinor (next answer)) :
    MeetsMinor (step >>= next) :=
  fun store => later _ (step.run store).2

/-- Entering a field meets no problem but one of the field. -/
theorem enterField_meetsMinor
    (settings : Settings)
    (owner : TypeName)
    (decl : FieldDecl) :
    MeetsMinor (enterField settings owner decl) := by
  unfold enterField
  cases Descriptor.parse decl.descriptor with
  | error fault =>
      exact meetsMinor_pure (minor_error trivial)
  | ok type =>
      refine meetsMinor_bind fun uses => ?_
      dsimp only
      split
      · exact meetsMinor_pure (minor_ok _)
      · refine meetsMinor_bind fun reference => ?_
        refine meetsMinor_bind fun known => ?_
        cases decl.signature with
        | none | some _ =>
            refine meetsMinor_bind fun resolved => ?_
            refine meetsMinor_bind fun grown => ?_
            refine meetsMinor_bind fun _ => meetsMinor_bind fun _ => ?_
            exact meetsMinor_bind fun _ => meetsMinor_pure (minor_ok _)

/-- Entering a method meets no problem but one of the method. -/
theorem enterMethod_meetsMinor
    (settings : Settings)
    (owner : TypeName)
    (decl : MethodDecl) :
    MeetsMinor (enterMethod settings owner decl) := by
  unfold enterMethod
  cases MethodDescriptor.parse decl.descriptor with
  | error fault =>
      exact meetsMinor_pure (minor_error trivial)
  | ok type =>
      refine meetsMinor_bind fun uses => meetsMinor_bind fun table => ?_
      dsimp only
      split
      · exact meetsMinor_pure (minor_ok _)
      · refine meetsMinor_bind fun known => ?_
        refine meetsMinor_bind fun generics => ?_
        refine meetsMinor_bind fun result => ?_
        refine meetsMinor_bind fun grown => ?_
        refine meetsMinor_bind fun parameters => ?_
        refine meetsMinor_bind fun _ => meetsMinor_bind fun _ => ?_
        exact meetsMinor_bind fun _ => meetsMinor_pure (minor_ok _)

end Filing

namespace Atlas

/-- Only minor problems were met between two states of an atlas. -/
def MeetsMinor (before after : Atlas) : Prop :=
  ∃ kept,
    after.problems = before.problems ++ kept ∧
      ∀ problem ∈ kept, problem.IsMinor

namespace MeetsMinor

theorem refl
    (atlas : Atlas) :
    MeetsMinor atlas atlas :=
  ⟨[], by simp⟩

theorem trans
    {first second third : Atlas}
    (earlier : MeetsMinor first second)
    (later : MeetsMinor second third) :
    MeetsMinor first third := by
  obtain ⟨kept, early, minor⟩ := earlier
  obtain ⟨more, late, alsoMinor⟩ := later
  refine ⟨kept ++ more, by rw [late, early, List.append_assoc], ?_⟩
  intro problem member
  rcases List.mem_append.mp member with old | new
  · exact minor problem old
  · exact alsoMinor problem new

end MeetsMinor

end Atlas

namespace Visit

/-- A step that keeps the problems, and answers with a minor one at most. -/
structure KeepsProblems
    (atlas : Atlas)
    (outcome : Outcome α) :
    Prop where
  problems : outcome.atlas.problems = atlas.problems
  answer : Minor outcome.answer

/-- A call that is refused leaves the problems to be kept. -/
theorem refuse_keepsProblems
    (visit : Visit)
    (atlas : Atlas)
    (operation : Operation) :
    KeepsProblems atlas (visit.refuse atlas operation : Outcome α) :=
  ⟨rfl, minor_error trivial⟩

/-- A call that brings an annotation keeps the problems there were. -/
theorem annotate_keepsProblems
    (visit : Visit)
    (atlas : Atlas)
    (decl : AnnotationDecl) :
    KeepsProblems atlas (visit.annotate atlas decl) := by
  unfold annotate
  split
  · split
    · exact ⟨rfl, minor_ok _⟩
    · exact ⟨rfl, minor_ok _⟩
  · exact visit.refuse_keepsProblems atlas _

/-- A call that brings a field keeps the problems there were. -/
theorem field_keepsProblems
    (visit : Visit)
    (atlas : Atlas)
    (decl : FieldDecl) :
    KeepsProblems atlas (visit.field atlas decl) := by
  unfold field
  split
  · exact visit.refuse_keepsProblems atlas _
  · dsimp only
    split
    · exact ⟨rfl, minor_ok _⟩
    · split
      · split
        · exact ⟨rfl, minor_ok _⟩
        · exact ⟨rfl, minor_error trivial⟩
      · exact ⟨rfl, Filing.enterField_meetsMinor _ _ decl atlas.store⟩

/-- A call that brings a method keeps the problems there were. -/
theorem method_keepsProblems
    (visit : Visit)
    (atlas : Atlas)
    (decl : MethodDecl) :
    KeepsProblems atlas (visit.method atlas decl) := by
  unfold method
  split
  · exact visit.refuse_keepsProblems atlas _
  · dsimp only
    split
    · exact ⟨rfl, minor_ok _⟩
    · next current _ _ =>
        have recorded :
            (if current.category = .annotationType then
              (atlas.file (Filing.enterDefault current.name decl)).2
            else
              atlas).problems = atlas.problems := by
          split <;> rfl
        split
        · exact ⟨recorded, Filing.enterMethod_meetsMinor _ _ decl _⟩
        · exact ⟨recorded, minor_ok _⟩

/-- The call that ends a visit keeps the problems there were. -/
theorem finish_keepsProblems
    (visit : Visit)
    (atlas : Atlas) :
    KeepsProblems atlas (visit.finish atlas) := by
  unfold finish
  split
  · exact visit.refuse_keepsProblems atlas _
  · exact ⟨rfl, minor_ok _⟩

/-- A call that is settled has met a minor problem at most. -/
theorem settle_meetsMinor
    {atlas : Atlas}
    {outcome : Outcome α}
    (keeps : KeepsProblems atlas outcome) :
    atlas.MeetsMinor (settle outcome).2 := by
  unfold settle
  split
  · exact ⟨[], by simp [keeps.problems]⟩
  · next problem failed =>
      refine ⟨[problem], by rw [Atlas.report, keeps.problems], ?_⟩
      intro met member
      rw [List.mem_singleton.mp member]
      exact keeps.answer problem failed

/-- So have calls in a row. -/
theorem settleAll_meetsMinor
    {step : Visit → Atlas → δ → Outcome α}
    (keeps : ∀ visit atlas decl, KeepsProblems atlas (step visit atlas decl))
    (decls : List δ)
    (state : Visit × Atlas) :
    state.2.MeetsMinor (settleAll step decls state).2 := by
  induction decls generalizing state with
  | nil =>
      exact .refl _
  | cons decl decls inductionHypothesis =>
      exact (settle_meetsMinor (keeps state.1 state.2 decl)).trans
        (inductionHypothesis _)

/-- What concerns the type is found by headers, never by bodies. -/
theorem enterBody_meetsMinor
    (decl : ClassDecl)
    (state : Visit × Atlas) :
    state.2.MeetsMinor (enterBody decl state).2 :=
  (settleAll_meetsMinor annotate_keepsProblems decl.annotations state).trans
    ((settleAll_meetsMinor field_keepsProblems decl.fields _).trans
      ((settleAll_meetsMinor method_keepsProblems decl.methods _).trans
        (settle_meetsMinor (finish_keepsProblems _ _))))

end Visit

end TypeAtlas
