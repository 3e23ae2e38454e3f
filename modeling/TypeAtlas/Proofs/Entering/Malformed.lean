import TypeAtlas.Proofs.Entering.Growth
import TypeAtlas.Proofs.Entering.SettingsEffect
import TypeAtlas.Proofs.Store.Likeness

namespace TypeAtlas

/-!
# Malformed signatures

A signature with a fault says nothing: a declaration is entered as if the
signature were not there. The names before the fault are mentioned, and that is
all that can be seen of it, but for the text that a method keeps.
-/

/-! ## Declarations without malformed signatures -/

/-- A signature, unless it has a fault. -/
def Signature.sound?
    (trace : String → Signature.Trace)
    (signature : Option String) :
    Option String :=
  signature.filter fun text => (trace text).malformed?.isNone

/-- A signature is kept, or it has a fault and is not. -/
theorem Signature.sound?_cases
    (trace : String → Signature.Trace)
    (signature : Option String) :
    Signature.sound? trace signature = signature ∨
      Signature.sound? trace signature = none ∧
        ∃ text fault,
          signature = some text ∧ (trace text).malformed? = some fault := by
  unfold sound?
  cases signature with
  | none =>
      exact Or.inl rfl
  | some text =>
      cases faulty : (trace text).malformed? with
      | none =>
          exact Or.inl (by simp [faulty])
      | some fault =>
          exact Or.inr ⟨by simp [faulty], text, fault, rfl, faulty⟩

/-- A signature that is not kept is not there, or has a fault. -/
theorem Signature.absent_or_malformed
    {trace : String → Signature.Trace}
    {signature : Option String}
    (unsigned : Signature.sound? trace signature = none) :
    signature = none ∨
      ∃ text fault,
        signature = some text ∧ (trace text).malformed? = some fault := by
  rcases Signature.sound?_cases trace signature with sound | ⟨-, malformed⟩
  · exact Or.inl (sound.symm.trans unsigned)
  · exact Or.inr malformed

/-- A field without its signature, if that has a fault. -/
def FieldDecl.wellSigned (decl : FieldDecl) : FieldDecl :=
  { decl with
    signature := Signature.sound? Signature.traceField decl.signature }

/-- A method without its signature, if that has a fault. -/
def MethodDecl.wellSigned (decl : MethodDecl) : MethodDecl :=
  { decl with
    signature := Signature.sound? Signature.traceMethod decl.signature }

/-- A declaration without those of its signatures that have a fault. -/
def ClassDecl.wellSigned (decl : ClassDecl) : ClassDecl :=
  { decl with
    signature := Signature.sound? Signature.traceClass decl.signature
    fields := decl.fields.map FieldDecl.wellSigned
    methods := decl.methods.map MethodDecl.wellSigned }

namespace Filing

/-! ## What malformed signatures say -/

/-- A step that mentions names mentions the same on every store. -/
theorem Mentioning.notes
    {step : Filing α}
    (mentioning : Mentioning step) :
    ∃ hints, Notes step (answerOf step) hints := by
  obtain ⟨answer, hints, noted⟩ := mentioning
  exact ⟨hints, noted.answerOf_eq ▸ noted⟩

/-- A malformed class signature resolves to nothing. -/
theorem answerOf_resolveClass_malformed
    {text : String}
    {fault : Signature.Malformed}
    (faulty : (Signature.traceClass text).malformed? = some fault) :
    answerOf (resolveClass text) = none := by
  simp only [answerOf, resolveClass, Resolver.run, faulty]
  rfl

/-- A malformed field signature resolves to nothing. -/
theorem answerOf_resolveField_malformed
    (formals : Formals)
    {text : String}
    {fault : Signature.Malformed}
    (faulty : (Signature.traceField text).malformed? = some fault) :
    answerOf (resolveField formals text) = none := by
  simp only [answerOf, resolveField, Resolver.run, faulty]
  rfl

/-- A malformed method signature resolves to nothing. -/
theorem answerOf_resolveMethod_malformed
    (formals : Formals)
    {text : String}
    {fault : Signature.Malformed}
    (faulty : (Signature.traceMethod text).malformed? = some fault) :
    answerOf (resolveMethod formals text) = none := by
  simp only [answerOf, resolveMethod, Resolver.run, faulty]
  rfl

/-- A method signature with a fault says nothing of any part. -/
theorem answerOf_methodGenerics_malformed
    (formals : Formals)
    (parameters : Nat)
    {text : String}
    {fault : Signature.Malformed}
    (faulty : (Signature.traceMethod text).malformed? = some fault) :
    answerOf (methodGenerics formals parameters (some text)) =
      ⟨[], none, []⟩ := by
  obtain ⟨hints, noted⟩ := (resolveMethod_mentioning formals text).notes
  rw [answerOf_resolveMethod_malformed formals faulty] at noted
  have said :
      Notes (methodGenerics formals parameters (some text)) ⟨[], none, []⟩
        (hints ++ []) :=
    noted.bind (notes_pure _)
  exact said.answerOf_eq

/-! ## Steps on stores that resemble each other -/

/--
Two steps that answer the same on stores that resemble each other, and leave
such stores behind.
-/
def Echoes
    (known : List TypeName)
    (step other : Filing α) :
    Prop :=
  ∀ store otherStore : Store, store.Resembles known otherStore →
    (step.run store).1 = (other.run otherStore).1 ∧
      (step.run store).2.Resembles known (other.run otherStore).2

namespace Echoes

variable {known : List TypeName}

theorem pure
    (answer : α) :
    Echoes known (Pure.pure answer : Filing α) (Pure.pure answer) :=
  fun _ _ resembles => ⟨rfl, resembles⟩

/-- Names are mentioned before, more of them by the first step. -/
theorem bindNotes
    {step other : Filing α}
    {next otherNext : α → Filing β}
    {answer : α}
    {hints fewer : List Hint}
    (noted : Notes step answer hints)
    (otherNoted : Notes other answer fewer)
    (subset : ∀ hint ∈ fewer, hint ∈ hints)
    (later :
      Echoes ((mentions fewer).flatMap Change.introduces ++ known)
        (next answer) (otherNext answer)) :
    Echoes known (step >>= next) (other >>= otherNext) := by
  intro store otherStore resembles
  rw [StateT.run_bind, StateT.run_bind, noted store, otherNoted otherStore]
  obtain ⟨answers, stores⟩ := later _ _ (resembles.mentions subset)
  exact ⟨answers, stores.mono fun _ member => List.mem_append_right _ member⟩

/-- Both steps begin with the same one, which only mentions names. -/
theorem bindMentioning
    {step : Filing α}
    {next otherNext : α → Filing β}
    (mentioning : Mentioning step)
    (later : ∀ answer, Echoes known (next answer) (otherNext answer)) :
    Echoes known (step >>= next) (step >>= otherNext) := by
  obtain ⟨answer, hints, noted⟩ := mentioning
  intro store otherStore resembles
  rw [StateT.run_bind, StateT.run_bind, noted store, noted otherStore]
  exact later answer _ _ ((resembles.mentions fun _ member => member).mono
    fun _ member => List.mem_append_right _ member)

/-- The stores may be looked at before. -/
theorem bindGet
    {next otherNext : Store → Filing β}
    (later :
      ∀ store otherStore : Store, store.Resembles known otherStore →
        Echoes known (next store) (otherNext otherStore)) :
    Echoes known (get >>= next) (get >>= otherNext) :=
  fun store otherStore resembles =>
    later store otherStore resembles store otherStore resembles

/-- Scripts are made before that differ in texts of signatures at most. -/
theorem bindReplay
    {step other : Filing PUnit}
    {next otherNext : PUnit → Filing β}
    {script otherScript : List Change}
    (replays : ∀ store, step.run store = (PUnit.unit, store.replay script))
    (otherReplays :
      ∀ store, other.run store = (PUnit.unit, store.replay otherScript))
    (alike : script.map Change.unsigned = otherScript.map Change.unsigned)
    (grounded : Grounded known script)
    (later : Echoes known (next PUnit.unit) (otherNext PUnit.unit)) :
    Echoes known (step >>= next) (other >>= otherNext) := by
  intro store otherStore resembles
  rw [StateT.run_bind, StateT.run_bind, replays store, otherReplays otherStore]
  exact later _ _ (resembles.replay alike grounded)

/-- Both steps begin with the same one, which makes a script. -/
theorem bindScript
    {step : Filing PUnit}
    {next otherNext : PUnit → Filing β}
    {script : List Change}
    (replays : ∀ store, step.run store = (PUnit.unit, store.replay script))
    (grounded : Grounded known script)
    (later : Echoes known (next PUnit.unit) (otherNext PUnit.unit)) :
    Echoes known (step >>= next) (step >>= otherNext) :=
  bindReplay replays replays rfl grounded later

end Echoes

/-! ## Fields -/

/-- The signature of a field is resolved before, unless it has a fault. -/
theorem Echoes.bindFieldSignature
    {known : List TypeName}
    {next otherNext : Option Generic → Filing β}
    (formals : Formals)
    (signature : Option String)
    (later : ∀ resolved, Echoes known (next resolved) (otherNext resolved)) :
    Echoes known
      (match signature with
        | some text => resolveField formals text >>= next
        | none => Pure.pure none >>= next)
      (match Signature.sound? Signature.traceField signature with
        | some text => resolveField formals text >>= otherNext
        | none => Pure.pure none >>= otherNext) := by
  rcases Signature.sound?_cases Signature.traceField signature with
    sound | ⟨unsound, text, fault, rfl, faulty⟩
  · rw [sound]
    cases signature with
    | none =>
        exact bindMentioning (mentioning_pure none) later
    | some text =>
        exact bindMentioning (resolveField_mentioning formals text) later
  · obtain ⟨hints, noted⟩ := (resolveField_mentioning formals text).notes
    rw [answerOf_resolveField_malformed formals faulty] at noted
    rw [unsound]
    exact bindNotes noted (notes_pure none) (by simp) (later none)

/-- The last steps of a field. -/
theorem keepField_echoes
    {owner : TypeName}
    {known : List TypeName}
    {uses : List AnnotationUse}
    {reference : Reference}
    (ownerKnown : owner ∈ known)
    (usesKnown :
      ∀ use ∈ uses, use.type.tracked = true → use.type.name ∈ known)
    (typeKnown : reference.tracked = true → reference.name ∈ known)
    (id : FieldId)
    (field : Field)
    (answer : α) :
    let step : Filing α := do
      modify (·.recordUses uses (.field id))
      modify (·.updateReferent reference (·.addFieldUse id))
      modify (·.updateNode owner (·.addField field))
      return answer
    Echoes known step step := by
  refine Echoes.bindScript
    (fun store => congrArg (Prod.mk PUnit.unit)
      (store.recordUses_eq_replay uses (.field id)))
    (grounded_of_marks (marks_useMarks usesKnown)) ?_
  refine Echoes.bindScript
    (fun store => congrArg (Prod.mk PUnit.unit)
      (addFieldUse_eq_replay reference id store)) ?_ ?_
  · by_cases tracked : reference.tracked = true
    · simp [fieldUseMarks, tracked, Grounded, Change.expects,
        typeKnown tracked]
    · simp [fieldUseMarks, tracked, Grounded]
  · refine Echoes.bindScript
      (fun _ => congrArg (Prod.mk PUnit.unit)
        (show _ = Store.replay _ [.amend owner (.field field)] from rfl))
      ?_ (Echoes.pure answer)
    simpa [Grounded, Change.expects] using ownerKnown

/-- A field is entered as if a signature with a fault were not there. -/
theorem enterField_echoes
    (settings : Settings)
    (owner : TypeName)
    (decl : FieldDecl) :
    Echoes [owner] (enterField settings owner decl)
      (enterField settings owner decl.wellSigned) := by
  have parses : decl.wellSigned.descriptor = decl.descriptor := rfl
  unfold enterField
  rw [parses]
  cases Descriptor.parse decl.descriptor with
  | error fault =>
      exact Echoes.pure _
  | ok type =>
      obtain ⟨uses, useHints, usesNoted, usesNamed⟩ :=
        takeUses_notes decl.annotations
      obtain ⟨reference, typeHints, typeNoted, typeNamed⟩ :=
        referToElement_notes type
      refine Echoes.bindNotes usesNoted usesNoted (fun _ member => member) ?_
      dsimp only
      split
      · exact Echoes.pure _
      · refine Echoes.bindNotes typeNoted typeNoted (fun _ member => member) ?_
        refine Echoes.bindGet fun _ _ resembles => ?_
        rw [resembles.formalsOf]
        refine Echoes.bindFieldSignature _ decl.signature fun resolved => ?_
        refine Echoes.bindGet fun _ _ resembles => ?_
        rw [resembles.nextField]
        refine keepField_echoes (by simp) ?_ ?_ _ _ _
        · intro use member tracked
          have known := (usesNamed use member).known tracked
          simp [known]
        · exact fun tracked =>
            List.mem_append_left _ (typeNamed.known tracked)

/-! ## Methods -/

/-- The signature of a method is resolved before, unless it has a fault. -/
theorem Echoes.bindMethodSignature
    {known : List TypeName}
    {next otherNext : MethodGenerics → Filing β}
    (formals : Formals)
    (parameters : Nat)
    (signature : Option String)
    (later : ∀ generics, Echoes known (next generics) (otherNext generics)) :
    Echoes known
      (methodGenerics formals parameters signature >>= next)
      (methodGenerics formals parameters
        (Signature.sound? Signature.traceMethod signature) >>= otherNext) := by
  have mentioning := methodGenerics_mentioning formals parameters signature
  rcases Signature.sound?_cases Signature.traceMethod signature with
    sound | ⟨unsound, text, fault, rfl, faulty⟩
  · rw [sound]
    exact bindMentioning mentioning later
  · obtain ⟨hints, noted⟩ := mentioning.notes
    rw [answerOf_methodGenerics_malformed formals parameters faulty] at noted
    rw [unsound]
    exact bindNotes noted (notes_pure _) (by simp) (later _)

/-- The last steps of methods that differ in the text of the signature. -/
theorem keepMethod_echoes
    {owner : TypeName}
    {known : List TypeName}
    {uses : List AnnotationUse}
    {drafts : List ParameterDraft}
    (ownerKnown : owner ∈ known)
    (usesKnown :
      ∀ use ∈ uses, use.type.tracked = true → use.type.name ∈ known)
    (draftsKnown :
      ∀ draft ∈ drafts, ∀ use ∈ draft.uses,
        use.type.tracked = true → use.type.name ∈ known)
    (id : MethodId)
    {method otherMethod : Method}
    (alike : method.unsigned = otherMethod.unsigned)
    (answer : α) :
    let step (method : Method) : Filing α := do
      modify (·.recordUses uses (.method id))
      recordParameters id drafts
      modify (·.updateNode owner (·.addMethod method))
      return answer
    Echoes known (step method) (step otherMethod) := by
  refine Echoes.bindScript
    (fun store => congrArg (Prod.mk PUnit.unit)
      (store.recordUses_eq_replay uses (.method id)))
    (grounded_of_marks (marks_useMarks usesKnown)) ?_
  refine Echoes.bindScript (recordParameters_eq_replay id drafts)
    (grounded_of_marks (marks_parameterMarks draftsKnown)) ?_
  -- Only here do the two scripts differ.
  refine Echoes.bindReplay
    (fun _ => congrArg (Prod.mk PUnit.unit)
      (show _ = Store.replay _ [.amend owner (.method method)] from rfl))
    (fun _ => congrArg (Prod.mk PUnit.unit)
      (show _ = Store.replay _ [.amend owner (.method otherMethod)] from rfl))
    ?_ ?_ (Echoes.pure answer)
  · simp [Change.unsigned, Amendment.unsigned, alike]
  · simpa [Grounded, Change.expects] using ownerKnown

/-- A method is entered as if a signature with a fault were not there. -/
theorem enterMethod_echoes
    (settings : Settings)
    (owner : TypeName)
    (decl : MethodDecl) :
    Echoes [owner] (enterMethod settings owner decl)
      (enterMethod settings owner decl.wellSigned) := by
  have parses : decl.wellSigned.descriptor = decl.descriptor := rfl
  unfold enterMethod
  rw [parses]
  cases MethodDescriptor.parse decl.descriptor with
  | error fault =>
      exact Echoes.pure _
  | ok type =>
      obtain ⟨uses, useHints, usesNoted, usesNamed⟩ :=
        takeUses_notes decl.annotations
      obtain ⟨table, tableHints, tableNoted, tableNamed⟩ :=
        takeTable_notes
          (alignTable decl.parameterAnnotations type.parameters.length)
      refine Echoes.bindNotes usesNoted usesNoted (fun _ member => member) ?_
      refine Echoes.bindNotes tableNoted tableNoted (fun _ member => member) ?_
      dsimp only
      split
      · exact Echoes.pure _
      · refine Echoes.bindGet fun _ _ resembles => ?_
        rw [resembles.formalsOf]
        refine Echoes.bindMethodSignature _ _ decl.signature fun generics => ?_
        refine Echoes.bindMentioning
          (methodResult_mentioning generics.result type.result)
          fun result => ?_
        refine Echoes.bindGet fun _ _ resembles => ?_
        rw [resembles.nextMethod]
        refine Echoes.bindMentioning
          (enterParameters_mentioning _ 0 _) fun parameters => ?_
        apply keepMethod_echoes
        · simp
        · intro use member tracked
          have known := (usesNamed use member).known tracked
          simp [known]
        · intro draft member use used tracked
          obtain ⟨slot, present, inSlot⟩ := slot_of_draft member used
          have known := (tableNamed slot present use inSlot).known tracked
          simp [known]
        · rfl

/-- A default has nothing to do with signatures. -/
theorem enterDefault_echoes
    (owner : TypeName)
    (decl : MethodDecl) :
    Echoes [owner] (enterDefault owner decl)
      (enterDefault owner decl.wellSigned) := by
  obtain ⟨script, grounded, -, replayed⟩ :=
    Visit.enterDefault_scripted owner decl
  intro store otherStore resembles
  have same : enterDefault owner decl.wellSigned = enterDefault owner decl :=
    rfl
  rw [same, replayed, replayed]
  exact ⟨rfl, resembles.replay rfl grounded⟩

end Filing

/-! ## Visits -/

/-- Two atlases whose stores resemble each other. -/
structure Atlas.Echoes
    (known : List TypeName)
    (atlas other : Atlas) :
    Prop where
  settings : atlas.settings = other.settings
  problems : atlas.problems = other.problems
  stores : atlas.store.Resembles known other.store

/-- A step that is echoed is echoed in the atlas. -/
theorem Atlas.Echoes.file
    {known : List TypeName}
    {atlas other : Atlas}
    (echoes : atlas.Echoes known other)
    {step otherStep : Filing α}
    (steps : Filing.Echoes known step otherStep) :
    (atlas.file step).1 = (other.file otherStep).1 ∧
      (atlas.file step).2.Echoes known (other.file otherStep).2 := by
  obtain ⟨answers, stores⟩ := steps _ _ echoes.stores
  exact ⟨answers, echoes.settings, echoes.problems, stores⟩

namespace Visit

/-- Two states of one visit to a type, with atlases that resemble each other. -/
structure Echoes
    (owner : TypeName)
    (state other : Visit × Atlas) :
    Prop where
  visits : state.1 = other.1
  stays : state.1.StaysOn owner
  atlases : state.2.Echoes [owner] other.2

/-- Two outcomes of a step with one answer. -/
def OutcomesEcho
    (owner : TypeName)
    (outcome other : Outcome α) :
    Prop :=
  outcome.answer = other.answer ∧
    Echoes owner (outcome.visit, outcome.atlas) (other.visit, other.atlas)

/-- The same problem is kept, if there is one. -/
theorem OutcomesEcho.settle
    {owner : TypeName}
    {outcome other : Outcome α}
    (echo : OutcomesEcho owner outcome other) :
    Echoes owner (Visit.settle outcome) (Visit.settle other) := by
  obtain ⟨answers, visits, stays, settings, problems, stores⟩ := echo
  unfold Visit.settle
  rw [← answers]
  cases outcome.answer with
  | ok value =>
      exact ⟨visits, stays, settings, problems, stores⟩
  | error problem =>
      refine ⟨visits, stays, settings, ?_, stores⟩
      exact congrArg (· ++ [problem]) problems

/-- What holds of one step holds of the steps of a whole list. -/
theorem Echoes.settleAll
    {owner : TypeName}
    {step : Visit → Atlas → δ → Outcome α}
    (respell : δ → δ)
    (keeps :
      ∀ {visit : Visit} {atlas other : Atlas} (decl : δ),
        visit.StaysOn owner → atlas.Echoes [owner] other →
          OutcomesEcho owner (step visit atlas decl)
            (step visit other (respell decl)))
    (decls : List δ)
    {state other : Visit × Atlas}
    (echoes : Echoes owner state other) :
    Echoes owner (Visit.settleAll step decls state)
      (Visit.settleAll step (decls.map respell) other) := by
  induction decls generalizing state other with
  | nil =>
      exact echoes
  | cons decl decls inductionHypothesis =>
      obtain ⟨visit, atlas⟩ := state
      obtain ⟨_, otherAtlas⟩ := other
      obtain ⟨rfl, stays, atlases⟩ := echoes
      exact inductionHypothesis (keeps decl stays atlases).settle

section

variable
  {owner : TypeName} {visit : Visit} {atlas other : Atlas}

/-- A call that brings an annotation is echoed. -/
theorem annotate_echoes
    (decl : AnnotationDecl)
    (stays : visit.StaysOn owner)
    (echoes : atlas.Echoes [owner] other) :
    OutcomesEcho owner (visit.annotate atlas decl)
      (visit.annotate other decl) := by
  cases reached : visit.progress with
  | start | members _ | ended =>
      simp only [annotate, reached]
      exact ⟨rfl, rfl, stays, echoes⟩
  | header current =>
      have named : current.name = owner :=
        stays current (by simp [openMembers?, reached])
      cases merging : current.merging with
      | true =>
          rw [annotate_idle reached merging, annotate_idle reached merging]
          exact ⟨rfl, rfl, stays, echoes⟩
      | false =>
          obtain ⟨use, hints, noted, names⟩ := Filing.takeUse_notes decl
          obtain ⟨settings, problems, stores⟩ := echoes
          rw [annotate_eq reached merging named atlas noted,
            annotate_eq reached merging named other noted, settings]
          refine ⟨rfl, rfl, ?_, rfl, problems,
            stores.replay rfl (bodyScript_useScript names).grounded⟩
          intro other opened
          simp only [openMembers?, Option.some.injEq] at opened
          rw [← opened, ← named]

/-- A call that brings a field is echoed without its malformed signature. -/
theorem field_echoes
    (decl : FieldDecl)
    (stays : visit.StaysOn owner)
    (echoes : atlas.Echoes [owner] other) :
    OutcomesEcho owner (visit.field atlas decl)
      (visit.field other decl.wellSigned) := by
  have static : decl.wellSigned.isStatic = decl.isStatic := rfl
  have synthetic : decl.wellSigned.isSynthetic = decl.isSynthetic := rfl
  unfold field
  rw [static, synthetic]
  cases opened : visit.openMembers? with
  | none =>
      exact ⟨rfl, rfl, stays, echoes⟩
  | some current =>
      have named : current.name = owner := stays current opened
      have remains :
          StaysOn { visit with progress := .members current } owner :=
        staysOn_members named
      dsimp only
      split
      · exact ⟨rfl, rfl, remains, echoes⟩
      · split
        · split
          · exact ⟨rfl, rfl, remains, echoes⟩
          · exact ⟨rfl, rfl, remains, echoes⟩
        · rw [named, ← echoes.settings]
          obtain ⟨answers, atlases⟩ := echoes.file
            (Filing.enterField_echoes atlas.settings owner decl)
          exact ⟨answers, rfl, remains, atlases⟩

/-- A call that brings a method is echoed without its malformed signature. -/
theorem method_echoes
    (decl : MethodDecl)
    (stays : visit.StaysOn owner)
    (echoes : atlas.Echoes [owner] other) :
    OutcomesEcho owner (visit.method atlas decl)
      (visit.method other decl.wellSigned) := by
  have synthetic : decl.wellSigned.isSynthetic = decl.isSynthetic := rfl
  have initializer : decl.wellSigned.isInitializer = decl.isInitializer := rfl
  unfold method
  rw [synthetic, initializer]
  cases opened : visit.openMembers? with
  | none =>
      exact ⟨rfl, rfl, stays, echoes⟩
  | some current =>
      have named : current.name = owner := stays current opened
      have remains :
          StaysOn { visit with progress := .members current } owner :=
        staysOn_members named
      dsimp only
      split
      · exact ⟨rfl, rfl, remains, echoes⟩
      · rw [named]
        have defaults :
            (if current.category = .annotationType then
              (atlas.file (Filing.enterDefault owner decl)).2
            else
              atlas).Echoes [owner]
            (if current.category = .annotationType then
              (other.file (Filing.enterDefault owner decl.wellSigned)).2
            else
              other) := by
          split
          · exact (echoes.file (Filing.enterDefault_echoes owner decl)).2
          · exact echoes
        split
        · rw [← defaults.settings]
          obtain ⟨answers, atlases⟩ := defaults.file
            (Filing.enterMethod_echoes _ owner decl)
          exact ⟨answers, rfl, remains, atlases⟩
        · exact ⟨rfl, rfl, remains, defaults⟩

end

/-- The call that ends a visit is echoed. -/
theorem finish_echoes
    {owner : TypeName}
    {state other : Visit × Atlas}
    (echoes : Echoes owner state other) :
    Echoes owner (settle (finish state.1 state.2))
      (settle (finish other.1 other.2)) := by
  obtain ⟨visit, atlas⟩ := state
  obtain ⟨_, otherAtlas⟩ := other
  obtain ⟨rfl, stays, atlases⟩ := echoes
  refine OutcomesEcho.settle ?_
  unfold finish
  cases opened : visit.openMembers? with
  | none =>
      exact ⟨rfl, rfl, stays, atlases⟩
  | some current =>
      refine ⟨rfl, rfl, ?_, atlases⟩
      intro other ended
      simp [openMembers?] at ended

/-- A body is entered as if signatures with faults were not there. -/
theorem enterBody_echoes
    {owner : TypeName}
    {state other : Visit × Atlas}
    (echoes : Echoes owner state other)
    (decl : ClassDecl) :
    Echoes owner (enterBody decl state)
      (enterBody decl.wellSigned other) := by
  have annotated := echoes.settleAll id annotate_echoes decl.annotations
  rw [List.map_id] at annotated
  have withFields :=
    annotated.settleAll FieldDecl.wellSigned field_echoes decl.fields
  have withMethods :=
    withFields.settleAll MethodDecl.wellSigned method_echoes decl.methods
  exact finish_echoes withMethods

/-! ## Headers -/

/-- Of a class signature with a fault, only names are mentioned. -/
theorem linkSignature_malformed
    (store : Store)
    (name : TypeName)
    {text : String}
    {fault : Signature.Malformed}
    (faulty : (Signature.traceClass text).malformed? = some fault) :
    ∃ hints,
      store.linkSignature name text = store.replay (mentions hints) := by
  obtain ⟨hints, noted⟩ := (Filing.resolveClass_mentioning text).notes
  rw [Filing.answerOf_resolveClass_malformed faulty] at noted
  exact ⟨hints, by simp only [Store.linkSignature, noted store]⟩

/-- Supertypes are linked as if a signature with a fault were not there. -/
theorem linkHeader_wellSigned
    (decl : ClassDecl)
    (store : Store) :
    ∃ hints,
      linkHeader decl store =
        ((linkHeader decl.wellSigned store).1.replay (mentions hints),
          (linkHeader decl.wellSigned store).2) := by
  have category : decl.wellSigned.category = decl.category := rfl
  have superclass :
      store.linkSuperclass decl.wellSigned = store.linkSuperclass decl :=
    rfl
  unfold linkHeader
  rw [category]
  split
  · rw [Store.linkSupertypes_eq, Store.linkSupertypes_eq, superclass]
    rcases Signature.sound?_cases Signature.traceClass decl.signature with
      sound | ⟨unsound, text, fault, signed, faulty⟩
    · exact ⟨[], by simp only [ClassDecl.wellSigned, sound]; rfl⟩
    · obtain ⟨hints, replayed⟩ := linkSignature_malformed
        (decl.interfaces.foldl (·.linkInterface decl.name decl.category ·)
          (store.linkSuperclass decl).1) decl.name faulty
      refine ⟨hints, ?_⟩
      simp only [ClassDecl.wellSigned, unsound]
      rw [signed]
      simp only [replayed]
  · exact ⟨[], rfl⟩

/-- A header is linked alike without its malformed signature. -/
theorem linkHeader_echoes
    (decl : ClassDecl)
    {store : Store}
    (present : decl.name ∈ store.names) :
    (linkHeader decl store).2 = (linkHeader decl.wellSigned store).2 ∧
      (linkHeader decl store).1.Resembles [decl.name]
        (linkHeader decl.wellSigned store).1 := by
  obtain ⟨hints, linked⟩ := linkHeader_wellSigned decl store
  have remains : decl.name ∈ (linkHeader decl.wellSigned store).1.names :=
    (linkHeader_gains decl.wellSigned store).grown.mem_names present
  have same :
      (linkHeader decl.wellSigned store).1.Resembles [decl.name]
        (linkHeader decl.wellSigned store).1 :=
    .refl (List.forall_mem_singleton.mpr remains)
  have nothing : ∀ hint ∈ ([] : List Hint), hint ∈ hints := by simp
  rw [linked]
  exact ⟨rfl, same.mentions nothing⟩

/-- A header that claims its type. -/
theorem headed_echoes
    {visit : Visit}
    (fresh : visit.progress = .start)
    {atlas : Atlas}
    {decl : ClassDecl}
    (filed : (Change.file decl.name decl.category).Allowed atlas.store)
    (claimed :
      (Change.claim decl.name decl.category).Allowed
        (atlas.store.replay (founding decl))) :
    OutcomesEcho decl.name (visit.header atlas decl)
      (visit.header atlas decl.wellSigned) := by
  have otherFiled :
      (Change.file decl.wellSigned.name decl.wellSigned.category).Allowed
        atlas.store :=
    filed
  have opened :
      decl.name ∈ (atlas.store.replay (visit.opening decl)).names :=
    Store.mem_names_replay.mpr (Or.inr
      ⟨.file decl.name decl.category, by simp [opening],
        by simp [Change.introduces]⟩)
  obtain ⟨problems, stores⟩ := linkHeader_echoes decl opened
  rw [header_of_claimed fresh filed claimed,
    header_of_claimed fresh otherFiled claimed]
  exact ⟨rfl, rfl, headed_staysOn visit atlas decl, rfl,
    congrArg (atlas.problems ++ ·.toList) problems, stores⟩

/--
A header is refused, or entered as if a signature with a fault were not there.
-/
theorem header_echoes
    (visit : Visit)
    (atlas : Atlas)
    (decl : ClassDecl) :
    let outcome := visit.header atlas decl
    let other := visit.header atlas decl.wellSigned
    (∃ problem, outcome.answer = .error problem ∧ outcome = other) ∨
      OutcomesEcho decl.name outcome other := by
  have name : decl.wellSigned.name = decl.name := rfl
  have category : decl.wellSigned.category = decl.category := rfl
  -- Up to the supertypes a header does not look at signatures, so both headers
  -- have come to the same store when it is decided whether to go on.
  dsimp only
  cases reached : visit.progress with
  | header _ | members _ | ended =>
      simp only [header, reached]
      exact Or.inl ⟨_, rfl, trivial⟩
  | start =>
      cases defined : atlas.store.define decl.name decl.category with
      | error problem =>
          simp only [header, reached, name, category, defined]
          exact Or.inl ⟨problem, rfl, trivial⟩
      | ok store =>
          obtain ⟨filed, rfl⟩ := Store.define_eq_ok_iff.mp defined
          cases claims :
              (atlas.store.replay (founding decl)).claim decl.name
                decl.category with
          | error problem =>
              simp only [header, reached, name, category, defined,
                founding_eq, claims]
              exact Or.inl ⟨problem, rfl, trivial⟩
          | ok result =>
              obtain ⟨entry, node, found, kind, installed⟩ :=
                find?_founding atlas.store decl
              have claimed :=
                ((Store.claim_eq_ok_iff found kind installed).mp claims).1
              exact Or.inr (headed_echoes reached filed claimed)

/-- A declaration is entered as if signatures with faults were not there. -/
theorem accept_echoes
    (visit : Visit)
    (atlas : Atlas)
    (decl : ClassDecl) :
    let outcome := visit.accept atlas decl
    let other := visit.accept atlas decl.wellSigned
    outcome.1 = other.1 ∧ outcome.2.Echoes [] other.2 := by
  have name : decl.wellSigned.name = decl.name := rfl
  have same : ∀ atlas : Atlas, atlas.Echoes [] atlas :=
    fun _ => ⟨rfl, rfl, .refl (by simp)⟩
  dsimp only
  rw [accept_eq, accept_eq, name]
  split
  · exact ⟨rfl, same atlas⟩
  · rcases header_echoes visit atlas decl with
      ⟨problem, refused, equal⟩ | ⟨answers, state⟩
    · rw [← equal]
      simp only [refused]
      exact ⟨trivial, same _⟩
    · dsimp only
      rw [← answers]
      have body := enterBody_echoes state decl
      obtain ⟨settings, problems, stores⟩ := state.atlases
      cases (visit.header atlas decl).answer with
      | error problem =>
          exact ⟨rfl, settings, congrArg (· ++ [problem]) problems,
            stores.mono (by simp)⟩
      | ok name =>
          obtain ⟨settings, problems, stores⟩ := body.atlases
          exact ⟨rfl, settings, problems, stores.mono (by simp)⟩

end Visit

end TypeAtlas
