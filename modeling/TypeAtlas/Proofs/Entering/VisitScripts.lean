import TypeAtlas.Proofs.Entering.MemberScripts

namespace TypeAtlas

/-!
# Steps of a visit as scripts

After the header, the steps of a visit are about the type that the header
named. With the settings and the node of that type given, its superclass apart,
each step leaves the same visit and the same answer behind and makes the same
script of the store. So does a whole run of such steps, which keeps the same
problems as well.
-/

namespace Visit

/-- The members that may be entered now, if any, are those of a type. -/
def StaysOn
    (visit : Visit)
    (owner : TypeName) :
    Prop :=
  ∀ current, visit.openMembers? = some current → current.name = owner

/--
A script that is about a type: it adds to the node of no other type, and builds
on no other entries than the type's own and those it mentions.
-/
structure MemberScript
    (owner : TypeName)
    (script : List Change) :
    Prop where
  grounded : Grounded [owner] script
  ofMember : ∀ change ∈ script, change.OfMember owner

namespace MemberScript

theorem nil
    (owner : TypeName) :
    MemberScript owner [] :=
  ⟨trivial, by simp⟩

/-- Scripts about a type can be put behind each other. -/
theorem append
    {owner : TypeName}
    {first second : List Change}
    (earlier : MemberScript owner first)
    (later : MemberScript owner second) :
    MemberScript owner (first ++ second) := by
  refine ⟨earlier.grounded.append (later.grounded.mono ?_), ?_⟩
  · exact fun name member => List.mem_append_right _ member
  · intro change member
    rcases List.mem_append.mp member with early | late
    · exact earlier.ofMember change early
    · exact later.ofMember change late

/-- Mentioning names adds to no node. -/
theorem mentions
    (owner : TypeName)
    (hints : List Hint) :
    MemberScript owner (TypeAtlas.mentions hints) := by
  refine ⟨grounded_mentions _ hints, fun change member => ?_⟩
  obtain ⟨name, hint, rfl⟩ := eq_mention_of_mem_mentions member
  trivial

/-- An amendment of a type's node is about the type. -/
theorem amend
    (owner : TypeName)
    (amendment : Amendment) :
    MemberScript owner [.amend owner amendment] :=
  ⟨by simp [Grounded, Change.expects], by simp [Change.OfMember]⟩

end MemberScript

/-- A script that entering the members of a type can make. -/
structure BodyScript
    (owner : TypeName)
    (script : List Change) :
    Prop where
  grounded : Grounded [owner] script
  addsMember : ∀ change ∈ script, change.AddsMember owner

namespace BodyScript

/-- A script for the members of a type is about the type. -/
theorem memberScript
    {owner : TypeName}
    {script : List Change}
    (body : BodyScript owner script) :
    MemberScript owner script :=
  ⟨body.grounded, fun change member =>
    (body.addsMember change member).ofMember⟩

theorem nil
    (owner : TypeName) :
    BodyScript owner [] :=
  ⟨trivial, by simp⟩

/-- Scripts for members can be put behind each other. -/
theorem append
    {owner : TypeName}
    {first second : List Change}
    (earlier : BodyScript owner first)
    (later : BodyScript owner second) :
    BodyScript owner (first ++ second) := by
  refine ⟨(earlier.memberScript.append later.memberScript).grounded, ?_⟩
  intro change member
  rcases List.mem_append.mp member with early | late
  · exact earlier.addsMember change early
  · exact later.addsMember change late

end BodyScript

/-! ## One step -/

/--
With the settings and the node of a type given, its superclass apart, a step
leaves the same visit and answer behind on every atlas, and replays the same
script.
-/
def ScriptedAt
    (settings : Settings)
    (owner : TypeName)
    (node : Option Node)
    (step : Atlas → Outcome α) :
    Prop :=
  ∃ visit answer script,
    StaysOn visit owner ∧
      BodyScript owner script ∧
      ∀ store problems, store.orphan? owner = node →
        step ⟨settings, store, problems⟩ =
          ⟨visit, ⟨settings, store.replay script, problems⟩, answer⟩

/-- A step that leaves the atlas alone replays nothing. -/
theorem scriptedAt_constant
    {settings : Settings}
    {owner : TypeName}
    {node : Option Node}
    {visit : Visit}
    (stays : visit.StaysOn owner)
    (answer : Except Problem α) :
    ScriptedAt settings owner node fun atlas => ⟨visit, atlas, answer⟩ :=
  ⟨visit, answer, [], stays, .nil owner, fun _ _ _ => rfl⟩

/-- A step that runs a filing on the store is scripted as the filing is. -/
theorem scriptedAt_file
    (settings : Settings)
    {owner : TypeName}
    {node : Option Node}
    {visit : Visit}
    {step : Settings → Filing (Except Problem α)}
    (stays : visit.StaysOn owner)
    (writes : ∀ settings, Filing.WritesAt owner [] node (step settings)) :
    ScriptedAt settings owner node fun atlas =>
      ⟨visit, (atlas.file (step atlas.settings)).2,
        (atlas.file (step atlas.settings)).1⟩ := by
  obtain ⟨answer, script, grounded, members, written⟩ := writes settings
  refine ⟨visit, answer, script, stays, ⟨grounded, members⟩, ?_⟩
  intro store problems here
  simp only [Atlas.file, written store here]

/-- A filing may come first; the step then meets the node it leaves. -/
theorem scriptedAt_afterFile
    {settings : Settings}
    {owner : TypeName}
    {node : Option Node}
    {before : Filing PUnit}
    {step : Atlas → Outcome α}
    (writes : Filing.WritesAt owner [] node before)
    (later : ∀ node, ScriptedAt settings owner node step) :
    ScriptedAt settings owner node fun atlas => step (atlas.file before).2 := by
  obtain ⟨_, first, grounded, members, written⟩ := writes
  obtain ⟨visit, answer, second, stays, rest, replayed⟩ :=
    later (nodeAfter owner first node)
  refine ⟨visit, answer, first ++ second, stays,
    BodyScript.append ⟨grounded, members⟩ rest, ?_⟩
  intro store problems here
  have after :
      (store.replay first).orphan? owner = nodeAfter owner first node := by
    rw [Store.orphan?_replay_members members, here]
  simp only [Atlas.file, written store here, Store.replay_append]
  exact replayed _ problems after

/-- A visit that has come to members stays on its type. -/
theorem staysOn_members
    {visit : Visit}
    {current : Current}
    {owner : TypeName}
    (named : current.name = owner) :
    StaysOn { visit with progress := .members current } owner := by
  intro other opened
  simp only [openMembers?, Option.some.injEq] at opened
  rw [← opened, named]

/-- The script of an annotation on a type. -/
def useScript
    (owner : TypeName)
    (use : AnnotationUse)
    (hints : List Hint) :
    List Change :=
  mentions hints ++
    (useMarks [use] (.type owner) ++
      [.amend owner (.use (use.attach (.type owner)))])

/-- Recording an annotation is part of entering members. -/
theorem bodyScript_useScript
    {owner : TypeName}
    {use : AnnotationUse}
    {hints : List Hint}
    (names : Filing.Names use.type hints) :
    BodyScript owner (useScript owner use hints) := by
  refine ⟨(grounded_mentions _ hints).append
    (Grounded.append (grounded_of_marks (marks_useMarks ?_)) ?_), ?_⟩
  · intro other member tracked
    rw [List.mem_singleton.mp member] at tracked ⊢
    exact List.mem_append_left _ (names.known tracked)
  · simp [Grounded, Change.expects]
  · intro change member
    simp only [useScript, List.mem_append] at member
    rcases member with mentioned | marked | amended
    · obtain ⟨name, hint, rfl⟩ := eq_mention_of_mem_mentions mentioned
      trivial
    · exact addsMember_useMarks change marked
    · rw [List.mem_singleton.mp amended]
      exact ⟨rfl, trivial⟩

/-- What an annotation does to a type that is entered for the first time. -/
theorem annotate_eq
    {visit : Visit}
    {current : Current}
    (reached : visit.progress = .header current)
    (first : current.merging = false)
    {owner : TypeName}
    (named : current.name = owner)
    (atlas : Atlas)
    {decl : AnnotationDecl}
    {use : AnnotationUse}
    {hints : List Hint}
    (noted : Filing.Notes (Filing.takeUse decl) use hints) :
    visit.annotate atlas decl =
      ⟨{ visit with
          progress := .header
            { current with
              deep := current.deep
                || atlas.settings.isOfInterest use.type.name } },
        { atlas with
          store := atlas.store.replay (useScript owner use hints) },
        .ok ()⟩ := by
  simp only [annotate, reached, first, Bool.false_eq_true, ↓reduceIte,
    Atlas.file, noted atlas.store, Store.recordUses_eq_replay, useScript,
    Store.replay_append, named]
  rfl

/-- A call that brings an annotation replays one script everywhere. -/
theorem annotate_scriptedAt
    (settings : Settings)
    {owner : TypeName}
    (node : Option Node)
    {visit : Visit}
    (stays : visit.StaysOn owner)
    (decl : AnnotationDecl) :
    ScriptedAt settings owner node fun atlas => visit.annotate atlas decl := by
  cases reached : visit.progress with
  | start | members _ | ended =>
      simp only [annotate, reached]
      exact scriptedAt_constant stays _
  | header current =>
      have named : current.name = owner :=
        stays current (by simp [openMembers?, reached])
      cases merging : current.merging with
      | true =>
          simp only [annotate, reached, merging, ↓reduceIte]
          exact scriptedAt_constant stays _
      | false =>
          obtain ⟨use, hints, noted, names⟩ := Filing.takeUse_notes decl
          let deep := current.deep || settings.isOfInterest use.type.name
          refine
            ⟨{ visit with progress := .header { current with deep := deep } },
              .ok (), useScript owner use hints, ?_,
              bodyScript_useScript names, ?_⟩
          · intro other opened
            simp only [openMembers?, Option.some.injEq] at opened
            rw [← opened, ← named]
          · exact fun _ _ _ => annotate_eq reached merging named _ noted

/-- Entering a field is scripted, also where the field is passed over. -/
theorem field_scriptedAt
    (settings : Settings)
    {owner : TypeName}
    (node : Option Node)
    {visit : Visit}
    (stays : visit.StaysOn owner)
    (decl : FieldDecl) :
    ScriptedAt settings owner node fun atlas => visit.field atlas decl := by
  unfold field
  cases opened : visit.openMembers? with
  | none =>
      exact scriptedAt_constant stays _
  | some current =>
      have named : current.name = owner := stays current opened
      have remains :
          StaysOn { visit with progress := .members current } owner :=
        staysOn_members named
      dsimp only
      split
      · exact scriptedAt_constant remains _
      · split
        · split
          · exact scriptedAt_constant remains _
          · exact scriptedAt_constant remains _
        · rw [named]
          exact scriptedAt_file settings remains
            fun settings => Filing.enterField_writes settings owner decl node

/-- The last step of a method: it is entered where members are. -/
def keepMethod
    (visit : Visit)
    (owner : TypeName)
    (deep : Bool)
    (decl : MethodDecl)
    (atlas : Atlas) :
    Outcome (Option MethodId) :=
  if deep then
    let (answer, atlas) :=
      atlas.file (Filing.enterMethod atlas.settings owner decl)
    ⟨visit, atlas, answer⟩
  else
    ⟨visit, atlas, .ok none⟩

/-- A method that is looked into replays one script everywhere. -/
theorem keepMethod_scriptedAt
    (settings : Settings)
    {owner : TypeName}
    (node : Option Node)
    {visit : Visit}
    (stays : visit.StaysOn owner)
    (deep : Bool)
    (decl : MethodDecl) :
    ScriptedAt settings owner node (visit.keepMethod owner deep decl) := by
  unfold keepMethod
  cases deep with
  | true =>
      exact scriptedAt_file settings stays
        fun settings => Filing.enterMethod_writes settings owner decl node
  | false =>
      exact scriptedAt_constant stays _

/-- Entering a method is scripted, with the default it may record. -/
theorem method_scriptedAt
    (settings : Settings)
    {owner : TypeName}
    (node : Option Node)
    {visit : Visit}
    (stays : visit.StaysOn owner)
    (decl : MethodDecl) :
    ScriptedAt settings owner node fun atlas => visit.method atlas decl := by
  unfold method
  cases opened : visit.openMembers? with
  | none =>
      exact scriptedAt_constant stays _
  | some current =>
      have named : current.name = owner := stays current opened
      have remains :
          StaysOn { visit with progress := .members current } owner :=
        staysOn_members named
      dsimp only
      split
      · exact scriptedAt_constant remains _
      · rw [named]
        by_cases annotates : current.category = .annotationType
        · simp only [annotates, ↓reduceIte]
          exact scriptedAt_afterFile
            (Filing.enterDefault_writes owner decl node)
            fun node =>
              keepMethod_scriptedAt settings node remains current.deep decl
        · simp only [annotates, ↓reduceIte]
          exact keepMethod_scriptedAt settings node remains current.deep decl

/-- The call that ends a visit replays nothing. -/
theorem finish_scriptedAt
    (settings : Settings)
    {owner : TypeName}
    (node : Option Node)
    {visit : Visit}
    (stays : visit.StaysOn owner) :
    ScriptedAt settings owner node fun atlas => visit.finish atlas := by
  unfold finish
  cases opened : visit.openMembers? with
  | none =>
      exact scriptedAt_constant stays _
  | some current =>
      refine scriptedAt_constant ?_ _
      intro other ended
      simp [openMembers?] at ended

/-! ## A run of steps -/

/--
With the settings and the node of a type given, its superclass apart, a run of
steps leaves the same visit behind, replays the same script and keeps the same
problems.
-/
def SettledAt
    (settings : Settings)
    (owner : TypeName)
    (node : Option Node)
    (run : Atlas → Visit × Atlas) :
    Prop :=
  ∃ (visit : Visit) (script : List Change) (kept : List Problem),
    StaysOn visit owner ∧
      BodyScript owner script ∧
      ∀ store problems, store.orphan? owner = node →
        run ⟨settings, store, problems⟩ =
          (visit, ⟨settings, store.replay script, problems ++ kept⟩)

/-- A settled call replays what the call did. -/
theorem settledAt_settle
    {settings : Settings}
    {owner : TypeName}
    {node : Option Node}
    {step : Atlas → Outcome α}
    (scripted : ScriptedAt settings owner node step) :
    SettledAt settings owner node fun atlas => settle (step atlas) := by
  obtain ⟨visit, answer, script, stays, members, replayed⟩ := scripted
  cases answer with
  | ok value =>
      refine ⟨visit, script, [], stays, members, ?_⟩
      intro store problems here
      simp only [replayed store problems here, List.append_nil, settle]
  | error problem =>
      refine ⟨visit, script, [problem], stays, members, ?_⟩
      intro store problems here
      simp only [replayed store problems here, settle, Atlas.report]

/-- A run may be followed by one that starts with the visit it leaves. -/
theorem SettledAt.andThen
    {settings : Settings}
    {owner : TypeName}
    {node : Option Node}
    {first : Atlas → Visit × Atlas}
    (earlier : SettledAt settings owner node first)
    (next : Visit × Atlas → Visit × Atlas)
    (later :
      ∀ visit, StaysOn visit owner → ∀ node,
        SettledAt settings owner node fun atlas => next (visit, atlas)) :
    SettledAt settings owner node fun atlas => next (first atlas) := by
  obtain ⟨middle, early, kept, staysMiddle, earlyMembers, ran⟩ := earlier
  obtain ⟨visit, late, more, stays, lateMembers, ranOn⟩ :=
    later middle staysMiddle (nodeAfter owner early node)
  refine ⟨visit, early ++ late, kept ++ more, stays,
    earlyMembers.append lateMembers, ?_⟩
  intro store problems here
  have after :
      (store.replay early).orphan? owner = nodeAfter owner early node := by
    rw [Store.orphan?_replay_members earlyMembers.addsMember, here]
  have rest := ranOn _ (problems ++ kept) after
  simp only [ran store problems here, Store.replay_append] at rest ⊢
  rw [rest, List.append_assoc]

/-- What holds of one step holds of the steps of a whole list. -/
theorem settledAt_settleAll
    {settings : Settings}
    {owner : TypeName}
    {step : Visit → Atlas → δ → Outcome α}
    (scripted :
      ∀ visit, StaysOn visit owner → ∀ node decl,
        ScriptedAt settings owner node fun atlas => step visit atlas decl)
    (decls : List δ)
    {visit : Visit}
    (stays : visit.StaysOn owner)
    (node : Option Node) :
    SettledAt settings owner node fun atlas =>
      settleAll step decls (visit, atlas) := by
  induction decls generalizing visit node with
  | nil =>
      refine ⟨visit, [], [], stays, .nil owner, ?_⟩
      intro store problems _
      simp [settleAll]
  | cons decl decls inductionHypothesis =>
      have first :
          SettledAt settings owner node fun atlas =>
            settle (step visit atlas decl) :=
        settledAt_settle (scripted visit stays node decl)
      exact first.andThen (settleAll step decls)
        fun visit remains node => inductionHypothesis remains node

/-- The steps of a visit after the header. -/
def enterBody
    (decl : ClassDecl)
    (state : Visit × Atlas) :
    Visit × Atlas :=
  let state := settleAll annotate decl.annotations state
  let state := settleAll field decl.fields state
  let state := settleAll method decl.methods state
  settle (finish state.1 state.2)

/-- The members of a declaration replay one script everywhere. -/
theorem enterBody_settledAt
    (settings : Settings)
    {owner : TypeName}
    (node : Option Node)
    {visit : Visit}
    (stays : visit.StaysOn owner)
    (decl : ClassDecl) :
    SettledAt settings owner node fun atlas =>
      enterBody decl (visit, atlas) := by
  have annotations :
      SettledAt settings owner node fun atlas =>
        settleAll annotate decl.annotations (visit, atlas) :=
    settledAt_settleAll
      (fun _ stays node decl => annotate_scriptedAt settings node stays decl)
      decl.annotations stays node
  have fields :=
    annotations.andThen (settleAll field decl.fields) fun _ stays node =>
      settledAt_settleAll
        (fun _ stays node decl => field_scriptedAt settings node stays decl)
        decl.fields stays node
  have methods :=
    fields.andThen (settleAll method decl.methods) fun _ stays node =>
      settledAt_settleAll
        (fun _ stays node decl => method_scriptedAt settings node stays decl)
        decl.methods stays node
  exact methods.andThen (fun state => settle (finish state.1 state.2))
    fun _ stays node =>
      settledAt_settle (finish_scriptedAt settings node stays)

end Visit

end TypeAtlas
