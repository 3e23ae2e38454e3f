import TypeAtlas.Proofs.Entering.MemberRuns
import TypeAtlas.Proofs.Entering.Rearranging

namespace TypeAtlas

/-!
# Members that are not kept

Whether a member is kept is settled before anything is written for it. A
descriptor that cannot be read ends the step at once. A member is dropped for
want of annotations, on itself and on the parameters its table belongs to, and
then there are no names that reading its annotations could bring in. Signatures
are resolved last, when the member is sure to be kept.

The default of an annotation type's element is a value of the type and not of
the method, and is recorded either way. All it changes is that value, and the
entries of the names in it.
-/

/-! ## What is settled first -/

namespace Filing

/-- A step that keeps its member, whatever store it is run on. -/
def Keeps (step : Filing (Except Problem (Option α))) : Prop :=
  ∀ store, ∃ kept, (step.run store).1 = .ok (some kept)

theorem keeps_pure
    (kept : α) :
    Keeps (pure (.ok (some kept))) :=
  fun _ => ⟨kept, rfl⟩

theorem keeps_bind
    {step : Filing α}
    {next : α → Filing (Except Problem (Option β))}
    (later : ∀ answer, Keeps (next answer)) :
    Keeps (step >>= next) :=
  fun store => later _ (step.run store).2

/-- A step that fails with a problem, drops its member in vain, or keeps it. -/
def Settles
    (problem : Problem)
    (step : Filing (Except Problem (Option α)))
    (store : Store) :
    Prop :=
  step.run store = (.error problem, store) ∨
    step.run store = (.ok none, store) ∨
    ∃ kept, (step.run store).1 = .ok (some kept)

theorem enterField_settles
    (settings : Settings)
    (owner : TypeName)
    (decl : FieldDecl)
    (store : Store) :
    Settles (.malformedDescriptor owner decl.name decl.descriptor)
      (enterField settings owner decl) store := by
  unfold enterField
  cases Descriptor.parse decl.descriptor with
  | error fault =>
      exact Or.inl rfl
  | ok type =>
      obtain ⟨uses, hints, noted, -⟩ := takeUses_notes decl.annotations
      have read : uses = decl.annotations.map (·.use) := by
        rw [← noted.answerOf_eq, answerOf_takeUses]
      dsimp only
      unfold Settles
      rw [noted.run_bind]
      by_cases dropped :
          (uses.isEmpty && !settings.keepUnannotated) = true
      · -- No annotations are read, so none of their names is mentioned.
        have unannotated : decl.annotations = [] := by
          simp only [read, Bool.and_eq_true, List.isEmpty_iff,
            List.map_eq_nil_iff] at dropped
          exact dropped.1
        have unheard : store.replay (mentions hints) = store := by
          rw [unannotated] at noted
          exact (congrArg Prod.snd (noted store)).symm
        rw [if_pos dropped, unheard]
        exact Or.inr (Or.inl rfl)
      · rw [if_neg dropped]
        refine Or.inr (Or.inr ?_)
        refine keeps_bind (fun reference => ?_) _
        refine keeps_bind fun known => ?_
        cases decl.signature with
        | none | some _ =>
            refine keeps_bind fun resolved => keeps_bind fun grown => ?_
            refine keeps_bind fun _ => keeps_bind fun _ => ?_
            exact keeps_bind fun _ => keeps_pure _

/-- The atlas stays as it was if a step does not keep its member. -/
theorem Settles.file
    {problem : Problem}
    {step : Filing (Except Problem (Option α))}
    {atlas : Atlas}
    (settles : Settles problem step atlas.store) :
    (∃ kept, (atlas.file step).1 = .ok (some kept)) ∨
      (atlas.file step).2 = atlas := by
  rcases settles with failed | dropped | kept
  · exact Or.inr (by rw [Atlas.file, failed])
  · exact Or.inr (by rw [Atlas.file, dropped])
  · exact Or.inl kept

/-- Slots without annotations mention nothing. -/
theorem takeTable_of_empty
    {table : List (List AnnotationDecl)}
    (empty : ∀ decls ∈ table, decls = [])
    (store : Store) :
    ((takeTable table).run store).2 = store := by
  induction table with
  | nil =>
      rfl
  | cons decls table inductionHypothesis =>
      obtain rfl := empty decls (by simp)
      exact inductionHypothesis fun slot member =>
        empty slot (List.mem_cons_of_mem _ member)

theorem enterMethod_settles
    (settings : Settings)
    (owner : TypeName)
    (decl : MethodDecl)
    (store : Store) :
    Settles (.malformedDescriptor owner decl.name decl.descriptor)
      (enterMethod settings owner decl) store := by
  unfold enterMethod
  cases MethodDescriptor.parse decl.descriptor with
  | error fault =>
      exact Or.inl rfl
  | ok type =>
      let slots := alignTable decl.parameterAnnotations type.parameters.length
      obtain ⟨uses, useHints, usesNoted, -⟩ := takeUses_notes decl.annotations
      obtain ⟨table, tableHints, tableNoted, -⟩ := takeTable_notes slots
      have readUses : uses = decl.annotations.map (·.use) := by
        rw [← usesNoted.answerOf_eq, answerOf_takeUses]
      have readTable : table = slots.map (List.map (·.use)) := by
        rw [← tableNoted.answerOf_eq, answerOf_takeTable]
      dsimp only
      unfold Settles
      rw [usesNoted.run_bind, tableNoted.run_bind]
      by_cases dropped :
          (!(!uses.isEmpty || table.any (!·.isEmpty)) &&
            !settings.keepUnannotated) = true
      · obtain ⟨unannotated, -⟩ :
            (decl.annotations = [] ∧ ∀ decls ∈ slots, decls = []) ∧
              settings.keepUnannotated = false := by
          simpa [readUses, readTable] using dropped
        have unheard : store.replay (mentions useHints) = store := by
          rw [unannotated.1] at usesNoted
          exact (congrArg Prod.snd (usesNoted store)).symm
        have alsoUnheard : store.replay (mentions tableHints) = store := by
          have none := takeTable_of_empty unannotated.2 store
          rwa [tableNoted store] at none
        rw [if_pos dropped, unheard, alsoUnheard]
        exact Or.inr (Or.inl rfl)
      · rw [if_neg dropped]
        refine Or.inr (Or.inr ?_)
        refine keeps_bind (fun known => ?_) _
        refine keeps_bind fun generics => keeps_bind fun result => ?_
        refine keeps_bind fun grown => keeps_bind fun parameters => ?_
        refine keeps_bind fun _ => keeps_bind fun _ => ?_
        exact keeps_bind fun _ => keeps_pure _

end Filing

/-! ## Defaults -/

/-- The names that an element value mentions, as they are mentioned. -/
def ElementValue.hints (value : ElementValue) : List Hint :=
  value.origins.flatMap (·.hints)

theorem ElementValue.root_not_mem_hints
    (value : ElementValue) :
    TypeName.root ∉ value.hints.map Prod.fst := by
  intro member
  obtain ⟨hint, hinted, isRoot⟩ := List.mem_map.mp member
  obtain ⟨origin, -, inOrigin⟩ := List.mem_flatMap.mp hinted
  exact origin.root_not_mem_hints (isRoot ▸ List.mem_map_of_mem inOrigin)

/-- The reverse references that an entry has collected. -/
structure Entry.Indexes where
  annotated : List Element := []
  fieldUses : List FieldId := []
  subTypes : List TypeName := []
  implementers : List TypeName := []

def Entry.indexes (entry : Entry) : Indexes :=
  ⟨entry.annotated, entry.fieldUses, entry.subTypes, entry.implementers⟩

namespace Store

/-- The reverse references to a name. -/
def indexesOf
    (store : Store)
    (name : TypeName) :
    Entry.Indexes :=
  ((store.find? name).map (·.indexes)).getD {}

/-- How the entry of a name is filed. -/
def filing?
    (store : Store)
    (name : TypeName) :
    Option (Option Pool × Option Category) :=
  (store.find? name).map fun entry => (entry.pool, entry.category)

/--
One store becomes another by the default of an element alone: the names of the
value have an entry and a place on the worklist if they had none, and are filed
if they were not, and the type has the value unless it has one already. All
nodes, visits and reverse references stay as they were.
-/
structure GainsDefault
    (owner : TypeName)
    (element : String)
    (value : ElementValue)
    (before after : Store) :
    Prop where
  names : before.Grown (value.hints.map Prod.fst) after
  filed :
    ∀ name,
      name ∉ value.hints.map Prod.fst ∨
          (before.find? name).any (·.pool.isSome) →
        after.filing? name = before.filing? name
  nodes :
    ∀ name,
      after.node? name =
        if name = owner then
          (before.node? name).map (·.addDefault element (value.after none))
        else
          before.node? name
  visited : ∀ name, after.isVisited name = before.isVisited name
  indexes : ∀ name, after.indexesOf name = before.indexesOf name

theorem filing?_updateNode
    (store : Store)
    (owner name : TypeName)
    (change : Node → Node) :
    (store.updateNode owner change).filing? name = store.filing? name := by
  unfold filing? updateNode
  rw [find?_update]
  · cases store.find? name <;> by_cases here : name = owner <;> simp [here]
  · exact fun _ => rfl

theorem indexesOf_updateNode
    (store : Store)
    (owner name : TypeName)
    (change : Node → Node) :
    (store.updateNode owner change).indexesOf name =
      store.indexesOf name := by
  unfold indexesOf updateNode
  rw [find?_update]
  · cases store.find? name <;> by_cases here : name = owner <;>
      simp [here, Entry.indexes]
  · exact fun _ => rfl

end Store

/-- A mention leaves the reverse references alone. -/
theorem Entry.indexes_afterMention
    (name : TypeName)
    (hint : Option Category)
    (before : Option Entry) :
    (Entry.afterMention name hint before).indexes =
      (before.map (·.indexes)).getD {} := by
  cases before with
  | none =>
      rfl
  | some entry =>
      cases hint with
      | none =>
          rfl
      | some category =>
          simp only [Entry.afterMention]
          split <;> rfl

namespace Filing

/-- The store after the default of an element was recorded. -/
theorem run_enterDefault
    (owner : TypeName)
    {decl : MethodDecl}
    {value : ElementValue}
    (given : decl.default = some value)
    (store : Store) :
    ((enterDefault owner decl).run store).2 =
      (store.replay (mentions value.hints)).updateNode owner
        (·.addDefault decl.name (value.after none)) := by
  have taken := (takeValue_hinting none value).notes
  unfold enterDefault
  rw [given]
  exact congrArg Prod.snd (taken.run_bind _ store)

/-- The names of a value, with the value itself, are all that is new. -/
theorem gains_enterDefault
    (owner : TypeName)
    {decl : MethodDecl}
    {value : ElementValue}
    (given : decl.default = some value)
    (store : Store) :
    store.Gains (value.hints.map Prod.fst)
      ((enterDefault owner decl).run store).2 := by
  have replayed :
      ((enterDefault owner decl).run store).2 =
        store.replay (mentions value.hints ++
          [.amend owner (.default decl.name (value.after none))]) := by
    rw [run_enterDefault owner given, Store.replay_append]
    rfl
  rw [replayed]
  refine Store.gains_replay (fun change member => ?_)
    (fun change member name introduced => ?_) store
  · rcases List.mem_append.mp member with mentioned | amended
    · obtain ⟨name, hint, rfl⟩ := eq_mention_of_mem_mentions mentioned
      trivial
    · rw [List.mem_singleton.mp amended]
      trivial
  · rcases List.mem_append.mp member with mentioned | amended
    · obtain ⟨hint, hinted, rfl⟩ := List.mem_map.mp mentioned
      simp only [Change.introduces] at introduced
      split at introduced
      · simp at introduced
      · rw [List.mem_singleton.mp introduced]
        exact List.mem_map_of_mem hinted
    · rw [List.mem_singleton.mp amended] at introduced
      simp [Change.introduces] at introduced

/-- Recording a default changes what the default is about, and no more. -/
theorem enterDefault_gainsDefault
    (owner : TypeName)
    {decl : MethodDecl}
    {value : ElementValue}
    (given : decl.default = some value)
    (store : Store) :
    store.GainsDefault owner decl.name value
      ((enterDefault owner decl).run store).2 := by
  have gains := gains_enterDefault owner given store
  have heard := store.find?_replay_mentions value.root_not_mem_hints
  have changed := run_enterDefault owner given store
  refine ⟨gains.grown, fun name settled => ?_, fun name => ?_, gains.visited,
    fun name => ?_⟩
  · rw [changed, Store.filing?_updateNode]
    unfold Store.filing?
    rw [heard]
    split
    · next mentioned =>
        have filed := settled.resolve_left (not_not_intro mentioned)
        cases known : store.find? name with
        | none =>
            simp [known] at filed
        | some entry =>
            rw [known, Option.any_some] at filed
            cases hintedAs value.hints name <;>
              simp [Entry.afterMention, filed]
    · rfl
  · rw [changed, Store.node?_updateNode, Store.node?_replay_mentions]
  · rw [changed, Store.indexesOf_updateNode]
    unfold Store.indexesOf
    rw [heard]
    split
    · rw [Option.map_some, Option.getD_some, Entry.indexes_afterMention]
    · rfl

end Filing

/-! ## Steps of a visit -/

namespace Visit

/--
The default that a method gives to its type: one of an annotation type whose
first declaration is being entered, on a method that a person wrote.
-/
def default?
    (visit : Visit)
    (decl : MethodDecl) :
    Option (TypeName × ElementValue) :=
  match visit.openMembers? with
  | none => none
  | some current =>
      if current.category = .annotationType
          ∧ !(current.merging || decl.isSynthetic || decl.isInitializer) then
        decl.default.map (current.name, ·)
      else
        none

/-- A field is kept, or the atlas stays as it was. -/
theorem field_kept_or_same
    (visit : Visit)
    (atlas : Atlas)
    (decl : FieldDecl) :
    (∃ id, (visit.field atlas decl).answer = .ok (some id)) ∨
      (visit.field atlas decl).atlas = atlas := by
  unfold field
  split
  · exact Or.inr rfl
  · next current _ =>
      dsimp only
      split
      · exact Or.inr rfl
      · split
        · split <;> exact Or.inr rfl
        · exact (Filing.enterField_settles atlas.settings current.name decl
            atlas.store).file

/-- The atlas after the default that a method gives to its type. -/
def afterDefault
    (visit : Visit)
    (atlas : Atlas)
    (decl : MethodDecl) :
    Atlas :=
  match visit.default? decl with
  | none => atlas
  | some (owner, _) => (atlas.file (Filing.enterDefault owner decl)).2

theorem afterDefault_eq
    {visit : Visit}
    {current : Current}
    (opened : visit.openMembers? = some current)
    (atlas : Atlas)
    {decl : MethodDecl}
    (written :
      ¬ (current.merging || decl.isSynthetic || decl.isInitializer) = true) :
    visit.afterDefault atlas decl =
      if current.category = .annotationType then
        (atlas.file (Filing.enterDefault current.name decl)).2
      else
        atlas := by
  have person :
      (!(current.merging || decl.isSynthetic || decl.isInitializer)) =
        true := by
    simpa using written
  unfold afterDefault default?
  rw [opened]
  by_cases annotates : current.category = .annotationType
  · simp only [annotates, person, and_self, ↓reduceIte]
    cases given : decl.default with
    | none =>
        unfold Filing.enterDefault
        rw [given]
        rfl
    | some value =>
        rfl
  · simp [annotates]

/-- A method is kept, or nothing but a default is recorded. -/
theorem method_kept_or_same
    (visit : Visit)
    (atlas : Atlas)
    (decl : MethodDecl) :
    (∃ id, (visit.method atlas decl).answer = .ok (some id)) ∨
      (visit.method atlas decl).atlas = visit.afterDefault atlas decl := by
  unfold method
  cases opened : visit.openMembers? with
  | none =>
      refine Or.inr ?_
      simp [afterDefault, default?, opened, refuse]
  | some current =>
      dsimp only
      by_cases passed :
          (current.merging || decl.isSynthetic || decl.isInitializer) = true
      · rw [if_pos passed]
        refine Or.inr ?_
        simp [afterDefault, default?, opened, passed]
      · rw [if_neg passed, ← afterDefault_eq opened atlas passed]
        split
        · exact (Filing.enterMethod_settles _ current.name decl _).file
        · exact Or.inr rfl

/--
A field or a method that is not kept, because the step fails or because the
answer is none, leaves no trace: whatever annotations, parameter annotations
and signature it has, the atlas stays as it was. The one thing that is recorded
all the same is the default of an annotation type's element, which changes that
value and the entries of the names in it, and no more.
-/
theorem unkept_without_trace
    (visit : Visit)
    (atlas : Atlas) :
    (∀ decl,
      (∀ id, (visit.field atlas decl).answer ≠ .ok (some id)) →
        (visit.field atlas decl).atlas = atlas) ∧
      ∀ decl,
        (∀ id, (visit.method atlas decl).answer ≠ .ok (some id)) →
          match visit.default? decl with
          | none => (visit.method atlas decl).atlas = atlas
          | some (owner, value) =>
              ∃ store,
                (visit.method atlas decl).atlas =
                    { atlas with store := store } ∧
                  atlas.store.GainsDefault owner decl.name value store := by
  refine ⟨fun decl unkept => ?_, fun decl unkept => ?_⟩
  · rcases visit.field_kept_or_same atlas decl with ⟨id, kept⟩ | same
    · exact absurd kept (unkept id)
    · exact same
  · rcases visit.method_kept_or_same atlas decl with ⟨id, kept⟩ | same
    · exact absurd kept (unkept id)
    · rw [same, afterDefault]
      cases recorded : visit.default? decl with
      | none =>
          rfl
      | some default =>
          obtain ⟨owner, value⟩ := default
          have given : decl.default = some value := by
            unfold default? at recorded
            split at recorded
            · simp at recorded
            · split at recorded
              · simp only [Option.map_eq_some_iff, Prod.mk.injEq] at recorded
                obtain ⟨_, given, -, rfl⟩ := recorded
                exact given
              · simp at recorded
          exact ⟨_, rfl,
            Filing.enterDefault_gainsDefault owner given atlas.store⟩

/-- A visit of an annotation type that enters members. -/
def ofMark : Visit :=
  { progress := .header
      { name := "c.Mark"
        category := .annotationType
        deep := true
        merging := false } }

/-- An atlas in which the annotation type has been met by its header. -/
def atMark : Atlas :=
  (Visit.header {} {} { access := 0x2601, name := "c.Mark" }).atlas

/-- An element with much to read that has no descriptor, and a default. -/
def brokenElement : MethodDecl :=
  { access := 0x401
    name := "mode"
    descriptor := "?"
    signature := some "()Lc/Box<Lc/Part;>;"
    annotations := [⟨"Lc/Note;", true, []⟩]
    default := some (.enumConstant "Lc/Mode;" "FAST") }

/-- The element is not kept, but the name in its default has an entry. -/
theorem unkept_without_trace_brokenElement :
    let outcome := ofMark.method atMark brokenElement
    outcome.answer =
        .error (.malformedDescriptor "c.Mark" "mode" "?") ∧
      outcome.atlas.store.names = ["c.Mark", "c.Mode"] ∧
      ∃ store,
        outcome.atlas = { atMark with store := store } ∧
          atMark.store.GainsDefault "c.Mark" "mode"
            (.enumConstant "Lc/Mode;" "FAST") store := by
  intro outcome
  have failed :
      outcome.answer = .error (.malformedDescriptor "c.Mark" "mode" "?") := by
    decide +kernel
  obtain ⟨-, ofMethods⟩ := unkept_without_trace ofMark atMark
  exact ⟨failed, by decide +kernel,
    ofMethods brokenElement (by simp [outcome, failed])⟩

end Visit

end TypeAtlas
