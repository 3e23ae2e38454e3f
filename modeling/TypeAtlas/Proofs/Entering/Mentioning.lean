import TypeAtlas.Proofs.Store.Effect

namespace TypeAtlas

/-!
# Steps that only mention names

Annotations, descriptors and signatures are resolved by steps that do nothing
to a store but mention names in it. What such a step answers, and which names
it mentions in which order, is the same for every store. This holds of the
whole of annotation values and of the stack machine behind signatures.
-/

/-- A name as it is mentioned, with the category it is mentioned as. -/
abbrev Hint :=
  TypeName × Option Category

/-- The script that mentions names one after another. -/
def mentions (hints : List Hint) : List Change :=
  hints.map fun (name, hint) => .mention name hint

/-- Hints one behind the other are mentioned in that order. -/
theorem mentions_append
    (first second : List Hint) :
    mentions (first ++ second) = mentions first ++ mentions second := by
  simp [mentions]

/-- Every change of such a script is a mention. -/
theorem eq_mention_of_mem_mentions
    {hints : List Hint}
    {change : Change}
    (member : change ∈ mentions hints) :
    ∃ name hint, change = .mention name hint := by
  obtain ⟨⟨name, hint⟩, -, shape⟩ := List.mem_map.mp member
  exact ⟨name, hint, shape.symm⟩

/-- Mentions take nothing for granted. -/
theorem grounded_mentions
    (known : List TypeName)
    (hints : List Hint) :
    Grounded known (mentions hints) := by
  induction hints generalizing known with
  | nil =>
      trivial
  | cons hint hints inductionHypothesis =>
      exact ⟨by simp [Change.expects], inductionHypothesis _⟩

/-- A name that is mentioned is introduced, unless it is the root type. -/
theorem mem_introduces_mentions
    {hints : List Hint}
    {name : TypeName}
    (mentioned : name ∈ hints.map Prod.fst)
    (tracked : name ≠ TypeName.root) :
    name ∈ (mentions hints).flatMap Change.introduces := by
  obtain ⟨hint, member, rfl⟩ := List.mem_map.mp mentioned
  refine List.mem_flatMap.mpr ⟨.mention hint.1 hint.2, ?_, ?_⟩
  · exact List.mem_map.mpr ⟨hint, member, rfl⟩
  · simp [Change.introduces, tracked]

/-- A name that is only mentioned gets no node. -/
@[simp] theorem Store.node?_replay_mentions
    (store : Store)
    (hints : List Hint)
    (name : TypeName) :
    (store.replay (mentions hints)).node? name = store.node? name := by
  induction hints generalizing store with
  | nil =>
      rfl
  | cons hint hints inductionHypothesis =>
      have later := inductionHypothesis (store.mention hint.1 hint.2)
      rw [Store.node?_mention] at later
      exact later

namespace Filing

/-- A step answers and mentions the same whatever store it is run on. -/
def Notes
    (step : Filing α)
    (answer : α)
    (hints : List Hint) :
    Prop :=
  ∀ store, step.run store = (answer, store.replay (mentions hints))

/-- A step only mentions names. -/
def Mentioning (step : Filing α) : Prop :=
  ∃ answer hints, Notes step answer hints

theorem notes_pure
    (answer : α) :
    Notes (pure answer) answer [] :=
  fun _ => rfl

/-- What two steps mention is mentioned in their order. -/
theorem Notes.bind
    {step : Filing α}
    {next : α → Filing β}
    {first : α}
    {second : β}
    {early late : List Hint}
    (before : Notes step first early)
    (after : Notes (next first) second late) :
    Notes (step >>= next) second (early ++ late) := by
  intro store
  rw [StateT.run_bind, before store, mentions_append, Store.replay_append]
  exact after (store.replay (mentions early))

theorem mentioning_pure
    (answer : α) :
    Mentioning (pure answer) :=
  ⟨answer, [], notes_pure answer⟩

/-- Steps that only mention names do so together. -/
theorem Mentioning.bind
    {step : Filing α}
    {next : α → Filing β}
    (before : Mentioning step)
    (after : ∀ answer, Mentioning (next answer)) :
    Mentioning (step >>= next) := by
  obtain ⟨first, early, noted⟩ := before
  obtain ⟨second, late, notedAfter⟩ := after first
  exact ⟨second, early ++ late, noted.bind notedAfter⟩

/-! ## References -/

/-- A reference to a type mentions it with the hint. -/
theorem refer_notes
    (name : TypeName)
    (hint : Option Category) :
    Notes (refer name hint) (Reference.toType name) [(name, hint)] :=
  fun _ => rfl

/-- A reference that is tracked is not to the root type. -/
theorem toType_tracked
    {name : TypeName}
    (tracked : (Reference.toType name).tracked = true) :
    name ≠ TypeName.root := by
  simpa [Reference.toType] using tracked

/-- A tracked reference that a step gives is to a name that it mentions. -/
def Names
    (reference : Reference)
    (hints : List Hint) :
    Prop :=
  reference.tracked = true →
    reference.name ≠ TypeName.root ∧
      reference.name ∈ hints.map Prod.fst

/-- More hints behind do not take a name away. -/
theorem Names.append_right
    {reference : Reference}
    {hints : List Hint}
    (names : Names reference hints)
    (more : List Hint) :
    Names reference (hints ++ more) := by
  intro tracked
  obtain ⟨notRoot, member⟩ := names tracked
  exact ⟨notRoot, by simp [List.mem_map.mp member]⟩

/-- Nor do more hints before. -/
theorem Names.append_left
    {reference : Reference}
    {hints : List Hint}
    (names : Names reference hints)
    (more : List Hint) :
    Names reference (more ++ hints) := by
  intro tracked
  obtain ⟨notRoot, member⟩ := names tracked
  exact ⟨notRoot, by simp [List.mem_map.mp member]⟩

/-- A reference to a type is named by its own hint. -/
theorem names_toType
    (name : TypeName)
    (hint : Option Category) :
    Names (Reference.toType name) [(name, hint)] :=
  fun tracked => ⟨toType_tracked tracked, by simp [Reference.toType]⟩

/-- A reference without an entry needs no hint. -/
theorem names_untracked
    (name : TypeName)
    (hints : List Hint) :
    Names (Reference.untracked name) hints := by
  intro tracked
  simp [Reference.untracked] at tracked

/-- An annotation refers to its type, and mentions it unless it is untracked. -/
theorem referToUse_notes
    (descriptor : String) :
    ∃ reference hints,
      Notes (referToUse descriptor) reference hints ∧
        Names reference hints := by
  unfold referToUse
  split
  · next name _ =>
      exact ⟨_, _, refer_notes name _, names_toType name _⟩
  · exact ⟨_, _, notes_pure _, names_untracked _ _⟩

/-- A constant only mentions names. -/
theorem referToEnum_mentioning
    (descriptor : String) :
    Mentioning (referToEnum descriptor) := by
  unfold referToEnum
  split
  · next name _ =>
      exact ⟨_, _, refer_notes name _⟩
  · exact mentioning_pure _

/-- So does a class literal. -/
theorem referToLiteral_mentioning
    (descriptor : String) :
    Mentioning (referToLiteral descriptor) := by
  unfold referToLiteral
  split
  · next name _ =>
      exact ⟨_, _, refer_notes name _⟩
  · exact mentioning_pure _
  · exact mentioning_pure _
  · exact mentioning_pure _

/-- A member's type is mentioned if it is referred to with an entry. -/
theorem referToElement_notes
    (type : Descriptor) :
    ∃ reference hints,
      Notes (referToElement type) reference hints ∧
        Names reference hints := by
  unfold referToElement
  split
  · next name _ =>
      exact ⟨_, _, refer_notes name _, names_toType name _⟩
  · exact ⟨_, _, notes_pure _, names_untracked _ _⟩

/-! ## Annotations -/

mutual

/-- Values only mention names, those of annotations inside them too. -/
theorem takeValue_mentioning
    (before : Option Value) :
    (value : ElementValue) →
      Mentioning (takeValue before value)
  | .scalar value => by
      rw [takeValue]
      exact mentioning_pure _
  | .enumConstant descriptor constant => by
      rw [takeValue]
      exact (referToEnum_mentioning descriptor).bind
        fun _ => mentioning_pure _
  | .classLiteral descriptor => by
      rw [takeValue]
      exact (referToLiteral_mentioning descriptor).bind
        fun _ => mentioning_pure _
  | .annotated decl => by
      rw [takeValue]
      obtain ⟨use, hints, noted, -⟩ := takeUse_notes decl
      exact Mentioning.bind ⟨use, hints, noted⟩
        fun _ => mentioning_pure _
  | .array items => by
      rw [takeValue]
      exact (takeItems_mentioning none items).bind
        fun _ => mentioning_pure _

/-- So do the items of an array. -/
theorem takeItems_mentioning
    (before : Option Value) :
    (items : List ElementValue) →
      Mentioning (takeItems before items)
  | [] => by
      rw [takeItems]
      exact mentioning_pure _
  | item :: items => by
      rw [takeItems]
      exact (takeValue_mentioning before item).bind
        fun value => takeItems_mentioning (some value) items

/-- The type of an annotation is mentioned before its values. -/
theorem takeUse_notes :
    (decl : AnnotationDecl) →
      ∃ use hints,
        Notes (takeUse decl) use hints ∧ Names use.type hints
  | ⟨descriptor, visible, values⟩ => by
      obtain ⟨reference, early, noted, names⟩ := referToUse_notes descriptor
      obtain ⟨taken, late, notedValues⟩ := takePairs_mentioning [] values
      rw [takeUse]
      exact ⟨_, early ++ (late ++ []),
        noted.bind (notedValues.bind (notes_pure _)),
        names.append_right _⟩

/-- So do the values of an annotation. -/
theorem takePairs_mentioning
    (values : Values) :
    (pairs : List (String × ElementValue)) →
      Mentioning (takePairs values pairs)
  | [] => by
      rw [takePairs]
      exact mentioning_pure _
  | (key, item) :: rest => by
      rw [takePairs]
      exact (takeValue_mentioning (values.lookup key) item).bind
        fun value => takePairs_mentioning (values.insert key value) rest

end

/-- Every one of several annotations has its type mentioned. -/
theorem takeUses_notes
    (decls : List AnnotationDecl) :
    ∃ uses hints,
      Notes (takeUses decls) uses hints ∧
        ∀ use ∈ uses, Names use.type hints := by
  induction decls with
  | nil =>
      exact ⟨[], [], notes_pure [], by simp⟩
  | cons decl decls inductionHypothesis =>
      obtain ⟨use, early, noted, names⟩ := takeUse_notes decl
      obtain ⟨uses, late, notedRest, namesRest⟩ := inductionHypothesis
      refine ⟨use :: uses, early ++ (late ++ []), ?_, ?_⟩
      · exact noted.bind (notedRest.bind (notes_pure _))
      · intro other member
        rcases List.mem_cons.mp member with rfl | inRest
        · exact names.append_right _
        · exact ((namesRest other inRest).append_right _).append_left _

/-- So has every annotation of a table. -/
theorem takeTable_notes
    (table : List (List AnnotationDecl)) :
    ∃ uses hints,
      Notes (takeTable table) uses hints ∧
        ∀ slot ∈ uses, ∀ use ∈ slot, Names use.type hints := by
  induction table with
  | nil =>
      exact ⟨[], [], notes_pure [], by simp⟩
  | cons decls table inductionHypothesis =>
      obtain ⟨uses, early, noted, names⟩ := takeUses_notes decls
      obtain ⟨slots, late, notedRest, namesRest⟩ := inductionHypothesis
      refine ⟨uses :: slots, early ++ (late ++ []), ?_, ?_⟩
      · exact noted.bind (notedRest.bind (notes_pure _))
      · intro slot member use inSlot
        rcases List.mem_cons.mp member with rfl | inRest
        · exact (names use inSlot).append_right _
        · exact
            ((namesRest slot inRest use inSlot).append_right _).append_left _

end Filing

/-! ## Signatures -/

namespace Resolver

/-- The machine on another store. -/
def onStore
    (resolver : Resolver)
    (store : Store) :
    Resolver :=
  { resolver with store := store }

/-- Handing over an outermost type does not look at the store. -/
theorem place_onStore
    (resolver : Resolver)
    (store : Store)
    (generic : Generic) :
    (resolver.onStore store).place generic =
      (resolver.place generic).onStore store := by
  obtain ⟨_, _, _, pending, position, _, _, _, _, parameters, _, _, _⟩ :=
    resolver
  cases position with
  | bound =>
      cases pending <;> rfl
  | parameter =>
      cases parameters <;> rfl
  | unset | superclass | interface | result | thrown | field =>
      rfl

/-- Handing over a complete type does not look at the store. -/
theorem attach_onStore
    (resolver : Resolver)
    (store : Store)
    (generic : Generic) :
    (resolver.onStore store).attach generic =
      (resolver.attach generic).onStore store := by
  have sameStack : (resolver.onStore store).stack = resolver.stack := rfl
  unfold attach
  rw [sameStack]
  cases resolver.stack with
  | nil =>
      exact place_onStore resolver store generic
  | cons frame rest =>
      cases frame <;> rfl

/-- One event mentions the same names on every store. -/
theorem step_onStore
    (resolver : Resolver)
    (event : Signature.Event) :
    ∃ (after : Resolver) (hints : List Hint),
      ∀ store,
        (resolver.onStore store).step event =
          after.onStore (store.replay (mentions hints)) := by
  cases event with
  | classType name =>
      by_cases isRoot : name = TypeName.root
      · exact ⟨resolver.step (.classType name), [], fun store => by
          simp [step, isRoot, onStore, mentions]⟩
      · refine ⟨resolver.step (.classType name),
          [(name, resolver.hint?)], fun store => ?_⟩
        simp only [step, isRoot, ↓reduceIte]
        rfl
  | nested name =>
      cases shape : resolver.stack with
      | nil =>
          exact ⟨resolver, [], fun store => by
            simp [step, shape, onStore, mentions]⟩
      | cons frame rest =>
          cases frame with
          | skipped =>
              exact ⟨resolver, [], fun store => by
                simp [step, shape, onStore, mentions]⟩
          | type outer =>
              cases outerName : outer.typeName? with
              | none =>
                  exact ⟨resolver, [], fun store => by
                    simp [step, shape, outerName, onStore, mentions]⟩
              | some qualifier =>
                  refine ⟨resolver.step (.nested name),
                    [(qualifier ++ "$" ++ name, none)], fun store => ?_⟩
                  simp only [step, shape, outerName, onStore]
                  rfl
  | close =>
      refine ⟨resolver.step .close, [], fun store => ?_⟩
      cases shape : resolver.stack with
      | nil =>
          simp [step, shape, onStore, mentions]
      | cons frame rest =>
          cases frame with
          | skipped =>
              simp [step, shape, onStore, mentions]
          | type generic =>
              simp only [step, shape, onStore]
              exact attach_onStore { resolver with stack := rest } store generic
  | typeVariable name =>
      refine ⟨resolver.step (.typeVariable name), [], fun store => ?_⟩
      exact attach_onStore { resolver with dimensions := 0 } store _
  | formal name =>
      exact ⟨resolver.step (.formal name), [], fun _ => rfl⟩
  | base tag =>
      exact ⟨resolver.step (.base tag), [], fun _ => rfl⟩
  | argument wildcard =>
      exact ⟨resolver, [], fun _ => rfl⟩
  | anyArgument =>
      exact ⟨resolver, [], fun _ => rfl⟩
  | classBound =>
      exact ⟨resolver.turnTo .bound, [], fun _ => rfl⟩
  | interfaceBound =>
      exact ⟨resolver.turnTo .bound, [], fun _ => rfl⟩
  | superclass =>
      exact ⟨resolver.turnTo .superclass, [], fun _ => rfl⟩
  | interface =>
      exact ⟨resolver.turnTo .interface, [], fun _ => rfl⟩
  | parameter =>
      exact ⟨resolver.step .parameter, [], fun _ => rfl⟩
  | result =>
      exact ⟨resolver.turnTo .result, [], fun _ => rfl⟩
  | thrown =>
      exact ⟨resolver.turnTo .thrown, [], fun _ => rfl⟩
  | array =>
      exact ⟨resolver.step .array, [], fun _ => rfl⟩

/-- A run of events mentions the same names on every store. -/
theorem foldl_step_onStore
    (resolver : Resolver)
    (events : List Signature.Event) :
    ∃ (after : Resolver) (hints : List Hint),
      ∀ store,
        events.foldl step (resolver.onStore store) =
          after.onStore (store.replay (mentions hints)) := by
  induction events generalizing resolver with
  | nil =>
      exact ⟨resolver, [], fun _ => rfl⟩
  | cons event events inductionHypothesis =>
      obtain ⟨middle, early, first⟩ := step_onStore resolver event
      obtain ⟨after, late, rest⟩ := inductionHypothesis middle
      refine ⟨after, early ++ late, fun store => ?_⟩
      rw [List.foldl_cons, first, rest, mentions_append,
        Store.replay_append]

/--
A whole signature mentions the same names on every store, and what it says
does not hang on the store.
-/
theorem run_onStore
    (resolver : Resolver)
    (trace : Signature.Trace) :
    ∃ (after : Option Resolver) (hints : List Hint),
      ∀ store,
        (resolver.onStore store).run trace =
          (store.replay (mentions hints),
            after.map (·.onStore (store.replay (mentions hints)))) := by
  obtain ⟨after, hints, replayed⟩ :=
    foldl_step_onStore resolver trace.events
  cases faulty : trace.malformed? with
  | none =>
      exact ⟨some after, hints, fun store => by
        simp only [run, replayed, faulty]
        rfl⟩
  | some fault =>
      exact ⟨none, hints, fun store => by
        simp only [run, replayed, faulty]
        rfl⟩

end Resolver

namespace Filing

/-- Resolving the signature of a class only mentions names. -/
theorem resolveClass_mentioning
    (signature : String) :
    Mentioning (resolveClass signature) := by
  obtain ⟨after, hints, resolved⟩ :=
    Resolver.run_onStore { store := {} } (Signature.traceClass signature)
  refine ⟨after.map fun final =>
      ⟨final.superclass, final.interfaces, final.formals⟩,
    hints, fun store => ?_⟩
  have here := resolved store
  simp only [Resolver.onStore] at here
  simp only [resolveClass, StateT.run_bind, StateT.run_get, pure_bind, here,
    StateT.run_set, StateT.run_pure, Option.map_map]
  rfl

/-- Resolving the signature of a method only mentions names. -/
theorem resolveMethod_mentioning
    (formals : Formals)
    (signature : String) :
    Mentioning (resolveMethod formals signature) := by
  obtain ⟨after, hints, resolved⟩ :=
    Resolver.run_onStore { store := {}, inherited := formals }
      (Signature.traceMethod signature)
  refine ⟨after.map fun final =>
      ⟨final.parameters, final.result, final.thrown⟩,
    hints, fun store => ?_⟩
  have here := resolved store
  simp only [Resolver.onStore] at here
  simp only [resolveMethod, StateT.run_bind, StateT.run_get, pure_bind, here,
    StateT.run_set, StateT.run_pure, Option.map_map]
  rfl

/-- Resolving the signature of a field only mentions names. -/
theorem resolveField_mentioning
    (formals : Formals)
    (signature : String) :
    Mentioning (resolveField formals signature) := by
  obtain ⟨after, hints, resolved⟩ :=
    Resolver.run_onStore
      { store := {}, inherited := formals, position := .field }
      (Signature.traceField signature)
  refine ⟨after.bind (·.field), hints, fun store => ?_⟩
  have here := resolved store
  simp only [Resolver.onStore] at here
  simp only [resolveField, StateT.run_bind, StateT.run_get, pure_bind, here,
    StateT.run_set, StateT.run_pure]
  cases after <;> rfl

/-! ## Parameters and results -/

/-- A raw type only mentions names. -/
theorem rawGeneric_mentioning
    (type : Descriptor) :
    Mentioning (rawGeneric type) := by
  obtain ⟨reference, hints, noted, -⟩ := referToElement_notes type
  exact Mentioning.bind ⟨reference, hints, noted⟩ fun _ => mentioning_pure _

/-- A result only mentions names, whether a signature gives it or not. -/
theorem methodResult_mentioning
    (generic : Option Generic)
    (raw : Option Descriptor) :
    Mentioning (methodResult generic raw) := by
  unfold methodResult
  split
  · exact mentioning_pure _
  · next type =>
      obtain ⟨resolved, hints, noted⟩ := rawGeneric_mentioning type
      refine ⟨some resolved, hints, fun store => ?_⟩
      rw [StateT.run_map, noted store]
      rfl
  · exact mentioning_pure _

/-- The generic types of a method only mention names. -/
theorem methodGenerics_mentioning
    (formals : Formals)
    (parameters : Nat)
    (signature : Option String) :
    Mentioning (methodGenerics formals parameters signature) := by
  cases signature with
  | none =>
      exact mentioning_pure _
  | some text =>
      refine (resolveMethod_mentioning formals text).bind fun resolved => ?_
      cases resolved with
      | none =>
          exact mentioning_pure _
      | some generics =>
          dsimp only
          split <;> exact mentioning_pure _

/-- Parameters only mention names. -/
theorem enterParameters_mentioning
    (method : MethodId)
    (index : Nat)
    (drafts : List ParameterDraft) :
    Mentioning (enterParameters method index drafts) := by
  induction drafts generalizing index with
  | nil =>
      exact mentioning_pure _
  | cons draft drafts inductionHypothesis =>
      obtain ⟨reference, hints, noted, -⟩ := referToElement_notes draft.type
      unfold enterParameters
      dsimp only
      cases draft.generic with
      | some generic =>
          refine (mentioning_pure generic).bind fun _ => ?_
          refine Mentioning.bind ⟨reference, hints, noted⟩ fun _ => ?_
          exact (inductionHypothesis (index + 1)).bind
            fun _ => mentioning_pure _
      | none =>
          refine (rawGeneric_mentioning draft.type).bind fun _ => ?_
          refine Mentioning.bind ⟨reference, hints, noted⟩ fun _ => ?_
          exact (inductionHypothesis (index + 1)).bind
            fun _ => mentioning_pure _

end Filing

end TypeAtlas
