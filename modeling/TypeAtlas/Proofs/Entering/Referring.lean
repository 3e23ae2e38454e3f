import TypeAtlas.Proofs.Entering.Mentioning
import TypeAtlas.Proofs.Entering.Origins
import TypeAtlas.Proofs.Graph.References

namespace TypeAtlas

/-!
# What annotations refer to

Annotations are resolved by steps that mention names at most. All references in
the answer of such a step come from the declaration of the annotation, and the
ones that are tracked have an entry in the store that the step leaves. None of
the annotations in it is attached to an element yet.
-/

/-! ## Values -/

/-- A value refers to what is admitted, and its annotations are not attached. -/
structure Value.Taken
    (admits : Reference → Prop)
    (value : Value) :
    Prop where
  references : ∀ reference ∈ value.references, admits reference
  unattached : ∀ use ∈ value.uses, use.element = none

/-- An annotation refers to what is admitted, and is not attached. -/
structure AnnotationUse.Taken
    (admits : Reference → Prop)
    (use : AnnotationUse) :
    Prop where
  references : ∀ reference ∈ use.references, admits reference
  type : use.type.OfUse
  element : use.element = none
  unattached : ∀ inner ∈ use.nested, inner.element = none

namespace Value

variable {admits more : Reference → Prop}

/-- A value that is taken stays so when more is admitted. -/
theorem Taken.mono
    {value : Value}
    (taken : value.Taken admits)
    (subset : ∀ reference, admits reference → more reference) :
    value.Taken more :=
  ⟨fun reference member => subset reference (taken.references reference member),
    taken.unattached⟩

/-- An array is taken if each of its items is. -/
theorem taken_sequence_iff
    {items : List Value} :
    (Value.sequence items).Taken admits ↔
      ∀ item ∈ items, item.Taken admits := by
  constructor
  · intro taken item member
    refine ⟨fun reference inItem => taken.references reference ?_,
      fun use inItem => taken.unattached use ?_⟩
    · rw [references]
      exact mem_referencesOfItems.mpr ⟨item, member, inItem⟩
    · rw [uses]
      exact mem_usesOfItems.mpr ⟨item, member, inItem⟩
  · intro taken
    refine ⟨fun reference member => ?_, fun use member => ?_⟩
    · rw [references, mem_referencesOfItems] at member
      obtain ⟨item, inItems, inItem⟩ := member
      exact (taken item inItems).references reference inItem
    · rw [uses, mem_usesOfItems] at member
      obtain ⟨item, inItems, inItem⟩ := member
      exact (taken item inItems).unattached use inItem

/-- An annotation that is taken may stand as a value. -/
theorem taken_annotated
    {use : AnnotationUse}
    (taken : use.Taken admits) :
    (Value.annotated use).Taken admits := by
  refine ⟨fun reference member => ?_, fun inner member => ?_⟩
  · rw [references] at member
    exact taken.references reference member
  · rw [uses] at member
    rcases List.mem_cons.mp member with rfl | deeper
    · exact taken.element
    · exact taken.unattached inner deeper

/-- A reference that is admitted may stand as a value. -/
theorem taken_leaf
    {value : Value}
    {reference : Reference}
    (leaf :
      value = .classLiteral reference ∨
        ∃ constant, value = .enumConstant reference constant)
    (admitted : admits reference) :
    value.Taken admits := by
  rcases leaf with rfl | ⟨constant, rfl⟩
  · exact ⟨by simpa [references] using admitted, by simp [uses]⟩
  · exact ⟨by simpa [references] using admitted, by simp [uses]⟩

end Value

/-- An annotation that is taken stays so when more is admitted. -/
theorem AnnotationUse.Taken.mono
    {admits more : Reference → Prop}
    {use : AnnotationUse}
    (taken : use.Taken admits)
    (subset : ∀ reference, admits reference → more reference) :
    use.Taken more :=
  ⟨fun reference member => subset reference (taken.references reference member),
    taken.type, taken.element, taken.unattached⟩

/-- An annotation is taken if its type is admitted and its values are taken. -/
theorem AnnotationUse.taken_of_pairs
    {admits : Reference → Prop}
    {type : Reference}
    {values : Values}
    (admitted : admits type)
    (typed : type.OfUse)
    (taken : ∀ pair ∈ values, pair.2.Taken admits) :
    AnnotationUse.Taken admits { type := type, values := values } := by
  refine ⟨fun reference member => ?_, typed, rfl,
    fun inner member => ?_⟩
  · rw [references] at member
    rcases List.mem_cons.mp member with rfl | deeper
    · exact admitted
    · obtain ⟨pair, inValues, inPair⟩ := mem_referencesOfPairs.mp deeper
      exact (taken pair inValues).references reference inPair
  · rw [nested, mem_usesOfPairs] at member
    obtain ⟨pair, inValues, inPair⟩ := member
    exact (taken pair inValues).unattached inner inPair

namespace Values

variable {admits : Reference → Prop}

/-- Values that are taken are gathered to one that is. -/
theorem taken_gather
    {before : Option Value}
    (earlier : ∀ known ∈ before, known.Taken admits)
    {value : Value}
    (taken : value.Taken admits) :
    (gather before value).Taken admits := by
  unfold gather
  split
  · exact taken
  · next items =>
      have known := Value.taken_sequence_iff.mp (earlier _ rfl)
      refine Value.taken_sequence_iff.mpr fun item member => ?_
      rcases List.mem_append.mp member with old | new
      · exact known item old
      · rw [List.mem_singleton.mp new]
        exact taken
  · next first _ =>
      refine Value.taken_sequence_iff.mpr fun item member => ?_
      rcases List.mem_cons.mp member with rfl | new
      · exact earlier item rfl
      · rw [List.mem_singleton.mp new]
        exact taken

/-- The items gathered so far make an array that is taken. -/
theorem taken_itemsOf
    {gathered : Option Value}
    (taken : ∀ value ∈ gathered, value.Taken admits) :
    (Value.sequence (itemsOf gathered)).Taken admits := by
  refine Value.taken_sequence_iff.mpr ?_
  unfold itemsOf
  split
  · simp
  · exact Value.taken_sequence_iff.mp (taken _ rfl)
  · next single _ =>
      simpa using taken single rfl

/-- Inserting a value that is taken leaves all values taken. -/
theorem taken_insert
    {values : Values}
    (earlier : ∀ pair ∈ values, pair.2.Taken admits)
    (key : String)
    {value : Value}
    (taken : value.Taken admits) :
    ∀ pair ∈ values.insert key value, pair.2.Taken admits := by
  intro pair member
  unfold insert at member
  split at member
  · obtain ⟨⟨name, known⟩, present, rfl⟩ := List.mem_map.mp member
    dsimp only
    split
    · exact taken
    · exact earlier _ present
  · rcases List.mem_append.mp member with old | new
    · exact earlier pair old
    · rw [List.mem_singleton.mp new]
      exact taken

/-- A value that is looked up is taken if all of them are. -/
theorem taken_lookup
    {values : Values}
    (earlier : ∀ pair ∈ values, pair.2.Taken admits)
    (key : String) :
    ∀ value ∈ values.lookup key, value.Taken admits := by
  intro value found
  obtain ⟨front, _, rfl, -⟩ := List.lookup_eq_some_iff.mp found
  exact earlier (key, value) (by simp)

end Values

/-! ## Steps -/

namespace Filing

/-- A step mentions names at most, and its answer fits the store it leaves. -/
def ReadsAt
    (store : Store)
    (step : Filing α)
    (holds : Store → α → Prop) :
    Prop :=
  ∃ hints,
    (step.run store).2 = store.replay (mentions hints) ∧
      holds (step.run store).2 (step.run store).1

theorem readsAt_pure
    {store : Store}
    {answer : α}
    {holds : Store → α → Prop}
    (fits : holds store answer) :
    ReadsAt store (pure answer) holds :=
  ⟨[], rfl, fits⟩

/-- The next step meets the store that the first one leaves. -/
theorem ReadsAt.bind
    {store : Store}
    {step : Filing α}
    {next : α → Filing β}
    {between : Store → α → Prop}
    {holds : Store → β → Prop}
    (before : ReadsAt store step between)
    (after :
      ∀ hints answer, between (store.replay (mentions hints)) answer →
        ReadsAt (store.replay (mentions hints)) (next answer) holds) :
    ReadsAt store (step >>= next) holds := by
  obtain ⟨early, left, fits⟩ := before
  rw [left] at fits
  obtain ⟨late, leftAfter, fitsAfter⟩ := after early _ fits
  have ran :
      (step >>= next).run store =
        (next (step.run store).1).run (store.replay (mentions early)) := by
    rw [StateT.run_bind, ← left]
    rfl
  refine ⟨early ++ late, ?_, ?_⟩
  · rw [ran, leftAfter, mentions_append, Store.replay_append]
  · rw [ran]
    exact fitsAfter

variable {origins : List Origin} {store : Store}

/-- A reference made at an origin is admitted in the store it leaves. -/
theorem refer_reads
    {origin : Origin}
    (listed : origin ∈ origins)
    {name : TypeName}
    (leads : origin.reference = Reference.toType name)
    (hint : Option Category) :
    ReadsAt store (refer name hint) fun after reference =>
      after.Admits origins reference := by
  refine ⟨[(name, hint)], rfl, fun tracked => ?_, origin, listed, leads.symm⟩
  exact Store.mem_names_mention.mpr
    (Or.inr ⟨rfl, (Reference.tracked_toType name).mp tracked⟩)

/-- A reference without an entry is admitted as it is. -/
theorem untracked_reads
    {origin : Origin}
    (listed : origin ∈ origins)
    {name : String}
    (leads : origin.reference = Reference.untracked name) :
    ReadsAt store (pure (Reference.untracked name)) fun after reference =>
      after.Admits origins reference :=
  readsAt_pure ⟨by simp, origin, listed, leads.symm⟩

/-- The type of an annotation is admitted, and fit for an annotation. -/
theorem referToUse_reads
    {descriptor : String}
    (listed : .annotationType descriptor ∈ origins) :
    ReadsAt store (referToUse descriptor) fun after reference =>
      after.Admits origins reference ∧ reference.OfUse := by
  have answer :
      ((referToUse descriptor).run store).1 =
        (Origin.annotationType descriptor).reference := by
    unfold referToUse
    split
    · next name parsed =>
        simp only [Origin.reference, parsed]
        rfl
    · simp only [Origin.reference]
      rfl
  have reads :
      ReadsAt store (referToUse descriptor) fun after reference =>
        after.Admits origins reference := by
    unfold referToUse
    split
    · next name parsed =>
        exact refer_reads listed (by simp [Origin.reference, parsed]) _
    · refine untracked_reads listed ?_
      simp only [Origin.reference]
  obtain ⟨hints, left, admitted⟩ := reads
  exact ⟨hints, left, admitted, descriptor, answer⟩

/-- The type of an enum constant is admitted. -/
theorem referToEnum_reads
    {descriptor : String}
    (listed : .enumConstant descriptor ∈ origins) :
    ReadsAt store (referToEnum descriptor) fun after reference =>
      after.Admits origins reference := by
  unfold referToEnum
  split
  · next name parsed =>
      exact refer_reads listed (by simp [Origin.reference, parsed]) _
  · next other =>
      refine untracked_reads listed ?_
      simp only [Origin.reference]

/-- The class of a class literal is admitted. -/
theorem referToLiteral_reads
    {descriptor : String}
    (listed : .classLiteral descriptor ∈ origins) :
    ReadsAt store (referToLiteral descriptor) fun after reference =>
      after.Admits origins reference := by
  unfold referToLiteral
  split
  · next name parsed =>
      exact refer_reads listed (by simp [Origin.reference, parsed]) _
  all_goals
    refine untracked_reads listed ?_
    simp_all [Origin.reference]

/-- The class in the type of a member is admitted. -/
theorem referToElement_reads
    {type : Descriptor}
    (listed : .element type ∈ origins) :
    ReadsAt store (referToElement type) fun after reference =>
      after.Admits origins reference := by
  unfold referToElement
  split
  · next name named =>
      exact refer_reads listed (by simp [Origin.reference, named]) _
  · next unnamed =>
      exact untracked_reads listed (by simp [Origin.reference, unnamed])

/-! ## Annotations -/

mutual

/-- A value whose origins are listed is taken. -/
theorem takeValue_reads
    {origins : List Origin}
    {store : Store}
    {before : Option Value}
    (earlier : ∀ known ∈ before, known.Taken (store.Admits origins)) :
    (value : ElementValue) →
      (∀ origin ∈ value.origins, origin ∈ origins) →
        ReadsAt store (takeValue before value) fun after taken =>
          taken.Taken (after.Admits origins)
  | .scalar value, _ => by
      rw [takeValue]
      exact readsAt_pure (Values.taken_gather earlier
        ⟨by simp [Value.references], by simp [Value.uses]⟩)
  | .enumConstant descriptor constant, listed => by
      rw [ElementValue.origins] at listed
      rw [takeValue]
      refine (referToEnum_reads (listed _ (by simp))).bind
        fun hints type admitted => readsAt_pure ?_
      exact Values.taken_gather
        (fun known member => (earlier known member).mono
          fun _ admits => admits.replay _)
        (Value.taken_leaf (Or.inr ⟨constant, rfl⟩) admitted)
  | .classLiteral descriptor, listed => by
      rw [ElementValue.origins] at listed
      rw [takeValue]
      refine (referToLiteral_reads (listed _ (by simp))).bind
        fun hints type admitted => readsAt_pure ?_
      exact Values.taken_gather
        (fun known member => (earlier known member).mono
          fun _ admits => admits.replay _)
        (Value.taken_leaf (Or.inl rfl) admitted)
  | .annotated decl, listed => by
      rw [ElementValue.origins] at listed
      rw [takeValue]
      refine (takeUse_reads decl listed).bind
        fun hints use taken => readsAt_pure ?_
      exact Values.taken_gather
        (fun known member => (earlier known member).mono
          fun _ admits => admits.replay _)
        (Value.taken_annotated taken)
  | .array items, listed => by
      rw [ElementValue.origins] at listed
      rw [takeValue]
      exact (takeItems_reads (by simp) items listed).bind
        fun hints gathered taken =>
          readsAt_pure (Values.taken_itemsOf taken)

/-- So are the items of an array, behind those gathered before. -/
theorem takeItems_reads
    {origins : List Origin}
    {store : Store}
    {before : Option Value}
    (earlier : ∀ known ∈ before, known.Taken (store.Admits origins)) :
    (items : List ElementValue) →
      (∀ origin ∈ ElementValue.originsOfItems items, origin ∈ origins) →
        ReadsAt store (takeItems before items) fun after gathered =>
          ∀ value ∈ gathered, value.Taken (after.Admits origins)
  | [], _ => by
      rw [takeItems]
      exact readsAt_pure earlier
  | item :: items, listed => by
      rw [ElementValue.originsOfItems] at listed
      rw [takeItems]
      refine (takeValue_reads earlier item fun origin member =>
        listed origin (List.mem_append_left _ member)).bind
          fun hints value taken => ?_
      exact takeItems_reads (by simpa using taken) items fun origin member =>
        listed origin (List.mem_append_right _ member)

/-- An annotation is taken with its type and all that its values refer to. -/
theorem takeUse_reads
    {origins : List Origin}
    {store : Store} :
    (decl : AnnotationDecl) →
      (∀ origin ∈ decl.origins, origin ∈ origins) →
        ReadsAt store (takeUse decl) fun after use =>
          use.Taken (after.Admits origins)
  | ⟨descriptor, _, values⟩, listed => by
      rw [AnnotationDecl.origins] at listed
      rw [takeUse]
      refine (referToUse_reads (listed _ (by simp))).bind
        fun early type ⟨admitted, typed⟩ => ?_
      refine (takePairs_reads (by simp) values fun origin member =>
        listed origin (List.mem_cons_of_mem _ member)).bind
          fun late taken all => readsAt_pure ?_
      exact AnnotationUse.taken_of_pairs (admitted.replay _) typed all

/-- So are the values of an annotation, over those taken before. -/
theorem takePairs_reads
    {origins : List Origin}
    {store : Store}
    {values : Values}
    (earlier : ∀ pair ∈ values, pair.2.Taken (store.Admits origins)) :
    (pairs : List (String × ElementValue)) →
      (∀ origin ∈ AnnotationDecl.originsOfPairs pairs, origin ∈ origins) →
        ReadsAt store (takePairs values pairs) fun after taken =>
          ∀ pair ∈ taken, pair.2.Taken (after.Admits origins)
  | [], _ => by
      rw [takePairs]
      exact readsAt_pure earlier
  | (key, item) :: rest, listed => by
      rw [AnnotationDecl.originsOfPairs] at listed
      rw [takePairs]
      refine (takeValue_reads (Values.taken_lookup earlier key) item
        fun origin member => listed origin (List.mem_append_left _ member)).bind
          fun hints value taken => ?_
      refine takePairs_reads ?_ rest fun origin member =>
        listed origin (List.mem_append_right _ member)
      exact Values.taken_insert
        (fun pair member => (earlier pair member).mono
          fun _ admits => admits.replay _)
        key taken

end

/-- Annotations whose origins are listed are taken. -/
theorem takeUses_reads
    {decls : List AnnotationDecl}
    (listed : ∀ decl ∈ decls, ∀ origin ∈ decl.origins, origin ∈ origins) :
    ReadsAt store (takeUses decls) fun after uses =>
      ∀ use ∈ uses, use.Taken (after.Admits origins) := by
  induction decls generalizing store with
  | nil =>
      exact readsAt_pure (by simp)
  | cons decl decls inductionHypothesis =>
      refine (takeUse_reads decl (listed decl (by simp))).bind
        fun early use taken => ?_
      refine (inductionHypothesis fun other member =>
        listed other (List.mem_cons_of_mem _ member)).bind
          fun late uses all => readsAt_pure fun other member => ?_
      rcases List.mem_cons.mp member with rfl | inRest
      · exact taken.mono fun _ admits => admits.replay _
      · exact all other inRest

/-- So are those of a table, slot by slot. -/
theorem takeTable_reads
    {table : List (List AnnotationDecl)}
    (listed :
      ∀ decls ∈ table, ∀ decl ∈ decls, ∀ origin ∈ decl.origins,
        origin ∈ origins) :
    ReadsAt store (takeTable table) fun after slots =>
      ∀ slot ∈ slots, ∀ use ∈ slot, use.Taken (after.Admits origins) := by
  induction table generalizing store with
  | nil =>
      exact readsAt_pure (by simp)
  | cons decls table inductionHypothesis =>
      refine (takeUses_reads (listed decls (by simp))).bind
        fun early uses taken => ?_
      refine (inductionHypothesis fun other member =>
        listed other (List.mem_cons_of_mem _ member)).bind
          fun late slots all => readsAt_pure fun slot member use inSlot => ?_
      rcases List.mem_cons.mp member with rfl | inRest
      · exact (taken use inSlot).mono fun _ admits => admits.replay _
      · exact all slot inRest use inSlot

end Filing

end TypeAtlas
