import TypeAtlas.Proofs.Entering.Drafts
import TypeAtlas.Proofs.Entering.Origins

namespace TypeAtlas

/-!
# Reading annotations

An annotation is read from its declaration and from nothing else. Its types are
looked up one after another as they occur: the type of the annotation itself,
then those of its values, each of them mentioned as what it has to be there. An
annotation type is mentioned as one, the type of an enum constant as an enum,
and a class literal as nothing in particular.

What stands under a name is gathered from left to right. This module turns the
steps that read values into equations between values.
-/

/-! ## Steps that only mention names -/

namespace Filing

/-- What comes last may be a mere answer. -/
theorem Notes.map
    {step : Filing α}
    {answer : α}
    {hints : List Hint}
    (noted : Notes step answer hints)
    (result : α → β) :
    Notes (step >>= fun given => pure (result given)) (result answer)
      hints := by
  intro store
  rw [StateT.run_bind, noted store]
  rfl

end Filing

/-! ## Types -/

namespace Origin

/--
The category that a type is mentioned as where an annotation names it. The type
of a member is mentioned as nothing in particular either.
-/
def hint? : Origin → Option Category
  | annotationType _ => some .annotationType
  | enumConstant _ => some .enumType
  | classLiteral _ | element _ | supertype _ | signature _ => none

/-- The name that an origin leads to, as it is mentioned. -/
def hints (origin : Origin) : List Hint :=
  if origin.reference.tracked then
    [(origin.reference.name, origin.hint?)]
  else
    []

/-- No origin hints at the root type. -/
theorem root_not_mem_hints
    (origin : Origin) :
    TypeName.root ∉ origin.hints.map Prod.fst := by
  unfold hints
  split
  · next tracked =>
      have notRoot := name_ne_root tracked
      simpa using Ne.symm notRoot
  · simp

end Origin

namespace Filing

/-- The root type is mentioned nowhere. -/
theorem refer_hints
    (origin : Origin)
    {name : TypeName}
    (leads : origin.reference = Reference.toType name) :
    Notes (refer name origin.hint?) origin.reference origin.hints := by
  rw [Origin.hints, leads]
  by_cases isRoot : name = TypeName.root
  · have untracked : (Reference.toType name).tracked = false := by
      simp [Reference.toType, isRoot]
    have unmentioned :
        ∀ store : Store, store.mention name origin.hint? = store :=
      fun store => by simp [Store.mention, isRoot]
    rw [if_neg (by simp [untracked])]
    intro store
    rw [refer_notes name origin.hint? store]
    simp only [mentions, List.map_cons, List.map_nil, Store.replay_cons,
      Store.replay_nil, Change.apply, unmentioned]
  · rw [if_pos ((Reference.tracked_toType name).mpr isRoot)]
    exact refer_notes name origin.hint?

/-- What leads nowhere is left untracked, and nothing is mentioned for it. -/
theorem untracked_hints
    (origin : Origin)
    {name : String}
    (leads : origin.reference = Reference.untracked name) :
    Notes (pure (Reference.untracked name)) origin.reference
      origin.hints := by
  rw [Origin.hints, leads]
  exact notes_pure _

/-- The type of an annotation is mentioned as its origin tells. -/
theorem referToUse_hints
    (descriptor : String) :
    Notes (referToUse descriptor) (Origin.annotationType descriptor).reference
      (Origin.annotationType descriptor).hints := by
  unfold referToUse
  split
  · next name parsed =>
      refine refer_hints (.annotationType descriptor) ?_
      simp only [Origin.reference, parsed]
  · refine untracked_hints (.annotationType descriptor) ?_
    simp only [Origin.reference]

/-- So is the type of an enum constant. -/
theorem referToEnum_hints
    (descriptor : String) :
    Notes (referToEnum descriptor) (Origin.enumConstant descriptor).reference
      (Origin.enumConstant descriptor).hints := by
  unfold referToEnum
  split
  · next name parsed =>
      refine refer_hints (.enumConstant descriptor) ?_
      simp only [Origin.reference, parsed]
  · refine untracked_hints (.enumConstant descriptor) ?_
    simp only [Origin.reference]

/-- So is the class of a class literal. -/
theorem referToLiteral_hints
    (descriptor : String) :
    Notes (referToLiteral descriptor)
      (Origin.classLiteral descriptor).reference
      (Origin.classLiteral descriptor).hints := by
  unfold referToLiteral
  split
  · next name parsed =>
      refine refer_hints (.classLiteral descriptor) ?_
      simp only [Origin.reference, parsed]
  · next type other parsed =>
      refine untracked_hints (.classLiteral descriptor) ?_
      simp only [Origin.reference, parsed]
  · next parsed =>
      refine untracked_hints (.classLiteral descriptor) ?_
      simp only [Origin.reference, parsed]
  · next fault parsed =>
      refine untracked_hints (.classLiteral descriptor) ?_
      simp only [Origin.reference, parsed]

/-- So is the class in the type of a member, if there is one. -/
theorem referToElement_hints
    (type : Descriptor) :
    Notes (referToElement type) (Origin.element type).reference
      (Origin.element type).hints := by
  unfold referToElement
  split
  · next name named =>
      refine refer_hints (.element type) ?_
      simp only [Origin.reference, named]
  · next unnamed =>
      refine untracked_hints (.element type) ?_
      simp only [Origin.reference, unnamed]

/-! ## Values -/

/-- A step mentions what given origins lead to, and nothing else. -/
def Hinting
    (step : Filing α)
    (origins : List Origin) :
    Prop :=
  ∃ answer, Notes step answer (origins.flatMap (·.hints))

/-- A step that hints at origins mentions what they lead to, on every store. -/
theorem Hinting.notes
    {step : Filing α}
    {origins : List Origin}
    (hinting : Hinting step origins) :
    Notes step (answerOf step) (origins.flatMap (·.hints)) := by
  obtain ⟨answer, noted⟩ := hinting
  rw [noted.answerOf_eq]
  exact noted

/-- A reference made at one place has that place for its only origin. -/
theorem Hinting.single
    {step : Filing α}
    {answer : α}
    {origin : Origin}
    (noted : Notes step answer origin.hints) :
    Hinting step [origin] :=
  ⟨answer, by simpa using noted⟩

/-- Two steps hint at the origins of both, in the order they are run in. -/
theorem Hinting.bind
    {step : Filing α}
    {next : α → Filing β}
    {early late : List Origin}
    (before : Hinting step early)
    (after : ∀ answer, Hinting (next answer) late) :
    Hinting (step >>= next) (early ++ late) := by
  obtain ⟨first, noted⟩ := before
  obtain ⟨second, notedAfter⟩ := after first
  rw [Hinting, List.flatMap_append]
  exact ⟨second, noted.bind notedAfter⟩

/-- What is done to the answer of a step brings no further origins. -/
theorem Hinting.map
    {step : Filing α}
    {origins : List Origin}
    (before : Hinting step origins)
    (result : α → β) :
    Hinting (step >>= fun answer => pure (result answer)) origins := by
  obtain ⟨answer, noted⟩ := before
  exact ⟨result answer, noted.map result⟩

mutual

/--
Taking a value hints at the origins in it, in the order they are written in.
-/
theorem takeValue_hinting
    (before : Option Value) :
    (value : ElementValue) →
      Hinting (takeValue before value) value.origins
  | .scalar value => by
      rw [takeValue, ElementValue.origins]
      exact ⟨_, notes_pure _⟩
  | .enumConstant descriptor constant => by
      rw [takeValue, ElementValue.origins]
      exact (Hinting.single (referToEnum_hints descriptor)).map _
  | .classLiteral descriptor => by
      rw [takeValue, ElementValue.origins]
      exact (Hinting.single (referToLiteral_hints descriptor)).map _
  | .annotated decl => by
      rw [takeValue, ElementValue.origins]
      exact (takeUse_hinting decl).map _
  | .array items => by
      rw [takeValue, ElementValue.origins]
      exact (takeItems_hinting none items).map _

/-- Taking the items of an array hints at the origins of each of them. -/
theorem takeItems_hinting
    (before : Option Value) :
    (items : List ElementValue) →
      Hinting (takeItems before items) (ElementValue.originsOfItems items)
  | [] => by
      rw [takeItems, ElementValue.originsOfItems]
      exact ⟨_, notes_pure _⟩
  | item :: items => by
      rw [takeItems, ElementValue.originsOfItems]
      exact (takeValue_hinting before item).bind
        fun value => takeItems_hinting (some value) items

/-- An annotation mentions its own type, then those that its values name. -/
theorem takeUse_hinting :
    (decl : AnnotationDecl) →
      Hinting (takeUse decl) decl.origins
  | ⟨descriptor, visible, values⟩ => by
      rw [takeUse, AnnotationDecl.origins]
      exact (Hinting.single (referToUse_hints descriptor)).bind
        fun type => (takePairs_hinting [] values).map _

/-- Taking the values of an annotation hints at the origins of each of them. -/
theorem takePairs_hinting
    (values : Values) :
    (pairs : List (String × ElementValue)) →
      Hinting (takePairs values pairs) (AnnotationDecl.originsOfPairs pairs)
  | [] => by
      rw [takePairs, AnnotationDecl.originsOfPairs]
      exact ⟨_, notes_pure _⟩
  | (key, item) :: rest => by
      rw [takePairs, AnnotationDecl.originsOfPairs]
      exact (takeValue_hinting (values.lookup key) item).bind
        fun value => takePairs_hinting (values.insert key value) rest

end

end Filing

/-! ## What is read -/

/-- The occurrence of an annotation that is read from its declaration. -/
def AnnotationDecl.use (decl : AnnotationDecl) : AnnotationUse :=
  Filing.answerOf (Filing.takeUse decl)

/-- What stands under a name after an element value is met for it. -/
def ElementValue.after
    (before : Option Value)
    (value : ElementValue) :
    Value :=
  Filing.answerOf (Filing.takeValue before value)

/-- What is gathered from the items of an array, one after another. -/
def ElementValue.gathered
    (before : Option Value)
    (items : List ElementValue) :
    Option Value :=
  Filing.answerOf (Filing.takeItems before items)

/-- The named values after more of them are met. -/
def Values.taking
    (values : Values)
    (pairs : List (String × ElementValue)) :
    Values :=
  Filing.answerOf (Filing.takePairs values pairs)

open Filing in
/--
An annotation as it is taken: its type as referred to, its values gathered.
-/
theorem AnnotationDecl.use_eq
    (decl : AnnotationDecl) :
    decl.use =
      { type := (Origin.annotationType decl.descriptor).reference
        values := Values.taking [] decl.values } := by
  obtain ⟨descriptor, visible, values⟩ := decl
  have typed := referToUse_hints descriptor
  have taken := (takePairs_hinting [] values).notes
  rw [AnnotationDecl.use, takeUse]
  exact (typed.bind (taken.map (AnnotationUse.mk _ none))).answerOf_eq

namespace ElementValue

open Filing

variable (before : Option Value)

/-- A scalar is gathered as it is written. -/
@[simp] theorem after_scalar
    (value : Scalar) :
    after before (.scalar value) =
      Values.gather before (.scalar value) := by
  rw [after, takeValue]
  rfl

/-- An enum constant is gathered with a reference to its type. -/
@[simp] theorem after_enumConstant
    (descriptor constant : String) :
    after before (.enumConstant descriptor constant) =
      Values.gather before
        (.enumConstant (Origin.enumConstant descriptor).reference
          constant) := by
  rw [after, takeValue]
  exact ((referToEnum_hints descriptor).map fun type =>
    Values.gather before (.enumConstant type constant)).answerOf_eq

/-- A class literal is gathered with a reference to its class. -/
@[simp] theorem after_classLiteral
    (descriptor : String) :
    after before (.classLiteral descriptor) =
      Values.gather before
        (.classLiteral (Origin.classLiteral descriptor).reference) := by
  rw [after, takeValue]
  exact ((referToLiteral_hints descriptor).map fun type =>
    Values.gather before (.classLiteral type)).answerOf_eq

/-- An annotation inside another is gathered as it is taken by itself. -/
@[simp] theorem after_annotated
    (decl : AnnotationDecl) :
    after before (.annotated decl) =
      Values.gather before (.annotated decl.use) := by
  rw [after, takeValue]
  exact ((takeUse_hinting decl).notes.map fun use =>
    Values.gather before (.annotated use)).answerOf_eq

/-- An array takes the place of whatever stood under its name. -/
@[simp] theorem after_array
    (items : List ElementValue) :
    after before (.array items) =
      .sequence (Values.itemsOf (gathered none items)) := by
  rw [after, takeValue]
  exact ((takeItems_hinting none items).notes.map fun gathered =>
    Value.sequence (Values.itemsOf gathered)).answerOf_eq

@[simp] theorem gathered_nil :
    gathered before [] = before := by
  rw [gathered, takeItems]
  rfl

/-- The items of an array are gathered one by one. -/
@[simp] theorem gathered_cons
    (item : ElementValue)
    (items : List ElementValue) :
    gathered before (item :: items) =
      gathered (some (item.after before)) items := by
  rw [gathered, takeItems]
  exact ((takeValue_hinting before item).notes.bind
    (takeItems_hinting _ items).notes).answerOf_eq

end ElementValue

namespace Values

open Filing

variable (values : Values)

@[simp] theorem taking_nil :
    values.taking [] = values := by
  rw [taking, takePairs]
  rfl

/-- The values of an annotation are taken key by key. -/
@[simp] theorem taking_cons
    (key : String)
    (item : ElementValue)
    (rest : List (String × ElementValue)) :
    values.taking ((key, item) :: rest) =
      (values.insert key (item.after (values.lookup key))).taking rest := by
  rw [taking, takePairs]
  exact ((takeValue_hinting (values.lookup key) item).notes.bind
    (takePairs_hinting _ rest).notes).answerOf_eq

end Values

end TypeAtlas
