import TypeAtlas.Entering.Mentions
import TypeAtlas.Proofs.Store.Growth

namespace TypeAtlas

/-!
# The names that members bring in

Entering an annotation or a member puts no name into a store but those that its
values, descriptors and signatures mention. The walk over them follows the one
by which their names were listed. For signatures this means that the names of
the class types still open are those of the frames on the stack of the machine.
-/

namespace Filing

/-- A step that brings in some of the given names and visits no type. -/
def Brings
    (names : List TypeName)
    (step : Filing α) :
    Prop :=
  ∀ store : Store, store.Gains names (step.run store).2

theorem brings_pure
    (names : List TypeName)
    (answer : α) :
    Brings names (pure answer) :=
  fun store => .refl names store

theorem brings_get
    (names : List TypeName) :
    Brings names get :=
  fun store => .refl names store

/-- What two steps bring is brought by both together. -/
theorem Brings.bind
    {names : List TypeName}
    {step : Filing α}
    {next : α → Filing β}
    (before : Brings names step)
    (after : ∀ answer, Brings names (next answer)) :
    Brings names (step >>= next) :=
  fun store => (before store).trans (after _ _)

/-- More names may be allowed for than are brought. -/
theorem Brings.mono
    {names more : List TypeName}
    {step : Filing α}
    (brings : Brings names step)
    (subset : ∀ name ∈ names, name ∈ more) :
    Brings more step :=
  fun store => (brings store).mono subset

/-- A reference to a type brings its name and no other. -/
theorem brings_refer
    (name : TypeName)
    (hint : Option Category) :
    Brings [name] (refer name hint) :=
  fun store => store.gains_mention name hint

/-- Annotations are recorded for types that have entries already. -/
theorem brings_recordUses
    (names : List TypeName)
    (uses : List AnnotationUse)
    (element : Element) :
    Brings names (modify (·.recordUses uses element)) :=
  fun store => store.gains_recordUses names uses element

/-- A change of a node brings no names. -/
theorem brings_amend
    (names : List TypeName)
    (owner : TypeName)
    (amendment : Amendment) :
    Brings names (modify (·.updateNode owner amendment.apply)) :=
  fun store =>
    (Change.gains_apply store (.amend owner amendment) trivial).mono
      (by simp [Change.introduces])

/-- A field is noted at a type that has an entry already. -/
theorem brings_addFieldUse
    (names : List TypeName)
    (reference : Reference)
    (id : FieldId) :
    Brings names
      (modify (·.updateReferent reference (·.addFieldUse id))) := by
  intro store
  change store.Gains names
    (store.updateReferent reference (·.addFieldUse id))
  unfold Store.updateReferent
  split
  · exact (Change.gains_apply store
      (.mark reference.name (.fieldUse id)) trivial).mono
        (by simp [Change.introduces])
  · exact .refl names store

/-! ## Annotations -/

/-- An annotation brings the name of its type. -/
theorem brings_referToUse
    (descriptor : String) :
    Brings (Descriptor.mentions descriptor) (referToUse descriptor) := by
  unfold referToUse Descriptor.mentions
  cases Descriptor.parse descriptor with
  | error fault =>
      exact brings_pure _ _
  | ok type =>
      cases type with
      | object name =>
          exact brings_refer name _
      | base _ | array _ _ =>
          exact brings_pure _ _

/-- A constant brings the name of its enum type. -/
theorem brings_referToEnum
    (descriptor : String) :
    Brings (Descriptor.mentions descriptor) (referToEnum descriptor) := by
  unfold referToEnum Descriptor.mentions
  cases Descriptor.parse descriptor with
  | error fault =>
      exact brings_pure _ _
  | ok type =>
      cases type with
      | object name =>
          exact brings_refer name _
      | base _ | array _ _ =>
          exact brings_pure _ _

/-- A class literal brings the name of its class. -/
theorem brings_referToLiteral
    (descriptor : String) :
    Brings (Descriptor.mentions descriptor) (referToLiteral descriptor) := by
  unfold referToLiteral Descriptor.mentions Descriptor.parseResult
  by_cases void : descriptor = "V"
  · simp only [void, ↓reduceIte]
    exact brings_pure _ _
  · simp only [void, ↓reduceIte]
    cases Descriptor.parse descriptor with
    | error fault =>
        exact brings_pure _ _
    | ok type =>
        cases type with
        | object name =>
            exact brings_refer name _
        | base _ | array _ _ =>
            exact brings_pure _ _

/-- A member's type brings the name of the class in it, if it is one. -/
theorem brings_referToElement
    (type : Descriptor) :
    Brings type.objectName?.toList (referToElement type) := by
  unfold referToElement
  cases type.objectName? with
  | none =>
      exact brings_pure _ _
  | some name =>
      exact brings_refer name none

mutual

/-- A value brings the names in it, those of annotations inside it too. -/
theorem brings_takeValue
    (before : Option Value) :
    (value : ElementValue) →
      Brings value.mentions (takeValue before value)
  | .scalar value => by
      rw [takeValue]
      exact brings_pure _ _
  | .enumConstant descriptor constant => by
      rw [takeValue, ElementValue.mentions]
      exact (brings_referToEnum descriptor).bind fun _ => brings_pure _ _
  | .classLiteral descriptor => by
      rw [takeValue, ElementValue.mentions]
      exact (brings_referToLiteral descriptor).bind fun _ => brings_pure _ _
  | .annotated decl => by
      rw [takeValue, ElementValue.mentions]
      exact (brings_takeUse decl).bind fun _ => brings_pure _ _
  | .array items => by
      rw [takeValue, ElementValue.mentions]
      exact (brings_takeItems none items).bind fun _ => brings_pure _ _

theorem brings_takeItems
    (before : Option Value) :
    (items : List ElementValue) →
      Brings (ElementValue.mentionsOfItems items) (takeItems before items)
  | [] => by
      rw [takeItems]
      exact brings_pure _ _
  | item :: items => by
      rw [takeItems, ElementValue.mentionsOfItems]
      exact ((brings_takeValue before item).mono (by simp_all)).bind
        fun value => (brings_takeItems (some value) items).mono (by simp_all)

/-- An annotation brings its type and the names in its values. -/
theorem brings_takeUse :
    (decl : AnnotationDecl) →
      Brings decl.mentions (takeUse decl)
  | ⟨descriptor, visible, values⟩ => by
      rw [takeUse, AnnotationDecl.mentions]
      exact ((brings_referToUse descriptor).mono (by simp_all)).bind
        fun _ => ((brings_takePairs [] values).mono (by simp_all)).bind
          fun _ => brings_pure _ _

theorem brings_takePairs
    (values : Values) :
    (pairs : List (String × ElementValue)) →
      Brings (AnnotationDecl.mentionsOfPairs pairs) (takePairs values pairs)
  | [] => by
      rw [takePairs]
      exact brings_pure _ _
  | (key, item) :: rest => by
      rw [takePairs, AnnotationDecl.mentionsOfPairs]
      exact ((brings_takeValue (values.lookup key) item).mono
        (by simp_all)).bind
          fun value =>
            (brings_takePairs (values.insert key value) rest).mono
              (by simp_all)

end

/-- Annotations bring the names that each of them brings. -/
theorem brings_takeUses
    {names : List TypeName}
    {decls : List AnnotationDecl}
    (named : ∀ decl ∈ decls, ∀ name ∈ decl.mentions, name ∈ names) :
    Brings names (takeUses decls) := by
  induction decls with
  | nil =>
      exact brings_pure _ _
  | cons decl decls inductionHypothesis =>
      have rest := inductionHypothesis
        fun other member => named other (List.mem_cons_of_mem _ member)
      exact ((brings_takeUse decl).mono (named decl (by simp))).bind
        fun _ => rest.bind fun _ => brings_pure _ _

/-- So do tables of annotations. -/
theorem brings_takeTable
    {names : List TypeName}
    {table : List (List AnnotationDecl)}
    (named :
      ∀ decls ∈ table, ∀ decl ∈ decls,
        ∀ name ∈ decl.mentions, name ∈ names) :
    Brings names (takeTable table) := by
  induction table with
  | nil =>
      exact brings_pure _ _
  | cons decls table inductionHypothesis =>
      have rest := inductionHypothesis
        fun other member => named other (List.mem_cons_of_mem _ member)
      exact (brings_takeUses (named decls (by simp))).bind
        fun _ => rest.bind fun _ => brings_pure _ _

end Filing

/-! ## Signatures -/

namespace Resolver

/-- An open class type has the given name, unless it is the root type. -/
def Frame.Named (frame : Frame) (name : TypeName) : Prop :=
  match frame with
  | .type generic => generic.typeName? = some name
  | .skipped => True

/-- A type is handed to a position without a look at the store. -/
@[simp] theorem store_place
    (resolver : Resolver)
    (generic : Generic) :
    (resolver.place generic).store = resolver.store := by
  unfold place
  split <;> try split
  all_goals rfl

/-- Nor does that touch the class types that are still open. -/
@[simp] theorem stack_place
    (resolver : Resolver)
    (generic : Generic) :
    (resolver.place generic).stack = resolver.stack := by
  unfold place
  split <;> try split
  all_goals rfl

/-- A complete type is handed on without a look at the store. -/
@[simp] theorem store_attach
    (resolver : Resolver)
    (generic : Generic) :
    (resolver.attach generic).store = resolver.store := by
  unfold attach
  split
  · rfl
  · rfl
  · simp

/-- Handing over a complete type does not rename the type around it. -/
theorem named_attach
    {resolver : Resolver}
    {names : List TypeName}
    (named : List.Forall₂ Frame.Named resolver.stack names)
    (generic : Generic) :
    List.Forall₂ Frame.Named (resolver.attach generic).stack names := by
  unfold attach
  split
  · next parent rest shape =>
      rw [shape] at named
      cases named with
      | cons first others =>
          exact .cons first others
  · exact named
  · simpa using named

/--
An event brings in a name that it mentions at most, and leaves the names of the
open class types known.
-/
theorem step_named
    {resolver : Resolver}
    {names : List TypeName}
    (named : List.Forall₂ Frame.Named resolver.stack names)
    (event : Signature.Event)
    (events : List Signature.Event) :
    ∃ after,
      List.Forall₂ Frame.Named (resolver.step event).stack after ∧
        (∀ name ∈ Signature.mentions after events,
          name ∈ Signature.mentions names (event :: events)) ∧
        resolver.store.Gains (Signature.mentions names (event :: events))
          (resolver.step event).store := by
  cases event with
  | classType name =>
      refine ⟨name :: names, ?_, by simp_all [Signature.mentions], ?_⟩
      · simp only [step]
        split
        · exact .cons trivial named
        · exact .cons rfl named
      · simp only [step]
        split
        · exact .refl _ _
        · exact (resolver.store.gains_mention name _).mono
            (by simp [Signature.mentions])
  | nested name =>
      cases shape : resolver.stack with
      | nil =>
          rw [shape] at named
          cases named
          refine ⟨[], ?_, by simp [Signature.mentions], ?_⟩
          · simp [step, shape]
          · simp only [step, shape]
            exact .refl _ _
      | cons frame rest =>
          rw [shape] at named
          cases named with
          | @cons _ outer _ others first tail =>
              refine ⟨(outer ++ "$" ++ name) :: others, ?_,
                by simp_all [Signature.mentions], ?_⟩
              · cases frame with
                | skipped =>
                    simp only [step, shape]
                    exact .cons trivial tail
                | type generic =>
                    have outerName : generic.typeName? = some outer := first
                    simp only [step, shape, outerName]
                    exact .cons rfl tail
              · cases frame with
                | skipped =>
                    simp only [step, shape]
                    exact .refl _ _
                | type generic =>
                    have outerName : generic.typeName? = some outer := first
                    simp only [step, shape, outerName]
                    exact (resolver.store.gains_mention _ none).mono
                      (by simp [Signature.mentions])
  | close =>
      cases shape : resolver.stack with
      | nil =>
          rw [shape] at named
          cases named
          refine ⟨[], by simp [step, shape], by simp [Signature.mentions], ?_⟩
          simp only [step, shape]
          exact .refl _ _
      | cons frame rest =>
          rw [shape] at named
          cases named with
          | @cons _ _ _ others first tail =>
              refine ⟨others, ?_, by simp [Signature.mentions], ?_⟩
              · cases frame with
                | skipped =>
                    simp only [step, shape]
                    exact tail
                | type generic =>
                    simp only [step, shape]
                    exact named_attach tail generic
              · cases frame with
                | skipped =>
                    simp only [step, shape]
                    exact .refl _ _
                | type generic =>
                    simp only [step, shape, store_attach]
                    exact .refl _ _
  | typeVariable name =>
      refine ⟨names, ?_, by simp [Signature.mentions], ?_⟩
      · have reset :
            List.Forall₂ Frame.Named
              { resolver with dimensions := 0 }.stack names :=
          named
        exact named_attach reset _
      · simp only [step, store_attach]
        exact .refl _ _
  | formal _ | classBound | interfaceBound | superclass | interface | parameter
  | result | thrown | base _ | array | anyArgument | argument _ =>
      exact ⟨names, named, by simp [Signature.mentions], .refl _ _⟩

/-- A run of events brings in names that the events mention. -/
theorem gains_foldl_step
    {resolver : Resolver}
    {names : List TypeName}
    (named : List.Forall₂ Frame.Named resolver.stack names)
    (events : List Signature.Event) :
    resolver.store.Gains (Signature.mentions names events)
      (events.foldl step resolver).store := by
  induction events generalizing resolver names with
  | nil =>
      exact .refl _ _
  | cons event events inductionHypothesis =>
      obtain ⟨after, still, subset, first⟩ := step_named named event events
      exact first.trans ((inductionHypothesis still).mono subset)

/-- A signature gains the store the names that its events mention. -/
theorem gains_run
    (resolver : Resolver)
    (idle : resolver.stack = [])
    (trace : Signature.Trace) :
    resolver.store.Gains (Signature.mentions [] trace.events)
      (resolver.run trace).1 := by
  have unnamed : List.Forall₂ Frame.Named resolver.stack [] := by
    rw [idle]
    exact .nil
  have ran := gains_foldl_step unnamed trace.events
  unfold run
  split <;> exact ran

end Resolver

namespace Filing

/-- The signature of a class brings the names in it. -/
theorem brings_resolveClass
    (signature : String) :
    Brings (Signature.mentioned Signature.traceClass (some signature))
      (resolveClass signature) :=
  fun store => Resolver.gains_run { store := store } rfl _

/-- The signature of a method brings the names in it. -/
theorem brings_resolveMethod
    (formals : Formals)
    (signature : String) :
    Brings (Signature.mentioned Signature.traceMethod (some signature))
      (resolveMethod formals signature) :=
  fun store => Resolver.gains_run
    { store := store, inherited := formals } rfl _

/-- The signature of a field brings the names in it. -/
theorem brings_resolveField
    (formals : Formals)
    (signature : String) :
    Brings (Signature.mentioned Signature.traceField (some signature))
      (resolveField formals signature) :=
  fun store => Resolver.gains_run
    { store := store, inherited := formals, position := .field } rfl _

/-! ## Members -/

/-- The last steps of a field bring in nothing. -/
theorem brings_keepField
    (names : List TypeName)
    (owner : TypeName)
    (uses : List AnnotationUse)
    (reference : Reference)
    (id : FieldId)
    (field : Field)
    (answer : α) :
    Brings names (do
      modify (·.recordUses uses (.field id))
      modify (·.updateReferent reference (·.addFieldUse id))
      modify (·.updateNode owner (·.addField field))
      return answer) :=
  (brings_recordUses names uses _).bind fun _ =>
    (brings_addFieldUse names reference id).bind fun _ =>
      (brings_amend names owner (.field field)).bind fun _ =>
        brings_pure names answer

/-- A field brings the names that its declaration mentions. -/
theorem brings_enterField
    (settings : Settings)
    (owner : TypeName)
    (decl : FieldDecl) :
    Brings decl.mentions (enterField settings owner decl) := by
  unfold enterField
  cases parsed : Descriptor.parse decl.descriptor with
  | error fault =>
      exact brings_pure _ _
  | ok type =>
      have annotated : Brings decl.mentions (takeUses decl.annotations) :=
        brings_takeUses fun use member name named => by
          simp only [FieldDecl.mentions, List.mem_append, List.mem_flatMap]
          exact Or.inl (Or.inl ⟨use, member, named⟩)
      have typed : Brings decl.mentions (referToElement type) :=
        (brings_referToElement type).mono fun name named => by
          simp only [FieldDecl.mentions, Descriptor.mentions, parsed,
            List.mem_append]
          exact Or.inl (Or.inr named)
      refine annotated.bind fun uses => ?_
      dsimp only
      split
      · exact brings_pure _ _
      · refine typed.bind fun reference => (brings_get _).bind fun store => ?_
        cases signed : decl.signature with
        | none =>
            exact (brings_pure _ none).bind fun resolved =>
              (brings_get _).bind fun store =>
                brings_keepField _ owner uses reference _ _ _
        | some signature =>
            have resolves :
                Brings decl.mentions
                  (resolveField (store.formalsOf owner) signature) :=
              (brings_resolveField _ signature).mono fun name named => by
                simp only [FieldDecl.mentions, signed, List.mem_append]
                exact Or.inr named
            exact resolves.bind fun resolved =>
              (brings_get _).bind fun store =>
                brings_keepField _ owner uses reference _ _ _

/-- The raw type of a descriptor brings the class in it. -/
theorem brings_rawGeneric
    (type : Descriptor) :
    Brings type.objectName?.toList (rawGeneric type) :=
  (brings_referToElement type).bind fun _ => brings_pure _ _

/-- The generic types of a method bring the names in its signature. -/
theorem brings_methodGenerics
    (formals : Formals)
    (parameters : Nat)
    (signature : Option String) :
    Brings (Signature.mentioned Signature.traceMethod signature)
      (methodGenerics formals parameters signature) := by
  cases signature with
  | none =>
      exact brings_pure _ _
  | some signature =>
      refine (brings_resolveMethod formals signature).bind fun resolved => ?_
      cases resolved with
      | none =>
          exact brings_pure _ _
      | some generics =>
          dsimp only
          split <;> exact brings_pure _ _

/-- A result without a generic type brings the class in its descriptor. -/
theorem brings_methodResult
    (generic : Option Generic)
    (raw : Option Descriptor) :
    Brings (raw.toList.filterMap (·.objectName?))
      (methodResult generic raw) := by
  cases generic with
  | some generic =>
      exact brings_pure _ _
  | none =>
      cases raw with
      | none =>
          exact brings_pure _ _
      | some type =>
          refine Brings.bind ((brings_rawGeneric type).mono ?_)
            fun _ => brings_pure _ _
          intro name named
          simpa [List.mem_filterMap, Option.mem_toList] using named

/-- Parameters bring the classes in their descriptors. -/
theorem brings_enterParameters
    {names : List TypeName}
    (method : MethodId)
    (index : Nat)
    {drafts : List ParameterDraft}
    (named :
      ∀ draft ∈ drafts, ∀ name ∈ draft.type.objectName?.toList,
        name ∈ names) :
    Brings names (enterParameters method index drafts) := by
  induction drafts generalizing index with
  | nil =>
      exact brings_pure _ _
  | cons draft drafts inductionHypothesis =>
      have first := named draft (by simp)
      have rest := inductionHypothesis (index + 1)
        fun other member => named other (List.mem_cons_of_mem _ member)
      have tail :
          ∀ generic : Generic,
            Brings names (do
              let reference ← referToElement draft.type
              let element := Element.parameter method index
              let first : Parameter :=
                { index := index
                  recordedName := draft.recordedName
                  type := reference
                  dimensions := draft.type.dimensions
                  generic := generic
                  annotations :=
                    draft.uses.map (AnnotationUse.attach element) }
              let rest ← enterParameters method (index + 1) drafts
              return first :: rest) :=
        fun generic =>
          ((brings_referToElement draft.type).mono first).bind fun _ =>
            rest.bind fun _ => brings_pure _ _
      rw [enterParameters]
      cases draft.generic with
      | some generic =>
          exact (brings_pure names generic).bind tail
      | none =>
          exact ((brings_rawGeneric draft.type).mono first).bind tail

/-- The parameters that are recorded have brought their names before. -/
theorem brings_recordParameters
    (names : List TypeName)
    (method : MethodId)
    (drafts : List ParameterDraft) :
    Brings names (recordParameters method drafts) := by
  unfold recordParameters
  induction drafts.zipIdx with
  | nil =>
      exact brings_pure _ _
  | cons indexed rest inductionHypothesis =>
      exact (brings_recordUses names _ _).bind fun _ => inductionHypothesis

/-- The last steps of a method bring in nothing. -/
theorem brings_keepMethod
    (names : List TypeName)
    (owner : TypeName)
    (uses : List AnnotationUse)
    (drafts : List ParameterDraft)
    (id : MethodId)
    (method : Method)
    (answer : α) :
    Brings names (do
      modify (·.recordUses uses (.method id))
      recordParameters id drafts
      modify (·.updateNode owner (·.addMethod method))
      return answer) :=
  (brings_recordUses names uses _).bind fun _ =>
    (brings_recordParameters names id drafts).bind fun _ =>
      (brings_amend names owner (.method method)).bind fun _ =>
        brings_pure names answer

/-- The slots of an aligned table are slots of the table, or empty. -/
theorem mem_of_mem_alignTable
    {table : List (List α)}
    {parameters : Nat}
    {slot : List α}
    {item : α}
    (aligned : slot ∈ alignTable table parameters)
    (member : item ∈ slot) :
    slot ∈ table := by
  rcases List.mem_append.mp aligned with blank | kept
  · rw [(List.mem_replicate.mp blank).2] at member
    exact absurd member (by simp)
  · exact List.mem_of_mem_drop kept

/-- A method brings the names that its declaration mentions. -/
theorem brings_enterMethod
    (settings : Settings)
    (owner : TypeName)
    (decl : MethodDecl) :
    Brings decl.mentions (enterMethod settings owner decl) := by
  unfold enterMethod
  cases parsed : MethodDescriptor.parse decl.descriptor with
  | error fault =>
      exact brings_pure _ _
  | ok type =>
      have described :
          ∀ part ∈ type.parameters ++ type.result.toList,
            ∀ name ∈ part.objectName?.toList, name ∈ decl.mentions := by
        intro part member name named
        simp only [MethodDecl.mentions, MethodDescriptor.mentions, parsed,
          List.mem_append]
        refine Or.inl (Or.inr (List.mem_filterMap.mpr ⟨part, member, ?_⟩))
        simpa using named
      have annotated : Brings decl.mentions (takeUses decl.annotations) :=
        brings_takeUses fun use member name named => by
          simp only [MethodDecl.mentions, List.mem_append, List.mem_flatMap]
          exact Or.inl (Or.inl (Or.inl (Or.inr ⟨use, member, named⟩)))
      have tabled :
          Brings decl.mentions
            (takeTable (alignTable decl.parameterAnnotations
              type.parameters.length)) :=
        brings_takeTable fun slot aligned use member name named => by
          simp only [MethodDecl.mentions, List.mem_append, List.mem_flatMap,
            List.mem_flatten]
          exact Or.inl (Or.inl (Or.inr
            ⟨use, ⟨slot, mem_of_mem_alignTable aligned member, member⟩,
              named⟩))
      have signed :
          ∀ formals,
            Brings decl.mentions
              (methodGenerics formals type.parameters.length
                decl.signature) :=
        fun formals =>
          (brings_methodGenerics formals _ decl.signature).mono
            fun name named => List.mem_append_right _ named
      have resulting :
          ∀ generic,
            Brings decl.mentions (methodResult generic type.result) :=
        fun generic =>
          (brings_methodResult generic type.result).mono
            fun name named => by
              obtain ⟨part, member, object⟩ := List.mem_filterMap.mp named
              exact described part (List.mem_append_right _ member) name
                (by simp [object])
      refine annotated.bind fun uses => tabled.bind fun table => ?_
      dsimp only
      split
      · exact brings_pure _ _
      · refine (brings_get _).bind fun store =>
          (signed _).bind fun generics =>
          (resulting generics.result).bind fun result =>
          (brings_get _).bind fun store =>
          Brings.bind ?_ fun parameters =>
            brings_keepMethod _ owner uses _ _ _ _
        refine brings_enterParameters _ 0 fun draft member => ?_
        obtain ⟨⟨part, index⟩, indexed, rfl⟩ := List.mem_map.mp member
        have present : part ∈ type.parameters :=
          (List.mem_zipIdx' indexed).2 ▸ List.getElem_mem _
        exact described part (List.mem_append_left _ present)

/-- A default brings the names in its value, whether or not it is kept. -/
theorem brings_enterDefault
    (owner : TypeName)
    (decl : MethodDecl) :
    Brings decl.mentions (enterDefault owner decl) := by
  unfold enterDefault
  cases given : decl.default with
  | none =>
      exact brings_pure _ _
  | some value =>
      have taken : Brings decl.mentions (takeDefault value) :=
        (brings_takeValue none value).mono fun name named => by
          simp only [MethodDecl.mentions, given, List.mem_append,
            Option.map_some, Option.getD_some]
          exact Or.inl (Or.inl (Or.inl (Or.inl named)))
      exact taken.bind fun value =>
        brings_amend _ owner (.default decl.name value)

end Filing

end TypeAtlas
