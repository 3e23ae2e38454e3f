import TypeAtlas.Proofs.Entering.Naming
import TypeAtlas.Proofs.Entering.Referring

namespace TypeAtlas

/-!
# What signatures and descriptors refer to

All types that the stack machine behind signatures holds are class types that
the signature mentions, or bounds of type parameters of the declaring type. The
machine hands them around and adds no others. Where there is no signature, the
types come from descriptors.
-/

/-! ## Type uses -/

/-- All types in a type use are admitted. -/
def Generic.Within
    (admits : Reference → Prop)
    (generic : Generic) :
    Prop :=
  ∀ reference ∈ generic.references, admits reference

namespace Generic

variable {admits : Reference → Prop} {generic : Generic}

/--
A type is within what is admitted if its own class is and its arguments are.
-/
theorem within_iff :
    generic.Within admits ↔
      (∀ reference ∈ generic.type, admits reference) ∧
        ∀ argument ∈ generic.arguments, argument.Within admits := by
  constructor
  · exact fun within =>
      ⟨fun reference type => within reference (mem_references.mpr (Or.inl type)),
        fun argument member reference inside => within reference
          (mem_references.mpr (Or.inr ⟨argument, member, inside⟩))⟩
  · rintro ⟨type, arguments⟩ reference member
    rcases mem_references.mp member with own | ⟨argument, among, inside⟩
    · exact type reference own
    · exact arguments argument among reference inside

/-- A reference that is admitted makes a type that is within. -/
theorem within_ofReference
    {reference : Reference}
    (admitted : admits reference)
    (dimensions : Nat) :
    ((ofReference reference).withDimensions dimensions).Within admits :=
  within_iff.mpr ⟨by simpa [ofReference, withDimensions] using admitted,
    by simp [ofReference, withDimensions]⟩

/-- Array dimensions do not refer to anything. -/
theorem Within.withDimensions
    (within : generic.Within admits)
    (dimensions : Nat) :
    (generic.withDimensions dimensions).Within admits := by
  obtain ⟨type, arguments⟩ := within_iff.mp within
  exact within_iff.mpr ⟨type, arguments⟩

/-- A variable used refers to what its declaration refers to. -/
theorem Within.useSite
    (within : generic.Within admits) :
    generic.useSite.Within admits :=
  within_iff.mpr ⟨(within_iff.mp within).1, by simp [Generic.useSite]⟩

/-- An argument that is within can be added. -/
theorem Within.addArgument
    (within : generic.Within admits)
    {argument : Generic}
    (added : argument.Within admits) :
    (generic.addArgument argument).Within admits := by
  obtain ⟨type, arguments⟩ := within_iff.mp within
  refine within_iff.mpr ⟨type, fun other member => ?_⟩
  rcases List.mem_append.mp member with old | new
  · exact arguments other old
  · rw [List.mem_singleton.mp new]
    exact added

/-- A formal that takes over a bound refers to what the bound refers to. -/
theorem Within.bind
    (within : generic.Within admits)
    {bound : Generic}
    (boundWithin : bound.Within admits) :
    (generic.bind bound).Within admits := by
  unfold Generic.bind
  split
  · exact within
  · obtain ⟨type, arguments⟩ := within_iff.mp boundWithin
    exact within_iff.mpr ⟨type, arguments⟩

end Generic

namespace Formals

/-- All types in type parameters are admitted. -/
def Within
    (admits : Reference → Prop)
    (formals : Formals) :
    Prop :=
  ∀ formal ∈ formals, formal.2.Within admits

variable {admits : Reference → Prop} {formals : Formals}

/-- What is found among formals that are within is within itself. -/
theorem Within.find?
    (within : formals.Within admits)
    {name : String}
    {generic : Generic}
    (found : formals.find? name = some generic) :
    generic.Within admits := by
  obtain ⟨front, _, rfl, -⟩ := List.lookup_eq_some_iff.mp found
  exact within (name, generic) (by simp)

/-- A formal that is within can be added to others. -/
theorem Within.insertNew
    (within : formals.Within admits)
    (name : String)
    {generic : Generic}
    (added : generic.Within admits) :
    (formals.insertNew name generic).Within admits := by
  unfold Formals.insertNew
  split
  · exact within
  · intro formal member
    rcases List.mem_append.mp member with old | new
    · exact within formal old
    · rw [List.mem_singleton.mp new]
      exact added

/-- A bound that is within can be given to a formal. -/
theorem Within.bind
    (within : formals.Within admits)
    (name : String)
    {bound : Generic}
    (boundWithin : bound.Within admits) :
    (formals.bind name bound).Within admits := by
  intro formal member
  obtain ⟨⟨key, generic⟩, present, rfl⟩ := List.mem_map.mp member
  dsimp only
  split
  · exact Generic.Within.bind (within _ present) boundWithin
  · exact within _ present

end Formals

/-! ## The machine -/

namespace Resolver

/-- All types that the machine holds are admitted. -/
structure Within
    (admits : Reference → Prop)
    (resolver : Resolver) :
    Prop where
  inherited : resolver.inherited.Within admits
  formals : resolver.formals.Within admits
  stack : ∀ generic, .type generic ∈ resolver.stack → generic.Within admits
  superclass : ∀ generic ∈ resolver.superclass, generic.Within admits
  interfaces : ∀ generic ∈ resolver.interfaces, generic.Within admits
  parameters :
    ∀ slot ∈ resolver.parameters, ∀ generic ∈ slot, generic.Within admits
  result : ∀ generic ∈ resolver.result, generic.Within admits
  thrown : ∀ generic ∈ resolver.thrown, generic.Within admits
  field : ∀ generic ∈ resolver.field, generic.Within admits

variable {admits : Reference → Prop} {resolver : Resolver}

/-- A complete type finds its place without new references. -/
theorem Within.place
    (within : resolver.Within admits)
    {generic : Generic}
    (placed : generic.Within admits) :
    (resolver.place generic).Within admits := by
  have behind :
      ∀ {others : List Generic},
        (∀ other ∈ others, other.Within admits) →
          ∀ other ∈ others ++ [generic], other.Within admits := by
    intro others known other member
    rcases List.mem_append.mp member with old | new
    · exact known other old
    · rw [List.mem_singleton.mp new]
      exact placed
  unfold Resolver.place
  split
  · exact within
  · split
    · exact { within with formals := within.formals.bind _ placed }
    · exact within
  · exact { within with superclass := by simpa using placed }
  · exact { within with interfaces := behind within.interfaces }
  · split
    · exact within
    · refine { within with parameters := fun slot member => ?_ }
      rcases List.mem_append.mp member with old | new
      · exact within.parameters slot (List.dropLast_subset _ old)
      · rw [List.mem_singleton.mp new]
        simpa using placed
  · exact { within with result := by simpa using placed }
  · exact { within with thrown := behind within.thrown }
  · exact { within with field := by simpa using placed }

/-- So does a type that is attached to the class type around it. -/
theorem Within.attach
    (within : resolver.Within admits)
    {generic : Generic}
    (complete : generic.Within admits) :
    (resolver.attach generic).Within admits := by
  unfold Resolver.attach
  split
  · next parent rest shape =>
      refine { within with stack := fun other member => ?_ }
      rcases List.mem_cons.mp member with same | deeper
      · rw [Frame.type.inj same]
        exact (within.stack parent (by simp [shape])).addArgument complete
      · exact within.stack other (by simp [shape, deeper])
  · exact within
  · exact within.place complete

/-- A variable that is looked up refers to nothing that the formals do not. -/
theorem Within.lookupFormal
    (within : resolver.Within admits)
    (name : String) :
    (resolver.lookupFormal name).Within admits := by
  unfold Resolver.lookupFormal
  split
  · next formal found =>
      cases own : resolver.formals.find? name with
      | some generic =>
          have same : generic = formal := by
            simpa [own] using found
          exact (within.formals.find? (same ▸ own)).useSite
      | none =>
          have inherited : resolver.inherited.find? name = some formal := by
            simpa [own] using found
          exact (within.inherited.find? inherited).useSite
  · exact Generic.within_iff.mpr
      ⟨by simp [Generic.ofFormal], by simp [Generic.ofFormal]⟩

/-- An event adds a class type that it mentions at most. -/
theorem Within.step
    (within : resolver.Within admits)
    {names : List TypeName}
    (named : List.Forall₂ Frame.Named resolver.stack names)
    (event : Signature.Event)
    {events : List Signature.Event}
    (admitted :
      ∀ name ∈ Signature.mentions names (event :: events),
        (name ≠ TypeName.root → name ∈ (resolver.step event).store.names) →
          admits (Reference.toType name)) :
    (resolver.step event).Within admits := by
  cases event with
  | classType name =>
      simp only [Resolver.step] at admitted ⊢
      split
      · next isRoot =>
          refine { within with stack := fun generic member => ?_ }
          exact within.stack generic (by simpa using member)
      · next tracked =>
          have reference : admits (Reference.toType name) := by
            refine admitted name (by simp [Signature.mentions]) fun _ => ?_
            rw [if_neg tracked]
            exact Store.mem_names_mention.mpr (Or.inr ⟨rfl, tracked⟩)
          refine { within with stack := fun generic member => ?_ }
          rcases List.mem_cons.mp member with same | deeper
          · rw [Frame.type.inj same]
            exact Generic.within_ofReference reference _
          · exact within.stack generic deeper
  | nested name =>
      simp only [Resolver.step] at admitted ⊢
      split
      · next outer rest shape =>
          rw [shape] at named
          cases named with
          | @cons _ outerName _ others first tail =>
              have outerNamed : outer.typeName? = some outerName := first
              simp only [shape, outerNamed] at admitted ⊢
              have reference :
                  admits (Reference.toType (outerName ++ "$" ++ name)) := by
                refine admitted _ (by simp [Signature.mentions])
                  fun tracked => ?_
                exact Store.mem_names_mention.mpr (Or.inr ⟨rfl, tracked⟩)
              refine { within with stack := fun generic member => ?_ }
              rcases List.mem_cons.mp member with same | deeper
              · rw [Frame.type.inj same]
                exact Generic.within_iff.mpr
                  ⟨by simpa [Generic.rebind] using reference,
                    by simp [Generic.rebind]⟩
              · exact within.stack generic (by simp [shape, deeper])
      · exact within
  | close =>
      simp only [Resolver.step]
      split
      · next generic rest shape =>
          have lower : Within admits { resolver with stack := rest } :=
            { within with
              stack := fun other member =>
                within.stack other (by simp [shape, member]) }
          exact lower.attach (within.stack generic (by simp [shape]))
      · next rest shape =>
          exact
            { within with
              stack := fun other member =>
                within.stack other (by simp [shape, member]) }
      · exact within
  | typeVariable name =>
      have reset : Within admits { resolver with dimensions := 0 } :=
        { within with }
      exact reset.attach ((within.lookupFormal name).withDimensions _)
  | formal name =>
      refine { within with formals := within.formals.insertNew name ?_ }
      exact Generic.within_iff.mpr
        ⟨by simp [Generic.ofFormal], by simp [Generic.ofFormal]⟩
  | parameter =>
      refine { within with parameters := fun slot member => ?_ }
      rcases List.mem_append.mp member with old | new
      · exact within.parameters slot old
      · rw [List.mem_singleton.mp new]
        simp
  | anyArgument | argument _ =>
      exact within
  | classBound | interfaceBound | superclass | interface | result | thrown
  | base _ | array =>
      exact { within with }

/--
A machine stays within what is admitted over a whole signature, if the types
that it mentions are admitted.
-/
theorem Within.foldl_step
    (within : resolver.Within admits)
    {names : List TypeName}
    (named : List.Forall₂ Frame.Named resolver.stack names)
    (events : List Signature.Event)
    (admitted :
      ∀ name ∈ Signature.mentions names events,
        (name ≠ TypeName.root →
            name ∈ (events.foldl Resolver.step resolver).store.names) →
          admits (Reference.toType name)) :
    (events.foldl Resolver.step resolver).Within admits := by
  induction events generalizing resolver names with
  | nil =>
      exact within
  | cons event events inductionHypothesis =>
      obtain ⟨after, still, subset, -⟩ := step_named named event events
      have grown := (gains_foldl_step still events).grown
      have stepped : (resolver.step event).Within admits :=
        within.step named event fun name member known =>
          admitted name member fun tracked => grown.mem_names (known tracked)
      exact inductionHypothesis stepped still fun name member =>
        admitted name (subset name member)

end Resolver

/-! ## Steps -/

/-- Formals within what is admitted are within anything wider. -/
theorem Formals.Within.mono
    {admits more : Reference → Prop}
    {formals : Formals}
    (within : formals.Within admits)
    (subset : ∀ reference, admits reference → more reference) :
    formals.Within more :=
  fun formal member reference inside =>
    subset reference (within formal member reference inside)

namespace Resolver

variable {origins : List Origin}

/-- A machine that starts with nothing but inherited formals. -/
structure Fresh (resolver : Resolver) : Prop where
  formals : resolver.formals = []
  stack : resolver.stack = []
  superclass : resolver.superclass = none
  interfaces : resolver.interfaces = []
  parameters : resolver.parameters = []
  result : resolver.result = none
  thrown : resolver.thrown = []
  field : resolver.field = none

/-- A machine that has read nothing yet holds what it inherits alone. -/
theorem Fresh.within
    {admits : Reference → Prop}
    {resolver : Resolver}
    (fresh : resolver.Fresh)
    (inherited : resolver.inherited.Within admits) :
    resolver.Within admits where
  inherited := inherited
  formals := by simp [fresh.formals, Formals.Within]
  stack := by simp [fresh.stack]
  superclass := by simp [fresh.superclass]
  interfaces := by simp [fresh.interfaces]
  parameters := by simp [fresh.parameters]
  result := by simp [fresh.result]
  thrown := by simp [fresh.thrown]
  field := by simp [fresh.field]

/-- A signature leads to class types that it mentions, and to bounds. -/
theorem run_within
    (start : Resolver)
    (fresh : start.Fresh)
    (inherited : start.inherited.Within (start.store.Admits origins))
    {trace : Signature.Trace}
    (listed :
      ∀ name ∈ Signature.mentions [] trace.events,
        .signature name ∈ origins) :
    ∀ final ∈ (start.run trace).2,
      final.Within ((start.run trace).1.Admits origins) := by
  intro final ended
  have grown := (gains_run start fresh.stack trace).grown
  have left :
      (start.run trace).1 = (trace.events.foldl Resolver.step start).store := by
    unfold Resolver.run
    split <;> rfl
  have same : final = trace.events.foldl Resolver.step start := by
    unfold Resolver.run at ended
    split at ended
    · exact (Option.some.inj ended).symm
    · simp at ended
  have begun : start.Within ((start.run trace).1.Admits origins) :=
    fresh.within (inherited.mono fun reference admits =>
      ⟨fun tracked => grown.mem_names (admits.1 tracked), admits.2⟩)
  rw [same]
  refine begun.foldl_step (by rw [fresh.stack]; exact .nil) trace.events
    fun name member known => ?_
  refine ⟨fun tracked => ?_, .signature name, listed name member, rfl⟩
  rw [left]
  exact known ((Reference.tracked_toType name).mp tracked)

end Resolver

/-- All types in what a method signature says are admitted. -/
structure MethodGenerics.Within
    (admits : Reference → Prop)
    (generics : MethodGenerics) :
    Prop where
  parameters :
    ∀ slot ∈ generics.parameters, ∀ generic ∈ slot, generic.Within admits
  result : ∀ generic ∈ generics.result, generic.Within admits
  thrown : ∀ generic ∈ generics.thrown, generic.Within admits

/-- A signature that an origin stands for has its mentions among the origins. -/
theorem Signature.mem_origins
    {origins : List Origin}
    {trace : String → Signature.Trace}
    {signature : String}
    (listed :
      ∀ origin ∈ Signature.origins trace (some signature), origin ∈ origins) :
    ∀ name ∈ Signature.mentions [] (trace signature).events,
      .signature name ∈ origins :=
  fun name member => listed _ (List.mem_map.mpr ⟨name, member, rfl⟩)

namespace Filing

variable {origins : List Origin} {store : Store}

/-- Whatever a class signature resolves to comes from its origins. -/
theorem resolveClass_reads
    {signature : String}
    (listed :
      ∀ origin ∈ Signature.origins Signature.traceClass (some signature),
        origin ∈ origins) :
    ReadsAt store (resolveClass signature) fun after resolved =>
      ∀ generics ∈ resolved,
        (∀ generic ∈ generics.superclass,
          generic.Within (after.Admits origins)) ∧
          (∀ generic ∈ generics.interfaces,
            generic.Within (after.Admits origins)) ∧
          generics.formals.Within (after.Admits origins) := by
  obtain ⟨_, hints, noted⟩ := resolveClass_mentioning signature
  refine ⟨hints, congrArg Prod.snd (noted store), ?_⟩
  intro generics resolved
  obtain ⟨final, ended, rfl⟩ := Option.map_eq_some_iff.mp resolved
  have within :=
    Resolver.run_within { store := store }
      ⟨rfl, rfl, rfl, rfl, rfl, rfl, rfl, rfl⟩
      (by simp [Formals.Within]) (Signature.mem_origins listed) final ended
  exact ⟨within.superclass, within.interfaces, within.formals⟩

/-- Whatever a field signature resolves to comes from its origins. -/
theorem resolveField_reads
    {formals : Formals}
    (inherited : formals.Within (store.Admits origins))
    {signature : String}
    (listed :
      ∀ origin ∈ Signature.origins Signature.traceField (some signature),
        origin ∈ origins) :
    ReadsAt store (resolveField formals signature) fun after resolved =>
      ∀ generic ∈ resolved, generic.Within (after.Admits origins) := by
  obtain ⟨_, hints, noted⟩ := resolveField_mentioning formals signature
  refine ⟨hints, congrArg Prod.snd (noted store), ?_⟩
  intro generic resolved
  obtain ⟨final, ended, field⟩ := Option.bind_eq_some_iff.mp resolved
  have within :=
    Resolver.run_within
      { store := store, inherited := formals, position := .field }
      ⟨rfl, rfl, rfl, rfl, rfl, rfl, rfl, rfl⟩
      inherited (Signature.mem_origins listed) final ended
  exact within.field generic field

/-- Whatever a method signature resolves to comes from its origins. -/
theorem resolveMethod_reads
    {formals : Formals}
    (inherited : formals.Within (store.Admits origins))
    {signature : String}
    (listed :
      ∀ origin ∈ Signature.origins Signature.traceMethod (some signature),
        origin ∈ origins) :
    ReadsAt store (resolveMethod formals signature) fun after resolved =>
      ∀ generics ∈ resolved, generics.Within (after.Admits origins) := by
  obtain ⟨_, hints, noted⟩ := resolveMethod_mentioning formals signature
  refine ⟨hints, congrArg Prod.snd (noted store), ?_⟩
  intro generics resolved
  obtain ⟨final, ended, rfl⟩ := Option.map_eq_some_iff.mp resolved
  have within :=
    Resolver.run_within { store := store, inherited := formals }
      ⟨rfl, rfl, rfl, rfl, rfl, rfl, rfl, rfl⟩
      inherited (Signature.mem_origins listed) final ended
  exact ⟨within.parameters, within.result, within.thrown⟩

/-- A signature that does not fit the descriptor says less. -/
theorem methodGenerics_reads
    {formals : Formals}
    (inherited : formals.Within (store.Admits origins))
    (parameters : Nat)
    {signature : Option String}
    (listed :
      ∀ origin ∈ Signature.origins Signature.traceMethod signature,
        origin ∈ origins) :
    ReadsAt store (methodGenerics formals parameters signature)
      fun after generics => generics.Within (after.Admits origins) := by
  have nothing :
      ∀ after : Store,
        MethodGenerics.Within (after.Admits origins) ⟨[], none, []⟩ :=
    fun _ => ⟨by simp, by simp, by simp⟩
  cases signature with
  | none =>
      exact readsAt_pure (nothing _)
  | some text =>
      refine (resolveMethod_reads inherited listed).bind
        fun hints resolved within => ?_
      cases resolved with
      | none =>
          exact readsAt_pure (nothing _)
      | some generics =>
          have said := within generics rfl
          dsimp only
          split
          · exact readsAt_pure said
          · exact readsAt_pure { said with parameters := by simp }

/-! ## Descriptors -/

/-- The type of a descriptor comes from its origin. -/
theorem rawGeneric_reads
    {type : Descriptor}
    (listed : .element type ∈ origins) :
    ReadsAt store (rawGeneric type) fun after generic =>
      generic.Within (after.Admits origins) :=
  (referToElement_reads listed).bind fun _ _ admitted =>
    readsAt_pure (Generic.within_ofReference admitted _)

/-- The result of a method comes from its signature, or else its descriptor. -/
theorem methodResult_reads
    {generic : Option Generic}
    (within : ∀ known ∈ generic, known.Within (store.Admits origins))
    {raw : Option Descriptor}
    (listed : ∀ type ∈ raw, .element type ∈ origins) :
    ReadsAt store (methodResult generic raw) fun after result =>
      ∀ known ∈ result, known.Within (after.Admits origins) := by
  unfold methodResult
  split
  · exact readsAt_pure within
  · next type =>
      refine (rawGeneric_reads (listed type rfl)).bind
        fun hints known admitted => readsAt_pure ?_
      simpa using admitted
  · exact readsAt_pure (by simp)

/-- Parameters refer to what is admitted, and have their drafts' annotations. -/
def parametersFit
    (origins : List Origin)
    (method : MethodId)
    (index : Nat)
    (drafts : List ParameterDraft)
    (store : Store)
    (parameters : List Parameter) :
    Prop :=
  (∀ parameter ∈ parameters, ∀ reference ∈ parameter.references,
    store.Admits origins reference) ∧
    parameters.map (·.annotations) =
      (drafts.zipIdx index).map fun (draft, place) =>
        draft.uses.map (AnnotationUse.attach (.parameter method place))

/-- The parameters that are entered fit their drafts, and come from origins. -/
theorem enterParameters_reads
    (method : MethodId)
    (index : Nat)
    {drafts : List ParameterDraft}
    (listed : ∀ draft ∈ drafts, .element draft.type ∈ origins)
    (within :
      ∀ draft ∈ drafts, ∀ generic ∈ draft.generic,
        generic.Within (store.Admits origins))
    (taken :
      ∀ draft ∈ drafts, ∀ use ∈ draft.uses,
        use.Taken (store.Admits origins)) :
    ReadsAt store (enterParameters method index drafts)
      (parametersFit origins method index drafts) := by
  induction drafts generalizing store index with
  | nil =>
      exact readsAt_pure ⟨by simp, by simp⟩
  | cons draft drafts inductionHypothesis =>
      have tail :
          ∀ early generic,
            generic.Within
                ((store.replay (mentions early)).Admits origins) →
              ReadsAt (store.replay (mentions early)) (do
                let reference ← referToElement draft.type
                let element := Element.parameter method index
                let first : Parameter :=
                  { index := index
                    recordedName := draft.recordedName
                    type := reference
                    dimensions := draft.type.dimensions
                    generic := generic
                    annotations :=
                      draft.uses.map (AnnotationUse.attach element) }
                let rest ← enterParameters method (index + 1) drafts
                return first :: rest)
                (parametersFit origins method index (draft :: drafts)) := by
        intro early generic admitted
        refine (referToElement_reads (listed draft (by simp))).bind
          fun late reference referred => ?_
        refine (inductionHypothesis (index + 1) ?_ ?_ ?_).bind
          fun last parameters rest => readsAt_pure ⟨?_, ?_⟩
        · exact fun other member =>
            listed other (List.mem_cons_of_mem _ member)
        · intro other member known given reference inside
          have before :=
            within other (List.mem_cons_of_mem _ member) known given
          exact ((before reference inside).replay _).replay _
        · intro other member use used
          have before := taken other (List.mem_cons_of_mem _ member) use used
          exact before.mono fun _ admits => (admits.replay _).replay _
        · intro parameter member known inside
          rcases List.mem_cons.mp member with rfl | later
          · simp only [Parameter.references, List.mem_cons, List.mem_append,
              List.mem_flatMap, List.mem_map] at inside
            rcases inside with rfl | typed | ⟨_, ⟨use, used, rfl⟩, inUse⟩
            · exact referred.replay _
            · exact ((admitted known typed).replay _).replay _
            · rw [AnnotationUse.references_attach] at inUse
              have before := taken draft (by simp) use used
              exact
                (((before.references known inUse).replay _).replay _).replay _
          · exact rest.1 parameter later known inside
        · rw [List.map_cons, rest.2, List.zipIdx_cons, List.map_cons]
      rw [enterParameters]
      cases given : draft.generic with
      | some generic =>
          have known :
              ReadsAt store (pure generic) fun after generic =>
                generic.Within (after.Admits origins) :=
            readsAt_pure (within draft (by simp) generic given)
          exact known.bind tail
      | none =>
          exact (rawGeneric_reads (listed draft (by simp))).bind tail

end Filing

end TypeAtlas
