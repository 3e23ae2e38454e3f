import TypeAtlas.Proofs.Entering.Malformed
import TypeAtlas.Proofs.Entering.Retention

namespace TypeAtlas

/-!
# What is left without a signature

Where a declaration has no signature, or a malformed one, its supertypes are
taken on by name, its fields have their raw types and its methods the raw types
of their descriptors. Together with what malformed signatures leave in a store,
this says all that becomes of them.
-/

/-! ## Members -/

/-- What a field is if its signature says nothing: of its raw type. -/
structure Field.IsRaw
    (type : Descriptor)
    (field : Field) :
    Prop where
  type : field.type = (Origin.element type).reference
  formal : field.formal = none
  arguments : field.arguments = []

/-- What a method is if its signature says nothing: raw types throughout. -/
structure Method.IsRaw
    (type : MethodDescriptor)
    (method : Method) :
    Prop where
  parameters :
    method.parameters.map (·.generic) = type.parameters.map (·.raw)
  result : method.result = type.result.map (·.raw)
  thrown : method.thrown = []

/-- A field that has no signature without a fault is kept with its raw type. -/
def FieldDecl.FallsBackTo
    (decl : FieldDecl)
    (field : Field) :
    Prop :=
  decl.wellSigned.signature = none →
    ∃ type, Descriptor.parse decl.descriptor = .ok type ∧ field.IsRaw type

/-- So is a method that has no signature without a fault. -/
def MethodDecl.FallsBackTo
    (decl : MethodDecl)
    (method : Method) :
    Prop :=
  decl.wellSigned.signature = none →
    ∃ type,
      MethodDescriptor.parse decl.descriptor = .ok type ∧ method.IsRaw type

theorem Field.Models.fallsBack
    {formals : Formals}
    {decl : FieldDecl}
    {field : Field}
    (models : field.Models formals decl) :
    decl.FallsBackTo field := by
  intro unsigned
  obtain ⟨type, parsed, made⟩ := models
  have nothing :
      (decl.signature.bind fun text =>
        Filing.answerOf (Filing.resolveField formals text)) = none := by
    rcases Signature.absent_or_malformed unsigned with
      absent | ⟨text, fault, signed, faulty⟩
    · rw [absent]
      rfl
    · rw [signed]
      exact Filing.answerOf_resolveField_malformed formals faulty
  have same := made (.type "")
  refine ⟨type, parsed, congrArg Field.type same, ?_, ?_⟩
  · have formal := congrArg Field.formal same
    simpa [Field.onto, FieldDecl.model, nothing] using formal
  · have arguments := congrArg Field.arguments same
    simpa [Field.onto, FieldDecl.model, nothing] using arguments

/-- Of each place, what does not hang on its number. -/
theorem map_zipIdx_fst
    (items : List α)
    (view : α → β) :
    (items.zipIdx.map fun indexed => view indexed.1) = items.map view := by
  calc
    (items.zipIdx.map fun indexed => view indexed.1)
      = (items.zipIdx.map Prod.fst).map view := List.map_map.symm
    _ = items.map view := by rw [List.zipIdx_map_fst]

/-- Parameters that a signature says nothing of have their raw types. -/
theorem Filing.generics_parameterDrafts
    (decl : MethodDecl)
    (types : List Descriptor)
    (table : List (List AnnotationUse)) :
    ((parameterDrafts decl types [] table).zipIdx.map
      fun (draft, index) => draft.model index).map (·.generic) =
        types.map (·.raw) := by
  rw [List.map_map, ← map_zipIdx_fst types]
  refine (map_zipIdx_fst (parameterDrafts decl types [] table)
    fun draft => draft.generic.getD draft.type.raw).trans ?_
  simp [parameterDrafts, Function.comp_def]

theorem Method.Models.fallsBack
    {formals : Formals}
    {decl : MethodDecl}
    {method : Method}
    (models : method.Models formals decl) :
    decl.FallsBackTo method := by
  intro unsigned
  obtain ⟨type, parsed, made⟩ := models
  have nothing :
      Filing.answerOf (Filing.methodGenerics formals type.parameters.length
        decl.signature) = ⟨[], none, []⟩ := by
    rcases Signature.absent_or_malformed unsigned with
      absent | ⟨text, fault, signed, faulty⟩
    · rw [absent]
      rfl
    · rw [signed]
      exact Filing.answerOf_methodGenerics_malformed formals _ faulty
  have same := made (.type "")
  have generics :
      ∀ method : Method,
        (method.onto (.type "")).parameters.map (·.generic) =
          method.parameters.map (·.generic) := by
    intro method
    simp [Method.onto, Parameter.onto, Function.comp_def]
  refine ⟨type, parsed, ?_, ?_, ?_⟩
  · rw [← generics method, same, generics]
    simp only [MethodDecl.model, nothing]
    exact Filing.generics_parameterDrafts decl type.parameters _
  · have result := congrArg Method.result same
    simpa [Method.onto, MethodDecl.model, nothing] using result
  · have thrown := congrArg Method.thrown same
    simpa [Method.onto, MethodDecl.model, nothing] using thrown

/-! ## Supertypes -/

/--
A lineage that takes on a superclass and interfaces by their names: nothing
with arguments, and no type parameters.
-/
structure Lineage.ExtendsRaw
    (superclass : Option TypeName)
    (interfaces : List TypeName)
    (before after : Lineage) :
    Prop where
  parent :
    after.parent = (before.parent <|> superclass.map Reference.toType)
  interfaces :
    after.interfaces =
      addNew Reference.same before.interfaces
        (interfaces.map Reference.toType)
  genericParent : after.genericParent = before.genericParent
  genericInterfaces : after.genericInterfaces = before.genericInterfaces
  formals : after.formals = before.formals

/-- A declaration without a usable signature extends a lineage by names. -/
theorem Lineage.extendsRaw
    {decl : ClassDecl}
    (unsigned : decl.wellSigned.signature = none)
    (superclass : Option TypeName)
    (lineage : Lineage) :
    lineage.ExtendsRaw superclass decl.interfaces
      (lineage.extend superclass decl) := by
  have nothing : decl.generics? = none := by
    unfold ClassDecl.generics?
    rcases Signature.absent_or_malformed unsigned with
      absent | ⟨text, fault, signed, faulty⟩
    · rw [absent]
      rfl
    · rw [signed]
      exact Filing.answerOf_resolveClass_malformed faulty
  constructor <;>
    simp [extend, setParent, addInterfaces, addGenerics, addNew,
      ClassDecl.genericParent?, ClassDecl.genericInterfaces,
      ClassDecl.formals, nothing]

/-! ## Declarations -/

namespace Acceptance

/-- What is made of the parts of a declaration that have no usable signature. -/
structure FallsBack
    (acceptance : Acceptance)
    (node : Node) :
    Prop where
  header :
    acceptance.decl.category ≠ .annotationType →
      acceptance.decl.wellSigned.signature = none →
        (acceptance.before.store.nodeOrBlank
          acceptance.decl.name).lineage.ExtendsRaw
            acceptance.superclass? acceptance.decl.interfaces node.lineage
  fields :
    acceptance.before.store.isVisited acceptance.decl.name = false →
      acceptance.decl.category ≠ .annotationType →
        ∀ isStatic,
          List.Forall₂ FieldDecl.FallsBackTo
            ((acceptance.decl.retainedFields
              acceptance.before.settings).filter (·.isStatic == isStatic))
            (node.fieldsOf isStatic)
  methods :
    acceptance.before.store.isVisited acceptance.decl.name = false →
      List.Forall₂ MethodDecl.FallsBackTo
        (acceptance.decl.retainedMethods acceptance.before.settings)
        node.methods

/-- A visit leaves what its header says, and the members. -/
theorem bare_outcome
    {acceptance : Acceptance}
    {name : TypeName}
    (wellFormed : acceptance.before.store.WellFormed)
    (accepted : acceptance.outcome.1 = some name) :
    ∃ node,
      acceptance.outcome.2.store.visitedNode? name = some node ∧
        node.bare =
          ((acceptance.source.visit.noteOrigin
            acceptance.claimed).updateLineage
              (·.extend acceptance.superclass? acceptance.decl)).bare := by
  have visited :=
    (acceptance.isVisited_outcome name).mpr (Or.inr accepted)
  have headed := node?_headed wellFormed accepted
  obtain ⟨rfl, -, entered⟩ := outcome_eq accepted
  rw [Store.visitedNode?_of_visited visited, entered]
  exact Visit.node?_enterBody
    (Visit.headed_staysOn acceptance.source.visit acceptance.before
      acceptance.decl)
    acceptance.headed acceptance.decl headed

/-- The header adds to the lineage that the type had before, if it had one. -/
theorem lineage_claimed
    (acceptance : Acceptance) :
    (acceptance.source.visit.noteOrigin acceptance.claimed).lineage =
      (acceptance.before.store.nodeOrBlank
        acceptance.decl.name).lineage := by
  have blank :
      (Node.ofCategory acceptance.decl.category).lineage =
        (Node.ofCategory .classType).lineage := by
    cases acceptance.decl.category <;> rfl
  have kept :
      (acceptance.source.visit.noteOrigin acceptance.claimed).lineage =
        acceptance.claimed.lineage := by
    rw [Visit.noteOrigin_eq]
    rfl
  rw [kept, Store.nodeOrBlank]
  cases installed :
      acceptance.before.store.node? acceptance.decl.name with
  | none =>
      simp only [claimed, installed, Option.getD_none]
      exact blank
  | some node =>
      simp only [claimed, installed, Option.getD_some]
      rfl

/-- Without a usable signature, the header takes on names. -/
theorem extendsRaw
    {acceptance : Acceptance}
    {name : TypeName}
    {node : Node}
    (wellFormed : acceptance.before.store.WellFormed)
    (accepted : acceptance.outcome.1 = some name)
    (bare :
      node.bare =
        ((acceptance.source.visit.noteOrigin
          acceptance.claimed).updateLineage
            (·.extend acceptance.superclass? acceptance.decl)).bare)
    (extensible : acceptance.decl.category ≠ .annotationType)
    (unsigned : acceptance.decl.wellSigned.signature = none) :
    (acceptance.before.store.nodeOrBlank
      acceptance.decl.name).lineage.ExtendsRaw
        acceptance.superclass? acceptance.decl.interfaces node.lineage := by
  have kind :
      (acceptance.source.visit.noteOrigin
        acceptance.claimed).isExtensible = true := by
    refine (Amendment.alike_apply (.origin _) _).isExtensible.trans
      ((isExtensible_claimed wellFormed accepted).trans ?_)
    rw [← Bool.not_eq_false]
    exact mt Category.isExtensible_eq_false_iff.mp extensible
  have lineage := congrArg Node.lineage bare
  rw [Node.lineage_bare, Node.lineage_bare,
    Node.lineage_updateLineage kind, lineage_claimed] at lineage
  have taken := Lineage.extendsRaw unsigned acceptance.superclass?
    (acceptance.before.store.nodeOrBlank acceptance.decl.name).lineage
  exact
    { parent := (congrArg Lineage.parent lineage).trans taken.parent
      interfaces :=
        (congrArg Lineage.interfaces lineage).trans taken.interfaces
      genericParent :=
        (congrArg Lineage.genericParent lineage).trans taken.genericParent
      genericInterfaces :=
        (congrArg Lineage.genericInterfaces lineage).trans
          taken.genericInterfaces
      formals := (congrArg Lineage.formals lineage).trans taken.formals }

theorem fallsBack
    (acceptance : Acceptance)
    {name : TypeName}
    (wellFormed : acceptance.before.store.WellFormed)
    (accepted : acceptance.outcome.1 = some name)
    (blank :
      acceptance.before.store.isVisited name = false →
        (acceptance.before.store.nodeOrBlank name).SameElements
          (Node.ofCategory .classType)) :
    ∃ node,
      acceptance.outcome.2.store.visitedNode? name = some node ∧
        acceptance.FallsBack node := by
  obtain ⟨node, installed, bare⟩ := bare_outcome wellFormed accepted
  have retained :
      acceptance.before.store.isVisited name = false →
        node.Retains acceptance.before.settings acceptance.decl := by
    intro unvisited
    obtain ⟨other, same, retains⟩ :=
      acceptance.retains wellFormed accepted unvisited (blank unvisited)
    rw [installed, Option.some.injEq] at same
    exact same ▸ retains
  have header := extendsRaw wellFormed accepted bare
  obtain ⟨rfl, -, -⟩ := outcome_eq accepted
  refine ⟨node, installed, header, fun unvisited extensible isStatic => ?_,
    fun unvisited => ?_⟩
  · exact ((retained unvisited).fields extensible isStatic).imp
      fun _ _ models => models.fallsBack
  · exact (retained unvisited).methods.imp fun _ _ models => models.fallsBack

end Acceptance

namespace Session

/--
A declaration with malformed signatures is entered as if these signatures were
not there: with the same answer and the same problems, and into a store that
has heard of more names at most. What has no usable signature is kept raw.
-/
theorem malformed_signatures_fall_back
    (acts : List Act)
    (decl : ClassDecl)
    (location : Option String)
    (isApplication : Bool) :
    let atlas := (run {} acts).atlas
    let outcome := atlas.enter decl location isApplication
    let other := atlas.enter decl.wellSigned location isApplication
    outcome.1 = other.1 ∧
      outcome.2.problems = other.2.problems ∧
      outcome.2.store.Overhears other.2.store ∧
      (outcome.1 = some decl.name →
        ∃ node,
          outcome.2.store.visitedNode? decl.name = some node ∧
            Acceptance.FallsBack ⟨⟨decl, location, isApplication⟩, atlas⟩
              node) := by
  intro atlas outcome other
  let visit : Visit := { location := location, isApplication := isApplication }
  have wellFormed : atlas.store.WellFormed :=
    (run_evolves {} acts).wellFormed Store.wellFormed_empty
  obtain ⟨answers, -, problems, stores⟩ := visit.accept_echoes atlas decl
  refine ⟨answers, problems, ?_, fun accepted => ?_⟩
  · exact stores.overhears
      ((visit.accept_builds atlas decl).evolves.wellFormed wellFormed)
      ((visit.accept_builds atlas decl.wellSigned).evolves.wellFormed
        wellFormed)
      (visit.accept_grown atlas decl)
      (visit.accept_grown atlas decl.wellSigned)
  · exact Acceptance.fallsBack ⟨⟨decl, location, isApplication⟩, atlas⟩
      wellFormed accepted fun unvisited =>
        (run_populates acts).sameElements unvisited

/-- A class with three signatures, each of which breaks off too early. -/
def torn : ClassDecl :=
  { access := 0x21
    name := "c.Torn"
    superName := some "c.Base"
    interfaces := ["c.Part"]
    signature := some "<T:Lc/List;U:Lc/Bound;"
    fields :=
      [⟨0x2, "box", "Lc/Box;", none, []⟩,
        ⟨0x2, "items", "Lc/List;", some "Lc/List<Lc/Item;", []⟩]
    methods :=
      [⟨0x1, "swap", "(Lc/List;)Lc/Box;", some "(Lc/List<Lc/Gift;>;)",
        [], [], [], none⟩] }

/-- All members are kept. -/
def beforeTorn : List Act :=
  [.configure { keepUnannotated := true }]

-- The names `c.Bound`, `c.Item` and `c.Gift` are heard of in vain, and
-- `c.List` is heard of before `c.Box`.
theorem malformed_signatures_fall_back_torn :
    let atlas := (run {} beforeTorn).atlas
    let outcome := atlas.enter torn none true
    let other := atlas.enter torn.wellSigned none true
    outcome.1 = some torn.name ∧
      torn.wellSigned.signature = none ∧
      outcome.2.store.pending =
        ["c.Torn", "c.Base", "c.Part", "c.List", "c.Bound", "c.Box", "c.Item",
          "c.Gift"] ∧
      other.2.store.pending =
        ["c.Torn", "c.Base", "c.Part", "c.Box", "c.List"] ∧
      outcome.2.store.Overhears other.2.store ∧
      ∃ node,
        outcome.2.store.visitedNode? torn.name = some node ∧
          Acceptance.FallsBack ⟨⟨torn, none, true⟩, atlas⟩ node := by
  obtain ⟨-, -, stores, fallsBack⟩ :=
    malformed_signatures_fall_back beforeTorn torn none true
  have accepted :
      ((run {} beforeTorn).atlas.enter torn none true).1 =
        some torn.name := by
    decide +kernel
  exact ⟨accepted, by decide +kernel, by decide +kernel, by decide +kernel,
    stores, fallsBack accepted⟩

end Session

end TypeAtlas
