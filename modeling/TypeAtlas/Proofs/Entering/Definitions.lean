import TypeAtlas.Proofs.Entering.Acceptance

namespace TypeAtlas

/-!
# Nodes and their definitions

After any number of visits the node of a type is given by the declarations of
that type that were accepted, in order, and by nothing else. The first of them
decides the category and the members, which are the ones it has when it is
entered alone. Each of them adds where it was found and which supertypes it
names: lists grow by what is new, and of superclasses the first one stays.

Declarations of other types come in between and mention the type, as do those
that are passed over; they leave no trace in its node.
-/

/-! ## Accepted declarations -/

namespace Atlas

/-- The declarations of a name that are accepted, in order. -/
def acceptances
    (atlas : Atlas)
    (name : TypeName) :
    List Source → List Acceptance
  | [] => []
  | source :: sources =>
      let acceptance : Acceptance := ⟨source, atlas⟩
      let later := acceptance.outcome.2.acceptances name sources
      if acceptance.outcome.1 = some name then acceptance :: later else later

/-- The last source is entered into what the others left. -/
theorem enterSources_concat
    (atlas : Atlas)
    (sources : List Source)
    (last : Source) :
    atlas.enterSources (sources ++ [last]) =
      (Acceptance.mk last (atlas.enterSources sources)).outcome.2 := by
  simp only [enterSources, List.foldl_append, List.foldl_cons,
    List.foldl_nil]
  rfl

/-- The last source is counted if it was accepted under the name. -/
theorem acceptances_concat
    (atlas : Atlas)
    (name : TypeName)
    (sources : List Source)
    (last : Source) :
    let acceptance : Acceptance := ⟨last, atlas.enterSources sources⟩
    atlas.acceptances name (sources ++ [last]) =
      if acceptance.outcome.1 = some name then
        atlas.acceptances name sources ++ [acceptance]
      else
        atlas.acceptances name sources := by
  induction sources generalizing atlas with
  | nil =>
      rfl
  | cons source sources inductionHypothesis =>
      have later :=
        inductionHypothesis (Acceptance.mk source atlas).outcome.2
      simp only [acceptances, List.cons_append, later]
      have same :
          (Acceptance.mk source atlas).outcome.2.enterSources sources =
            atlas.enterSources (source :: sources) :=
        rfl
      rw [same]
      split <;> split <;> rfl

end Atlas

/-! ## What declarations say -/

/-- The supertypes that accepted declarations give to a type. -/
structure Lineage.Gathers
    (accepted : List Acceptance)
    (lineage : Lineage) :
    Prop where
  parent :
    lineage.parent =
      (accepted.findSome? (·.superclass?)).map Reference.toType
  interfaces :
    lineage.interfaces =
      (accepted.flatMap (·.decl.interfaces)).eraseDups.map Reference.toType
  genericParent :
    lineage.genericParent = accepted.findSome? (·.decl.genericParent?)
  genericInterfaces :
    lineage.genericInterfaces =
      (accepted.flatMap (·.decl.genericInterfaces)).eraseDupsBy Generic.same
  formals :
    lineage.formals =
      (accepted.flatMap (·.decl.formals)).eraseDupsBy sameFormal

/-- Where accepted declarations were found, and the supertypes they give. -/
structure Node.Gathers
    (accepted : List Acceptance)
    (node : Node) :
    Prop where
  locations :
    node.locations = (accepted.filterMap (·.source.location)).eraseDups
  isApplication :
    node.isApplication = accepted.any (·.source.isApplication)
  lineage :
    node.isExtensible = true → node.lineage.Gathers accepted

/-- Two nodes with the same annotations, members and defaults. -/
structure Node.SameMembers
    (node other : Node) :
    Prop where
  annotations : node.annotations = other.annotations
  fields : node.lineage.fields = other.lineage.fields
  staticFields : node.lineage.staticFields = other.lineage.staticFields
  methods : node.methods = other.methods
  defaults : node.defaults = other.defaults

/--
What the node of a type is, from the accepted declarations of the type and the
node that the first of them leaves when it is entered alone.
-/
structure Node.DefinedBy
    (node alone : Node)
    (first : Acceptance)
    (more : List Acceptance) :
    Prop where
  category : node.category = first.decl.category
  members : node.SameMembers alone
  locations :
    node.locations =
      ((first :: more).filterMap (·.source.location)).eraseDups
  isApplication :
    node.isApplication = (first :: more).any (·.source.isApplication)
  lineage :
    first.decl.category ≠ .annotationType →
      node.lineage.Gathers (first :: more)
  unrelated :
    first.decl.category = .annotationType → node.lineage = {}

/-- No declaration leaves an empty lineage. -/
theorem Lineage.gathers_empty :
    ({} : Lineage).Gathers [] :=
  ⟨rfl, rfl, rfl, rfl, rfl⟩

/-- Taking on a declaration is taking it into account. -/
theorem Lineage.Gathers.extend
    {accepted : List Acceptance}
    {lineage : Lineage}
    (gathers : lineage.Gathers accepted)
    (acceptance : Acceptance) :
    (lineage.extend acceptance.superclass? acceptance.decl).Gathers
      (accepted ++ [acceptance]) where
  parent := by
    simp only [Lineage.extend, setParent, addInterfaces, addGenerics,
      gathers.parent, List.findSome?_append, List.findSome?_singleton]
    cases accepted.findSome? (·.superclass?) <;> simp
  interfaces := by
    simp only [Lineage.extend, setParent, addInterfaces, addGenerics,
      gathers.interfaces, List.flatMap_append, List.flatMap_singleton,
      List.eraseDups, eraseDupsBy_append]
    exact (map_addNew (fun _ _ => rfl) _ _).symm
  genericParent := by
    simp only [Lineage.extend, setParent, addInterfaces, addGenerics,
      gathers.genericParent, List.findSome?_append,
      List.findSome?_singleton]
    cases accepted.findSome? (·.decl.genericParent?) <;> simp
  genericInterfaces := by
    simp only [Lineage.extend, setParent, addInterfaces, addGenerics,
      gathers.genericInterfaces, List.flatMap_append,
      List.flatMap_singleton, eraseDupsBy_append]
  formals := by
    simp only [Lineage.extend, setParent, addInterfaces, addGenerics,
      gathers.formals, List.flatMap_append, List.flatMap_singleton,
      eraseDupsBy_append]

namespace Node

/-- No declaration leaves a placeholder. -/
theorem gathers_ofCategory
    (category : Category) :
    (ofCategory category).Gathers [] := by
  refine ⟨rfl, rfl, fun _ => ?_⟩
  rw [lineage_ofCategory]
  exact Lineage.gathers_empty

/-- Taking on a header is taking its declaration into account. -/
theorem Gathers.header
    {accepted : List Acceptance}
    {node : Node}
    (gathers : node.Gathers accepted)
    (acceptance : Acceptance) :
    ((acceptance.source.visit.noteOrigin node).updateLineage
        (·.extend acceptance.superclass? acceptance.decl)).Gathers
      (accepted ++ [acceptance]) := by
  rw [Visit.noteOrigin_eq]
  refine ⟨?_, ?_, fun extensible => ?_⟩
  · rw [locations_updateLineage, gathers.locations, List.filterMap_append,
      List.eraseDups, List.eraseDups, eraseDupsBy_append]
    rfl
  · rw [isApplication_updateLineage, gathers.isApplication]
    simp [Source.visit]
  · rw [isExtensible_updateLineage] at extensible
    rw [lineage_updateLineage extensible]
    exact (gathers.lineage extensible).extend acceptance

/-- The members of a node say nothing about supertypes. -/
theorem Gathers.of_bare
    {accepted : List Acceptance}
    {node other : Node}
    (gathers : node.Gathers accepted)
    (same : other.bare = node.bare) :
    other.Gathers accepted := by
  refine ⟨(congrArg Node.locations same).trans gathers.locations,
    (congrArg Node.isApplication same).trans gathers.isApplication,
    fun extensible => ?_⟩
  have kind : other.bare.isExtensible = node.bare.isExtensible :=
    congrArg Node.isExtensible same
  rw [isExtensible_bare, isExtensible_bare] at kind
  have told := gathers.lineage (kind ▸ extensible)
  have alike : other.bare.lineage = node.bare.lineage :=
    congrArg Node.lineage same
  rw [lineage_bare, lineage_bare, Lineage.mk.injEq] at alike
  obtain ⟨parent, genericParent, interfaces, genericInterfaces, -, -,
    formals⟩ := alike
  exact ⟨parent.trans told.parent, interfaces.trans told.interfaces,
    genericParent.trans told.genericParent,
    genericInterfaces.trans told.genericInterfaces,
    formals.trans told.formals⟩

/-- A header keeps the category. -/
theorem category_header
    (visit : Visit)
    (superclass : Option TypeName)
    (decl : ClassDecl)
    (node : Node) :
    ((visit.noteOrigin node).updateLineage
      (·.extend superclass decl)).category = node.category := by
  rw [category_updateLineage]
  exact (Amendment.alike_apply (.origin visit) node).category

/-- A header brings no members. -/
theorem sameMembers_header
    (visit : Visit)
    (superclass : Option TypeName)
    (decl : ClassDecl)
    (node : Node) :
    ((visit.noteOrigin node).updateLineage
      (·.extend superclass decl)).SameMembers node := by
  rw [Visit.noteOrigin_eq]
  obtain ⟨_, _, _, _, _, body⟩ := node
  cases body <;> exact ⟨rfl, rfl, rfl, rfl, rfl⟩

theorem SameMembers.symm
    {node other : Node}
    (same : node.SameMembers other) :
    other.SameMembers node :=
  ⟨same.annotations.symm, same.fields.symm, same.staticFields.symm,
    same.methods.symm, same.defaults.symm⟩

theorem SameMembers.trans
    {first second third : Node}
    (earlier : first.SameMembers second)
    (later : second.SameMembers third) :
    first.SameMembers third :=
  ⟨earlier.annotations.trans later.annotations,
    earlier.fields.trans later.fields,
    earlier.staticFields.trans later.staticFields,
    earlier.methods.trans later.methods,
    earlier.defaults.trans later.defaults⟩

/-- The superclass says nothing about members. -/
theorem sameMembers_orphan
    (node : Node) :
    node.orphan.SameMembers node := by
  obtain ⟨_, _, _, _, _, body⟩ := node
  cases body <;> exact ⟨rfl, rfl, rfl, rfl, rfl⟩

end Node

/-- A first visit takes its own declaration into account. -/
theorem Acceptance.IsFirst.gathers
    {settings : Settings}
    {name : TypeName}
    {acceptance : Acceptance}
    (first : acceptance.IsFirst settings name) :
    ∃ node,
      acceptance.outcome.2.store.node? name = some node ∧
        node.category = acceptance.decl.category ∧
        node.Gathers [acceptance] := by
  obtain ⟨node, here, bare⟩ := first.bare_eq
  have category := congrArg Node.category bare
  refine ⟨node, here, category.trans ?_, ?_⟩
  · exact Node.category_header acceptance.source.visit
      acceptance.superclass? acceptance.decl _
  · exact ((Node.gathers_ofCategory acceptance.decl.category).header
      acceptance).of_bare bare

/-! ## All visits -/

namespace Store

/-- The node of a visited type is the one it has. -/
theorem visitedNode?_of_visited
    {store : Store}
    {name : TypeName}
    (visited : store.isVisited name = true) :
    store.visitedNode? name = store.node? name := by
  unfold isVisited at visited
  unfold visitedNode? node?
  cases known : store.find? name with
  | none =>
      rfl
  | some entry =>
      have marked : entry.visited = true := by
        simpa [known] using visited
      simp [Entry.visitedNode?, marked]

end Store

namespace Atlas

/--
What an atlas knows of a type: nothing but a placeholder if no declaration of
it was accepted, and otherwise what those that were accepted say.
-/
def Records
    (atlas : Atlas)
    (settings : Settings)
    (name : TypeName) :
    List Acceptance → Prop
  | [] =>
      atlas.store.isVisited name = false ∧
        ∀ node, atlas.store.node? name = some node →
          node = Node.ofCategory .classType
  | first :: more =>
      atlas.store.isVisited name = true ∧
        ∃ alone node,
          (Atlas.enterSources { settings := settings }
            [first.source]).store.visitedNode? name = some alone ∧
            atlas.store.node? name = some node ∧
            node.category = first.decl.category ∧
            node.SameMembers alone ∧
            node.Gathers (first :: more)

end Atlas

namespace Acceptance

/-- A visit that is not accepted as one of the type changes nothing known. -/
theorem records_refused
    {acceptance : Acceptance}
    {settings : Settings}
    {name : TypeName}
    {accepted : List Acceptance}
    (records : acceptance.before.Records settings name accepted)
    (refused : acceptance.outcome.1 ≠ some name) :
    acceptance.outcome.2.Records settings name accepted := by
  have leaves :
      acceptance.before.store.LeavesNode acceptance.outcome.2.store name :=
    Visit.accept_leavesNode refused
  have visited := acceptance.isVisited_outcome name
  simp only [refused, or_false] at visited
  cases accepted with
  | nil =>
      obtain ⟨unvisited, placeholder⟩ := records
      refine ⟨Bool.eq_iff_iff.mpr visited ▸ unvisited, fun node here => ?_⟩
      rcases leaves with same | ⟨-, placed⟩
      · exact placeholder node (same ▸ here)
      · rw [placed] at here
        exact (Option.some.inj here).symm
  | cons first more =>
      obtain ⟨known, alone, node, entered, here, told⟩ := records
      refine ⟨visited.mpr known, alone, node, entered, ?_, told⟩
      rcases leaves with same | ⟨absent, -⟩
      · rw [same, here]
      · rw [absent] at here
        exact absurd here (by simp)

/-- The first accepted declaration is all that is known of its type. -/
theorem records_first
    {acceptance : Acceptance}
    {settings : Settings}
    {name : TypeName}
    (first : acceptance.IsFirst settings name) :
    acceptance.outcome.2.Records settings name [acceptance] := by
  have alone := isFirst_alone settings first.accepted
  have visited :=
    (acceptance.isVisited_outcome name).mpr (Or.inr first.accepted)
  have orphans := first.orphan?_eq alone
  obtain ⟨node, here, category, gathers⟩ := first.gathers
  obtain ⟨single, alsoHere, -⟩ := alone.gathers
  have same : node.orphan = single.orphan := by
    simpa [Store.orphan?, here, alsoHere] using orphans
  have visitedAlone :=
    (isVisited_outcome ⟨acceptance.source, { settings := settings }⟩
      name).mpr (Or.inr alone.accepted)
  refine ⟨visited, single, node,
    (Store.visitedNode?_of_visited visitedAlone).trans alsoHere, here,
    category, ?_, gathers⟩
  have members := node.sameMembers_orphan
  rw [same] at members
  exact members.symm.trans single.sameMembers_orphan

/-- A further accepted declaration is known behind the others. -/
theorem records_further
    {acceptance first : Acceptance}
    {settings : Settings}
    {name : TypeName}
    {more : List Acceptance}
    (wellFormed : acceptance.before.store.WellFormed)
    (records : acceptance.before.Records settings name (first :: more))
    (accepted : acceptance.outcome.1 = some name) :
    acceptance.outcome.2.Records settings name
      (first :: (more ++ [acceptance])) := by
  obtain ⟨visited, alone, node, entered, here, category, members, gathers⟩ :=
    records
  have after := node?_further wellFormed accepted visited here
  refine ⟨(acceptance.isVisited_outcome name).mpr (Or.inl visited),
    alone, _, entered, after, ?_, ?_, gathers.header acceptance⟩
  · exact (Node.category_header _ _ _ node).trans category
  · exact (Node.sameMembers_header _ _ _ node).trans members

/-- One more declaration is among those that are known, if it is accepted. -/
theorem records_outcome
    {acceptance : Acceptance}
    {settings : Settings}
    {name : TypeName}
    {accepted : List Acceptance}
    (wellFormed : acceptance.before.store.WellFormed)
    (ruled : acceptance.before.settings = settings)
    (records : acceptance.before.Records settings name accepted) :
    acceptance.outcome.2.Records settings name
      (if acceptance.outcome.1 = some name then
        accepted ++ [acceptance]
      else
        accepted) := by
  split
  · next taken =>
      -- Without an earlier declaration there is a placeholder at most.
      cases accepted with
      | nil =>
          exact records_first
            { accepted := taken
              settings := ruled
              wellFormed := wellFormed
              unvisited := records.1
              placeholder := records.2 }
      | cons first more =>
          exact records_further wellFormed records taken
  · next refused =>
      exact records_refused records refused

end Acceptance

namespace Atlas

/-- Entering sources keeps the settings. -/
theorem enterSources_settings
    (sources : List Source)
    (atlas : Atlas) :
    (atlas.enterSources sources).settings = atlas.settings := by
  induction sources generalizing atlas with
  | nil =>
      rfl
  | cons source sources inductionHypothesis =>
      exact (inductionHypothesis _).trans
        (Visit.settings_accept source.visit atlas source.decl)

/-- At every moment an atlas knows of a type what its declarations say. -/
theorem enterSources_records
    (settings : Settings)
    (name : TypeName)
    (sources : List Source) :
    (Atlas.enterSources { settings := settings } sources).Records settings
      name (Atlas.acceptances { settings := settings } name sources) := by
  induction sources using List.reverseRecOn with
  | nil =>
      exact ⟨rfl, fun node here => absurd here
        (by simp [Atlas.enterSources, Store.node?, Store.find?])⟩
  | append_singleton sources last inductionHypothesis =>
      let acceptance : Acceptance :=
        ⟨last, Atlas.enterSources { settings := settings } sources⟩
      have wellFormed : acceptance.before.store.WellFormed :=
        (enterSources_evolves sources _).wellFormed Store.wellFormed_empty
      rw [enterSources_concat, acceptances_concat]
      exact Acceptance.records_outcome wellFormed
        (enterSources_settings sources _) inductionHypothesis

/--
The node of a visited type is a function of the declarations of that type that
were accepted, whatever else was entered before, between and after them.
-/
theorem enterSources_definedBy
    (settings : Settings)
    (sources : List Source)
    {name : TypeName}
    (visited :
      (Atlas.enterSources { settings := settings }
        sources).store.isVisited name = true) :
    ∃ first more alone node,
      Atlas.acceptances { settings := settings } name sources =
          first :: more ∧
        (Atlas.enterSources { settings := settings }
          [first.source]).store.visitedNode? name = some alone ∧
        (Atlas.enterSources { settings := settings }
          sources).store.visitedNode? name = some node ∧
        node.DefinedBy alone first more := by
  have records := enterSources_records settings name sources
  have wellFormed :
      (Atlas.enterSources { settings := settings } sources).store.WellFormed :=
    (enterSources_evolves sources _).wellFormed Store.wellFormed_empty
  cases known : Atlas.acceptances { settings := settings } name sources with
  | nil =>
      rw [known] at records
      rw [records.1] at visited
      exact absurd visited (by simp)
  | cons first more =>
      rw [known] at records
      obtain ⟨-, alone, node, entered, here, category, members, gathers⟩ :=
        records
      have kind := wellFormed.isExtensible_node here
      rw [category] at kind
      have annotates :
          node.isExtensible = false ↔
            first.decl.category = .annotationType := by
        rw [kind, Category.isExtensible_eq_false_iff]
      refine ⟨first, more, alone, node, rfl, entered, ?_, ?_⟩
      · rw [Store.visitedNode?_of_visited visited, here]
      · exact
          { category := category
            members := members
            locations := gathers.locations
            isApplication := gathers.isApplication
            lineage := fun other =>
              gathers.lineage (Bool.not_eq_false _ ▸ mt annotates.mp other)
            unrelated := fun same =>
              Node.lineage_of_annotationType (annotates.mpr same) }

/-- A class that two jars declare, in one of them below its own subclass. -/
def declaredTwice : List Source :=
  [ { decl :=
      { access := 0x21
        name := "A"
        superName := some "B" }
      location := some "one.jar" },
    { decl :=
      { access := 0x21
        name := "B"
        superName := some "A"
        interfaces := ["I"]
        fields :=
          [{ access := 1
             name := "next"
             descriptor := "LA;"
             annotations := [⟨"LMark;", true, []⟩] }] }
      location := some "one.jar" },
    { decl :=
      { access := 0x21
        name := "B"
        superName := some "C"
        interfaces := ["J", "I"]
        fields :=
          [{ access := 1
             name := "last"
             descriptor := "LA;"
             annotations := [⟨"LMark;", true, []⟩] }] }
      location := some "two.jar"
      isApplication := false }]

/-- The first declaration gives the members, the second one the superclass. -/
theorem enterSources_definedBy_declaredTwice :
    (Atlas.enterSources {} declaredTwice).store.isVisited "B" = true ∧
      ∃ first more alone node,
        Atlas.acceptances {} "B" declaredTwice = first :: more ∧
          (Atlas.enterSources {}
            [first.source]).store.visitedNode? "B" = some alone ∧
          (Atlas.enterSources {}
            declaredTwice).store.visitedNode? "B" = some node ∧
          node.DefinedBy alone first more :=
  have visited :
      (Atlas.enterSources {} declaredTwice).store.isVisited "B" = true := by
    decide +kernel
  ⟨visited, enterSources_definedBy {} declaredTwice visited⟩

example :
    ((Atlas.enterSources {} declaredTwice).store.node? "B").map
        (fun node => (node.lineage.parent, node.lineage.interfaces,
          node.lineage.fields.map (·.name), node.locations)) =
      some (some (Reference.toType "C"),
        ["I", "J"].map Reference.toType, ["next"], ["one.jar", "two.jar"]) := by
  decide +kernel

end Atlas

end TypeAtlas
