import TypeAtlas.Proofs.Graph.Lineage

namespace TypeAtlas

/-!
# Supertypes and the references back

Every supertype of a node calls for a reference back: a superclass for one to a
subtype, an interface for one to a subtype or to an implementer, depending on
the category of the node. An entry keeps exactly the references that are called
for, and building on a store keeps it so.

Only visited types have supertypes, so that a placeholder can still change its
category without leaving a reference of the wrong kind behind.
-/

/-! ## What a node calls for -/

/-- The references back a node calls for, with the names they are kept under. -/
def linkMarks
    (child : TypeName) :
    Option Node → List (TypeName × Mark)
  | none => []
  | some node =>
      node.lineage.parent.toList.map
          (fun parent => (parent.name, .subType child)) ++
        (node.lineage.interfaces.filter (·.name ≠ TypeName.root)).map
          fun interface =>
            (interface.name, interfaceMark child node.category)

/-- A node calls for a mark on its superclass and one on each interface. -/
theorem mem_linkMarks_iff
    {child upper : TypeName}
    {node : Node}
    {mark : Mark} :
    (upper, mark) ∈ linkMarks child (some node) ↔
      Store.parentNamed? (some node) = some upper ∧ mark = .subType child ∨
        upper ≠ TypeName.root ∧
          upper ∈ node.lineage.interfaces.map (·.name) ∧
          mark = interfaceMark child node.category := by
  simp only [linkMarks, List.mem_append, List.mem_map, List.mem_filter,
    Option.mem_toList, Prod.mk.injEq, decide_eq_true_eq, Store.parentNamed?,
    Option.bind_some, Option.map_eq_some_iff]
  constructor
  · rintro (⟨parent, chosen, rfl, rfl⟩ | ⟨interface, ⟨member, tracked⟩, rfl, rfl⟩)
    · exact Or.inl ⟨⟨parent, chosen, rfl⟩, rfl⟩
    · exact Or.inr ⟨tracked, ⟨interface, member, rfl⟩, rfl⟩
  · rintro (⟨⟨parent, chosen, rfl⟩, rfl⟩ | ⟨tracked, ⟨interface, member, rfl⟩, rfl⟩)
    · exact Or.inl ⟨parent, chosen, rfl, rfl⟩
    · exact Or.inr ⟨interface, ⟨member, tracked⟩, rfl, rfl⟩

/-- A node calls for references to its own type only. -/
theorem eq_of_mem_linkMarks
    {child upper : TypeName}
    {node : Option Node}
    {mark : Mark}
    (member : (upper, mark) ∈ linkMarks child node) :
    mark = .subType child ∨ mark = .implementer child := by
  cases node with
  | none =>
      simp [linkMarks] at member
  | some node =>
      rcases mem_linkMarks_iff.mp member with ⟨-, rfl⟩ | ⟨-, -, rfl⟩
      · exact Or.inl rfl
      · unfold interfaceMark
        split
        · exact Or.inl rfl
        · exact Or.inr rfl

/-- Nodes with the same supertypes call for the same marks. -/
theorem linkMarks_congr
    (child : TypeName)
    {node other : Node}
    (alike : Node.Alike node other)
    (interfaces : node.lineage.interfaces = other.lineage.interfaces) :
    linkMarks child (some node) = linkMarks child (some other) := by
  simp only [linkMarks, alike.parent, alike.category, interfaces]

/-- A placeholder calls for no marks. -/
theorem linkMarks_ofCategory
    (child : TypeName)
    (category : Category) :
    linkMarks child (some (Node.ofCategory category)) = [] := by
  simp [linkMarks]

/-- A node without supertypes calls for nothing under any category. -/
theorem linkMarks_with_category
    {child : TypeName}
    {node : Node}
    (nothing : linkMarks child (some node) = [])
    (category : Category) :
    linkMarks child (some { node with category := category }) = [] := by
  have same : { node with category := category }.lineage = node.lineage := rfl
  simp only [linkMarks, same, List.append_eq_nil_iff,
    List.map_eq_nil_iff] at nothing ⊢
  exact nothing

namespace Node

/-- A change of the lineage that keeps the interfaces keeps them in the node. -/
theorem interfaces_updateLineage
    (node : Node)
    {change : Lineage → Lineage}
    (keeps : ∀ lineage, (change lineage).interfaces = lineage.interfaces) :
    (node.updateLineage change).lineage.interfaces =
      node.lineage.interfaces := by
  obtain ⟨_, _, _, _, _, body⟩ := node
  cases body with
  | extensible lineage =>
      exact keeps lineage
  | annotationType defaults =>
      rfl

/-- Formals are no interfaces. -/
theorem interfaces_addFormals
    (node : Node)
    (formals : Formals) :
    (node.addFormals formals).lineage.interfaces = node.lineage.interfaces :=
  node.interfaces_updateLineage fun _ => rfl

/-- Generic interfaces are no interfaces of their own. -/
theorem interfaces_addGenericInterfaces
    (generics : List Generic)
    (node : Node) :
    (generics.foldl addGenericInterface node).lineage.interfaces =
      node.lineage.interfaces := by
  induction generics generalizing node with
  | nil =>
      rfl
  | cons generic generics inductionHypothesis =>
      refine (inductionHypothesis _).trans (node.interfaces_updateLineage ?_)
      intro lineage
      split <;> rfl

/-- A type with supertypes takes on an interface, once. -/
theorem mem_interfaces_addInterface
    {node : Node}
    (extensible : node.isExtensible = true)
    {interface : Reference}
    {name : TypeName} :
    name ∈ (node.addInterface interface).lineage.interfaces.map (·.name) ↔
      name ∈ node.lineage.interfaces.map (·.name) ∨
        name = interface.name := by
  obtain ⟨_, _, _, _, _, body⟩ := node
  cases body with
  | annotationType defaults =>
      simp [isExtensible] at extensible
  | extensible lineage =>
      simp only [addInterface, updateLineage, Node.lineage]
      split
      · next present =>
          simp only [List.any_eq_true, Reference.same, beq_iff_eq] at present
          obtain ⟨known, member, same⟩ := present
          constructor
          · exact Or.inl
          · rintro (old | rfl)
            · exact old
            · exact List.mem_map.mpr ⟨known, member, same⟩
      · simp [eq_comm]

end Node

/-- An amendment other than an interface leaves the interfaces alone. -/
theorem Amendment.interfaces_apply
    {owner : TypeName}
    {amendment : Amendment}
    (free : (Change.amend owner amendment).LinksNothing)
    (node : Node) :
    (amendment.apply node).lineage.interfaces = node.lineage.interfaces := by
  cases amendment with
  | origin visit =>
      simp only [apply, Visit.noteOrigin, Node.addLocation]
      split
      · split <;> rfl
      · rfl
  | interface name =>
      exact free.elim
  | generics said =>
      refine (Node.interfaces_addFormals _ _).trans
        ((Node.interfaces_addGenericInterfaces _ _).trans ?_)
      split
      · exact node.interfaces_updateLineage fun _ => rfl
      · rfl
  | field added =>
      refine node.interfaces_updateLineage fun lineage => ?_
      split <;> rfl
  | use _ | method _ =>
      rfl
  | default element value =>
      obtain ⟨_, _, _, _, _, body⟩ := node
      cases body <;> rfl

/-- A change that links nothing leaves what a node calls for, unless claimed. -/
theorem linkMarks_nodeAt
    {change : Change}
    (free : change.LinksNothing)
    {name : TypeName}
    (unclaimed : ∀ category, change ≠ .claim name category)
    (node : Option Node) :
    linkMarks name (change.nodeAt name node) = linkMarks name node := by
  cases change with
  | mention _ _ | file _ _ | mark _ _ | take =>
      rfl
  | found target category =>
      simp only [Change.nodeAt]
      split
      · cases node with
        | none =>
            exact linkMarks_ofCategory name category
        | some node =>
            rfl
      · rfl
  | claim target category =>
      have elsewhere : name ≠ target := by
        rintro rfl
        exact unclaimed category rfl
      simp [Change.nodeAt, elsewhere]
  | link target parent =>
      exact free.elim
  | amend target amendment =>
      simp only [Change.nodeAt]
      split
      · cases node with
        | none =>
            rfl
        | some node =>
            exact linkMarks_congr name (amendment.alike_apply node)
              (amendment.interfaces_apply free node)
      · rfl

/-- A superclass adds its reference, where it becomes the superclass. -/
theorem mem_linkMarks_setParent
    {child parent : TypeName}
    {node : Node}
    {link : TypeName × Mark} :
    link ∈ linkMarks child (some (node.setParent (Reference.toType parent))) ↔
      link ∈ linkMarks child (some node) ∨
        link = (parent, .subType child) ∧
          Store.parentNamed?
              (some (node.setParent (Reference.toType parent))) =
            some parent := by
  obtain ⟨upper, mark⟩ := link
  have interfaces :
      (node.setParent (Reference.toType parent)).lineage.interfaces =
        node.lineage.interfaces :=
    node.interfaces_updateLineage fun _ => rfl
  simp only [mem_linkMarks_iff, Node.category_setParent, interfaces,
    Prod.mk.injEq]
  rcases Store.parentNamed?_setParent (some node) parent with
    same | ⟨before, after⟩
  · simp only [Option.map_some] at same
    rw [same]
    constructor
    · exact Or.inl
    · rintro (old | ⟨⟨rfl, rfl⟩, chosen⟩)
      · exact old
      · exact Or.inl ⟨chosen, rfl⟩
  · simp only [Option.map_some] at after
    rw [before, after]
    simp only [Option.some.injEq, reduceCtorEq, false_and, false_or, and_true]
    constructor
    · rintro (⟨rfl, rfl⟩ | interface)
      · exact Or.inr ⟨rfl, rfl⟩
      · exact Or.inl interface
    · rintro (interface | ⟨rfl, rfl⟩)
      · exact Or.inr interface
      · exact Or.inl ⟨rfl, rfl⟩

/-- An interface adds its reference, unless it is the root type. -/
theorem mem_linkMarks_addInterface
    {child interface : TypeName}
    {node : Node}
    (extensible : node.isExtensible = true)
    {link : TypeName × Mark} :
    link ∈
        linkMarks child
          (some (node.addInterface (Reference.toType interface))) ↔
      link ∈ linkMarks child (some node) ∨
        link = (interface, interfaceMark child node.category) ∧
          interface ≠ TypeName.root := by
  obtain ⟨upper, mark⟩ := link
  have alike :
      Node.Alike (node.addInterface (Reference.toType interface)) node :=
    Amendment.alike_apply (.interface interface) node
  have named : (Reference.toType interface).name = interface := rfl
  simp only [mem_linkMarks_iff, Node.mem_interfaces_addInterface extensible,
    Store.parentNamed?, Option.bind_some, alike.parent, alike.category, named,
    Prod.mk.injEq]
  constructor
  · rintro (parent | ⟨tracked, old | rfl, rfl⟩)
    · exact Or.inl (Or.inl parent)
    · exact Or.inl (Or.inr ⟨tracked, old, rfl⟩)
    · exact Or.inr ⟨⟨rfl, rfl⟩, tracked⟩
  · rintro ((parent | ⟨tracked, old, rfl⟩) | ⟨⟨rfl, rfl⟩, tracked⟩)
    · exact Or.inl parent
    · exact Or.inr ⟨tracked, Or.inl old, rfl⟩
    · exact Or.inr ⟨tracked, Or.inr rfl, rfl⟩

/-! ## The references that are kept -/

/-- The references that the supertypes of a declaration call for. -/
def ClassDecl.links (decl : ClassDecl) : List (TypeName × Mark) :=
  decl.superName.toList.map (fun parent => (parent, .subType decl.name)) ++
    decl.interfaces.map fun interface =>
      (interface, interfaceMark decl.name decl.category)

namespace Store

/-- The references back that the node of a type calls for. -/
def linksOf
    (store : Store)
    (name : TypeName) :
    List (TypeName × Mark) :=
  linkMarks name (store.node? name)

/--
The references kept on entries are those that nodes call for. Only visited
types call for any, and only for supertypes of declarations handed in.
-/
structure Mirrored
    (decls : List ClassDecl)
    (store : Store) :
    Prop where
  marks :
    ∀ upper mark, mark.IsLink →
      (store.Bears upper mark ↔ ∃ child, (upper, mark) ∈ store.linksOf child)
  unvisited :
    ∀ name, store.isVisited name = false → store.linksOf name = []
  declared :
    ∀ child link, link ∈ store.linksOf child →
      ∃ decl ∈ decls,
        decl.name = child ∧
          decl.category.isExtensible = true ∧
          store.Entered decl ∧
          link ∈ decl.links

/-- The empty store calls for no marks and has none. -/
theorem mirrored_empty
    (decls : List ClassDecl) :
    Mirrored decls {} := by
  refine ⟨fun upper mark _ => ?_, fun name _ => rfl, fun child link member => ?_⟩
  · simp [Bears, linksOf, linkMarks, find?, node?]
  · simp [linksOf, linkMarks, find?, node?] at member

/-! ## Changes that link nothing -/

/-- A change that links nothing makes and removes no links. -/
theorem bears_apply_of_linksNothing
    {change : Change}
    (free : change.LinksNothing)
    (store : Store)
    {upper : TypeName}
    {mark : Mark}
    (isLink : mark.IsLink) :
    (change.apply store).Bears upper mark ↔ store.Bears upper mark := by
  have unmarked : change ≠ .mark upper mark := by
    rintro rfl
    exact free isLink
  exact Change.bears_apply_of_ne unmarked store

/-- A change that links nothing leaves the links that nodes call for. -/
theorem linksOf_apply
    {store : Store}
    {change : Change}
    (free : change.LinksNothing)
    (allowed : change.Allowed store)
    (unvisited :
      ∀ name, store.isVisited name = false → store.linksOf name = [])
    (name : TypeName) :
    (change.apply store).linksOf name = store.linksOf name := by
  by_cases known : name ∈ store.names
  · rw [linksOf, Change.node?_apply_of_mem known]
    by_cases claims : ∃ category, change = .claim name category
    · obtain ⟨category, rfl⟩ := claims
      obtain ⟨entry, node, found, -, installed, fits⟩ := allowed
      have here : store.node? name = some node := by
        simp [node?, found, installed]
      simp only [Change.nodeAt, here, ↓reduceIte, Option.map_some, linksOf]
      rcases fits with rfl | ⟨fresh, -⟩
      · rfl
      · -- A placeholder has no supertypes, so its category does not matter.
        have nothing : linkMarks name (some node) = [] := by
          have links := unvisited name (by simp [isVisited, found, fresh])
          rwa [linksOf, here] at links
        rw [nothing, linkMarks_with_category nothing category]
    · exact linkMarks_nodeAt free
        (fun category same => claims ⟨category, same⟩) _
  · have absent : store.node? name = none := by
      simp [node?, find?_eq_none_iff.mpr known]
    rw [linksOf, linksOf, Change.node?_apply_of_notMem known, absent]

/-- A type that is unvisited in the end was so from the start. -/
theorem Evolves.unvisited
    {first last : Store}
    (evolves : Evolves first last)
    {name : TypeName}
    (fresh : last.isVisited name = false) :
    first.isVisited name = false := by
  by_contra visited
  rw [Bool.not_eq_false] at visited
  rw [evolves.isVisited visited] at fresh
  exact Bool.noConfusion fresh

/-- A change that links nothing keeps marks and supertypes in step. -/
theorem Mirrored.apply
    {decls : List ClassDecl}
    {store : Store}
    {change : Change}
    (mirrored : Mirrored decls store)
    (free : change.LinksNothing)
    (allowed : change.Allowed store) :
    Mirrored decls (change.apply store) := by
  have links := linksOf_apply free allowed mirrored.unvisited
  refine ⟨fun upper mark isLink => ?_, fun name fresh => ?_,
    fun child link member => ?_⟩
  · rw [bears_apply_of_linksNothing free store isLink,
      mirrored.marks upper mark isLink]
    simp only [links]
  · rw [links]
    exact mirrored.unvisited name ((Evolves.single change allowed).unvisited fresh)
  · rw [links] at member
    obtain ⟨decl, handed, named, extensible, entered, called⟩ :=
      mirrored.declared child link member
    exact ⟨decl, handed, named, extensible, entered.apply allowed, called⟩

/-! ## Links -/

/-- What writes a reference on both sides keeps both sides in step. -/
theorem Mirrored.link
    {decls : List ClassDecl}
    {before after : Store}
    (mirrored : Mirrored decls before)
    (evolves : Evolves before after)
    {decl : ClassDecl}
    (handed : decl ∈ decls)
    (extensible : decl.category.isExtensible = true)
    (entered : before.Entered decl)
    {new : TypeName × Mark}
    (called : new ∈ decl.links)
    {made : Prop}
    (links :
      ∀ child link,
        link ∈ after.linksOf child ↔
          link ∈ before.linksOf child ∨
            child = decl.name ∧ link = new ∧ made)
    (bears :
      ∀ upper mark,
        after.Bears upper mark ↔
          before.Bears upper mark ∨ (upper, mark) = new ∧ made) :
    Mirrored decls after := by
  have still := entered.evolves evolves
  refine ⟨fun upper mark isLink => ?_, fun name fresh => ?_,
    fun child link member => ?_⟩
  · rw [bears, mirrored.marks upper mark isLink]
    simp only [links, exists_or, exists_eq_left]
  · apply List.eq_nil_iff_forall_not_mem.mpr
    intro link member
    rcases (links name link).mp member with old | ⟨rfl, -⟩
    · rw [mirrored.unvisited name (evolves.unvisited fresh)] at old
      exact List.not_mem_nil old
    · obtain ⟨_, visited, -⟩ := still
      rw [visited] at fresh
      exact absurd fresh (by simp)
  · rcases (links child link).mp member with old | ⟨rfl, rfl, -⟩
    · obtain ⟨other, member, named, fits, entered, called⟩ :=
        mirrored.declared child link old
      exact ⟨other, member, named, fits, entered.evolves evolves, called⟩
    · exact ⟨decl, handed, rfl, extensible, still, called⟩

/-- Where a superclass becomes the superclass, its reference is called for. -/
theorem mem_linksOf_linked
    {store : Store}
    {name parent : TypeName}
    (known : name ∈ store.names)
    (allowed : (Change.link name parent).Allowed store)
    {child : TypeName}
    {link : TypeName × Mark} :
    link ∈ (store.linked name parent).linksOf child ↔
      link ∈ store.linksOf child ∨
        child = name ∧
          link = (parent, .subType name) ∧
          ((Change.link name parent).apply store).Extends name parent := by
  obtain ⟨present, different, -⟩ := allowed
  have grounded :
      ∀ other ∈ (Change.link name parent).expects, other ∈ store.names := by
    simp [Change.expects, known, present]
  have nodes := Change.node?_apply grounded
  have marked :
      (store.linked name parent).node? child =
        ((Change.link name parent).apply store).node? child := by
    dsimp only [linked]
    split
    · exact node?_update _ _ _ (fun entry => entry.name_addMark _)
        (fun entry => entry.node_addMark _)
    · rfl
  rw [linksOf, linksOf, marked, nodes child, Extends, parentName?, nodes name]
  by_cases here : child = name
  · subst here
    simp only [Change.nodeAt, different.symm, ↓reduceIte]
    cases store.node? child with
    | none =>
        simp [linkMarks, parentNamed?]
    | some node =>
        simp only [Option.map_some, true_and]
        exact mem_linkMarks_setParent
  · simp only [Change.nodeAt, here, ↓reduceIte, false_and, or_false]
    split
    · cases store.node? child with
      | none =>
          simp [linkMarks]
      | some node =>
          rfl
    · rfl

/-- Where a superclass becomes the superclass, its reference is kept. -/
theorem bears_linked
    {store : Store}
    {name parent : TypeName}
    (known : name ∈ store.names)
    (allowed : (Change.link name parent).Allowed store)
    {upper : TypeName}
    {mark : Mark} :
    (store.linked name parent).Bears upper mark ↔
      store.Bears upper mark ∨
        (upper, mark) = (parent, .subType name) ∧
          ((Change.link name parent).apply store).Extends name parent := by
  have grounded :
      ∀ other ∈ (Change.link name parent).expects, other ∈ store.names := by
    simp [Change.expects, known, allowed.1]
  have linking :
      ((Change.link name parent).apply store).Bears upper mark ↔
        store.Bears upper mark ∨
          Change.link name parent = .mark upper mark :=
    Change.bears_apply grounded
  simp only [reduceCtorEq, or_false] at linking
  have marking :
      ∀ other ∈ (Change.mark parent (.subType name)).expects,
        other ∈ ((Change.link name parent).apply store).names := by
    intro other expected
    rw [List.mem_singleton.mp expected]
    exact Change.mem_names_apply.mpr (Or.inl allowed.1)
  dsimp only [linked]
  split
  · next chosen =>
      have extending :
          ((Change.link name parent).apply store).Extends name parent :=
        chosen
      rw [Change.bears_apply marking, linking]
      simp [extending, eq_comm]
  · next refused =>
      have extending :
          ¬ ((Change.link name parent).apply store).Extends name parent :=
        refused
      rw [linking]
      simp [extending]

/-- The type of a declaration that was entered has an entry. -/
theorem Entered.mem_names
    {store : Store}
    {decl : ClassDecl}
    (entered : store.Entered decl) :
    decl.name ∈ store.names := by
  obtain ⟨node, -, installed, -⟩ := entered
  exact mem_names_of_node? (by simp [installed])

/-- The superclass of a declaration is linked in step. -/
theorem Mirrored.superclass
    {decls : List ClassDecl}
    {store : Store}
    {decl : ClassDecl}
    {parent : TypeName}
    (mirrored : Mirrored decls store)
    (handed : decl ∈ decls)
    (named : decl.superName = some parent)
    (extensible : decl.category.isExtensible = true)
    (entered : store.Entered decl)
    (allowed : (Change.link decl.name parent).Allowed store) :
    Mirrored decls (store.linked decl.name parent) := by
  have called : (parent, Mark.subType decl.name) ∈ decl.links := by
    simp [ClassDecl.links, named]
  exact mirrored.link (linked_evolves allowed) handed extensible entered
    called (fun _ _ => mem_linksOf_linked entered.mem_names allowed)
    (fun _ _ => bears_linked entered.mem_names allowed)

/-- An interface is added to the node of the type, and to no other. -/
theorem node?_linkInterface
    (store : Store)
    (name : TypeName)
    (category : Category)
    (interface other : TypeName) :
    (store.linkInterface name category interface).node? other =
      if other = name then
        (store.node? other).map (·.addInterface (Reference.toType interface))
      else
        store.node? other := by
  rw [linkInterface_eq_replay,
    node?_replay_members
      (headScript_interfaceScript name category interface).ofMember]
  by_cases isRoot : interface = TypeName.root <;>
    simp only [interfaceScript, isRoot, ↓reduceIte, nodeAfter,
      List.nil_append, List.cons_append, List.foldl_cons, List.foldl_nil,
      Change.nodeAt] <;>
    rfl

/-- An interface is told of the type, unless it is the root type. -/
theorem bears_linkInterface
    {store : Store}
    {name : TypeName}
    (known : name ∈ store.names)
    (category : Category)
    (interface : TypeName)
    {upper : TypeName}
    {mark : Mark} :
    (store.linkInterface name category interface).Bears upper mark ↔
      store.Bears upper mark ∨
        (upper, mark) = (interface, interfaceMark name category) ∧
          interface ≠ TypeName.root := by
  have present : ∀ other ∈ [name], other ∈ store.names := by
    simpa using known
  rw [linkInterface_eq_replay,
    bears_replay present
      (headScript_interfaceScript name category interface).grounded]
  by_cases isRoot : interface = TypeName.root <;>
    simp [interfaceScript, isRoot]

/-- The body of a node is of the kind that its category asks for. -/
theorem WellFormed.isExtensible_node
    {store : Store}
    (wellFormed : store.WellFormed)
    {name : TypeName}
    {node : Node}
    (installed : store.node? name = some node) :
    node.isExtensible = node.category.isExtensible := by
  obtain ⟨entry, found, here⟩ := Option.bind_eq_some_iff.mp installed
  have body := (wellFormed.entries entry (mem_of_find? found)).body node here
  rw [← Category.isExtensible_eq_false_iff] at body
  cases kind : node.isExtensible <;>
    cases asked : node.category.isExtensible <;> simp_all

/-- The interface of a declaration is linked in step. -/
theorem Mirrored.interface
    {decls : List ClassDecl}
    {store : Store}
    {decl : ClassDecl}
    {interface : TypeName}
    (mirrored : Mirrored decls store)
    (wellFormed : store.WellFormed)
    (handed : decl ∈ decls)
    (named : interface ∈ decl.interfaces)
    (extensible : decl.category.isExtensible = true)
    (entered : store.Entered decl) :
    Mirrored decls
      (store.linkInterface decl.name decl.category interface) := by
  obtain ⟨node, visited, installed, category⟩ := entered
  have kind : node.isExtensible = true :=
    (wellFormed.isExtensible_node installed).trans (category ▸ extensible)
  have called :
      (interface, interfaceMark decl.name decl.category) ∈ decl.links := by
    simp only [ClassDecl.links, List.mem_append, List.mem_map]
    exact Or.inr ⟨interface, named, rfl⟩
  refine mirrored.link (linkInterface_evolves _ _ _ _) handed extensible
    ⟨node, visited, installed, category⟩ called (fun child link => ?_)
    (fun _ _ => bears_linkInterface (mem_names_of_node? (by simp [installed]))
      _ _)
  rw [linksOf, node?_linkInterface]
  by_cases here : child = decl.name
  · subst here
    simp only [↓reduceIte, linksOf, installed, Option.map_some, true_and]
    rw [← category]
    exact mem_linkMarks_addInterface kind
  · simp [here, linksOf]

/-- Whatever is built on a store keeps both sides of its links in step. -/
theorem Builds.mirrored
    {decls : List ClassDecl}
    {first last : Store}
    (builds : Builds decls first last)
    (wellFormed : first.WellFormed)
    (mirrored : Mirrored decls first) :
    Mirrored decls last := by
  induction builds with
  | refl =>
      exact mirrored
  | change change free allowed _ inductionHypothesis =>
      exact inductionHypothesis (wellFormed.apply allowed)
        (mirrored.apply free allowed)
  | superclass handed named _ extensible entered allowed _
      inductionHypothesis =>
      exact inductionHypothesis
        ((linked_evolves allowed).wellFormed wellFormed)
        (mirrored.superclass handed named extensible entered allowed)
  | interface handed named extensible entered _ inductionHypothesis =>
      exact inductionHypothesis
        ((linkInterface_evolves _ _ _ _).wellFormed wellFormed)
        (mirrored.interface wellFormed handed named extensible entered)

end Store

end TypeAtlas
