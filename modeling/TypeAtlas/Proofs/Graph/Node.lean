import TypeAtlas.Proofs.Store.Change

namespace TypeAtlas

/-!
# What is added to nodes

Nothing that is added to a node changes its category or turns an annotation
type into one of the others, and nothing but a superclass changes the
superclass. A member is added without a look at the superclass, and changes
nothing of the node but its members.
-/

namespace Node

/-- A change of the lineage keeps the category. -/
@[simp] theorem category_updateLineage
    (node : Node)
    (change : Lineage → Lineage) :
    (node.updateLineage change).category = node.category := by
  unfold updateLineage
  split <;> rfl

/-- A change of the lineage keeps the locations. -/
@[simp] theorem locations_updateLineage
    (node : Node)
    (change : Lineage → Lineage) :
    (node.updateLineage change).locations = node.locations := by
  unfold updateLineage
  split <;> rfl

/-- A change of the lineage keeps a node's part of the application. -/
@[simp] theorem isApplication_updateLineage
    (node : Node)
    (change : Lineage → Lineage) :
    (node.updateLineage change).isApplication = node.isApplication := by
  unfold updateLineage
  split <;> rfl

/-- A change of the lineage keeps the kind of body. -/
@[simp] theorem isExtensible_updateLineage
    (node : Node)
    (change : Lineage → Lineage) :
    (node.updateLineage change).isExtensible = node.isExtensible := by
  obtain ⟨_, _, _, _, _, body⟩ := node
  cases body <;> rfl

/-- A class and an interface take on the changed lineage. -/
theorem lineage_updateLineage
    {node : Node}
    (extensible : node.isExtensible = true)
    (change : Lineage → Lineage) :
    (node.updateLineage change).lineage = change node.lineage := by
  obtain ⟨_, _, _, _, _, body⟩ := node
  cases body with
  | extensible lineage =>
      rfl
  | annotationType defaults =>
      simp [isExtensible] at extensible

/-- An annotation type has no supertypes to change. -/
theorem updateLineage_of_annotationType
    {node : Node}
    (kind : node.isExtensible = false)
    (change : Lineage → Lineage) :
    node.updateLineage change = node := by
  obtain ⟨_, _, _, _, _, body⟩ := node
  cases body with
  | extensible lineage =>
      simp [isExtensible] at kind
  | annotationType defaults =>
      rfl

/-- An annotation type has no supertypes. -/
theorem lineage_of_annotationType
    {node : Node}
    (kind : node.isExtensible = false) :
    node.lineage = {} := by
  obtain ⟨_, _, _, _, _, body⟩ := node
  cases body with
  | extensible lineage =>
      simp [isExtensible] at kind
  | annotationType defaults =>
      rfl

/-- Two nodes of one category and body kind, with the same superclass. -/
structure Alike
    (node other : Node) :
    Prop where
  category : node.category = other.category
  isExtensible : node.isExtensible = other.isExtensible
  parent : node.lineage.parent = other.lineage.parent

theorem Alike.refl
    (node : Node) :
    Alike node node :=
  ⟨rfl, rfl, rfl⟩

theorem Alike.trans
    {first second third : Node}
    (earlier : Alike first second)
    (later : Alike second third) :
    Alike first third :=
  ⟨earlier.category.trans later.category,
    earlier.isExtensible.trans later.isExtensible,
    earlier.parent.trans later.parent⟩

/--
A change of the lineage that keeps the superclass makes a node like the old
one.
-/
theorem alike_updateLineage
    (node : Node)
    {change : Lineage → Lineage}
    (keeps : ∀ lineage, (change lineage).parent = lineage.parent) :
    Alike (node.updateLineage change) node := by
  refine ⟨node.category_updateLineage change,
    node.isExtensible_updateLineage change, ?_⟩
  obtain ⟨_, _, _, _, _, body⟩ := node
  cases body with
  | extensible lineage =>
      exact keeps lineage
  | annotationType defaults =>
      rfl

/-- Formals do not change what a node is like. -/
theorem alike_addFormals
    (node : Node)
    (formals : Formals) :
    Alike (node.addFormals formals) node :=
  node.alike_updateLineage fun _ => rfl

/-- Nor do generic interfaces. -/
theorem alike_addGenericInterfaces
    (interfaces : List Generic)
    (node : Node) :
    Alike (interfaces.foldl addGenericInterface node) node := by
  induction interfaces generalizing node with
  | nil =>
      exact .refl node
  | cons interface interfaces inductionHypothesis =>
      refine (inductionHypothesis _).trans (node.alike_updateLineage ?_)
      intro lineage
      split <;> rfl

/-- A superclass does not change the category. -/
@[simp] theorem category_setParent
    (node : Node)
    (parent : Reference) :
    (node.setParent parent).category = node.category :=
  node.category_updateLineage _

/-- A superclass does not change the kind of body. -/
@[simp] theorem isExtensible_setParent
    (node : Node)
    (parent : Reference) :
    (node.setParent parent).isExtensible = node.isExtensible :=
  node.isExtensible_updateLineage _

/-- The first superclass stays. -/
theorem parent_setParent
    (node : Node)
    (parent : Reference) :
    (node.setParent parent).lineage.parent =
      if node.isExtensible then
        node.lineage.parent <|> some parent
      else
        none := by
  obtain ⟨_, _, _, _, _, body⟩ := node
  cases body <;> rfl

@[simp] theorem isExtensible_ofCategory
    (category : Category) :
    (ofCategory category).isExtensible = category.isExtensible := by
  cases category <;> rfl

@[simp] theorem lineage_ofCategory
    (category : Category) :
    (ofCategory category).lineage = {} := by
  cases category <;> rfl

/-- A node of one kind that nothing is known of is the same for any category. -/
theorem ofCategory_with
    {category other : Category}
    (alike : category.isExtensible = other.isExtensible) :
    { ofCategory category with category := other } = ofCategory other := by
  simp only [ofCategory, alike]

/-! ## Parts of a node -/

/-- A node without its superclass. -/
def orphan (node : Node) : Node :=
  node.updateLineage fun lineage => { lineage with parent := none }

/-- A node without its annotations and members. -/
def bare (node : Node) : Node :=
  { node with
    annotations := []
    methods := []
    body :=
      match node.body with
      | .extensible lineage =>
          .extensible { lineage with fields := [], staticFields := [] }
      | .annotationType _ => .annotationType [] }

/-- A node without its superclass keeps the rest of its lineage. -/
@[simp] theorem lineage_orphan
    (node : Node) :
    node.orphan.lineage = { node.lineage with parent := none } := by
  obtain ⟨_, _, _, _, _, body⟩ := node
  cases body <;> rfl

@[simp] theorem isExtensible_bare
    (node : Node) :
    node.bare.isExtensible = node.isExtensible := by
  obtain ⟨_, _, _, _, _, body⟩ := node
  cases body <;> rfl

/-- A node without its fields keeps the rest of its lineage. -/
@[simp] theorem lineage_bare
    (node : Node) :
    node.bare.lineage =
      { node.lineage with fields := [], staticFields := [] } := by
  obtain ⟨_, _, _, _, _, body⟩ := node
  cases body <;> rfl

/-- A node without its superclass keeps its methods. -/
@[simp] theorem methods_orphan
    (node : Node) :
    node.orphan.methods = node.methods := by
  obtain ⟨_, _, _, _, _, body⟩ := node
  cases body <;> rfl

/-- A node without its superclass keeps its fields. -/
@[simp] theorem fieldsOf_orphan
    (node : Node)
    (isStatic : Bool) :
    node.orphan.fieldsOf isStatic = node.fieldsOf isStatic := by
  simp only [fieldsOf, lineage_orphan]

end Node

/-- An amendment by an annotation, a member or a default. -/
def Amendment.AddsMember : Amendment → Prop
  | .use _ | .field _ | .method _ | .default _ _ => True
  | .origin _ | .interface _ | .generics _ => False

/-- A member is added in the same way whatever the superclass is. -/
theorem Amendment.AddsMember.orphan_apply
    {amendment : Amendment}
    (adds : amendment.AddsMember)
    (node : Node) :
    (amendment.apply node).orphan = amendment.apply node.orphan := by
  obtain ⟨_, _, _, _, _, body⟩ := node
  cases amendment with
  | origin _ | interface _ | generics _ =>
      exact adds.elim
  | field added =>
      cases body with
      | extensible lineage =>
          simp only [apply, Node.addField, Node.orphan, Node.updateLineage]
          split <;> rfl
      | annotationType defaults =>
          rfl
  | use _ | method _ | default _ _ =>
      cases body <;> rfl

/-- A member changes nothing of a node but its members. -/
theorem Amendment.AddsMember.bare_apply
    {amendment : Amendment}
    (adds : amendment.AddsMember)
    (node : Node) :
    (amendment.apply node).bare = node.bare := by
  obtain ⟨_, _, _, _, _, body⟩ := node
  cases amendment with
  | origin _ | interface _ | generics _ =>
      exact adds.elim
  | field added =>
      cases body with
      | extensible lineage =>
          simp only [apply, Node.addField, Node.bare, Node.updateLineage]
          split <;> rfl
      | annotationType defaults =>
          rfl
  | use _ | method _ | default _ _ =>
      cases body <;> rfl

/-- An amendment keeps the category, the kind and the superclass of a node. -/
theorem Amendment.alike_apply
    (amendment : Amendment)
    (node : Node) :
    Node.Alike (amendment.apply node) node := by
  cases amendment with
  | origin visit =>
      simp only [apply, Visit.noteOrigin, Node.addLocation]
      split
      · split <;> exact ⟨rfl, rfl, rfl⟩
      · exact ⟨rfl, rfl, rfl⟩
  | interface name =>
      refine node.alike_updateLineage fun lineage => ?_
      split <;> rfl
  | generics said =>
      refine (Node.alike_addFormals _ _).trans
        ((Node.alike_addGenericInterfaces _ _).trans ?_)
      split
      · exact node.alike_updateLineage fun _ => rfl
      · exact .refl node
  | field added =>
      refine node.alike_updateLineage fun lineage => ?_
      split <;> rfl
  | use _ | method _ =>
      exact ⟨rfl, rfl, rfl⟩
  | default element value =>
      obtain ⟨_, _, _, _, _, body⟩ := node
      cases body <;> exact ⟨rfl, rfl, rfl⟩

end TypeAtlas
