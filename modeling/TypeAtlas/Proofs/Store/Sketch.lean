import TypeAtlas.Proofs.Graph.Heading
import TypeAtlas.Proofs.Store.Effect

namespace TypeAtlas

/-!
# Sketches

A sketch is what is left of an entry if members do not count: whether the type
was visited, its node without fields and methods, its subtypes and implementers,
and the types that carry it as an annotation. Where an entry is filed and who
else refers to it are left out as well.

Every change acts on sketches by itself, so two stores that have the same
sketches and are changed alike have the same sketches afterwards. Changes that
enter fields and methods leave all sketches alone.
-/

/-! ## Nodes -/

namespace Node

/-- A node without its fields and methods. -/
def outline (node : Node) : Node :=
  { node.updateLineage fun lineage =>
      { lineage with fields := [], staticFields := [] } with
    methods := [] }

/-- An outline has nothing more to leave out. -/
@[simp] theorem outline_outline
    (node : Node) :
    node.outline.outline = node.outline := by
  obtain ⟨_, _, _, _, _, body⟩ := node
  cases body <;> rfl

/-- A placeholder is its own outline. -/
@[simp] theorem outline_ofCategory
    (category : Category) :
    (ofCategory category).outline = ofCategory category := by
  cases category <;> rfl

/-- An outline keeps the category. -/
@[simp] theorem category_outline
    (node : Node) :
    node.outline.category = node.category := by
  obtain ⟨_, _, _, _, _, body⟩ := node
  cases body <;> rfl

/-- An outline keeps what may be extended. -/
@[simp] theorem isExtensible_outline
    (node : Node) :
    node.outline.isExtensible = node.isExtensible := by
  obtain ⟨_, _, _, _, _, body⟩ := node
  cases body <;> rfl

/-- An outline keeps the lineage but for its fields. -/
@[simp] theorem lineage_outline
    (node : Node) :
    node.outline.lineage =
      { node.lineage with fields := [], staticFields := [] } := by
  obtain ⟨_, _, _, _, _, body⟩ := node
  cases body <;> rfl

/-- Supertypes are taken on whatever the fields are. -/
theorem outline_updateLineage
    (node : Node)
    {change : Lineage → Lineage}
    (apart :
      ∀ lineage,
        { change { lineage with fields := [], staticFields := [] } with
            fields := []
            staticFields := [] } =
          { change lineage with fields := [], staticFields := [] }) :
    (node.outline.updateLineage change).outline =
      (node.updateLineage change).outline := by
  obtain ⟨_, _, _, _, _, body⟩ := node
  cases body with
  | extensible lineage =>
      simp only [outline, updateLineage, apart]
  | annotationType defaults =>
      rfl

end Node

/-- What is added to a node hangs on no field or method. -/
theorem Amendment.outline_apply
    (amendment : Amendment)
    (node : Node) :
    (amendment.apply node.outline).outline =
      (amendment.apply node).outline := by
  cases amendment with
  | origin visit =>
      rw [apply, apply, Visit.noteOrigin_eq, Visit.noteOrigin_eq]
      obtain ⟨_, _, _, _, _, body⟩ := node
      cases body <;> rfl
  | interface name =>
      refine node.outline_updateLineage fun lineage => ?_
      dsimp only
      split <;> rfl
  | generics said =>
      rw [generics_apply, generics_apply]
      exact node.outline_updateLineage fun _ => rfl
  | field added =>
      obtain ⟨_, _, _, _, _, body⟩ := node
      cases body with
      | extensible lineage =>
          simp only [apply, Node.addField, Node.outline, Node.updateLineage]
          split <;> rfl
      | annotationType defaults =>
          rfl
  | use added | method added | default element value =>
      obtain ⟨_, _, _, _, _, body⟩ := node
      cases body <;> rfl

/-- A field is not seen in an outline. -/
theorem Amendment.outline_field
    (added : Field)
    (node : Node) :
    ((Amendment.field added).apply node).outline = node.outline := by
  obtain ⟨_, _, _, _, _, body⟩ := node
  cases body with
  | extensible lineage =>
      simp only [apply, Node.addField, Node.outline, Node.updateLineage]
      split <;> rfl
  | annotationType defaults =>
      rfl

/-- A method is not seen in an outline. -/
theorem Amendment.outline_method
    (added : Method)
    (node : Node) :
    ((Amendment.method added).apply node).outline = node.outline := by
  obtain ⟨_, _, _, _, _, body⟩ := node
  cases body <;> rfl

/-- A change does to the outline of a node what it does to the node. -/
theorem Change.outline_nodeAt
    (change : Change)
    (name : TypeName)
    (node : Option Node) :
    (change.nodeAt name (node.map Node.outline)).map Node.outline =
      (change.nodeAt name node).map Node.outline := by
  cases change with
  | mention _ _ | file _ _ | mark _ _ | take =>
      cases node <;> simp [nodeAt]
  | found target category =>
      cases node <;> by_cases here : name = target <;> simp [nodeAt, here]
  | claim target category =>
      cases node with
      | none =>
          simp [nodeAt]
      | some node =>
          obtain ⟨_, _, _, _, _, body⟩ := node
          by_cases here : name = target <;> cases body <;>
            simp [nodeAt, here, Node.outline, Node.updateLineage]
  | link target parent =>
      have linked :
          ∀ node : Node,
            (node.outline.setParent (Reference.toType parent)).outline =
              (node.setParent (Reference.toType parent)).outline :=
        fun node => node.outline_updateLineage fun _ => rfl
      simp only [nodeAt]
      split <;> split <;> cases node <;> simp [linked]
  | amend target amendment =>
      cases node <;> by_cases here : name = target <;>
        simp [nodeAt, here, amendment.outline_apply]

/-! ## Entries -/

/-- What is left of an entry if members do not count. -/
structure Sketch where
  visited : Bool := false
  node : Option Node := none
  subTypes : List TypeName := []
  implementers : List TypeName := []
  annotatedTypes : List TypeName := []

def Entry.sketch (entry : Entry) : Sketch :=
  { visited := entry.visited
    node := entry.node.map Node.outline
    subTypes := entry.subTypes
    implementers := entry.implementers
    annotatedTypes := entry.annotated.filterMap Element.typeName? }

/-- The sketch of a name, a blank one where there is no entry. -/
def Store.sketch
    (store : Store)
    (name : TypeName) :
    Sketch :=
  ((store.find? name).map Entry.sketch).getD {}

/-- Keep a mark, unless it leads to a member. -/
def Sketch.addMark (sketch : Sketch) : Mark → Sketch
  | .annotated (.type name) =>
      { sketch with
        annotatedTypes := Entry.addOnce sketch.annotatedTypes name }
  | .subType name =>
      { sketch with subTypes := Entry.addOnce sketch.subTypes name }
  | .implementer name =>
      { sketch with implementers := Entry.addOnce sketch.implementers name }
  | _ => sketch

/-- What a change makes of the sketch of a name. -/
def Change.redraw
    (name : TypeName)
    (change : Change)
    (sketch : Sketch) :
    Sketch :=
  let drawn :=
    match change with
    | .mark target added =>
        if name = target then sketch.addMark added else sketch
    | .claim target _ =>
        if name = target then { sketch with visited := true } else sketch
    | _ => sketch
  { drawn with
    node := (change.nodeAt name sketch.node).map Node.outline }

/-- The types among elements are added to one after another. -/
theorem filterMap_addOnce_type
    (elements : List Element)
    (name : TypeName) :
    (Entry.addOnce elements (.type name)).filterMap Element.typeName? =
      Entry.addOnce (elements.filterMap Element.typeName?) name := by
  have known :
      (elements.filterMap Element.typeName?).contains name =
        elements.contains (.type name) := by
    rw [Bool.eq_iff_iff, List.contains_iff_mem, List.contains_iff_mem,
      List.mem_filterMap]
    constructor
    · rintro ⟨element, member, named⟩
      cases element with
      | type other =>
          cases named
          exact member
      | field _ | method _ | parameter _ _ =>
          cases named
    · exact fun member => ⟨.type name, member, rfl⟩
  unfold Entry.addOnce
  rw [known]
  split <;> simp [Element.typeName?]

/-- A member adds no type. -/
theorem filterMap_addOnce_member
    (elements : List Element)
    {element : Element}
    (isMember : element.typeName? = none) :
    (Entry.addOnce elements element).filterMap Element.typeName? =
      elements.filterMap Element.typeName? := by
  unfold Entry.addOnce
  split <;> simp [isMember]

/-- A mark is drawn into a sketch. -/
theorem Entry.sketch_addMark
    (entry : Entry)
    (mark : Mark) :
    (entry.addMark mark).sketch = entry.sketch.addMark mark := by
  have others :
      ∀ element : Element, element.typeName? = none →
        (entry.addAnnotated element).sketch = entry.sketch := by
    intro element isMember
    simp only [addAnnotated, sketch, filterMap_addOnce_member _ isMember]
  cases mark with
  | annotated element =>
      cases element with
      | type name =>
          simp only [addMark, addAnnotated, sketch, filterMap_addOnce_type,
            Sketch.addMark]
      | field id =>
          exact others (.field id) rfl
      | method id =>
          exact others (.method id) rfl
      | parameter id index =>
          exact others (.parameter id index) rfl
  | fieldUse _ | subType _ | implementer _ =>
      rfl

/-- A change does to the sketch of an entry what it does to the entry. -/
theorem Change.sketch_revise
    (change : Change)
    (name : TypeName)
    (entry : Entry) :
    (change.revise name entry).sketch = change.redraw name entry.sketch := by
  have node :
      (change.revise name entry).sketch.node =
        (change.nodeAt name entry.sketch.node).map Node.outline := by
    simp only [Entry.sketch, change.node_revise, change.outline_nodeAt]
  unfold redraw
  rw [← node]
  cases change with
  | mention target hint =>
      simp only [revise]
      split
      · cases hint with
        | none =>
            rfl
        | some category =>
            simp only [Entry.afterMention]
            split <;> rfl
      · rfl
  | mark target added =>
      simp only [revise]
      split
      · rw [entry.sketch_addMark]
      · rfl
  | link target parent =>
      simp only [revise]
      split <;> split <;> rfl
  | file target _ | found target _ | claim target _ | amend target _ =>
      simp only [revise]
      split <;> rfl
  | take =>
      rfl

/-- A name that a change does not expect to have an entry stays blank. -/
theorem Change.redraw_blank
    {change : Change}
    {name : TypeName}
    (unexpected : name ∉ change.expects) :
    change.redraw name {} = {} := by
  cases change with
  | mention _ _ | file _ _ | take =>
      rfl
  | link target parent =>
      simp only [expects, List.mem_cons, List.not_mem_nil, or_false,
        not_or] at unexpected
      simp [redraw, nodeAt, unexpected]
  | found target _ | claim target _ | mark target _ | amend target _ =>
      simp only [expects, List.mem_cons, List.not_mem_nil,
        or_false] at unexpected
      simp [redraw, nodeAt, unexpected]

/-! ## Stores -/

namespace Store

/-- A change acts on sketches by itself. -/
theorem sketch_apply
    {store : Store}
    {change : Change}
    (grounded : ∀ name ∈ change.expects, name ∈ store.names)
    (name : TypeName) :
    (change.apply store).sketch name =
      change.redraw name (store.sketch name) := by
  unfold sketch
  rw [Change.find?_apply]
  cases known : store.find? name with
  | some entry =>
      exact change.sketch_revise name entry
  | none =>
      have absent : name ∉ store.names := find?_eq_none_iff.mp known
      have blank : change.redraw name {} = {} :=
        Change.redraw_blank fun expected => absent (grounded name expected)
      cases created : change.create name with
      | none =>
          exact blank.symm
      | some entry =>
          obtain ⟨hint, rfl⟩ := Change.create_blank created
          exact blank.symm

/-- The sketch of a name after a script, from the one before. -/
theorem sketch_replay
    {store : Store}
    {known : List TypeName}
    {script : List Change}
    (present : ∀ name ∈ known, name ∈ store.names)
    (grounded : Grounded known script)
    (name : TypeName) :
    (store.replay script).sketch name =
      script.foldl (fun sketch change => change.redraw name sketch)
        (store.sketch name) := by
  induction script generalizing store known with
  | nil =>
      rfl
  | cons change script inductionHypothesis =>
      obtain ⟨expected, rest⟩ := grounded
      rw [replay_cons,
        inductionHypothesis (known_apply present change) rest,
        sketch_apply fun name member => present name (expected name member)]
      rfl

/-- Two stores with the same sketches. -/
def Agrees (store other : Store) : Prop :=
  ∀ name, store.sketch name = other.sketch name

namespace Agrees

theorem refl
    (store : Store) :
    store.Agrees store :=
  fun _ => rfl

theorem symm
    {store other : Store}
    (agrees : store.Agrees other) :
    other.Agrees store :=
  fun name => (agrees name).symm

theorem trans
    {first second third : Store}
    (earlier : first.Agrees second)
    (later : second.Agrees third) :
    first.Agrees third :=
  fun name => (earlier name).trans (later name)

/-- Stores that agree and are changed alike agree. -/
theorem replay
    {store other : Store}
    (agrees : store.Agrees other)
    {known : List TypeName}
    (present : ∀ name ∈ known, name ∈ store.names)
    (otherPresent : ∀ name ∈ known, name ∈ other.names)
    {script : List Change}
    (grounded : Grounded known script) :
    (store.replay script).Agrees (other.replay script) := by
  intro name
  rw [sketch_replay present grounded, sketch_replay otherPresent grounded,
    agrees name]

end Agrees

/-! ## What agreeing stores have in common -/

section

variable (store : Store) (name : TypeName)

/-- A sketch shows the outline of the node. -/
theorem node_sketch :
    (store.sketch name).node = (store.node? name).map Node.outline := by
  unfold sketch node?
  cases store.find? name <;> rfl

/-- A sketch shows whether the type was entered. -/
theorem visited_sketch :
    (store.sketch name).visited = store.isVisited name := by
  unfold sketch isVisited
  cases store.find? name <;> rfl

/-- A sketch shows the subtypes. -/
theorem subTypes_sketch :
    (store.sketch name).subTypes = store.subTypes name := by
  unfold sketch subTypes
  cases store.find? name <;> rfl

/-- A sketch shows the implementers. -/
theorem implementers_sketch :
    (store.sketch name).implementers = store.implementers name := by
  unfold sketch implementers
  cases store.find? name <;> rfl

/-- A sketch shows the types that carry an annotation. -/
theorem annotatedTypes_sketch :
    (store.sketch name).annotatedTypes = store.annotatedTypes name := by
  unfold sketch annotatedTypes annotatedElements
  cases store.find? name <;> rfl

end

namespace Agrees

variable {store other : Store}

/-- Stores that agree have nodes of one outline. -/
theorem outline?
    (agrees : store.Agrees other)
    (name : TypeName) :
    (store.node? name).map Node.outline =
      (other.node? name).map Node.outline := by
  rw [← node_sketch, ← node_sketch, agrees name]

/-- The nodes of a name have one outline, and there are two or none. -/
theorem node?_cases
    (agrees : store.Agrees other)
    (name : TypeName) :
    store.node? name = none ∧ other.node? name = none ∨
      ∃ node otherNode,
        store.node? name = some node ∧
          other.node? name = some otherNode ∧
          node.outline = otherNode.outline := by
  have same := agrees.outline? name
  cases here : store.node? name with
  | none =>
      rw [here] at same
      exact Or.inl ⟨rfl, Option.map_eq_none_iff.mp same.symm⟩
  | some node =>
      rw [here] at same
      obtain ⟨otherNode, there, outlines⟩ :=
        Option.map_eq_some_iff.mp same.symm
      exact Or.inr ⟨node, otherNode, rfl, there, outlines.symm⟩

/-- They have nodes for the same names. -/
theorem isSome_node?
    (agrees : store.Agrees other)
    (name : TypeName) :
    (store.node? name).isSome = (other.node? name).isSome := by
  have same := congrArg Option.isSome (agrees.outline? name)
  simpa using same

/-- They have entered the same types. -/
theorem isVisited
    (agrees : store.Agrees other)
    (name : TypeName) :
    store.isVisited name = other.isVisited name := by
  rw [← visited_sketch, ← visited_sketch, agrees name]

/-- What is read off the outline of a node is the same. -/
theorem congrOutline
    (agrees : store.Agrees other)
    (view : Node → α)
    (outlined : ∀ node : Node, view node.outline = view node)
    (name : TypeName) :
    (store.node? name).map view = (other.node? name).map view := by
  have same := congrArg (Option.map view) (agrees.outline? name)
  simpa [Function.comp_def, outlined] using same

end Agrees

end Store

/-! ## Changes that do not show -/

/-- The marks that lead to members. -/
def Mark.LeadsToMember : Mark → Prop
  | .annotated element => element.typeName? = none
  | .fieldUse _ => True
  | _ => False

/-- The changes that go with a new member, apart from the member itself. -/
def Change.Hidden : Change → Prop
  | .mention _ _ => True
  | .mark _ added => added.LeadsToMember
  | _ => False

/-- A mark of a member is not seen in a sketch. -/
theorem Sketch.addMark_hidden
    (sketch : Sketch)
    {mark : Mark}
    (hidden : mark.LeadsToMember) :
    sketch.addMark mark = sketch := by
  cases mark with
  | annotated element =>
      cases element with
      | type name =>
          cases hidden
      | field _ | method _ | parameter _ _ =>
          rfl
  | fieldUse id =>
      rfl
  | subType _ | implementer _ =>
      exact hidden.elim

namespace Store

/-- A change that leaves the sketch of every entry alone leaves all alone. -/
theorem agrees_apply
    {change : Change}
    (same :
      ∀ name (entry : Entry), (change.revise name entry).sketch = entry.sketch)
    (store : Store) :
    (change.apply store).Agrees store := by
  intro name
  unfold sketch
  rw [Change.find?_apply]
  cases store.find? name with
  | some entry =>
      exact same name entry
  | none =>
      cases created : change.create name with
      | none =>
          rfl
      | some entry =>
          obtain ⟨hint, rfl⟩ := Change.create_blank created
          rfl

/-- A change that is hidden leaves a store in agreement with what it was. -/
theorem agrees_hidden
    {change : Change}
    (hidden : change.Hidden)
    (store : Store) :
    (change.apply store).Agrees store := by
  refine agrees_apply (fun name entry => ?_) store
  cases change with
  | mention target hint =>
      rw [Change.sketch_revise]
      simp [Change.redraw, Change.nodeAt, Entry.sketch, Function.comp_def]
  | mark target added =>
      simp only [Change.revise]
      split
      · rw [Entry.sketch_addMark, Sketch.addMark_hidden _ hidden]
      · rfl
  | file _ _ | found _ _ | claim _ _ | link _ _ | amend _ _ | take =>
      exact hidden.elim

/-- An addition to a node that does not show in its outline does not show. -/
theorem agrees_amend
    {amendment : Amendment}
    (unseen : ∀ node, (amendment.apply node).outline = node.outline)
    (store : Store)
    (owner : TypeName) :
    ((Change.amend owner amendment).apply store).Agrees store := by
  refine agrees_apply (fun name entry => ?_) store
  simp only [Change.revise]
  split
  · simp [Entry.sketch, Function.comp_def, unseen]
  · rfl

end Store

end TypeAtlas
