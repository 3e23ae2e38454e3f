import TypeAtlas.Proofs.Entering.Drafts
import TypeAtlas.Proofs.Graph.Indexes

namespace TypeAtlas

/-!
# Stores that differ in members only

Two stores run in parallel if their sketches agree and, under a condition, all
members in the first are members in the second, in order. Changes that are made
in both and add no member keep this up, and so do members that are added if
those in the first are among those in the second.
-/

/-! ## Members of nodes -/

/-- Some members are, in order, among others, wherever they have their places. -/
def Among
    (onto : Element → α → α)
    (few many : List α) :
    Prop :=
  ∀ element, (few.map (onto element)).Sublist (many.map (onto element))

namespace Among

variable {onto : Element → α → α}

/-- Members in a row are among members in a row. -/
theorem append
    {few many moreFew moreMany : List α}
    (earlier : Among onto few many)
    (later : Among onto moreFew moreMany) :
    Among onto (few ++ moreFew) (many ++ moreMany) := by
  intro element
  rw [List.map_append, List.map_append]
  exact (earlier element).append (later element)

/-- What is told of a member is told whatever its place is. -/
theorem filter
    {few many : List α}
    (among : Among onto few many)
    (keep : α → Bool)
    (placeless : ∀ element member, keep (onto element member) = keep member) :
    Among onto (few.filter keep) (many.filter keep) := by
  intro element
  have kept :
      ∀ members : List α,
        (members.filter keep).map (onto element) =
          (members.map (onto element)).filter keep := by
    intro members
    rw [List.filter_map]
    congr 2
    funext member
    exact (placeless element member).symm
  rw [kept, kept]
  exact (among element).filter keep

end Among

/-- The fields of both kinds and the methods of a node. -/
def Node.members (node : Node) : (Bool → List Field) × List Method :=
  (node.fieldsOf, node.methods)

/-- The members of a node are among those of another. -/
structure Node.Within
    (node other : Node) :
    Prop where
  fields :
    ∀ isStatic,
      Among Field.onto (node.fieldsOf isStatic) (other.fieldsOf isStatic)
  methods : Among Method.onto node.methods other.methods

namespace Node

/-- A field is added to those of its own kind, if the type has fields. -/
theorem fieldsOf_addField
    (node : Node)
    (field : Field)
    (isStatic : Bool) :
    (node.addField field).fieldsOf isStatic =
      node.fieldsOf isStatic ++
        if node.isExtensible && field.isStatic == isStatic then
          [field]
        else
          [] := by
  obtain ⟨_, _, _, _, _, body⟩ := node
  cases body with
  | extensible lineage =>
      cases kind : field.isStatic <;> cases isStatic <;>
        simp [addField, updateLineage, fieldsOf, Node.lineage, isExtensible,
          kind]
  | annotationType defaults =>
      simp [addField, updateLineage, fieldsOf, isExtensible]

/-- Fields are added where a node has fields. -/
theorem fieldsOf_addFields
    (node : Node)
    (added : List Field)
    (isStatic : Bool) :
    (added.foldl addField node).fieldsOf isStatic =
      node.fieldsOf isStatic ++
        added.filter (node.isExtensible && ·.isStatic == isStatic) := by
  induction added generalizing node with
  | nil =>
      simp
  | cons field added inductionHypothesis =>
      have kind : (node.addField field).isExtensible = node.isExtensible := by
        obtain ⟨_, _, _, _, _, body⟩ := node
        cases body <;> rfl
      rw [List.foldl_cons, inductionHypothesis, fieldsOf_addField, kind,
        List.filter_cons, List.append_assoc]
      split <;> rfl

/-- Adding fields adds no method. -/
theorem methods_addFields
    (node : Node)
    (added : List Field) :
    (added.foldl addField node).methods = node.methods := by
  induction added generalizing node with
  | nil =>
      rfl
  | cons field added inductionHypothesis =>
      have same : (node.addField field).methods = node.methods := by
        obtain ⟨_, _, _, _, _, body⟩ := node
        cases body <;> rfl
      rw [List.foldl_cons, inductionHypothesis, same]

/-- Adding methods adds no field. -/
theorem fieldsOf_addMethods
    (node : Node)
    (added : List Method)
    (isStatic : Bool) :
    (added.foldl addMethod node).fieldsOf isStatic = node.fieldsOf isStatic := by
  induction added generalizing node with
  | nil =>
      rfl
  | cons method added inductionHypothesis =>
      exact inductionHypothesis (node.addMethod method)

/-- Methods are added behind those there were. -/
theorem methods_addMethods
    (node : Node)
    (added : List Method) :
    (added.foldl addMethod node).methods = node.methods ++ added := by
  induction added generalizing node with
  | nil =>
      simp
  | cons method added inductionHypothesis =>
      rw [List.foldl_cons, inductionHypothesis, addMethod, List.append_assoc]
      rfl

namespace Within

/-- Fields are added to two nodes of one kind. -/
theorem addFields
    {node other : Node}
    (within : node.Within other)
    (kind : node.isExtensible = other.isExtensible)
    {few many : List Field}
    (among : Among Field.onto few many) :
    (few.foldl addField node).Within (many.foldl addField other) := by
  refine ⟨fun isStatic => ?_, ?_⟩
  · rw [fieldsOf_addFields, fieldsOf_addFields, kind]
    exact (within.fields isStatic).append
      (among.filter (other.isExtensible && ·.isStatic == isStatic)
        fun _ _ => rfl)
  · rw [methods_addFields, methods_addFields]
    exact within.methods

/-- Fewer methods can be added on the smaller side. -/
theorem addMethods
    {node other : Node}
    (within : node.Within other)
    {few many : List Method}
    (among : Among Method.onto few many) :
    (few.foldl addMethod node).Within (many.foldl addMethod other) := by
  refine ⟨fun isStatic => ?_, ?_⟩
  · rw [fieldsOf_addMethods, fieldsOf_addMethods]
    exact within.fields isStatic
  · rw [methods_addMethods, methods_addMethods]
    exact within.methods.append among

/-- Nothing counts but the members. -/
theorem congr
    {node other newer otherNewer : Node}
    (within : node.Within other)
    (same : newer.members = node.members)
    (otherSame : otherNewer.members = other.members) :
    newer.Within otherNewer := by
  obtain ⟨fields, methods⟩ := Prod.mk.inj same
  obtain ⟨otherFields, otherMethods⟩ := Prod.mk.inj otherSame
  refine ⟨fun isStatic => ?_, ?_⟩
  · rw [fields, otherFields]
    exact within.fields isStatic
  · rw [methods, otherMethods]
    exact within.methods

end Within

end Node

/-! ## Changes without members -/

/-- The changes that add no field and no method. -/
def Change.KeepsMembers : Change → Prop
  | .amend _ amendment =>
      (∀ isStatic, amendment.fieldsOf isStatic = []) ∧ amendment.methods = []
  | _ => True

/-- A change that keeps members keeps those of every node. -/
theorem Change.members_nodeAt
    {change : Change}
    (keeps : change.KeepsMembers)
    (name : TypeName)
    (node : Option Node) :
    ((change.nodeAt name node).getD (Node.ofCategory .classType)).members =
      (node.getD (Node.ofCategory .classType)).members := by
  have others :
      (∀ target amendment, change ≠ .amend target amendment) →
        ((change.nodeAt name node).getD (Node.ofCategory .classType)).members =
          (node.getD (Node.ofCategory .classType)).members := by
    intro adds
    have same := sameElements_nodeAt adds name node
    exact Prod.ext (funext same.fields) same.methods
  cases change with
  | amend target amendment =>
      obtain ⟨noField, noMethod⟩ := keeps
      have fits :
          ∀ (node : Node) added, amendment = .field added →
            node.isExtensible = true := by
        rintro node added rfl
        simpa [Amendment.fieldsOf] using noField added.isStatic
      simp only [nodeAt]
      split
      · cases node with
        | none =>
            rfl
        | some node =>
            have adds := Amendment.adds_apply (fits node)
            refine Prod.ext (funext fun isStatic => ?_) ?_
            · simpa [Node.members, noField] using adds.fields isStatic
            · simpa [Node.members, noMethod] using adds.methods
      · rfl
  | mention _ _ | file _ _ | found _ _ | claim _ _ | link _ _ | mark _ _
  | take =>
      exact others (by simp)

namespace Store

/-- A script that keeps members keeps those of every node. -/
theorem members_replay
    {script : List Change}
    (keeps : ∀ change ∈ script, change.KeepsMembers)
    (store : Store)
    (name : TypeName) :
    ((store.replay script).nodeOrBlank name).members =
      (store.nodeOrBlank name).members := by
  induction script generalizing store with
  | nil =>
      rfl
  | cons change script inductionHypothesis =>
      rw [replay_cons, inductionHypothesis fun other member =>
        keeps other (List.mem_cons_of_mem _ member)]
      unfold nodeOrBlank
      by_cases known : name ∈ store.names
      · rw [Change.node?_apply_of_mem known]
        exact Change.members_nodeAt (keeps change (by simp)) name _
      · have absent : store.node? name = none := by
          simp [node?, find?_eq_none_iff.mpr known]
        rw [Change.node?_apply_of_notMem known, absent]

/-! ## Parallel stores -/

/--
Two stores that differ in members only, and both have entries of some names. If
`fewer` holds, then all members in the first are members in the second.
-/
structure Parallels
    (fewer : Prop)
    (known : List TypeName)
    (store other : Store) :
    Prop where
  agrees : store.Agrees other
  within :
    fewer → ∀ name, (store.nodeOrBlank name).Within (other.nodeOrBlank name)
  present : ∀ name ∈ known, name ∈ store.names ∧ name ∈ other.names

namespace Parallels

variable {fewer : Prop} {known : List TypeName} {store other : Store}

/-- Two stores that are parallel are so over fewer names. -/
theorem mono
    (parallels : Parallels fewer known store other)
    {less : List TypeName}
    (subset : ∀ name ∈ less, name ∈ known) :
    Parallels fewer less store other :=
  { parallels with
    present := fun name member => parallels.present name (subset name member) }

/-- They are parallel over part of the names. -/
theorem of_append
    {more : List TypeName}
    (parallels : Parallels fewer (more ++ known) store other) :
    Parallels fewer known store other :=
  parallels.mono fun _ member => List.mem_append_right more member

/-- Both stores are changed alike. -/
theorem replay
    (parallels : Parallels fewer known store other)
    {script : List Change}
    (grounded : Grounded known script)
    (keeps : ∀ change ∈ script, change.KeepsMembers) :
    Parallels fewer (script.flatMap Change.introduces ++ known)
      (store.replay script) (other.replay script) := by
  refine ⟨parallels.agrees.replay
    (fun name member => (parallels.present name member).1)
    (fun name member => (parallels.present name member).2) grounded, ?_, ?_⟩
  · intro narrower name
    exact (parallels.within narrower name).congr
      (members_replay keeps store name) (members_replay keeps other name)
  · intro name member
    rw [mem_names_replay, mem_names_replay, ← List.mem_flatMap]
    rcases List.mem_append.mp member with introduced | old
    · exact ⟨Or.inr introduced, Or.inr introduced⟩
    · obtain ⟨here, there⟩ := parallels.present name old
      exact ⟨Or.inl here, Or.inl there⟩

/-- One change is made in both stores. -/
theorem apply
    (parallels : Parallels fewer known store other)
    (change : Change)
    (expected : ∀ name ∈ change.expects, name ∈ known)
    (keeps : change.KeepsMembers) :
    Parallels fewer (change.introduces ++ known) (change.apply store)
      (change.apply other) := by
  have changed :
      Parallels fewer ([change].flatMap Change.introduces ++ known)
        (store.replay [change]) (other.replay [change]) :=
    parallels.replay ⟨expected, trivial⟩ (by simpa using keeps)
  simpa using changed

/-- Both stores obtain members, and the first one no others than the second. -/
theorem obtain
    {onto : Element → α → α}
    {addition : α → Amendment}
    (unseen :
      ∀ member node, ((addition member).apply node).outline = node.outline)
    (adds :
      ∀ {node otherNode : Node} {few many : List α},
        node.Within otherNode → node.isExtensible = otherNode.isExtensible →
          Among onto few many →
            (few.foldl (fun node member => (addition member).apply node)
              node).Within
            (many.foldl (fun node member => (addition member).apply node)
              otherNode))
    (parallels : Parallels fewer known store other)
    {owner : TypeName}
    {drafts otherDrafts : List α}
    {after otherAfter : Store}
    (obtains : Obtains onto addition owner drafts store after)
    (otherObtains :
      Obtains onto addition owner otherDrafts other otherAfter)
    (more : fewer → drafts.Sublist otherDrafts) :
    Parallels fewer known after otherAfter := by
  obtain ⟨added, same, receives⟩ := obtains
  obtain ⟨otherAdded, otherSame, otherReceives⟩ := otherObtains
  refine ⟨?_, ?_, ?_⟩
  · have unseenAll :
        ∀ members : List α, ∀ amendment ∈ members.map addition, ∀ node,
          (amendment.apply node).outline = node.outline := by
      intro members amendment member node
      obtain ⟨draft, -, rfl⟩ := List.mem_map.mp member
      exact unseen draft node
    exact ((receives.agrees (unseenAll added)).trans
      parallels.agrees).trans (otherReceives.agrees (unseenAll otherAdded)).symm
  · intro narrower name
    have before := parallels.within narrower name
    have among : Among onto added otherAdded := by
      intro element
      rw [same element, otherSame element]
      exact (more narrower).map _
    simp only [nodeOrBlank, receives.node?_eq, otherReceives.node?_eq,
      List.foldl_map]
    split
    · rcases parallels.agrees.node?_cases name with
        ⟨here, there⟩ | ⟨node, otherNode, here, there, outlines⟩
      · simp only [nodeOrBlank, here, there] at before ⊢
        exact before
      · simp only [nodeOrBlank, here, there, Option.getD_some] at before
        have kind : node.isExtensible = otherNode.isExtensible := by
          rw [← node.isExtensible_outline, outlines,
            otherNode.isExtensible_outline]
        simp only [here, there, Option.map_some, Option.getD_some]
        exact adds before kind among
    · exact before
  · intro name member
    obtain ⟨here, there⟩ := parallels.present name member
    exact ⟨receives.mem_names here, otherReceives.mem_names there⟩

/--
Stores that obtain fields stay parallel if one obtains some of the other's.
-/
theorem obtainFields
    (parallels : Parallels fewer known store other)
    {owner : TypeName}
    {drafts otherDrafts : List Field}
    {after otherAfter : Store}
    (obtains : Obtains Field.onto .field owner drafts store after)
    (otherObtains :
      Obtains Field.onto .field owner otherDrafts other otherAfter)
    (more : fewer → drafts.Sublist otherDrafts) :
    Parallels fewer known after otherAfter :=
  parallels.obtain Amendment.outline_field
    (fun within kind among => within.addFields kind among) obtains
    otherObtains more

/--
Stores that obtain methods stay parallel if one obtains some of the other's.
-/
theorem obtainMethods
    (parallels : Parallels fewer known store other)
    {owner : TypeName}
    {drafts otherDrafts : List Method}
    {after otherAfter : Store}
    (obtains : Obtains Method.onto .method owner drafts store after)
    (otherObtains :
      Obtains Method.onto .method owner otherDrafts other otherAfter)
    (more : fewer → drafts.Sublist otherDrafts) :
    Parallels fewer known after otherAfter :=
  parallels.obtain Amendment.outline_method
    (fun within _ among => within.addMethods among) obtains otherObtains more

end Parallels

end Store

end TypeAtlas
