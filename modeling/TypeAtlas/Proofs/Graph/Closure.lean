import TypeAtlas.Proofs.Graph.Heading
import TypeAtlas.Proofs.Store.Populating

namespace TypeAtlas

/-!
# Closure under references

Nodes take on references only from what is added to them, and what is added
refers only to what has an entry or needs none. So in a store that was
populated step by step every reference in a node comes from an origin, and has
an entry if it is tracked.
-/

/-! ## References of nodes -/

/-- What is there after items were added was there before, or is one of them. -/
theorem mem_of_mem_addNew
    {same : α → α → Bool}
    {known items : List α}
    {item : α}
    (member : item ∈ addNew same known items) :
    item ∈ known ∨ item ∈ items := by
  induction items generalizing known with
  | nil =>
      exact Or.inl member
  | cons first items inductionHypothesis =>
      simp only [addNew, List.foldl_cons] at member
      split at member
      · rcases inductionHypothesis member with old | new
        · exact Or.inl old
        · exact Or.inr (List.mem_cons_of_mem _ new)
      · rcases inductionHypothesis member with old | new
        · rcases List.mem_append.mp old with older | added
          · exact Or.inl older
          · exact Or.inr (by simp [List.mem_singleton.mp added])
        · exact Or.inr (List.mem_cons_of_mem _ new)

/-- So it is for the parts of the items. -/
theorem mem_flatMap_addNew
    (same : α → α → Bool)
    (parts : α → List β)
    (known items : List α) :
    ∀ part ∈ (addNew same known items).flatMap parts,
      part ∈ known.flatMap parts ∨ part ∈ items.flatMap parts := by
  intro part member
  obtain ⟨item, among, inside⟩ := List.mem_flatMap.mp member
  rcases mem_of_mem_addNew among with old | new
  · exact Or.inl (List.mem_flatMap.mpr ⟨item, old, inside⟩)
  · exact Or.inr (List.mem_flatMap.mpr ⟨item, new, inside⟩)

namespace Node

/-- A placeholder refers to nothing. -/
@[simp] theorem references_ofCategory
    (category : Category) :
    (ofCategory category).references = [] := by
  cases category <;> rfl

/-- What is done to the supertypes and fields adds references to these. -/
theorem references_updateLineage
    {added : Reference → Prop}
    {change : Lineage → Lineage}
    (grows :
      ∀ lineage, ∀ reference ∈ (change lineage).references,
        reference ∈ lineage.references ∨ added reference)
    (node : Node) :
    ∀ reference ∈ (node.updateLineage change).references,
      reference ∈ node.references ∨ added reference := by
  obtain ⟨category, locations, isApplication, annotations, methods, body⟩ :=
    node
  intro reference member
  cases body with
  | annotationType defaults =>
      exact Or.inl member
  | extensible lineage =>
      simp only [updateLineage, references, Node.lineage, Node.defaults,
        List.mem_append] at member ⊢
      rcases member with ((inLineage | others) | others) | others
      · rcases grows lineage reference inLineage with old | new
        · exact Or.inl (Or.inl (Or.inl (Or.inl old)))
        · exact Or.inr new
      · exact Or.inl (Or.inl (Or.inl (Or.inr others)))
      · exact Or.inl (Or.inl (Or.inr others))
      · exact Or.inl (Or.inr others)

/-- A superclass brings the reference to it and no other. -/
theorem references_setParent
    (node : Node)
    (parent : Reference) :
    ∀ reference ∈ (node.setParent parent).references,
      reference ∈ node.references ∨ reference = parent := by
  refine references_updateLineage (fun lineage reference member => ?_) node
  simp only [Lineage.references, List.mem_append] at member ⊢
  have parents :
      reference ∈ (lineage.parent <|> some parent).toList →
        reference ∈ lineage.parent.toList ∨ reference = parent := by
    cases lineage.parent with
    | none =>
        exact fun chosen => Or.inr (List.mem_singleton.mp chosen)
    | some known =>
        exact Or.inl
  tauto

end Node

/-- An addition brings in no other references than its own. -/
theorem Amendment.references_apply
    (amendment : Amendment)
    (node : Node) :
    ∀ reference ∈ (amendment.apply node).references,
      reference ∈ node.references ∨ reference ∈ amendment.references := by
  cases amendment with
  | origin visit =>
      intro reference member
      rw [apply, Visit.noteOrigin_eq] at member
      exact Or.inl member
  | interface name =>
      refine Node.references_updateLineage
        (fun lineage reference member => ?_) node
      split at member
      · exact Or.inl member
      · simp only [Lineage.references, List.mem_append, references] at member ⊢
        tauto
  | generics said =>
      rw [generics_apply]
      refine Node.references_updateLineage
        (fun lineage reference member => ?_) node
      simp only [Lineage.addGenerics, Lineage.references, List.mem_append,
        Formals.references, references] at member ⊢
      have parents :
          reference ∈
              (lineage.genericParent <|> said.superclass).toList.flatMap
                (·.references) →
            reference ∈ lineage.genericParent.toList.flatMap (·.references) ∨
              reference ∈ said.superclass.toList.flatMap (·.references) := by
        cases lineage.genericParent with
        | none =>
            exact Or.inr
        | some known =>
            exact Or.inl
      have interfaces :=
        mem_flatMap_addNew Generic.same (·.references)
          lineage.genericInterfaces said.interfaces reference
      have formals :=
        mem_flatMap_addNew sameFormal (·.2.references)
          lineage.formals said.formals reference
      grind only
  | use added =>
      intro reference member
      simp only [apply, Node.addUse, Node.references, List.mem_append,
        List.flatMap_append, List.flatMap_singleton, references,
        Node.lineage, Node.defaults] at member ⊢
      tauto
  | field added =>
      refine Node.references_updateLineage
        (fun lineage reference member => ?_) node
      split at member
      all_goals
        simp only [Lineage.references, List.mem_append, List.flatMap_append,
          List.flatMap_singleton, references] at member ⊢
        tauto
  | method added =>
      intro reference member
      simp only [apply, Node.addMethod, Node.references, List.mem_append,
        List.flatMap_append, List.flatMap_singleton, references,
        Node.lineage, Node.defaults] at member ⊢
      tauto
  | default key value =>
      intro reference member
      obtain ⟨category, locations, isApplication, annotations, methods, body⟩ :=
        node
      cases body with
      | extensible lineage =>
          exact Or.inl member
      | annotationType defaults =>
          simp only [apply, Node.addDefault, Values.insertNew] at member
          split at member
          · exact Or.inl member
          · simp only [Node.references, List.mem_append, Node.defaults,
              Node.lineage, List.flatMap_append, List.flatMap_singleton,
              references] at member ⊢
            tauto

/-! ## References of a store -/

/-- A change that adds to no node brings in at most a superclass. -/
theorem Change.references_nodeAt
    {origins : List Origin}
    {change : Change}
    (plain : change.Plain origins)
    {name : TypeName}
    {before : Option Node}
    {node : Node}
    (changed : change.nodeAt name before = some node) :
    ∀ reference ∈ node.references,
      (∃ old, before = some old ∧ reference ∈ old.references) ∨
        ∃ parent, change = .link name parent ∧
          reference = Reference.toType parent := by
  intro reference member
  have founded :
      ∀ category {after : Node},
        (before <|> some (Node.ofCategory category)) = some after →
          reference ∈ after.references →
          ∃ old, before = some old ∧ reference ∈ old.references := by
    intro category after ensured inside
    cases before with
    | none =>
        obtain rfl : Node.ofCategory category = after := by simpa using ensured
        simp at inside
    | some old =>
        obtain rfl : old = after := by simpa using ensured
        exact ⟨old, rfl, inside⟩
  cases change with
  | mention _ _ | file _ _ | mark _ _ | take =>
      exact Or.inl ⟨node, changed, member⟩
  | found target category =>
      simp only [nodeAt] at changed
      split at changed
      · exact Or.inl (founded category changed member)
      · exact Or.inl ⟨node, changed, member⟩
  | claim target category =>
      simp only [nodeAt] at changed
      split at changed
      · obtain ⟨old, rfl, rfl⟩ := Option.map_eq_some_iff.mp changed
        exact Or.inl ⟨old, rfl, member⟩
      · exact Or.inl ⟨node, changed, member⟩
  | link target parent =>
      -- The parent may get a node, and the type itself gets the parent.
      simp only [nodeAt] at changed
      have middle :
          ∀ between,
            (if name = parent then
              before <|> some (Node.ofCategory .classType)
            else
              before) = some between →
              reference ∈ between.references →
              ∃ old, before = some old ∧ reference ∈ old.references := by
        intro between ensured inside
        split at ensured
        · exact founded .classType ensured inside
        · exact ⟨between, ensured, inside⟩
      split at changed
      · next here =>
          obtain ⟨between, ensured, rfl⟩ := Option.map_eq_some_iff.mp changed
          rcases between.references_setParent _ reference member with
            old | new
          · exact Or.inl (middle between ensured old)
          · exact Or.inr ⟨parent, by rw [here], new⟩
      · exact Or.inl (middle node changed member)
  | amend target amendment =>
      exact plain.elim

namespace Store

/-- Every reference in a node is accounted for. -/
def Closed
    (origins : List Origin)
    (store : Store) :
    Prop :=
  ∀ name node, store.node? name = some node →
    ∀ reference ∈ node.references, store.Admits origins reference

namespace Closed

variable {origins : List Origin} {store : Store}

/-- The empty store refers to nothing. -/
theorem empty :
    Closed origins {} := by
  intro name node installed
  simp [node?, find?] at installed

/-- A plain change brings no reference that is not accounted for. -/
theorem apply
    {change : Change}
    (closed : store.Closed origins)
    (plain : change.Plain origins)
    (allowed : change.Allowed store) :
    (change.apply store).Closed origins := by
  intro name node installed reference member
  by_cases known : name ∈ store.names
  · rw [Change.node?_apply_of_mem known] at installed
    rcases Change.references_nodeAt plain installed reference member with
      ⟨old, before, inside⟩ | ⟨parent, rfl, rfl⟩
    · exact (closed name old before reference inside).replay [change]
    · refine Admits.replay ⟨fun _ => allowed.1, ?_⟩ [.link name parent]
      exact ⟨.supertype parent, plain, rfl⟩
  · rw [Change.node?_apply_of_notMem known] at installed
    simp at installed

/-- An addition brings no reference that is not accounted for. -/
theorem furnish
    {decl : ClassDecl}
    {amendment : Amendment}
    (closed : store.Closed origins)
    (suits : store.Suits origins decl amendment) :
    (store.furnish decl.name amendment).Closed origins := by
  intro name node installed reference member
  have still :
      store.Admits origins reference →
        (store.furnish decl.name amendment).Admits origins reference :=
    fun admits => admits.replay _
  apply still
  rw [node?_furnish] at installed
  split at installed
  · obtain ⟨old, before, rfl⟩ := Option.map_eq_some_iff.mp installed
    rcases amendment.references_apply old reference member with inside | new
    · exact closed name old before reference inside
    · exact suits.admitted reference new
  · exact closed name node installed reference member

end Closed

/-- Whatever populates a store keeps it closed. -/
theorem Populates.closed
    {origins : List Origin}
    {first last : Store}
    (populates : Populates origins first last)
    (closed : first.Closed origins) :
    last.Closed origins := by
  induction populates with
  | refl =>
      exact closed
  | change change plain allowed _ inductionHypothesis =>
      exact inductionHypothesis (closed.apply plain allowed)
  | furnish decl amendment suits _ inductionHypothesis =>
      exact inductionHypothesis (closed.furnish suits)

end Store

end TypeAtlas
