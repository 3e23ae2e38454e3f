import TypeAtlas.Proofs.Entering.HeaderScripts
import TypeAtlas.Proofs.Graph.Node

namespace TypeAtlas

/-!
# Building a hierarchy

Supertypes come into a store in two ways only: a superclass is linked, or an
interface is. Each of the two writes on two entries, that of the type and that
of the supertype, and each is one act. All other changes leave supertypes and
the references back from them alone.

A store is *built* by such acts, where every supertype is one that a
declaration names whose type was entered under the declaration's category.
-/

/-- The reverse references from a supertype to the types below it. -/
def Mark.IsLink : Mark → Prop
  | .subType _ => True
  | .implementer _ => True
  | _ => False

/-- The changes that leave supertypes and the references back alone. -/
def Change.LinksNothing : Change → Prop
  | .link _ _ => False
  | .mark _ added => ¬ added.IsLink
  | .amend _ (.interface _) => False
  | _ => True

namespace Store

/-- The type of a declaration was entered under the declaration's category. -/
def Entered
    (store : Store)
    (decl : ClassDecl) :
    Prop :=
  ∃ node,
    store.isVisited decl.name = true ∧
      store.node? decl.name = some node ∧
      node.category = decl.category

/--
One store becomes another by changes that link nothing, and by supertypes of
given declarations.
-/
inductive Builds (decls : List ClassDecl) : Store → Store → Prop where
  | refl (store : Store) :
      Builds decls store store
  | change
      {first last : Store}
      (change : Change) :
      change.LinksNothing →
      change.Allowed first →
      Builds decls (change.apply first) last →
      Builds decls first last
  | superclass
      {first last : Store}
      {decl : ClassDecl}
      {parent : TypeName} :
      decl ∈ decls →
      decl.superName = some parent →
      parent ≠ TypeName.root →
      decl.category.isExtensible = true →
      first.Entered decl →
      (Change.link decl.name parent).Allowed first →
      Builds decls (first.linked decl.name parent) last →
      Builds decls first last
  | interface
      {first last : Store}
      {decl : ClassDecl}
      {interface : TypeName} :
      decl ∈ decls →
      interface ∈ decl.interfaces →
      decl.category.isExtensible = true →
      first.Entered decl →
      Builds decls
        (first.linkInterface decl.name decl.category interface) last →
      Builds decls first last

namespace Builds

theorem trans
    {decls : List ClassDecl}
    {first middle last : Store}
    (earlier : Builds decls first middle)
    (later : Builds decls middle last) :
    Builds decls first last := by
  induction earlier with
  | refl =>
      exact later
  | change change free allowed _ inductionHypothesis =>
      exact .change change free allowed (inductionHypothesis later)
  | superclass member named tracked extensible entered allowed _
      inductionHypothesis =>
      exact .superclass member named tracked extensible entered allowed
        (inductionHypothesis later)
  | interface member named extensible entered _ inductionHypothesis =>
      exact .interface member named extensible entered
        (inductionHypothesis later)

/-- A store is built from more declarations as well. -/
theorem mono
    {decls more : List ClassDecl}
    (subset : ∀ decl ∈ decls, decl ∈ more)
    {first last : Store}
    (builds : Builds decls first last) :
    Builds more first last := by
  induction builds with
  | refl =>
      exact .refl _
  | change change free allowed _ inductionHypothesis =>
      exact .change change free allowed inductionHypothesis
  | superclass member named tracked extensible entered allowed _
      inductionHypothesis =>
      exact .superclass (subset _ member) named tracked extensible entered
        allowed inductionHypothesis
  | interface member named extensible entered _ inductionHypothesis =>
      exact .interface (subset _ member) named extensible entered
        inductionHypothesis

/-- A single change that links nothing. -/
theorem single
    {decls : List ClassDecl}
    {store : Store}
    (change : Change)
    (free : change.LinksNothing)
    (allowed : change.Allowed store) :
    Builds decls store (change.apply store) :=
  .change change free allowed (.refl _)

end Builds

/-! ## Links are made of changes -/

/-- A superclass is linked by changes that are allowed. -/
theorem linked_evolves
    {store : Store}
    {name parent : TypeName}
    (allowed : (Change.link name parent).Allowed store) :
    Evolves store (store.linked name parent) := by
  refine .step (.link name parent) allowed ?_
  dsimp only [linked]
  split
  · exact .single (.mark parent (.subType name)) trivial
  · exact .refl _

/-- An interface is linked by changes that are allowed. -/
theorem linkInterface_evolves
    (store : Store)
    (name : TypeName)
    (category : Category)
    (interface : TypeName) :
    Evolves store (store.linkInterface name category interface) := by
  rw [linkInterface_eq_replay]
  exact evolves_memberScript
    (headScript_interfaceScript name category interface).toMemberScript store

/-- Building is a run of changes that are allowed. -/
theorem Builds.evolves
    {decls : List ClassDecl}
    {first last : Store}
    (builds : Builds decls first last) :
    Evolves first last := by
  induction builds with
  | refl =>
      exact .refl _
  | change change _ allowed _ inductionHypothesis =>
      exact .step change allowed inductionHypothesis
  | superclass _ _ _ _ _ allowed _ inductionHypothesis =>
      exact (linked_evolves allowed).trans inductionHypothesis
  | interface _ _ _ _ _ inductionHypothesis =>
      exact (linkInterface_evolves _ _ _ _).trans inductionHypothesis

/-! ## Entered types stay entered -/

/-- A visited type stays visited. -/
theorem isVisited_apply_of_isVisited
    {store : Store}
    {name : TypeName}
    (visited : store.isVisited name = true)
    (change : Change) :
    (change.apply store).isVisited name = true := by
  simp only [isVisited, Change.find?_apply] at visited ⊢
  cases known : store.find? name with
  | none =>
      simp [known] at visited
  | some entry =>
      simp only [known, Option.any_some] at visited ⊢
      exact (change.visited_revise name entry).mpr (Or.inl visited)

/-- Visited types stay visited. -/
theorem Evolves.isVisited
    {first last : Store}
    (evolves : Evolves first last)
    {name : TypeName}
    (visited : first.isVisited name = true) :
    last.isVisited name = true := by
  induction evolves with
  | refl =>
      exact visited
  | step change _ _ inductionHypothesis =>
      exact inductionHypothesis (isVisited_apply_of_isVisited visited change)

/-- Only claiming its type changes the category of a node. -/
theorem category_nodeAt
    {change : Change}
    {name : TypeName}
    (unclaimed : ∀ category, change ≠ .claim name category)
    (node : Node) :
    ∃ after,
      change.nodeAt name (some node) = some after ∧
        after.category = node.category := by
  cases change with
  | mention _ _ | file _ _ | mark _ _ | take =>
      exact ⟨node, rfl, rfl⟩
  | found target category =>
      refine ⟨node, ?_, rfl⟩
      simp only [Change.nodeAt]
      split <;> simp
  | claim target category =>
      have elsewhere : name ≠ target := by
        rintro rfl
        exact unclaimed category rfl
      exact ⟨node, by simp [Change.nodeAt, elsewhere], rfl⟩
  | link target parent =>
      simp only [Change.nodeAt]
      split <;> split <;> simp
  | amend target amendment =>
      simp only [Change.nodeAt]
      split
      · exact ⟨amendment.apply node, rfl, (amendment.alike_apply node).category⟩
      · exact ⟨node, rfl, rfl⟩

/-- An allowed change leaves an entered type entered, under its category. -/
theorem Entered.apply
    {store : Store}
    {decl : ClassDecl}
    {change : Change}
    (entered : store.Entered decl)
    (allowed : change.Allowed store) :
    (change.apply store).Entered decl := by
  obtain ⟨node, visited, installed, category⟩ := entered
  have known : decl.name ∈ store.names :=
    mem_names_of_node? (by simp [installed])
  have still := isVisited_apply_of_isVisited visited change
  have after := Change.node?_apply_of_mem known change
  rw [installed] at after
  by_cases claims : ∃ requested, change = .claim decl.name requested
  · obtain ⟨requested, rfl⟩ := claims
    -- A visited node is only claimed under the category it has.
    obtain ⟨entry, claimed, found, -, here, fits⟩ := allowed
    have same : claimed = node := by
      simpa [node?, found, here] using installed
    have old : entry.visited = true := by
      simpa [isVisited, found] using visited
    refine ⟨{ node with category := requested }, still, ?_, ?_⟩
    · simpa [Change.nodeAt] using after
    · rcases fits with agrees | ⟨fresh, -⟩
      · rw [← category, ← same]
        exact agrees.symm
      · exact absurd old (by simp [fresh])
  · obtain ⟨next, changed, kept⟩ :=
      category_nodeAt (fun requested same => claims ⟨requested, same⟩) node
    exact ⟨next, still, after.trans changed, kept.trans category⟩

/-- The type of a declaration stays entered. -/
theorem Entered.evolves
    {first last : Store}
    {decl : ClassDecl}
    (entered : first.Entered decl)
    (evolves : Evolves first last) :
    last.Entered decl := by
  induction evolves with
  | refl =>
      exact entered
  | step change allowed _ inductionHypothesis =>
      exact inductionHypothesis (entered.apply allowed)

end Store

end TypeAtlas
