import TypeAtlas.Proofs.Entering.Merging
import TypeAtlas.Proofs.Entering.Problems

namespace TypeAtlas

/-!
# Accepted declarations

A declaration that is accepted claims the node of its type: a fresh one, a
placeholder that it takes over, or one that earlier declarations of the type
have left. What its visit makes of that node hangs on the node and on the
declaration, and on the rest of the atlas only in whether the superclass is
refused.
-/

/-- A declaration that was accepted, and the atlas that it was entered into. -/
structure Acceptance where
  source : Source
  before : Atlas

namespace Acceptance

def decl (acceptance : Acceptance) : ClassDecl :=
  acceptance.source.decl

/-- What the visit answers, and the atlas that it leaves. -/
def outcome (acceptance : Acceptance) : Option TypeName × Atlas :=
  acceptance.before.enter acceptance.decl acceptance.source.location
    acceptance.source.isApplication

/-- The problems that the visit reported. -/
def reported (acceptance : Acceptance) : List Problem :=
  acceptance.outcome.2.problems.drop acceptance.before.problems.length

/--
The superclass that the declaration names, unless it is the root type or was
refused because it inherits from the type.
-/
def superclass? (acceptance : Acceptance) : Option TypeName :=
  acceptance.decl.superName.filter fun parent =>
    parent ≠ TypeName.root ∧
      .cyclicInheritance acceptance.decl.name parent ∉ acceptance.reported

theorem isVisited_outcome
    (acceptance : Acceptance)
    (name : TypeName) :
    acceptance.outcome.2.store.isVisited name = true ↔
      acceptance.before.store.isVisited name = true ∨
        acceptance.outcome.1 = some name :=
  Visit.isVisited_accept acceptance.source.visit acceptance.before
    acceptance.decl name

end Acceptance

/-! ## Headers -/

namespace Visit

/-- The problem that supertypes lead to is that the superclass is refused. -/
theorem linkHeader_problem
    (decl : ClassDecl)
    (store : Store) :
    (linkHeader decl store).2 = none ∨
      ∃ parent,
        decl.superName = some parent ∧
          (linkHeader decl store).2 =
            some (.cyclicInheritance decl.name parent) := by
  unfold linkHeader
  split
  · rw [Store.linkSupertypes_eq]
    rcases store.linkSuperclass_cases decl with
      ⟨-, -, none⟩ | ⟨parent, named, -, refused⟩ | ⟨_, -, -, -, -, none⟩
    · exact Or.inl none
    · exact Or.inr ⟨parent, named, refused⟩
    · exact Or.inl none
  · exact Or.inl rfl

/-- A type is claimed under its category, or as a placeholder of its kind. -/
theorem claim_allowed_iff
    {store : Store}
    {decl : ClassDecl} :
    (Change.claim decl.name decl.category).Allowed
        (store.replay (founding decl)) ↔
      let node :=
        (store.node? decl.name).getD (Node.ofCategory decl.category)
      node.category = decl.category ∨
        store.isVisited decl.name = false ∧
          node.isExtensible = decl.category.isExtensible := by
  obtain ⟨entry, node, found, filed, installed⟩ := find?_founding store decl
  have visited := isVisited_founding store decl
  have here : (store.replay (founding decl)).node? decl.name = some node := by
    simp [Store.node?, found, installed]
  rw [Store.node?_replay (by simp) (grounded_founding decl)] at here
  have same :
      (store.node? decl.name).getD (Node.ofCategory decl.category) = node := by
    cases before : store.node? decl.name <;>
      simpa [founding, Change.nodeAt, before] using here
  simp only [Store.isVisited, found, Option.any_some] at visited
  simp only [same, Store.isVisited, ← visited, Change.Allowed, found,
    Option.some.injEq]
  constructor
  · rintro ⟨_, other, rfl, -, present, fits⟩
    rw [installed, Option.some.injEq] at present
    rw [present]
    exact fits
  · exact fun fits => ⟨entry, node, rfl, filed, installed, fits⟩

end Visit

namespace Acceptance

/-- The store after the supertypes of the declaration, and their problem. -/
def linked (acceptance : Acceptance) : Store × Option Problem :=
  Visit.linkHeader acceptance.decl
    (acceptance.before.store.replay
      (acceptance.source.visit.opening acceptance.decl))

/-- The atlas after the header of the declaration. -/
def headed (acceptance : Acceptance) : Atlas :=
  { acceptance.before with
    store := acceptance.linked.1
    problems := acceptance.before.problems ++ acceptance.linked.2.toList }

/-- The node that the header of the declaration adds to. -/
def claimed (acceptance : Acceptance) : Node :=
  let decl := acceptance.decl
  { (acceptance.before.store.node? decl.name).getD
      (Node.ofCategory decl.category) with
    category := decl.category }

/-- A declaration that is accepted claims its type, and its body is entered. -/
theorem outcome_eq
    {acceptance : Acceptance}
    {name : TypeName}
    (accepted : acceptance.outcome.1 = some name) :
    acceptance.decl.name = name ∧
      (Change.claim acceptance.decl.name acceptance.decl.category).Allowed
        (acceptance.before.store.replay (Visit.founding acceptance.decl)) ∧
      acceptance.outcome.2 =
        (Visit.enterBody acceptance.decl
          (acceptance.source.visit.headed acceptance.before acceptance.decl,
            acceptance.headed)).2 := by
  have entering :
      acceptance.outcome =
        acceptance.source.visit.accept acceptance.before acceptance.decl :=
    rfl
  refine ⟨Visit.name_of_accept accepted, ?_⟩
  rw [entering, Visit.accept_eq] at accepted ⊢
  split at accepted
  · simp at accepted
  · next tracked =>
      rw [if_neg tracked]
      rcases Visit.header_cases acceptance.source.visit acceptance.before
          acceptance.decl with
        ⟨problem, refused⟩ | ⟨-, -, problem, refused⟩ |
          ⟨-, claimed, entered⟩
      · simp [refused] at accepted
      · simp [refused] at accepted
      · rw [entered]
        exact ⟨claimed, rfl⟩

/-- A declaration that is accepted reports its superclass, if it is refused. -/
theorem problems_outcome
    {acceptance : Acceptance}
    {name : TypeName}
    (accepted : acceptance.outcome.1 = some name) :
    ∃ kept : List Problem,
      acceptance.outcome.2.problems =
          acceptance.before.problems ++ (acceptance.linked.2.toList ++ kept) ∧
        ∀ problem ∈ kept, problem.IsMinor := by
  obtain ⟨-, -, entered⟩ := outcome_eq accepted
  obtain ⟨kept, problems, minor⟩ := Visit.enterBody_meetsMinor
    acceptance.decl
    (acceptance.source.visit.headed acceptance.before acceptance.decl,
      acceptance.headed)
  refine ⟨kept, ?_, minor⟩
  rw [entered, problems]
  simp [headed]

theorem linked_problem
    (acceptance : Acceptance) :
    acceptance.linked.2 = none ∨
      ∃ parent,
        acceptance.decl.superName = some parent ∧
          acceptance.linked.2 =
            some (.cyclicInheritance acceptance.decl.name parent) :=
  Visit.linkHeader_problem acceptance.decl _

/-- The superclass that counts is the one that the header takes on. -/
theorem superclass?_eq
    {acceptance : Acceptance}
    {name : TypeName}
    (accepted : acceptance.outcome.1 = some name) :
    acceptance.superclass? =
      acceptance.decl.taken? acceptance.linked.2 := by
  obtain ⟨kept, problems, minor⟩ := problems_outcome accepted
  have reported :
      acceptance.reported = acceptance.linked.2.toList ++ kept := by
    simp [reported, problems]
  have other :
      ∀ parent, .cyclicInheritance acceptance.decl.name parent ∉ kept :=
    fun parent member => minor _ member
  rcases acceptance.linked_problem with none | ⟨parent, named, refused⟩
  · simp [superclass?, reported, none, other, ClassDecl.taken?]
  · simp [superclass?, reported, refused, named, ClassDecl.taken?,
      Option.filter_some]

/-- The node that a header adds to is of the kind that the category asks for. -/
theorem isExtensible_claimed
    {acceptance : Acceptance}
    {name : TypeName}
    (wellFormed : acceptance.before.store.WellFormed)
    (accepted : acceptance.outcome.1 = some name) :
    acceptance.claimed.isExtensible =
      acceptance.decl.category.isExtensible := by
  obtain ⟨-, claimed, -⟩ := outcome_eq accepted
  have kind :
      ((acceptance.before.store.node? acceptance.decl.name).getD
        (Node.ofCategory acceptance.decl.category)).isExtensible =
        acceptance.decl.category.isExtensible := by
    rcases Visit.claim_allowed_iff.mp claimed with category | ⟨-, kind⟩
    · cases installed :
          acceptance.before.store.node? acceptance.decl.name with
      | none =>
          simp
      | some node =>
          rw [installed] at category
          rw [Option.getD_some, wellFormed.isExtensible_node installed]
          exact congrArg Category.isExtensible category
    · exact kind
  exact kind

/-- The header adds the origin and the supertypes to the node. -/
theorem node?_headed
    {acceptance : Acceptance}
    {name : TypeName}
    (wellFormed : acceptance.before.store.WellFormed)
    (accepted : acceptance.outcome.1 = some name) :
    acceptance.headed.store.node? acceptance.decl.name =
      some ((acceptance.source.visit.noteOrigin
        acceptance.claimed).updateLineage
          (·.extend acceptance.superclass? acceptance.decl)) := by
  have opened := acceptance.source.visit.node?_opening acceptance.decl
    acceptance.before.store
  have kind :
      (acceptance.source.visit.noteOrigin acceptance.claimed).isExtensible =
        acceptance.decl.category.isExtensible :=
    (Amendment.alike_apply (.origin acceptance.source.visit)
      acceptance.claimed).isExtensible.trans
      (isExtensible_claimed wellFormed accepted)
  rw [superclass?_eq accepted]
  exact Visit.node?_linkHeader opened kind

/-! ## First visits -/

/-- The declaration is the first of its name that is accepted. -/
structure IsFirst
    (settings : Settings)
    (name : TypeName)
    (acceptance : Acceptance) :
    Prop where
  accepted : acceptance.outcome.1 = some name
  settings : acceptance.before.settings = settings
  wellFormed : acceptance.before.store.WellFormed
  unvisited : acceptance.before.store.isVisited name = false
  placeholder :
    ∀ node, acceptance.before.store.node? name = some node →
      node = Node.ofCategory .classType

namespace IsFirst

/-- A placeholder is taken over as if it had not been there. -/
theorem claimed_eq
    {settings : Settings}
    {name : TypeName}
    {acceptance : Acceptance}
    (first : acceptance.IsFirst settings name) :
    acceptance.claimed = Node.ofCategory acceptance.decl.category := by
  have kind := isExtensible_claimed first.wellFormed first.accepted
  obtain ⟨rfl, -, -⟩ := outcome_eq first.accepted
  cases installed :
      acceptance.before.store.node? acceptance.decl.name with
  | none =>
      simp only [claimed, installed, Option.getD_none]
      rfl
  | some node =>
      have blank := first.placeholder node installed
      simp only [claimed, installed, Option.getD_some, blank] at kind ⊢
      exact Node.ofCategory_with
        ((Node.isExtensible_ofCategory .classType).symm.trans kind)

/-- A first visit leaves what its header says, and the members. -/
theorem bare_eq
    {settings : Settings}
    {name : TypeName}
    {acceptance : Acceptance}
    (first : acceptance.IsFirst settings name) :
    ∃ node,
      acceptance.outcome.2.store.node? name = some node ∧
        node.bare =
          ((acceptance.source.visit.noteOrigin
            (Node.ofCategory acceptance.decl.category)).updateLineage
              (·.extend acceptance.superclass? acceptance.decl)).bare := by
  have headed := node?_headed first.wellFormed first.accepted
  rw [first.claimed_eq] at headed
  obtain ⟨rfl, -, entered⟩ := outcome_eq first.accepted
  rw [entered]
  exact Visit.node?_enterBody
    (Visit.headed_staysOn acceptance.source.visit acceptance.before
      acceptance.decl)
    acceptance.headed acceptance.decl headed

/-- Up to the superclass, the header of a first visit leaves one node. -/
theorem orphan?_headed
    {settings : Settings}
    {name : TypeName}
    {acceptance : Acceptance}
    (first : acceptance.IsFirst settings name) :
    acceptance.headed.store.orphan? name =
      some ((acceptance.source.visit.noteOrigin
        (Node.ofCategory acceptance.decl.category)).updateLineage
          (·.extend none acceptance.decl)).orphan := by
  have claimed := first.claimed_eq
  have headed := node?_headed first.wellFormed first.accepted
  obtain ⟨rfl, -, -⟩ := outcome_eq first.accepted
  rw [Store.orphan?, headed, claimed, Option.map_some]
  simp only [Node.orphan, Node.updateLineage_updateLineage]
  rfl

/-- A first visit enters the same members wherever it is made. -/
theorem orphan?_eq
    {settings : Settings}
    {name : TypeName}
    {source : Source}
    {before other : Atlas}
    (first : (Acceptance.mk source before).IsFirst settings name)
    (likewise : (Acceptance.mk source other).IsFirst settings name) :
    (Acceptance.mk source before).outcome.2.store.orphan? name =
      (Acceptance.mk source other).outcome.2.store.orphan? name := by
  have headed := first.orphan?_headed.trans likewise.orphan?_headed.symm
  have settingsSame : before.settings = other.settings :=
    first.settings.trans likewise.settings.symm
  obtain ⟨rfl, -, entered⟩ := outcome_eq first.accepted
  obtain ⟨-, -, alsoEntered⟩ := outcome_eq likewise.accepted
  have visitsSame :
      source.visit.headed other source.decl =
        source.visit.headed before source.decl := by
    have unvisited : before.store.isVisited source.decl.name = false :=
      first.unvisited
    have alsoUnvisited : other.store.isVisited source.decl.name = false :=
      likewise.unvisited
    simp only [Visit.headed, settingsSame, unvisited, alsoUnvisited]
  rw [entered, alsoEntered]
  simp only [decl] at headed ⊢
  rw [visitsSame]
  exact Visit.orphan?_enterBody
    (Visit.headed_staysOn source.visit before source.decl) source.decl
    settingsSame headed

end IsFirst

/-- A declaration that is accepted somewhere is accepted by an empty store. -/
theorem isFirst_alone
    (settings : Settings)
    {acceptance : Acceptance}
    {name : TypeName}
    (accepted : acceptance.outcome.1 = some name) :
    (Acceptance.mk acceptance.source { settings := settings }).IsFirst
      settings name := by
  have tracked : acceptance.decl.name ≠ TypeName.root := by
    intro isRoot
    have passed : acceptance.outcome.1 = none := by
      simp [outcome, Atlas.enter, Visit.accept_eq, isRoot]
    rw [passed] at accepted
    exact absurd accepted (by simp)
  obtain ⟨rfl, -, -⟩ := outcome_eq accepted
  have filed :
      (Change.file acceptance.decl.name acceptance.decl.category).Allowed
        ({} : Store) :=
    ⟨tracked, fun node visited => by
      simp [Store.visitedNode?, Store.find?] at visited⟩
  have fresh : acceptance.source.visit.progress = .start := rfl
  have opened :
      acceptance.source.visit.header { settings := settings }
        acceptance.decl = _ :=
    Visit.header_of_claimed fresh filed (Visit.claim_allowed_of_absent rfl)
  refine ⟨?_, rfl, Store.wellFormed_empty, rfl, fun node installed => ?_⟩
  · have entering :
        (Acceptance.mk acceptance.source { settings := settings }).outcome =
          acceptance.source.visit.accept { settings := settings }
            acceptance.decl :=
      rfl
    rw [entering, Visit.accept_eq, if_neg tracked]
    simp only [opened]
  · exact absurd installed (by simp [Store.node?, Store.find?])

/-! ## Further visits -/

/-- A further visit adds what its header says to the node. -/
theorem node?_further
    {acceptance : Acceptance}
    {name : TypeName}
    {node : Node}
    (wellFormed : acceptance.before.store.WellFormed)
    (accepted : acceptance.outcome.1 = some name)
    (visited : acceptance.before.store.isVisited name = true)
    (here : acceptance.before.store.node? name = some node) :
    acceptance.outcome.2.store.node? name =
      some ((acceptance.source.visit.noteOrigin node).updateLineage
        (·.extend acceptance.superclass? acceptance.decl)) := by
  have headed := node?_headed wellFormed accepted
  obtain ⟨rfl, claimed, entered⟩ := outcome_eq accepted
  have same : acceptance.claimed = node := by
    rcases Visit.claim_allowed_iff.mp claimed with category | ⟨fresh, -⟩
    · simp only [here, Option.getD_some] at category
      simp only [Acceptance.claimed, here, Option.getD_some, ← category]
    · rw [visited] at fresh
      exact absurd fresh (by simp)
  rw [entered, Visit.enterBody_idle rfl visited, headed, same]

end Acceptance

end TypeAtlas
