import TypeAtlas.Proofs.Graph.Reach
import TypeAtlas.Proofs.Store.WellFormed

namespace TypeAtlas.Store

/-!
# Lineages

Following superclasses from any type, declared or not, comes to an end: no
name is met twice, and the last one has no superclass. Superclasses are linked
late and in any order, and the check for cycles only walks the links that are
there; that is enough because every superclass has a node from the moment it is
linked, so no link is missed.
-/

/-- The superclass that a node refers to, if there is a node. -/
def parentNamed? (node : Option Node) : Option TypeName :=
  (node.bind (·.lineage.parent)).map (·.name)

/-- The superclass that the node of a type refers to. -/
def parentName?
    (store : Store)
    (name : TypeName) :
    Option TypeName :=
  parentNamed? (store.node? name)

/-- One type has another as its superclass. -/
def Extends
    (store : Store)
    (child parent : TypeName) :
    Prop :=
  store.parentName? child = some parent

/-- The names met by following superclasses, up to one that has none. -/
inductive Ancestry (store : Store) : TypeName → List TypeName → Prop where
  | top {name : TypeName} :
      store.parentName? name = none →
      Ancestry store name [name]
  | up {name parent : TypeName} {chain : List TypeName} :
      store.parentName? name = some parent →
      Ancestry store parent chain →
      Ancestry store name (name :: chain)

/-! ## Chains of superclasses -/

namespace Ancestry

theorem unique
    {store : Store}
    {name : TypeName}
    {first second : List TypeName}
    (one : Ancestry store name first)
    (other : Ancestry store name second) :
    first = second := by
  induction one generalizing second with
  | top last =>
      cases other with
      | top _ =>
          rfl
      | up parent _ =>
          rw [last] at parent
          exact absurd parent (by simp)
  | up parent _ inductionHypothesis =>
      cases other with
      | top last =>
          rw [last] at parent
          exact absurd parent (by simp)
      | up same rest =>
          rw [parent, Option.some.injEq] at same
          subst same
          rw [inductionHypothesis rest]

/-- The chain of a name that is met on the way is part of the chain. -/
theorem of_mem
    {store : Store}
    {name met : TypeName}
    {chain : List TypeName}
    (ancestry : Ancestry store name chain)
    (member : met ∈ chain) :
    ∃ rest, Ancestry store met rest ∧ rest.length ≤ chain.length := by
  induction ancestry with
  | top last =>
      rw [List.mem_singleton.mp member]
      exact ⟨_, .top last, Nat.le_refl _⟩
  | up parent rest inductionHypothesis =>
      rcases List.mem_cons.mp member with rfl | later
      · exact ⟨_, .up parent rest, Nat.le_refl _⟩
      · obtain ⟨part, ancestry, shorter⟩ := inductionHypothesis later
        exact ⟨part, ancestry, Nat.le_succ_of_le shorter⟩

/-- A chain that ends meets no name twice. -/
theorem nodup
    {store : Store}
    {name : TypeName}
    {chain : List TypeName}
    (ancestry : Ancestry store name chain) :
    chain.Nodup := by
  induction ancestry with
  | top _ =>
      simp
  | up parent rest inductionHypothesis =>
      refine List.nodup_cons.mpr ⟨fun again => ?_, inductionHypothesis⟩
      -- Otherwise the chain would be a part of itself, and shorter.
      obtain ⟨part, ancestry, shorter⟩ := rest.of_mem again
      have same := ancestry.unique (.up parent rest)
      rw [same, List.length_cons] at shorter
      omega

theorem reachable
    {store : Store}
    {name met : TypeName}
    {chain : List TypeName}
    (ancestry : Ancestry store name chain)
    (member : met ∈ chain) :
    Relation.ReflTransGen store.Extends name met := by
  induction ancestry with
  | top _ =>
      rw [List.mem_singleton.mp member]
  | up parent _ inductionHypothesis =>
      rcases List.mem_cons.mp member with rfl | later
      · exact .refl
      · exact .head parent (inductionHypothesis later)

/-- A chain stays where the links of its members stay. -/
theorem congr
    {before after : Store}
    {name : TypeName}
    {chain : List TypeName}
    (ancestry : Ancestry before name chain)
    (same :
      ∀ met ∈ chain, after.parentName? met = before.parentName? met) :
    Ancestry after name chain := by
  induction ancestry with
  | top last =>
      exact .top ((same _ (by simp)).trans last)
  | up parent _ inductionHypothesis =>
      refine .up ((same _ (by simp)).trans parent)
        (inductionHypothesis fun met member => ?_)
      exact same met (List.mem_cons_of_mem _ member)

end Ancestry

/-! ## The check for cycles -/

theorem mem_parentOf_iff
    {store : Store}
    {child parent : TypeName} :
    parent ∈ store.parentOf child ↔
      store.Extends child parent ∧ (store.node? parent).isSome := by
  simp only [parentOf, Extends, parentName?, parentNamed?]
  cases (store.node? child).bind (·.lineage.parent) with
  | none =>
      simp
  | some reference =>
      simp only [Option.map_some, Option.some.injEq]
      split
      · next installed =>
          constructor
          · intro member
            rw [List.mem_singleton.mp member]
            exact ⟨rfl, installed⟩
          · rintro ⟨rfl, -⟩
            simp
      · next missing =>
          constructor
          · simp
          · rintro ⟨rfl, installed⟩
            exact absurd installed missing

/-- The check for cycles finds every chain of linked superclasses. -/
theorem inheritsFrom_iff
    {store : Store}
    {start name : TypeName} :
    store.inheritsFrom start name = true ↔
      (store.node? start).isSome ∧
        Relation.ReflTransGen (Leads store.parentOf) start name := by
  have leads :
      ∀ child parent, parent ∈ store.parentOf child →
        child ∈ store.names := by
    intro child parent member
    have linked := (mem_parentOf_iff.mp member).1
    apply mem_names_of_node?
    by_contra missing
    simp only [Option.not_isSome_iff_eq_none] at missing
    simp [Extends, parentName?, parentNamed?, missing] at linked
  simp only [inheritsFrom, Bool.and_eq_true, List.contains_iff_mem,
    mem_closure_iff leads, List.mem_singleton, exists_eq_left]

/-! ## Lineages end -/

/-- Superclasses can be followed to an end, and each of them has a node. -/
structure Founded (store : Store) : Prop where
  ends : ∀ name, ∃ chain, Ancestry store name chain
  installed :
    ∀ child parent, store.Extends child parent →
      (store.node? parent).isSome

theorem parentNamed?_orElse
    (node : Option Node)
    (category : Category) :
    parentNamed? (node <|> some (Node.ofCategory category)) =
      parentNamed? node := by
  cases node <;> simp [parentNamed?]

/-- A node takes on a superclass only if it has none. -/
theorem parentNamed?_setParent
    (node : Option Node)
    (parent : TypeName) :
    parentNamed? (node.map (·.setParent (Reference.toType parent))) =
        parentNamed? node ∨
      parentNamed? node = none ∧
        parentNamed? (node.map (·.setParent (Reference.toType parent))) =
          some parent := by
  cases node with
  | none =>
      exact Or.inl rfl
  | some node =>
      simp only [parentNamed?, Option.map_some, Option.bind_some,
        Node.parent_setParent]
      by_cases extensible : node.isExtensible = true
      · cases node.lineage.parent <;>
          simp [extensible, Reference.toType]
      · have none : node.lineage.parent = none := by
          obtain ⟨_, _, _, _, _, body⟩ := node
          cases body with
          | extensible lineage =>
              exact absurd rfl extensible
          | annotationType defaults =>
              rfl
        simp [extensible, none]

/-- A change gives no node a superclass unless it links its type to one. -/
theorem parentNamed?_nodeAt
    (change : Change)
    (name : TypeName)
    (node : Option Node) :
    parentNamed? (change.nodeAt name node) = parentNamed? node ∨
      ∃ parent,
        change = .link name parent ∧
          parentNamed? node = none ∧
          parentNamed? (change.nodeAt name node) = some parent := by
  cases change with
  | mention _ _ | file _ _ | mark _ _ | take =>
      exact Or.inl rfl
  | found target category =>
      left
      simp only [Change.nodeAt]
      split
      · exact parentNamed?_orElse _ category
      · rfl
  | claim target category =>
      left
      simp only [Change.nodeAt]
      split
      · cases node <;> rfl
      · rfl
  | amend target amendment =>
      left
      simp only [Change.nodeAt]
      split
      · cases node with
        | none =>
            rfl
        | some node =>
            simp [parentNamed?, (amendment.alike_apply node).parent]
      · rfl
  | link target parent =>
      simp only [Change.nodeAt]
      have founded :
          parentNamed?
              (if name = parent then
                node <|> some (Node.ofCategory .classType)
              else
                node) =
            parentNamed? node := by
        split
        · exact parentNamed?_orElse _ .classType
        · rfl
      split
      · next here =>
          rw [← founded]
          rcases parentNamed?_setParent _ parent with same | ⟨before, after⟩
          · exact Or.inl same
          · exact Or.inr ⟨parent, by rw [here], before, after⟩
      · exact Or.inl founded

theorem parentName?_apply
    (store : Store)
    (change : Change)
    (name : TypeName) :
    (change.apply store).parentName? name = store.parentName? name ∨
      ∃ parent,
        change = .link name parent ∧
          store.parentName? name = none ∧
          (change.apply store).parentName? name = some parent := by
  by_cases known : name ∈ store.names
  · simp only [parentName?, Change.node?_apply_of_mem known]
    exact parentNamed?_nodeAt change name _
  · left
    have absent : store.node? name = none := by
      simp [node?, find?_eq_none_iff.mpr known]
    rw [parentName?, parentName?, Change.node?_apply_of_notMem known, absent]

theorem isSome_node?_apply
    {store : Store}
    {name : TypeName}
    (installed : (store.node? name).isSome)
    (change : Change) :
    ((change.apply store).node? name).isSome := by
  obtain ⟨entry, found⟩ := exists_of_mem_names (mem_names_of_node? installed)
  have grows := (change.grows_revise name entry).node
  simp only [node?, Change.find?_apply, found] at installed ⊢
  exact grows installed

namespace Founded

/-- A link to a type that does not inherit from this one closes no cycle. -/
theorem notMem_chain
    {store : Store}
    (founded : store.Founded)
    {child parent : TypeName}
    (different : parent ≠ child)
    (free : store.inheritsFrom parent child = false)
    {chain : List TypeName}
    (ancestry : Ancestry store parent chain) :
    child ∉ chain := by
  intro member
  have path := ancestry.reachable member
  have leads :
      Relation.ReflTransGen (Leads store.parentOf) parent child := by
    refine path.lift id fun first second linked => ?_
    exact mem_parentOf_iff.mpr
      ⟨linked, founded.installed first second linked⟩
  have installed : (store.node? parent).isSome := by
    rcases Relation.ReflTransGen.cases_head path with same | ⟨_, linked, _⟩
    · exact absurd same different
    · by_contra missing
      simp only [Option.not_isSome_iff_eq_none] at missing
      simp [Extends, parentName?, parentNamed?, missing] at linked
  have caught := inheritsFrom_iff.mpr ⟨installed, leads⟩
  rw [free] at caught
  exact absurd caught (by simp)

/-- A new link above a chain that does not meet its lower end. -/
theorem ends_of_link
    {before after : Store}
    (founded : before.Founded)
    {child parent : TypeName}
    (unlinked : before.parentName? child = none)
    (linked : after.parentName? child = some parent)
    (elsewhere :
      ∀ name, name ≠ child →
        after.parentName? name = before.parentName? name)
    (apart :
      ∀ chain, Ancestry before parent chain → child ∉ chain)
    (name : TypeName) :
    ∃ chain, Ancestry after name chain := by
  obtain ⟨above, toTop⟩ := founded.ends parent
  have stays : Ancestry after parent above :=
    toTop.congr fun met member =>
      elsewhere met fun same => apart above toTop (same ▸ member)
  obtain ⟨chain, ancestry⟩ := founded.ends name
  induction ancestry with
  | @top name last =>
      by_cases here : name = child
      · rw [here]
        exact ⟨child :: above, .up linked stays⟩
      · exact ⟨[name], .top ((elsewhere name here).trans last)⟩
  | @up name next _ step _ inductionHypothesis =>
      have here : name ≠ child := by
        rintro rfl
        rw [unlinked] at step
        exact absurd step (by simp)
      obtain ⟨rest, onward⟩ := inductionHypothesis
      exact ⟨name :: rest, .up ((elsewhere name here).trans step) onward⟩

/-- An allowed change leaves lineages that end. -/
theorem apply
    {store : Store}
    {change : Change}
    (founded : store.Founded)
    (allowed : change.Allowed store) :
    (change.apply store).Founded := by
  by_cases links :
      ∃ child parent,
        change = .link child parent ∧
          store.parentName? child = none ∧
          (change.apply store).parentName? child = some parent
  · obtain ⟨child, parent, rfl, unlinked, linked⟩ := links
    obtain ⟨present, different, free⟩ := allowed
    have elsewhere :
        ∀ name, name ≠ child →
          ((Change.link child parent).apply store).parentName? name =
            store.parentName? name := by
      intro name other
      rcases parentName?_apply store (.link child parent) name with
        same | ⟨_, link, _⟩
      · exact same
      · simp only [Change.link.injEq] at link
        exact absurd link.1.symm other
    refine ⟨founded.ends_of_link unlinked linked elsewhere
      fun _ => founded.notMem_chain different free, ?_⟩
    intro first second step
    by_cases here : first = child
    · rw [here, Extends, linked, Option.some.injEq] at step
      rw [← step, Change.node?_apply_of_mem present]
      simp only [Change.nodeAt, ↓reduceIte, different]
      cases store.node? parent <;> simp
    · rw [Extends, elsewhere first here] at step
      exact isSome_node?_apply (founded.installed first second step) _
  · have same :
        ∀ name,
          (change.apply store).parentName? name = store.parentName? name := by
      intro name
      rcases parentName?_apply store change name with same | linked
      · exact same
      · exact absurd ⟨name, linked⟩ links
    refine ⟨fun name => ?_, fun first second step => ?_⟩
    · obtain ⟨chain, ancestry⟩ := founded.ends name
      exact ⟨chain, ancestry.congr fun met _ => same met⟩
    · rw [Extends, same first] at step
      exact isSome_node?_apply (founded.installed first second step) _

end Founded

theorem founded_empty :
    ({} : Store).Founded := by
  refine ⟨fun name => ⟨[name], .top rfl⟩, fun child parent linked => ?_⟩
  simp [Extends, parentName?, parentNamed?, node?, find?] at linked

theorem Evolves.founded
    {first last : Store}
    (evolves : Evolves first last)
    (start : first.Founded) :
    last.Founded :=
  evolves.keeps (fun before allowed => before.apply allowed) start

end TypeAtlas.Store

namespace TypeAtlas

/--
Whatever is done in a session, following superclasses from any type meets no
name twice and ends at a type that has none, and behind every reference to a
superclass there is a node.
-/
theorem Session.lineages_end
    (acts : List Act) :
    let store := (Session.run {} acts).atlas.store
    (∀ name, ∃ chain, store.Ancestry name chain ∧ chain.Nodup) ∧
      ∀ name node parent,
        store.node? name = some node →
          node.lineage.parent = some parent →
            ∃ above, store.node? parent.name = some above := by
  intro store
  have founded : store.Founded :=
    (Session.run_evolves {} acts).founded Store.founded_empty
  refine ⟨fun name => ?_, fun name node parent here refers => ?_⟩
  · obtain ⟨chain, ancestry⟩ := founded.ends name
    exact ⟨chain, ancestry, ancestry.nodup⟩
  · have linked : store.Extends name parent.name := by
      simp [Store.Extends, Store.parentName?, Store.parentNamed?, here, refers]
    exact Option.isSome_iff_exists.mp (founded.installed name _ linked)

end TypeAtlas
