import TypeAtlas.Proofs.Entering.Rejection
import TypeAtlas.Proofs.Store.Permanence

namespace TypeAtlas

/-!
# Changes without effect

A change of a header is *settled* in a store if the store already has what the
change would add. A settled change does nothing. A change that was made is
settled from then on, because a store never loses anything, so a header can be
replayed any time later without effect. Members are another matter: what is
added to them is added again.
-/

/-! ## Lists without repetitions -/

/-- What is found in a list is found in every continuation of it. -/
theorem any_of_prefix
    {early late : List α}
    (goesOn : early <+: late)
    {test : α → Bool}
    (found : early.any test = true) :
    late.any test = true := by
  obtain ⟨more, rfl⟩ := goesOn
  simp [found]

/-- Items that are known are not added. -/
theorem addNew_of_known
    {same : α → α → Bool}
    {known items : List α}
    (present : ∀ item ∈ items, known.any (same item) = true) :
    addNew same known items = known := by
  induction items with
  | nil =>
      rfl
  | cons item items inductionHypothesis =>
      rw [addNew, List.foldl_cons, if_pos (present item (by simp))]
      exact inductionHypothesis fun other member =>
        present other (List.mem_cons_of_mem _ member)

/-- Items are known once they were added. -/
theorem known_addNew
    {same : α → α → Bool}
    (itself : ∀ item, same item item = true)
    (known items : List α) :
    ∀ item ∈ items, (addNew same known items).any (same item) = true := by
  induction items generalizing known with
  | nil =>
      simp
  | cons first items inductionHypothesis =>
      intro item member
      rcases List.mem_cons.mp member with rfl | later
      · refine any_of_prefix (prefix_addNew same _ items) ?_
        dsimp only
        split
        · next present =>
            exact present
        · simp [itself]
      · exact inductionHypothesis _ item later

namespace Generic

mutual

theorem same_self
    (generic : Generic) :
    generic.same generic = true := by
  obtain ⟨type, formal, arguments, dimensions⟩ := generic
  simp [same, sameAll_self arguments]

theorem sameAll_self
    (generics : List Generic) :
    sameAll generics generics = true := by
  cases generics with
  | nil =>
      rfl
  | cons head tail =>
      simp [sameAll, same_self head, sameAll_self tail]

end

end Generic

/-- An item that is present is not added again. -/
theorem Entry.addOnce_of_mem
    [BEq α]
    [LawfulBEq α]
    {items : List α}
    {item : α}
    (present : item ∈ items) :
    addOnce items item = items := by
  rw [addOnce, if_pos (List.contains_iff_mem.mpr present)]

/-- A mark that is there is not made again. -/
theorem Entry.addMark_of_bears
    {entry : Entry}
    {mark : Mark}
    (bears : entry.Bears mark) :
    entry.addMark mark = entry := by
  cases mark <;>
    simp only [addMark, addAnnotated, addFieldUse, addSubType,
      addImplementer, addOnce_of_mem bears]

/-! ## Nodes -/

theorem Node.updateLineage_eq_self
    {node : Node}
    {change : Lineage → Lineage}
    (same : node.isExtensible = true → change node.lineage = node.lineage) :
    node.updateLineage change = node := by
  obtain ⟨_, _, _, _, _, body⟩ := node
  cases body with
  | extensible lineage =>
      have kept : change lineage = lineage := same rfl
      simp only [updateLineage, kept]
  | annotationType defaults =>
      rfl

/-- An interface is added to the lineage alone. -/
theorem Node.interface_apply
    (name : TypeName)
    (node : Node) :
    (Amendment.interface name).apply node =
      node.updateLineage (·.addInterfaces [name]) :=
  node.addInterfaces_eq [name]

/-- The supertypes have all that a signature adds to them. -/
structure Lineage.Covers
    (lineage : Lineage)
    (said : ClassGenerics) :
    Prop where
  parent :
    said.superclass.isSome = true → lineage.genericParent.isSome = true
  interfaces :
    ∀ interface ∈ said.interfaces,
      lineage.genericInterfaces.any interface.same = true
  formals :
    ∀ formal ∈ said.formals,
      lineage.formals.any (sameFormal formal) = true

/-- What supertypes have already is not added again. -/
theorem Lineage.Covers.addGenerics_eq
    {lineage : Lineage}
    {said : ClassGenerics}
    (covers : lineage.Covers said) :
    lineage.addGenerics said.superclass said.interfaces said.formals =
      lineage := by
  have parent :
      (lineage.genericParent <|> said.superclass) =
        lineage.genericParent := by
    cases set : said.superclass with
    | none =>
        cases lineage.genericParent <;> rfl
    | some parent =>
        obtain ⟨first, known⟩ :=
          Option.isSome_iff_exists.mp (covers.parent (by rw [set]; rfl))
        rw [orElse_of_eq_some known, known]
  simp only [addGenerics, parent, addNew_of_known covers.interfaces,
    addNew_of_known covers.formals]

/-- After a signature was added, the supertypes have all that it says. -/
theorem Lineage.covers_addGenerics
    (lineage : Lineage)
    (said : ClassGenerics) :
    (lineage.addGenerics said.superclass said.interfaces
      said.formals).Covers said where
  parent set := by
    cases known : lineage.genericParent <;> simp [addGenerics, known, set]
  interfaces := known_addNew Generic.same_self _ _
  formals := known_addNew (fun formal => by simp [sameFormal]) _ _

/-- What an amendment of a header adds is there. Members never are. -/
def Amendment.Settled (node : Node) : Amendment → Prop
  | .origin visit =>
      (∀ location ∈ visit.location.toList,
        node.locations.any (location == ·) = true) ∧
        (visit.isApplication = true → node.isApplication = true)
  | .interface name =>
      node.isExtensible = true →
        ∀ interface ∈ [name].map Reference.toType,
          node.lineage.interfaces.any interface.same = true
  | .generics said =>
      node.isExtensible = true → node.lineage.Covers said
  | _ => False

namespace Amendment

/-- An amendment that is settled changes nothing. -/
theorem Settled.apply_eq
    {amendment : Amendment}
    {node : Node}
    (settled : amendment.Settled node) :
    amendment.apply node = node := by
  cases amendment with
  | origin visit =>
      have application :
          (node.isApplication || visit.isApplication) =
            node.isApplication := by
        cases marked : visit.isApplication with
        | false =>
            exact Bool.or_false _
        | true =>
            rw [settled.2 marked, Bool.or_true]
      rw [apply, Visit.noteOrigin_eq, addNew_of_known settled.1, application]
  | interface name =>
      rw [Node.interface_apply]
      refine Node.updateLineage_eq_self fun extensible => ?_
      simp only [Lineage.addInterfaces, addNew_of_known (settled extensible)]
  | generics said =>
      rw [generics_apply]
      exact Node.updateLineage_eq_self fun extensible =>
        (settled extensible).addGenerics_eq
  | use _ | field _ | method _ | default _ _ =>
      exact settled.elim

/-- What a header adds is there from then on. -/
theorem settled_apply
    {amendment : Amendment}
    (noMember : ¬ amendment.AddsMember)
    (node : Node) :
    amendment.Settled (amendment.apply node) := by
  cases amendment with
  | origin visit =>
      rw [apply, Visit.noteOrigin_eq]
      exact ⟨known_addNew (fun _ => beq_self_eq_true _) _ _,
        fun marked => by simp [marked]⟩
  | interface name =>
      rw [Node.interface_apply]
      intro extensible
      rw [Node.isExtensible_updateLineage] at extensible
      rw [Node.lineage_updateLineage extensible]
      exact known_addNew (fun type => beq_self_eq_true type.name) _ _
  | generics said =>
      rw [generics_apply]
      intro extensible
      rw [Node.isExtensible_updateLineage] at extensible
      rw [Node.lineage_updateLineage extensible]
      exact Lineage.covers_addGenerics _ said
  | use _ | field _ | method _ | default _ _ =>
      exact (noMember trivial).elim

/-- What is there stays there. -/
theorem Settled.grows
    {amendment : Amendment}
    {node grown : Node}
    (settled : amendment.Settled node)
    (grows : node.Grows grown) :
    amendment.Settled grown := by
  cases amendment with
  | origin visit =>
      exact ⟨fun location member =>
        any_of_prefix grows.locations (settled.1 location member),
        fun marked => grows.isApplication (settled.2 marked)⟩
  | interface name =>
      intro extensible interface member
      rw [grows.isExtensible] at extensible
      exact any_of_prefix grows.lineage.interfaces
        (settled extensible interface member)
  | generics said =>
      intro extensible
      rw [grows.isExtensible] at extensible
      obtain ⟨parent, interfaces, formals⟩ := settled extensible
      refine ⟨fun set => ?_, fun interface member => ?_,
        fun formal member => ?_⟩
      · obtain ⟨generic, known⟩ := Option.isSome_iff_exists.mp (parent set)
        rw [grows.lineage.genericParent generic known, Option.isSome_some]
      · exact any_of_prefix grows.lineage.genericInterfaces
          (interfaces interface member)
      · exact any_of_prefix grows.lineage.formals (formals formal member)
  | use _ | field _ | method _ | default _ _ =>
      exact settled.elim

end Amendment

/-! ## Changes -/

/-- What a change of a header adds to a store is there. -/
def Change.Settled (store : Store) : Change → Prop
  | mention name hint =>
      name = TypeName.root ∨
        ∃ entry,
          store.find? name = some entry ∧
            (hint.isSome = true → entry.pool.isSome = true)
  | file name category =>
      ∃ node, store.visitedNode? name = some node ∧ node.category = category
  | found name _ => (store.node? name).isSome = true
  | claim name category =>
      ∃ node, store.visitedNode? name = some node ∧ node.category = category
  | link name parent =>
      (store.node? parent).isSome = true ∧
        ∃ node,
          store.node? name = some node ∧
            (node.isExtensible = true → node.lineage.parent.isSome = true)
  | mark name added => store.Bears name added
  | amend name amendment =>
      ∃ node, store.node? name = some node ∧ amendment.Settled node
  | take => False

namespace Store

/-- A change of one entry that leaves it as it is does nothing. -/
theorem WellFormed.update_eq_self
    {store : Store}
    (wellFormed : store.WellFormed)
    {name : TypeName}
    {entry : Entry}
    (found : store.find? name = some entry)
    {change : Entry → Entry}
    (same : change entry = entry) :
    store.update name change = store := by
  have kept : change entry = id entry := same
  rw [wellFormed.update_congr found kept, update_id]

theorem WellFormed.updateNode_eq_self
    {store : Store}
    (wellFormed : store.WellFormed)
    {name : TypeName}
    {node : Node}
    (here : store.node? name = some node)
    {change : Node → Node}
    (same : change node = node) :
    store.updateNode name change = store := by
  obtain ⟨entry, found, installed⟩ := Option.bind_eq_some_iff.mp here
  refine wellFormed.update_eq_self found ?_
  rw [installed, Option.map_some, same, ← installed]

theorem WellFormed.ensureNode_eq_self
    {store : Store}
    (wellFormed : store.WellFormed)
    {name : TypeName}
    (founded : (store.node? name).isSome = true)
    (category : Category) :
    store.update name (·.ensureNode category) = store := by
  obtain ⟨node, here⟩ := Option.isSome_iff_exists.mp founded
  obtain ⟨entry, found, installed⟩ := Option.bind_eq_some_iff.mp here
  exact wellFormed.update_eq_self found
    (Entry.ensureNode_of_isSome (by rw [installed, Option.isSome_some]) _)

/-- A visited node is found in an entry that is marked as visited. -/
theorem exists_of_visitedNode?
    {store : Store}
    {name : TypeName}
    {node : Node}
    (given : store.visitedNode? name = some node) :
    ∃ entry,
      store.find? name = some entry ∧
        entry.visited = true ∧
        entry.node = some node := by
  obtain ⟨entry, found, here⟩ := Option.bind_eq_some_iff.mp given
  simp only [Entry.visitedNode?, Option.ite_none_right_eq_some] at here
  exact ⟨entry, found, here⟩

end Store

namespace Change

/-- A settled change does nothing. -/
theorem Settled.apply_eq
    {change : Change}
    {store : Store}
    (settled : change.Settled store)
    (wellFormed : store.WellFormed) :
    change.apply store = store := by
  cases change with
  | mention name hint =>
      rcases settled with isRoot | ⟨entry, found, filed⟩
      · simp [apply, Store.mention, isRoot]
      · cases hint with
        | none =>
            simp [apply, Store.mention, found]
        | some category =>
            simp [apply, Store.mention, found, filed rfl]
  | file name category =>
      obtain ⟨node, given, rfl⟩ := settled
      obtain ⟨entry, found, visited, installed⟩ :=
        Store.exists_of_visitedNode? given
      obtain ⟨same, here, filed⟩ :=
        (wellFormed.entries entry (Store.mem_of_find? found)).visited visited
      rw [installed, Option.some.injEq] at here
      simp only [apply, found]
      rw [wellFormed.fileUnder_eq_self_iff found, filed, here]
  | found name category =>
      exact wellFormed.ensureNode_eq_self settled category
  | claim name category =>
      obtain ⟨node, given, rfl⟩ := settled
      obtain ⟨entry, found, visited, installed⟩ :=
        Store.exists_of_visitedNode? given
      refine wellFormed.update_eq_self found ?_
      rw [installed, ← visited, Option.map_some, ← installed]
  | link name parent =>
      obtain ⟨founded, node, here, chosen⟩ := settled
      simp only [apply, wellFormed.ensureNode_eq_self founded]
      refine wellFormed.updateNode_eq_self here ?_
      refine Node.updateLineage_eq_self fun extensible => ?_
      obtain ⟨first, set⟩ := Option.isSome_iff_exists.mp (chosen extensible)
      rw [orElse_of_eq_some set, ← set]
  | mark name added =>
      obtain ⟨entry, found, bears⟩ := settled
      exact wellFormed.update_eq_self found (Entry.addMark_of_bears bears)
  | amend name amendment =>
      obtain ⟨node, here, settled⟩ := settled
      exact wellFormed.updateNode_eq_self here settled.apply_eq
  | take =>
      exact settled.elim

/-- What is there stays there. -/
theorem Settled.evolves
    {change : Change}
    {before after : Store}
    (settled : change.Settled before)
    (wellFormed : before.WellFormed)
    (evolves : before.Evolves after) :
    change.Settled after := by
  have persists := evolves.persists wellFormed
  have visitedNode :
      ∀ {name node category},
        before.visitedNode? name = some node → node.category = category →
          ∃ grown,
            after.visitedNode? name = some grown ∧
              grown.category = category := by
    intro name node category given named
    obtain ⟨entry, found, visited, installed⟩ :=
      Store.exists_of_visitedNode? given
    obtain ⟨later, there, kept⟩ := persists.find? found
    obtain ⟨grown, last, -, same⟩ := kept.installed node installed
    refine ⟨grown, ?_, (same visited).trans named⟩
    simp [Store.visitedNode?, Entry.visitedNode?, there, last,
      kept.visited visited]
  cases change with
  | mention name hint =>
      rcases settled with isRoot | ⟨entry, found, filed⟩
      · exact Or.inl isRoot
      · obtain ⟨later, there, kept⟩ := persists.find? found
        exact Or.inr ⟨later, there, fun hinted => kept.filed (filed hinted)⟩
  | file name category | claim name category =>
      obtain ⟨node, given, named⟩ := settled
      exact visitedNode given named
  | found name category =>
      exact persists.isSome_node? settled
  | link name parent =>
      obtain ⟨founded, node, here, chosen⟩ := settled
      obtain ⟨grown, there, grows, -⟩ := persists.node? here
      refine ⟨persists.isSome_node? founded, grown, there, fun extensible => ?_⟩
      rw [grows.isExtensible] at extensible
      obtain ⟨first, set⟩ := Option.isSome_iff_exists.mp (chosen extensible)
      rw [grows.lineage.parent first set, Option.isSome_some]
  | mark name added =>
      exact persists.bears settled
  | amend name amendment =>
      obtain ⟨node, here, settled⟩ := settled
      obtain ⟨grown, there, grows, -⟩ := persists.node? here
      exact ⟨grown, there, settled.grows grows⟩
  | take =>
      exact settled

/-- A name that was mentioned has an entry. -/
theorem settled_mention
    (store : Store)
    (name : TypeName)
    (hint : Option Category) :
    (mention name hint).Settled ((mention name hint).apply store) := by
  by_cases isRoot : name = TypeName.root
  · exact Or.inl isRoot
  · refine Or.inr ⟨Entry.afterMention name hint (store.find? name), ?_, ?_⟩
    · simp [apply, Store.find?_mention, isRoot]
    · intro hinted
      obtain ⟨category, rfl⟩ := Option.isSome_iff_exists.mp hinted
      cases store.find? name with
      | none =>
          rfl
      | some entry =>
          simp only [Entry.afterMention]
          split
          · next filed =>
              exact filed
          · rfl

/-- A mark that was made is there. -/
theorem settled_mark
    {store : Store}
    {name : TypeName}
    (known : name ∈ store.names)
    (added : Mark) :
    (mark name added).Settled ((mark name added).apply store) := by
  have grounded :
      ∀ other ∈ (mark name added).expects, other ∈ store.names := by
    simpa [expects] using known
  exact (bears_apply grounded).mpr (Or.inr rfl)

/-- What was amended is there, members apart. -/
theorem settled_amend
    {store : Store}
    {name : TypeName}
    (installed : (store.node? name).isSome = true)
    {amendment : Amendment}
    (noMember : ¬ amendment.AddsMember) :
    (amend name amendment).Settled ((amend name amendment).apply store) := by
  obtain ⟨node, here⟩ := Option.isSome_iff_exists.mp installed
  refine ⟨amendment.apply node, ?_, amendment.settled_apply noMember node⟩
  simp [apply, here]

/-- A superclass that was linked is set. -/
theorem settled_link
    {store : Store}
    {name parent : TypeName}
    (known : parent ∈ store.names)
    (installed : (store.node? name).isSome = true) :
    (link name parent).Settled ((link name parent).apply store) := by
  obtain ⟨node, here⟩ := Option.isSome_iff_exists.mp installed
  have grounded :
      ∀ other ∈ (link name parent).expects, other ∈ store.names := by
    simpa [expects] using ⟨Store.mem_names_of_node? installed, known⟩
  refine ⟨?_, node.setParent (Reference.toType parent), ?_, ?_⟩
  · rw [node?_apply grounded]
    cases store.node? parent <;> by_cases same : parent = name <;>
      simp [nodeAt, same]
  · rw [node?_apply grounded, here]
    by_cases same : name = parent <;> simp [nodeAt, same]
  · intro extensible
    rw [Node.isExtensible_setParent] at extensible
    rw [Node.parent_setParent, if_pos extensible]
    cases node.lineage.parent <;> rfl

end Change

/-! ## Scripts -/

namespace Store

/-- A script of settled changes does nothing. -/
theorem replay_of_settled
    {store : Store}
    (wellFormed : store.WellFormed)
    {script : List Change}
    (settled : ∀ change ∈ script, change.Settled store) :
    store.replay script = store := by
  induction script with
  | nil =>
      rfl
  | cons change script inductionHypothesis =>
      rw [replay_cons, (settled change (by simp)).apply_eq wellFormed]
      exact inductionHypothesis fun other member =>
        settled other (List.mem_cons_of_mem _ member)

/-- The changes of a header are settled once its script was replayed. -/
theorem settled_replay
    {owner : TypeName}
    {known : List TypeName}
    {script : List Change}
    (grounded : Grounded known script)
    (ofMember : ∀ change ∈ script, change.OfMember owner)
    (noMember :
      ∀ name amendment, Change.amend name amendment ∈ script →
        ¬ amendment.AddsMember)
    {store : Store}
    (wellFormed : store.WellFormed)
    (present : ∀ name ∈ known, name ∈ store.names)
    (installed : (store.node? owner).isSome = true) :
    ∀ change ∈ script, change.Settled (store.replay script) := by
  induction script generalizing known store with
  | nil =>
      simp
  | cons first script inductionHypothesis =>
      obtain ⟨expected, rest⟩ := grounded
      have kind := ofMember first (by simp)
      have allowed := allowed_of_ofMember kind store
      have others :
          ∀ change ∈ script, change.OfMember owner := fun change member =>
        ofMember change (List.mem_cons_of_mem _ member)
      have onward := evolves_replay
        (fun change member => allowed_of_ofMember (others change member))
        (first.apply store)
      have still :=
        ((Evolves.single first allowed).persists wellFormed).isSome_node?
          installed
      have made : first.Settled (first.apply store) := by
        cases first with
        | mention name hint =>
            exact Change.settled_mention store name hint
        | mark name added =>
            exact Change.settled_mark
              (present name (expected name (by simp [Change.expects]))) added
        | amend name amendment =>
            obtain rfl : name = owner := kind
            exact Change.settled_amend installed
              (noMember name amendment (by simp))
        | file _ _ | found _ _ | claim _ _ | link _ _ | take =>
            exact kind.elim
      have wellFormed := wellFormed.apply allowed
      intro change member
      rcases List.mem_cons.mp member with rfl | later
      · exact made.evolves wellFormed onward
      · exact inductionHypothesis rest others
          (fun name amendment member =>
            noMember name amendment (List.mem_cons_of_mem _ member))
          wellFormed (known_apply present first) still change later

end Store

end TypeAtlas
