import TypeAtlas.Proofs.Graph.Lineage

namespace TypeAtlas

/-!
# First visits

A declaration that a store awaits is one whose type was not entered yet and is
at most known as a superclass, and whose own superclass does not inherit from
it. Entering such a declaration makes the same script of every store that
awaits it: the opening changes, the link to the superclass, and changes that
add to the node of the type.
-/

/-- A declaration can be entered into a store, for the first time. -/
structure Store.Awaits
    (store : Store)
    (decl : ClassDecl) :
    Prop where
  tracked : decl.name ≠ TypeName.root
  unvisited : store.isVisited decl.name = false
  /-- A node there is a placeholder that the type can take over. -/
  placeholder :
    ∀ node, store.node? decl.name = some node →
      node = Node.ofCategory .classType ∧
        decl.category.isExtensible = true
  acyclic :
    ∀ parent, decl.superName = some parent →
      parent ≠ decl.name ∧
        ¬ Relation.ReflTransGen store.Extends parent decl.name

/-- The superclass that a declaration links its type to, if any. -/
def ClassDecl.linkedTo? (decl : ClassDecl) : Option TypeName :=
  if decl.category.isExtensible then
    decl.superName.filter (· ≠ TypeName.root)
  else
    none

/-- The script of the superclass of a declaration. -/
def ClassDecl.superclassScript (decl : ClassDecl) : List Change :=
  match decl.linkedTo? with
  | some parent =>
      [.mention parent (some .classType), .link decl.name parent,
        .mark parent (.subType decl.name)]
  | none => []

theorem ClassDecl.linkedTo?_eq_some_iff
    {decl : ClassDecl}
    {parent : TypeName} :
    decl.linkedTo? = some parent ↔
      decl.category.isExtensible = true ∧
        decl.superName = some parent ∧
        parent ≠ TypeName.root := by
  unfold linkedTo?
  split <;> simp [Option.filter_eq_some_iff, *]

theorem ClassDecl.grounded_superclassScript
    {decl : ClassDecl}
    {known : List TypeName}
    (named : decl.name ∈ known) :
    Grounded known decl.superclassScript := by
  unfold superclassScript
  split
  · next parent linked =>
      have tracked := (linkedTo?_eq_some_iff.mp linked).2.2
      simp [Grounded, Change.expects, Change.introduces, tracked, named]
  · trivial

/-! ## Opening -/

namespace Visit

theorem grounded_opening
    (visit : Visit)
    (decl : ClassDecl) :
    Grounded [] (visit.opening decl) := by
  simp [opening, Grounded, Change.expects, Change.introduces]

/-- The opening changes leave the same node, whether there was one or not. -/
theorem nodeAfter_opening
    {decl : ClassDecl}
    {node : Option Node}
    (visit : Visit)
    (placeholder :
      ∀ before, node = some before →
        before = Node.ofCategory .classType ∧
          decl.category.isExtensible = true) :
    nodeAfter decl.name (visit.opening decl) node =
      some (visit.noteOrigin (Node.ofCategory decl.category)) := by
  simp only [opening, nodeAfter, List.foldl_cons, List.foldl_nil,
    Change.nodeAt, ↓reduceIte]
  cases node with
  | none =>
      rfl
  | some before =>
      obtain ⟨rfl, extensible⟩ := placeholder before rfl
      have taken :
          { Node.ofCategory .classType with category := decl.category } =
            Node.ofCategory decl.category :=
        Node.ofCategory_with (by rw [extensible]; rfl)
      rw [← taken]
      rfl

/-- The opening changes leave other nodes alone. -/
theorem nodeAfter_opening_other
    {decl : ClassDecl}
    {name : TypeName}
    (visit : Visit)
    (other : name ≠ decl.name)
    (node : Option Node) :
    nodeAfter name (visit.opening decl) node = node := by
  simp [opening, nodeAfter, Change.nodeAt, other]

theorem headed_staysOn
    (visit : Visit)
    (atlas : Atlas)
    (decl : ClassDecl) :
    (visit.headed atlas decl).StaysOn decl.name := by
  intro current opened
  simp only [headed, openMembers?, Option.some.injEq] at opened
  rw [← opened]

/-- A declaration can claim a type that has no node. -/
theorem claim_allowed_of_absent
    {store : Store}
    {decl : ClassDecl}
    (absent : store.node? decl.name = none) :
    (Change.claim decl.name decl.category).Allowed
      (store.replay (founding decl)) := by
  obtain ⟨entry, node, found, filed, installed⟩ := find?_founding store decl
  refine ⟨entry, node, found, filed, installed, Or.inl ?_⟩
  have here : (store.replay (founding decl)).node? decl.name = some node := by
    simp [Store.node?, found, installed]
  rw [Store.node?_replay (by simp) (grounded_founding decl), absent] at here
  simp only [founding, List.foldl_cons, List.foldl_nil, Change.nodeAt,
    ↓reduceIte] at here
  have fresh : Node.ofCategory decl.category = node := by
    simpa using here
  rw [← fresh]
  rfl

end Visit

namespace Store.Awaits

/-- An awaited declaration can be filed. -/
theorem file_allowed
    {store : Store}
    {decl : ClassDecl}
    (awaits : store.Awaits decl) :
    (Change.file decl.name decl.category).Allowed store := by
  refine ⟨awaits.tracked, fun node visited => ?_⟩
  have fresh := awaits.unvisited
  simp only [visitedNode?, isVisited] at visited fresh
  cases known : store.find? decl.name with
  | none =>
      simp [known] at visited
  | some entry =>
      simp only [known, Option.any_some, Option.bind_some] at visited fresh
      simp [Entry.visitedNode?, fresh] at visited

/-- An awaited declaration can claim its node. -/
theorem claim_allowed
    {store : Store}
    {decl : ClassDecl}
    (awaits : store.Awaits decl) :
    (Change.claim decl.name decl.category).Allowed
      (store.replay (Visit.founding decl)) := by
  cases before : store.node? decl.name with
  | none =>
      exact Visit.claim_allowed_of_absent before
  | some placeholder =>
      obtain ⟨blank, extensible⟩ := awaits.placeholder placeholder before
      obtain ⟨entry, node, found, filed, installed⟩ :=
        Visit.find?_founding store decl
      refine ⟨entry, node, found, filed, installed, Or.inr ⟨?_, ?_⟩⟩
      · have same := Visit.isVisited_founding store decl
        rw [awaits.unvisited] at same
        simpa [isVisited, found] using same
      · have here : (store.replay (Visit.founding decl)).node? decl.name =
            some node := by
          simp [node?, found, installed]
        rw [node?_replay (by simp) (Visit.grounded_founding decl),
          before] at here
        simp only [Visit.founding, List.foldl_cons, List.foldl_nil,
          Change.nodeAt, ↓reduceIte] at here
        have kept : placeholder = node := by
          simpa using here
        rw [← kept, blank, Node.isExtensible_ofCategory, extensible]
        rfl

end Store.Awaits

/-! ## Superclasses -/

namespace Store

/-- What a type extends stays, unless a change of a script links it. -/
theorem extends_of_replay
    {script : List Change}
    (unlinked : ∀ child parent, Change.link child parent ∉ script)
    {store : Store}
    {child parent : TypeName}
    (linked : (store.replay script).Extends child parent) :
    store.Extends child parent := by
  induction script generalizing store with
  | nil =>
      exact linked
  | cons change script inductionHypothesis =>
      have later : (change.apply store).Extends child parent :=
        inductionHypothesis
          (fun child parent member =>
            unlinked child parent (List.mem_cons_of_mem _ member))
          linked
      rcases parentName?_apply store change child with same | ⟨other, link, _⟩
      · exact same.symm.trans later
      · exact absurd (link ▸ List.mem_cons_self) (unlinked child other)

/-- The superclass of a type that has none is linked, if that closes no cycle. -/
theorem linkParent_of_free
    {store : Store}
    {name parent : TypeName}
    {node : Node}
    (tracked : parent ≠ TypeName.root)
    (different : parent ≠ name)
    (free : ¬ Relation.ReflTransGen store.Extends parent name)
    (here : store.node? name = some node)
    (extensible : node.isExtensible = true)
    (parentless : node.lineage.parent = none) :
    store.linkParent name parent =
      (store.replay
        [.mention parent (some .classType), .link name parent,
          .mark parent (.subType name)], none) := by
  let mentioned := store.mention parent (some .classType)
  have acyclic : mentioned.inheritsFrom parent name = false := by
    rw [Bool.eq_false_iff, ne_eq, inheritsFrom_iff]
    rintro ⟨-, path⟩
    refine free (path.lift id fun first second leads => ?_)
    have linked := (mem_parentOf_iff.mp leads).1
    simpa [mentioned, Extends, parentName?] using linked
  have known : name ∈ mentioned.names := by
    apply mem_names_of_node?
    simp [mentioned, here]
  have chosen :
      ((((Change.link name parent).apply mentioned).node? name).bind
        (·.lineage.parent)).map (·.name) = some parent := by
    rw [Change.node?_apply_of_mem known]
    simp [Change.nodeAt, Ne.symm different, mentioned, here,
      Node.parent_setParent, extensible, parentless, Reference.toType]
  rw [linkParent_eq, if_neg tracked, if_neg (by simp [different, acyclic,
    mentioned])]
  simp only [linked, mentioned] at chosen ⊢
  rw [if_pos chosen]
  rfl

theorem linkSuperclass_of_free
    {store : Store}
    {decl : ClassDecl}
    {node : Node}
    (declared : decl.category.isExtensible = true)
    (free :
      ∀ parent, decl.superName = some parent →
        parent ≠ decl.name ∧
          ¬ Relation.ReflTransGen store.Extends parent decl.name)
    (here : store.node? decl.name = some node)
    (extensible : node.isExtensible = true)
    (parentless : node.lineage.parent = none) :
    store.linkSuperclass decl =
      (store.replay decl.superclassScript, none) := by
  unfold linkSuperclass ClassDecl.superclassScript
  cases named : decl.superName with
  | none =>
      simp [ClassDecl.linkedTo?, named]
  | some parent =>
      obtain ⟨different, acyclic⟩ := free parent named
      by_cases isRoot : parent = TypeName.root
      · have unlinked : decl.linkedTo? = none := by
          simp [ClassDecl.linkedTo?, named, isRoot, Option.filter_some]
        simp [unlinked, isRoot, linkParent_eq]
      · have linked := ClassDecl.linkedTo?_eq_some_iff.mpr
          ⟨declared, named, isRoot⟩
        simp only [linked]
        exact linkParent_of_free isRoot different acyclic here extensible
          parentless

end Store

/-! ## Whole declarations -/

namespace Visit

/-- The script of a declaration that is entered for the first time. -/
def script
    (visit : Visit)
    (decl : ClassDecl)
    (body : List Change) :
    List Change :=
  visit.opening decl ++ (decl.superclassScript ++ body)

theorem grounded_script
    (visit : Visit)
    {decl : ClassDecl}
    {body : List Change}
    (members : MemberScript decl.name body) :
    Grounded [] (visit.script decl body) := by
  have named :
      decl.name ∈ (visit.opening decl).flatMap Change.introduces := by
    simp [opening, Change.introduces]
  refine (grounded_opening visit decl).append (Grounded.append ?_ ?_)
  · exact ClassDecl.grounded_superclassScript
      (List.mem_append_left _ named)
  · refine members.grounded.mono fun name member => ?_
    rw [List.mem_singleton.mp member]
    simp [named]

/-- A placeholder makes no difference to the node that a declaration leaves. -/
theorem nodeAfter_script
    (visit : Visit)
    {decl : ClassDecl}
    {node : Option Node}
    (placeholder :
      ∀ before, node = some before →
        before = Node.ofCategory .classType ∧
          decl.category.isExtensible = true)
    (body : List Change) :
    nodeAfter decl.name (visit.script decl body) node =
      nodeAfter decl.name (visit.script decl body) none := by
  rw [script, nodeAfter_append, nodeAfter_opening visit placeholder,
    nodeAfter_append _ _ _ none, nodeAfter_opening visit (by simp)]

/-- After an awaited opening, the supertypes make the same script everywhere. -/
theorem linkHeader_awaited
    (visit : Visit)
    (decl : ClassDecl) :
    ∃ rest,
      MemberScript decl.name rest ∧
        ∀ store : Store, store.Awaits decl →
          linkHeader decl (store.replay (visit.opening decl)) =
            (store.replay (visit.script decl rest), none) := by
  unfold linkHeader script
  by_cases declared : decl.category.isExtensible = true
  · obtain ⟨rest, members, replayed⟩ :=
      Store.linkSupertypes_scripted decl.category decl
    refine ⟨rest, members.toMemberScript, fun store awaits => ?_⟩
    have here :
        (store.replay (visit.opening decl)).node? decl.name =
          some (visit.noteOrigin (Node.ofCategory decl.category)) := by
      rw [Store.node?_replay (by simp) (grounded_opening visit decl)]
      exact nodeAfter_opening visit awaits.placeholder
    have alike :
        Node.Alike (visit.noteOrigin (Node.ofCategory decl.category))
          (Node.ofCategory decl.category) :=
      Amendment.alike_apply (.origin visit) _
    have unlinked :
        ∀ child parent,
          Change.link child parent ∉ visit.opening decl := by
      simp [opening]
    have linked := Store.linkSuperclass_of_free declared
      (fun parent named =>
        ⟨(awaits.acyclic parent named).1, fun path =>
          (awaits.acyclic parent named).2
            (path.lift id fun _ _ => Store.extends_of_replay unlinked)⟩)
      here
      (by rw [alike.isExtensible, Node.isExtensible_ofCategory, declared])
      (by rw [alike.parent, Node.lineage_ofCategory])
    simp only [declared, ↓reduceIte, replayed, linked, Store.replay_append]
  · refine ⟨[], .nil decl.name, fun store _ => ?_⟩
    simp [ClassDecl.superclassScript, ClassDecl.linkedTo?, declared]

/--
Entering a declaration makes the same script of every store that awaits it,
and keeps the same problems.
-/
theorem accept_awaited
    (settings : Settings)
    (visit : Visit)
    (fresh : visit.progress = .start)
    (decl : ClassDecl) :
    ∃ (body : List Change) (kept : List Problem),
      MemberScript decl.name body ∧
        ∀ store problems, store.Awaits decl →
          (visit.accept ⟨settings, store, problems⟩ decl).2 =
            ⟨settings, store.replay (visit.script decl body),
              problems ++ kept⟩ := by
  obtain ⟨rest, members, linked⟩ := linkHeader_awaited visit decl
  let begun := visit.headed ⟨settings, {}, []⟩ decl
  have stays : begun.StaysOn decl.name := headed_staysOn visit _ decl
  let node := (nodeAfter decl.name (visit.script decl rest) none).map
    Node.orphan
  obtain ⟨left, body, kept, -, bodyMembers, ran⟩ :=
    enterBody_settledAt settings node stays decl
  refine ⟨rest ++ body, kept, members.append bodyMembers.memberScript, ?_⟩
  intro store problems awaits
  have opened :
      visit.header ⟨settings, store, problems⟩ decl =
        ⟨begun,
          ⟨settings, store.replay (visit.script decl rest), problems⟩,
          .ok decl.name⟩ := by
    rw [header_of_claimed fresh awaits.file_allowed awaits.claim_allowed]
    simp only [linked store awaits, Option.toList_none, List.append_nil,
      headed, awaits.unvisited, begun]
    rfl
  have here :
      (store.replay (visit.script decl rest)).orphan? decl.name = node := by
    rw [Store.orphan?,
      Store.node?_replay (by simp) (visit.grounded_script members)]
    exact congrArg (Option.map Node.orphan)
      (nodeAfter_script visit awaits.placeholder rest)
  have done := ran (store.replay (visit.script decl rest)) problems here
  rw [accept_eq, if_neg awaits.tracked]
  simp only [opened, done]
  simp only [script, Store.replay_append]

end Visit

end TypeAtlas
