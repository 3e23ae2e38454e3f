import TypeAtlas.Proofs.Entering.Growth
import TypeAtlas.Proofs.Entering.OrderIndependence
import TypeAtlas.Proofs.Graph.Heading
import TypeAtlas.Proofs.Graph.Links

namespace TypeAtlas

/-!
# What a visit does to nodes

Every visit that mentions a type comes to its entry, but only a visit of the
type's own declaration writes to its node: another visit, or one that is passed
over, leaves the node alone and at most makes a placeholder. A visit of the
type's own declaration takes on what the header says, and the first one enters
the body as well; on a type that was visited before the body does nothing.
-/

/-! ## Headers -/

/-- The superclass that a header takes on, given the problem that it met. -/
def ClassDecl.taken?
    (decl : ClassDecl)
    (problem : Option Problem) :
    Option TypeName :=
  if problem.isNone then
    decl.superName.filter (· ≠ TypeName.root)
  else
    none

namespace Store

theorem node?_linked
    {store : Store}
    {name parent : TypeName}
    (known : name ∈ store.names)
    (parentKnown : parent ∈ store.names)
    (other : TypeName) :
    (store.linked name parent).node? other =
      (Change.link name parent).nodeAt other (store.node? other) := by
  have linked :
      ((Change.link name parent).apply store).node? other =
        (Change.link name parent).nodeAt other (store.node? other) := by
    refine Change.node?_apply (fun expected member => ?_) other
    simp only [Change.expects, List.mem_cons, List.not_mem_nil,
      or_false] at member
    rcases member with rfl | rfl
    · exact known
    · exact parentKnown
  unfold Store.linked
  dsimp only
  split
  · refine Eq.trans (node?_update _ _ _ ?_ ?_) linked
    · exact fun entry => entry.name_addMark _
    · exact fun entry => entry.node_addMark _
  · exact linked

/-- A superclass is the root type, or is refused, or is linked. -/
theorem linkSuperclass_cases
    (store : Store)
    (decl : ClassDecl) :
    (store.linkSuperclass decl).1 = store ∧
        decl.taken? (store.linkSuperclass decl).2 = none ∧
        (store.linkSuperclass decl).2 = none ∨
      (∃ parent,
        decl.superName = some parent ∧
          (store.linkSuperclass decl).1 =
            store.mention parent (some .classType) ∧
          (store.linkSuperclass decl).2 =
            some (.cyclicInheritance decl.name parent)) ∨
      ∃ parent,
        parent ≠ TypeName.root ∧
          parent ≠ decl.name ∧
          decl.taken? (store.linkSuperclass decl).2 = some parent ∧
          (store.linkSuperclass decl).1 =
            (store.mention parent (some .classType)).linked decl.name parent ∧
          (store.linkSuperclass decl).2 = none := by
  unfold linkSuperclass
  cases named : decl.superName with
  | none =>
      exact Or.inl ⟨rfl, by simp [ClassDecl.taken?, named], rfl⟩
  | some parent =>
      simp only [linkParent_eq]
      split
      · next isRoot =>
          refine Or.inl ⟨rfl, ?_, rfl⟩
          simp [ClassDecl.taken?, named, isRoot, Option.filter_some]
      · next tracked =>
          split
          · exact Or.inr (Or.inl ⟨parent, rfl, rfl, rfl⟩)
          · next free =>
              refine Or.inr (Or.inr
                ⟨parent, tracked, fun same => free (Or.inl same), ?_, rfl, rfl⟩)
              simp [ClassDecl.taken?, named, tracked, Option.filter_some]

/-- A type takes on the superclass, unless it has one or it is refused. -/
theorem node?_linkSuperclass
    {store : Store}
    {decl : ClassDecl}
    {node : Node}
    (here : store.node? decl.name = some node) :
    (store.linkSuperclass decl).1.node? decl.name =
      some (node.updateLineage
        (·.setParent (decl.taken? (store.linkSuperclass decl).2))) := by
  rcases store.linkSuperclass_cases decl with
    ⟨same, taken, -⟩ | ⟨parent, -, mentioned, refused⟩ |
      ⟨parent, tracked, different, taken, linked, -⟩
  · rw [same, taken, node.setParent_none, here]
  · have taken : decl.taken? (store.linkSuperclass decl).2 = none := by
      simp [ClassDecl.taken?, refused]
    rw [mentioned, taken, node.setParent_none, node?_mention, here]
  · have known : decl.name ∈ store.names :=
      mem_names_of_node? (by simp [here])
    rw [linked, taken, node?_linked (mem_names_mention.mpr (Or.inl known))
      (mem_names_mention.mpr (Or.inr ⟨rfl, tracked⟩)), node?_mention, here]
    simp only [Change.nodeAt, Ne.symm different, ↓reduceIte,
      Option.map_some]
    rfl

theorem node?_linkInterfaces
    (store : Store)
    (name : TypeName)
    (category : Category)
    (interfaces : List TypeName) :
    (interfaces.foldl (·.linkInterface name category ·) store).node? name =
      (store.node? name).map
        (·.updateLineage (·.addInterfaces interfaces)) := by
  simp only [← Node.addInterfaces_eq]
  induction interfaces generalizing store with
  | nil =>
      simp
  | cons interface interfaces inductionHypothesis =>
      rw [List.foldl_cons, inductionHypothesis, node?_linkInterface,
        if_pos rfl, Option.map_map]
      rfl

/-- A type takes on what the signature of its declaration resolves to. -/
theorem node?_linkSignature
    (store : Store)
    (decl : ClassDecl) :
    (match decl.signature with
      | some signature => store.linkSignature decl.name signature
      | none => store).node? decl.name =
      (store.node? decl.name).map
        (·.updateLineage (·.addGenerics decl.genericParent?
          decl.genericInterfaces decl.formals)) := by
  have nothing :
      ∀ node : Node, node.updateLineage (·.addGenerics none [] []) = node :=
    fun node => (Node.addGenericInterfaces_eq [] node).symm
  cases signed : decl.signature with
  | none =>
      simp [ClassDecl.genericParent?, ClassDecl.genericInterfaces,
        ClassDecl.formals, ClassDecl.generics?, signed, nothing]
  | some signature =>
      obtain ⟨said, hints, noted⟩ := Filing.resolveClass_mentioning signature
      have resolved : decl.generics? = said := by
        simp [ClassDecl.generics?, signed, noted {}]
      simp only [ClassDecl.genericParent?, ClassDecl.genericInterfaces,
        ClassDecl.formals, resolved, linkSignature, noted store]
      cases said with
      | none =>
          simp [nothing]
      | some generics =>
          rw [node?_updateNode, if_pos rfl, node?_replay_mentions]
          exact congrArg (Option.map · _)
            (funext (Amendment.generics_apply generics))

/-- Supertypes are a superclass, interfaces, and what a signature says. -/
theorem linkSupertypes_eq
    (store : Store)
    (category : Category)
    (decl : ClassDecl) :
    store.linkSupertypes category decl =
      let superclass := store.linkSuperclass decl
      let interfaces := decl.interfaces.foldl
        (·.linkInterface decl.name category ·) superclass.1
      (match decl.signature with
        | some signature => interfaces.linkSignature decl.name signature
        | none => interfaces,
        superclass.2) :=
  rfl

end Store

namespace Visit

/-- A type takes on the supertypes that its header gives it. -/
theorem node?_linkHeader
    {store : Store}
    {decl : ClassDecl}
    {node : Node}
    (here : store.node? decl.name = some node)
    (kind : node.isExtensible = decl.category.isExtensible) :
    (linkHeader decl store).1.node? decl.name =
      some (node.updateLineage
        (·.extend (decl.taken? (linkHeader decl store).2) decl)) := by
  unfold linkHeader
  split
  · simp only [Store.linkSupertypes_eq]
    rw [Store.node?_linkSignature, Store.node?_linkInterfaces,
      Store.node?_linkSuperclass here]
    simp only [Option.map_some, Node.updateLineage_updateLineage]
    rfl
  · next other =>
      rw [here,
        Node.updateLineage_of_annotationType (by simpa [other] using kind)]

/-- The opening of a visit notes where the type was found. -/
theorem node?_opening
    (visit : Visit)
    (decl : ClassDecl)
    (store : Store) :
    (store.replay (visit.opening decl)).node? decl.name =
      some (visit.noteOrigin
        { (store.node? decl.name).getD (Node.ofCategory decl.category) with
          category := decl.category }) := by
  rw [Store.node?_replay (by simp) (grounded_opening visit decl)]
  cases store.node? decl.name <;>
    simp [opening, Change.nodeAt, Amendment.apply]

end Visit

/-! ## Other types -/

namespace Store

/-- The node of a name stays, or a name that has none gets a placeholder. -/
def LeavesNode
    (before after : Store)
    (name : TypeName) :
    Prop :=
  after.node? name = before.node? name ∨
    before.node? name = none ∧
      after.node? name = some (Node.ofCategory .classType)

namespace LeavesNode

theorem trans
    {first second third : Store}
    {name : TypeName}
    (earlier : first.LeavesNode second name)
    (later : second.LeavesNode third name) :
    first.LeavesNode third name := by
  rcases earlier with same | ⟨absent, placed⟩
  · rcases later with still | ⟨absent, placed⟩
    · exact Or.inl (still.trans same)
    · exact Or.inr ⟨same ▸ absent, placed⟩
  · rcases later with still | ⟨gone, -⟩
    · exact Or.inr ⟨absent, still.trans placed⟩
    · rw [gone] at placed
      exact absurd placed (by simp)

/-- A script about another type leaves the node. -/
theorem replay
    {owner name : TypeName}
    {script : List Change}
    (members : Visit.MemberScript owner script)
    (other : name ≠ owner)
    (store : Store) :
    store.LeavesNode (store.replay script) name := by
  left
  rw [node?_replay_members members.ofMember,
    nodeAfter_members_other members.ofMember other]

end LeavesNode

/-- A superclass gets a placeholder at most. -/
theorem linkSuperclass_leavesNode
    {store : Store}
    {decl : ClassDecl}
    (known : decl.name ∈ store.names)
    {name : TypeName}
    (other : name ≠ decl.name) :
    store.LeavesNode (store.linkSuperclass decl).1 name := by
  rcases store.linkSuperclass_cases decl with
    ⟨same, -⟩ | ⟨parent, -, mentioned, -⟩ | ⟨parent, tracked, -, -, linked, -⟩
  · rw [same]
    exact Or.inl rfl
  · rw [mentioned]
    exact Or.inl (store.node?_mention ..)
  · rw [LeavesNode, linked,
      node?_linked (mem_names_mention.mpr (Or.inl known))
        (mem_names_mention.mpr (Or.inr ⟨rfl, tracked⟩)), node?_mention]
    simp only [Change.nodeAt, other, ↓reduceIte]
    cases store.node? name with
    | none =>
        by_cases here : name = parent <;> simp [here]
    | some node =>
        left
        split <;> rfl

end Store

namespace Visit

theorem linkHeader_leavesNode
    {store : Store}
    {decl : ClassDecl}
    (known : decl.name ∈ store.names)
    {name : TypeName}
    (other : name ≠ decl.name) :
    store.LeavesNode (linkHeader decl store).1 name := by
  unfold linkHeader
  split
  · obtain ⟨script, members, replayed⟩ :=
      Store.linkSupertypes_scripted decl.category decl
    rw [replayed]
    exact (Store.linkSuperclass_leavesNode known other).trans
      (.replay members.toMemberScript other _)
  · exact Or.inl rfl

/-- A body replays a script that adds members to its type. -/
theorem enterBody_replays
    {visit : Visit}
    {owner : TypeName}
    (stays : visit.StaysOn owner)
    (atlas : Atlas)
    (decl : ClassDecl) :
    ∃ script kept,
      BodyScript owner script ∧
        (enterBody decl (visit, atlas)).2 =
          ⟨atlas.settings, atlas.store.replay script,
            atlas.problems ++ kept⟩ := by
  obtain ⟨_, script, kept, -, body, ran⟩ :=
    enterBody_settledAt atlas.settings (atlas.store.orphan? owner) stays decl
  exact ⟨script, kept, body,
    congrArg Prod.snd (ran atlas.store atlas.problems rfl)⟩

theorem enterBody_leavesNode
    {visit : Visit}
    {owner : TypeName}
    (stays : visit.StaysOn owner)
    (atlas : Atlas)
    (decl : ClassDecl)
    {name : TypeName}
    (other : name ≠ owner) :
    atlas.store.LeavesNode (enterBody decl (visit, atlas)).2.store name := by
  obtain ⟨script, _, body, done⟩ := enterBody_replays stays atlas decl
  rw [done]
  exact .replay body.memberScript other _

/-- A declaration that may not claim its type leaves the nodes alone. -/
theorem node?_founding
    {store : Store}
    {decl : ClassDecl}
    (refused :
      ¬ (Change.claim decl.name decl.category).Allowed
        (store.replay (founding decl)))
    (name : TypeName) :
    (store.replay (founding decl)).node? name = store.node? name := by
  rw [Store.node?_replay (by simp) (grounded_founding decl)]
  simp only [founding, List.foldl_cons, List.foldl_nil, Change.nodeAt]
  split
  · next here =>
      cases installed : store.node? name with
      | none =>
          exact absurd (claim_allowed_of_absent (here ▸ installed)) refused
      | some node =>
          rfl
  · rfl

/-- A visit that does not enter a type makes a placeholder for it at most. -/
theorem accept_leavesNode
    {visit : Visit}
    {atlas : Atlas}
    {decl : ClassDecl}
    {name : TypeName}
    (other : (visit.accept atlas decl).1 ≠ some name) :
    atlas.store.LeavesNode (visit.accept atlas decl).2.store name := by
  rw [accept_eq] at other ⊢
  split
  · exact Or.inl rfl
  · next tracked =>
      rw [if_neg tracked] at other
      rcases header_cases visit atlas decl with
        ⟨problem, refused⟩ | ⟨-, unclaimed, problem, refused⟩ | ⟨-, -, entered⟩
      · rw [refused]
        exact Or.inl rfl
      · rw [refused]
        exact Or.inl (node?_founding unclaimed name)
      · rw [entered] at other ⊢
        have different : name ≠ decl.name := fun same =>
          other (congrArg some same.symm)
        have opened :
            atlas.store.LeavesNode
              (atlas.store.replay (visit.opening decl)) name := by
          left
          rw [Store.node?_replay (by simp) (grounded_opening visit decl)]
          exact nodeAfter_opening_other visit different _
        have known :
            decl.name ∈ (atlas.store.replay (visit.opening decl)).names :=
          Store.mem_names_of_node? (by rw [node?_opening]; rfl)
        exact (opened.trans (linkHeader_leavesNode known different)).trans
          (enterBody_leavesNode (headed_staysOn visit atlas decl) _ decl
            different)

/-! ## Bodies -/

/-- Members change nothing of a node but its members. -/
theorem bare_nodeAfter
    {owner : TypeName}
    {script : List Change}
    (adds : ∀ change ∈ script, change.AddsMember owner)
    (node : Option Node) :
    (nodeAfter owner script node).map Node.bare = node.map Node.bare := by
  induction script generalizing node with
  | nil =>
      rfl
  | cons change script inductionHypothesis =>
      have first : change.AddsMember owner := adds change (by simp)
      have same :
          (change.nodeAt owner node).map Node.bare = node.map Node.bare := by
        cases change with
        | mention _ _ | mark _ _ =>
            rfl
        | amend target amendment =>
            obtain ⟨rfl, members⟩ := first
            cases node <;> simp [Change.nodeAt, members.bare_apply]
        | file _ _ | found _ _ | claim _ _ | link _ _ | take =>
            exact first.elim
      rw [← same, nodeAfter, List.foldl_cons]
      exact inductionHypothesis
        (fun change member => adds change (List.mem_cons_of_mem _ member)) _

/-- A body adds nothing but members to the node of its type. -/
theorem node?_enterBody
    {visit : Visit}
    {owner : TypeName}
    (stays : visit.StaysOn owner)
    (atlas : Atlas)
    (decl : ClassDecl)
    {node : Node}
    (here : atlas.store.node? owner = some node) :
    ∃ after,
      (enterBody decl (visit, atlas)).2.store.node? owner = some after ∧
        after.bare = node.bare := by
  obtain ⟨script, _, body, done⟩ := enterBody_replays stays atlas decl
  have same := bare_nodeAfter body.addsMember (some node)
  rw [done]
  simp only [Store.node?_replay_members body.memberScript.ofMember, here]
  exact Option.map_eq_some_iff.mp same

/-- A body enters the same members whatever the superclass is. -/
theorem orphan?_enterBody
    {visit : Visit}
    {owner : TypeName}
    (stays : visit.StaysOn owner)
    (decl : ClassDecl)
    {first second : Atlas}
    (settings : first.settings = second.settings)
    (same : first.store.orphan? owner = second.store.orphan? owner) :
    (enterBody decl (visit, first)).2.store.orphan? owner =
      (enterBody decl (visit, second)).2.store.orphan? owner := by
  obtain ⟨_, script, _, -, body, ran⟩ :=
    enterBody_settledAt first.settings (first.store.orphan? owner) stays decl
  have one : enterBody decl (visit, first) = _ :=
    ran first.store first.problems rfl
  have other := ran second.store second.problems same.symm
  simp only [settings] at other
  have another : enterBody decl (visit, second) = _ := other
  rw [one, another]
  simp only [Store.orphan?_replay_members body.addsMember, same]

theorem settings_enterBody
    {visit : Visit}
    {owner : TypeName}
    (stays : visit.StaysOn owner)
    (atlas : Atlas)
    (decl : ClassDecl) :
    (enterBody decl (visit, atlas)).2.settings = atlas.settings := by
  obtain ⟨_, _, -, done⟩ := enterBody_replays stays atlas decl
  rw [done]

/-! ## Bodies of types that were visited before -/

/-- Steps that do nothing but move the visit on, one after another. -/
theorem settleAll_idle
    (Waits : Visit → Prop)
    {step : Visit → Atlas → δ → Outcome α}
    (idle :
      ∀ visit atlas decl, Waits visit →
        ∃ next answer,
          Waits next ∧ step visit atlas decl = ⟨next, atlas, .ok answer⟩)
    (atlas : Atlas)
    (decls : List δ)
    {visit : Visit}
    (start : Waits visit) :
    ∃ next, Waits next ∧ settleAll step decls (visit, atlas) = (next, atlas) := by
  induction decls generalizing visit with
  | nil =>
      exact ⟨visit, start, rfl⟩
  | cons decl decls inductionHypothesis =>
      obtain ⟨next, answer, waits, stepped⟩ := idle visit atlas decl start
      obtain ⟨last, still, rest⟩ := inductionHypothesis waits
      have settled : settle (step visit atlas decl) = (next, atlas) := by
        rw [stepped]
        rfl
      refine ⟨last, still, ?_⟩
      rw [← rest, ← settled]
      rfl

theorem annotate_idle
    {visit : Visit}
    {current : Current}
    (reached : visit.progress = .header current)
    (merging : current.merging = true)
    (atlas : Atlas)
    (decl : AnnotationDecl) :
    visit.annotate atlas decl = ⟨visit, atlas, .ok ()⟩ := by
  simp only [annotate, reached, merging, ↓reduceIte]

theorem field_idle
    {visit : Visit}
    {current : Current}
    (opened : visit.openMembers? = some current)
    (merging : current.merging = true)
    (atlas : Atlas)
    (decl : FieldDecl) :
    visit.field atlas decl =
      ⟨{ visit with progress := .members current }, atlas, .ok none⟩ := by
  simp only [field, opened, merging, Bool.true_or, ↓reduceIte]

theorem method_idle
    {visit : Visit}
    {current : Current}
    (opened : visit.openMembers? = some current)
    (merging : current.merging = true)
    (atlas : Atlas)
    (decl : MethodDecl) :
    visit.method atlas decl =
      ⟨{ visit with progress := .members current }, atlas, .ok none⟩ := by
  simp only [method, opened, merging, Bool.true_or, ↓reduceIte]

/-- The body of a type that was visited before leaves everything alone. -/
theorem enterBody_idle
    {visit : Visit}
    {current : Current}
    (reached : visit.progress = .header current)
    (merging : current.merging = true)
    (atlas : Atlas)
    (decl : ClassDecl) :
    (enterBody decl (visit, atlas)).2 = atlas := by
  obtain ⟨annotated, onHeader, annotations⟩ :=
    settleAll_idle (·.progress = .header current)
      (fun visit atlas decl reached =>
        ⟨visit, (), reached, annotate_idle reached merging atlas decl⟩)
      atlas decl.annotations reached
  have opened : annotated.openMembers? = some current := by
    simp only [openMembers?, onHeader]
  obtain ⟨fielded, onFields, fields⟩ :=
    settleAll_idle (·.openMembers? = some current)
      (fun visit atlas decl opened =>
        ⟨_, none, rfl, field_idle opened merging atlas decl⟩)
      atlas decl.fields opened
  obtain ⟨ended, onMethods, methods⟩ :=
    settleAll_idle (·.openMembers? = some current)
      (fun visit atlas decl opened =>
        ⟨_, none, rfl, method_idle opened merging atlas decl⟩)
      atlas decl.methods onFields
  simp only [enterBody, annotations, fields, methods, finish, onMethods,
    settle]

/-- A visit does not touch the settings. -/
theorem settings_accept
    (visit : Visit)
    (atlas : Atlas)
    (decl : ClassDecl) :
    (visit.accept atlas decl).2.settings = atlas.settings := by
  rw [accept_eq]
  split
  · rfl
  · rcases header_cases visit atlas decl with
      ⟨problem, refused⟩ | ⟨-, -, problem, refused⟩ | ⟨-, -, entered⟩
    · rw [refused]
      rfl
    · rw [refused]
      rfl
    · rw [entered]
      exact settings_enterBody (headed_staysOn visit atlas decl) _ decl

end Visit

end TypeAtlas
