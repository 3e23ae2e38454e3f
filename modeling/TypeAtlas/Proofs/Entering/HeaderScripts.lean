import TypeAtlas.Proofs.Entering.VisitScripts

namespace TypeAtlas

/-!
# Headers as scripts

The header of a declaration files its name, gives it a node, marks it as
visited and notes where it was found; then come its superclass, its interfaces
and its signature. Only the superclass asks for more than the node of the type:
it is linked unless the type is among its ancestors.

This module says when each step succeeds and what it does then.
-/

namespace Store

/-! ## Scripts that are always allowed -/

/-- A script whose changes are allowed everywhere can be replayed anywhere. -/
theorem evolves_replay
    {script : List Change}
    (free : ∀ change ∈ script, ∀ store, change.Allowed store)
    (store : Store) :
    Evolves store (store.replay script) := by
  induction script generalizing store with
  | nil =>
      exact .refl store
  | cons change script inductionHypothesis =>
      refine .step change (free change (by simp) store) ?_
      exact inductionHypothesis
        (fun change member => free change (List.mem_cons_of_mem _ member)) _

/-- Changes about members are always allowed. -/
theorem allowed_of_ofMember
    {owner : TypeName}
    {change : Change}
    (kind : change.OfMember owner)
    (store : Store) :
    change.Allowed store := by
  cases change with
  | mention _ _ | mark _ _ | amend _ _ =>
      trivial
  | file _ _ | found _ _ | claim _ _ | link _ _ | take =>
      exact kind.elim

/-- A script about a type is a run of allowed changes. -/
theorem evolves_memberScript
    {owner : TypeName}
    {script : List Change}
    (members : Visit.MemberScript owner script)
    (store : Store) :
    Evolves store (store.replay script) :=
  evolves_replay
    (fun change member => allowed_of_ofMember (members.ofMember change member))
    store

/-! ## Filing and claiming -/

/-- A declaration is filed exactly when the change is allowed. -/
theorem define_eq_ok_iff
    {store after : Store}
    {name : TypeName}
    {category : Category} :
    store.define name category = .ok after ↔
      (Change.file name category).Allowed store ∧
        (Change.file name category).apply store = after := by
  unfold define
  simp only [Change.Allowed, Change.apply, visitedNode?]
  by_cases isRoot : name = TypeName.root
  · simp [isRoot]
  · simp only [isRoot, ↓reduceIte, ne_eq, not_false_eq_true, true_and]
    cases store.find? name with
    | none =>
        simp
    | some entry =>
        simp only [Option.bind_some]
        cases entry.visitedNode? with
        | none =>
            simp
        | some node =>
            by_cases same : node.category = category <;> simp [same]

/-- A node is claimed exactly when the change is allowed. -/
theorem claim_eq_ok_iff
    {store after : Store}
    {name : TypeName}
    {category : Category}
    {first : Bool}
    {entry : Entry}
    {node : Node}
    (found : store.find? name = some entry)
    (filed : entry.category = some category)
    (installed : entry.node = some node) :
    store.claim name category = .ok (first, after) ↔
      (Change.claim name category).Allowed store ∧
        (!store.isVisited name) = first ∧
        (Change.claim name category).apply store = after := by
  have allowed :
      (Change.claim name category).Allowed store ↔
        node.category = category ∨
          entry.visited = false ∧
            node.isExtensible = category.isExtensible := by
    simp only [Change.Allowed, found, Option.some.injEq]
    constructor
    · rintro ⟨_, other, rfl, -, same, fits⟩
      rw [installed, Option.some.injEq] at same
      rw [same]
      exact fits
    · exact fun fits => ⟨entry, node, rfl, filed, installed, fits⟩
  have visited : store.isVisited name = entry.visited := by
    simp [isVisited, found]
  rw [allowed, visited]
  simp only [claim, found, installed, Option.map_some, Option.getD_some,
    Change.apply]
  by_cases same : node.category = category
  · simp [same]
  · by_cases old : entry.visited = true
    · simp [same, old]
    · by_cases alike : node.isExtensible = category.isExtensible <;>
        simp [same, old, alike]

end Store

/-! ## Superclasses -/

namespace Store

/-- The superclass of a declaration, if it names one. -/
def linkSuperclass
    (store : Store)
    (decl : ClassDecl) :
    Store × Option Problem :=
  match decl.superName with
  | some parent => store.linkParent decl.name parent
  | none => (store, none)

/-- What a superclass that is accepted does to a store. -/
def linked
    (store : Store)
    (name parent : TypeName) :
    Store :=
  let store := (Change.link name parent).apply store
  let chosen := ((store.node? name).bind (·.lineage.parent)).map (·.name)
  if chosen = some parent then
    (Change.mark parent (.subType name)).apply store
  else
    store

/-- A superclass is the root, or refused, or linked. -/
theorem linkParent_eq
    (store : Store)
    (name parent : TypeName) :
    store.linkParent name parent =
      if parent = TypeName.root then
        (store, none)
      else if parent = name ∨
          (store.mention parent (some .classType)).inheritsFrom parent name then
        (store.mention parent (some .classType),
          some (.cyclicInheritance name parent))
      else
        ((store.mention parent (some .classType)).linked name parent, none) := by
  unfold linkParent
  split
  · rfl
  · dsimp only
    split
    · rfl
    · exact (apply_ite (fun store => (store, (none : Option Problem)))
        _ _ _).symm

end Store

/-! ## Interfaces and signatures -/

namespace Visit

/-- A script about a type that adds no members to it. -/
structure HeadScript
    (owner : TypeName)
    (script : List Change) : Prop
    extends MemberScript owner script where
  noMember :
    ∀ name amendment, Change.amend name amendment ∈ script →
      ¬ amendment.AddsMember

namespace HeadScript

theorem nil
    (owner : TypeName) :
    HeadScript owner [] :=
  ⟨.nil owner, by simp⟩

/-- Scripts that add no members can be put behind each other. -/
theorem append
    {owner : TypeName}
    {first second : List Change}
    (earlier : HeadScript owner first)
    (later : HeadScript owner second) :
    HeadScript owner (first ++ second) := by
  refine ⟨earlier.toMemberScript.append later.toMemberScript,
    fun name amendment member => ?_⟩
  rcases List.mem_append.mp member with early | late
  · exact earlier.noMember name amendment early
  · exact later.noMember name amendment late

/-- Mentioning names adds no members. -/
theorem mentions
    (owner : TypeName)
    (hints : List Hint) :
    HeadScript owner (TypeAtlas.mentions hints) := by
  refine ⟨.mentions owner hints, fun name amendment member => ?_⟩
  obtain ⟨_, _, other⟩ := eq_mention_of_mem_mentions member
  exact absurd other (by simp)

end HeadScript

end Visit

/-- How an interface is marked by a type that has it. -/
def interfaceMark
    (name : TypeName)
    (category : Category) :
    Mark :=
  if category = .interfaceType then .subType name else .implementer name

/-- The script of an interface. -/
def interfaceScript
    (name : TypeName)
    (category : Category)
    (interface : TypeName) :
    List Change :=
  .mention interface (some .interfaceType) ::
    ((if interface = TypeName.root then
        []
      else
        [.mark interface (interfaceMark name category)]) ++
      [.amend name (.interface interface)])

/-- Linking an interface adds no members. -/
theorem headScript_interfaceScript
    (name : TypeName)
    (category : Category)
    (interface : TypeName) :
    Visit.HeadScript name (interfaceScript name category interface) := by
  by_cases isRoot : interface = TypeName.root
  · refine ⟨⟨?_, ?_⟩, ?_⟩
    · simp [interfaceScript, isRoot, Grounded, Change.expects]
    · simp [interfaceScript, isRoot, Change.OfMember]
    · simp [interfaceScript, isRoot, Amendment.AddsMember]
  · refine ⟨⟨?_, ?_⟩, ?_⟩
    · simp [interfaceScript, isRoot, Grounded, Change.expects,
        Change.introduces]
    · simp [interfaceScript, isRoot, Change.OfMember]
    · simp [interfaceScript, isRoot, Amendment.AddsMember]

namespace Store

/-- An interface is linked by a script. -/
theorem linkInterface_eq_replay
    (store : Store)
    (name : TypeName)
    (category : Category)
    (interface : TypeName) :
    store.linkInterface name category interface =
      store.replay (interfaceScript name category interface) := by
  have marks :
      ∀ entry : Entry,
        (if category = .interfaceType then
          entry.addSubType name
        else
          entry.addImplementer name) =
          entry.addMark (interfaceMark name category) := by
    intro entry
    unfold interfaceMark
    split <;> rfl
  unfold linkInterface interfaceScript
  simp only [marks]
  by_cases isRoot : interface = TypeName.root
  · simp only [updateReferent, isRoot, ↓reduceIte]
    rfl
  · have tracked : (Reference.toType interface).tracked = true := by
      simp [Reference.toType, isRoot]
    simp only [updateReferent, tracked, isRoot, ↓reduceIte]
    rfl

/-- Interfaces are linked by their scripts, one after the other. -/
theorem linkInterfaces_eq_replay
    (store : Store)
    (name : TypeName)
    (category : Category)
    (interfaces : List TypeName) :
    interfaces.foldl (·.linkInterface name category ·) store =
      store.replay (interfaces.flatMap (interfaceScript name category)) := by
  induction interfaces generalizing store with
  | nil =>
      rfl
  | cons interface interfaces inductionHypothesis =>
      rw [List.foldl_cons, inductionHypothesis, linkInterface_eq_replay,
        List.flatMap_cons, replay_append]

/-- Linking interfaces adds no members. -/
theorem headScript_interfaces
    (name : TypeName)
    (category : Category)
    (interfaces : List TypeName) :
    Visit.HeadScript name
      (interfaces.flatMap (interfaceScript name category)) := by
  induction interfaces with
  | nil =>
      exact .nil name
  | cons interface interfaces inductionHypothesis =>
      rw [List.flatMap_cons]
      exact (headScript_interfaceScript name category interface).append
        inductionHypothesis

/-- A class signature makes the same script of every store. -/
theorem linkSignature_scripted
    (name : TypeName)
    (signature : String) :
    ∃ script,
      Visit.HeadScript name script ∧
        ∀ store : Store,
          store.linkSignature name signature = store.replay script := by
  obtain ⟨said, hints, noted⟩ := Filing.resolveClass_mentioning signature
  cases said with
  | none =>
      refine ⟨mentions hints, .mentions name hints, fun store => ?_⟩
      simp only [linkSignature, noted store]
  | some generics =>
      have said :
          Visit.HeadScript name [.amend name (.generics generics)] :=
        ⟨.amend name _, by simp [Amendment.AddsMember]⟩
      refine ⟨mentions hints ++ [.amend name (.generics generics)],
        (Visit.HeadScript.mentions name hints).append said,
        fun store => ?_⟩
      simp only [linkSignature, noted store, replay_append]
      rfl

/-- What follows the superclass makes the same script of every store. -/
theorem linkSupertypes_scripted
    (category : Category)
    (decl : ClassDecl) :
    ∃ script,
      Visit.HeadScript decl.name script ∧
        ∀ store : Store,
          store.linkSupertypes category decl =
            ((store.linkSuperclass decl).1.replay script,
              (store.linkSuperclass decl).2) := by
  have interfaces :=
    headScript_interfaces decl.name category decl.interfaces
  cases signed : decl.signature with
  | none =>
      refine ⟨_, interfaces, fun store => ?_⟩
      rw [← linkInterfaces_eq_replay]
      unfold linkSupertypes
      rewrite [signed]
      rfl
  | some signature =>
      obtain ⟨script, members, replayed⟩ :=
        linkSignature_scripted decl.name signature
      refine ⟨_, interfaces.append members, fun store => ?_⟩
      rw [replay_append, ← linkInterfaces_eq_replay, ← replayed]
      unfold linkSupertypes
      rewrite [signed]
      rfl

end Store

/-! ## Headers -/

namespace Visit

/-- The first changes of a header, up to the supertypes. -/
def opening
    (visit : Visit)
    (decl : ClassDecl) :
    List Change :=
  [.file decl.name decl.category, .found decl.name decl.category,
    .claim decl.name decl.category, .amend decl.name (.origin visit)]

/-- The supertypes of a declaration, which an annotation type has none of. -/
def linkHeader
    (decl : ClassDecl)
    (store : Store) :
    Store × Option Problem :=
  if decl.category.isExtensible then
    store.linkSupertypes decl.category decl
  else
    (store, none)

/-- The state of a visit after a header that succeeds. -/
def headed
    (visit : Visit)
    (atlas : Atlas)
    (decl : ClassDecl) :
    Visit :=
  { visit with
    progress := .header
      { name := decl.name
        category := decl.category
        deep := atlas.settings.alwaysDeep
        merging := atlas.store.isVisited decl.name } }

/-- The first two of them, after which it is decided whether to go on. -/
def founding (decl : ClassDecl) : List Change :=
  [.file decl.name decl.category, .found decl.name decl.category]

/-- The first changes of a header take no name to have an entry. -/
theorem grounded_founding
    (decl : ClassDecl) :
    Grounded [] (founding decl) := by
  simp [founding, Grounded, Change.expects, Change.introduces]

/-- A declaration that is filed has an entry of its category, with a node. -/
theorem find?_founding
    (store : Store)
    (decl : ClassDecl) :
    ∃ entry node,
      (store.replay (founding decl)).find? decl.name = some entry ∧
        entry.category = some decl.category ∧
        entry.node = some node := by
  simp only [founding, Store.replay_cons, Store.replay_nil,
    Change.find?_apply]
  cases store.find? decl.name with
  | none =>
      simp [Change.create, Change.revise, Entry.ofName, Entry.ensureNode]
  | some entry =>
      cases installed : entry.node <;>
        simp [Change.revise, Entry.fileUnder, Entry.ensureNode, installed]

/-- The first changes of a header visit no type. -/
theorem isVisited_founding
    (store : Store)
    (decl : ClassDecl) :
    (store.replay (founding decl)).isVisited decl.name =
      store.isVisited decl.name := by
  rw [Bool.eq_iff_iff,
    Store.isVisited_replay (by simp) (grounded_founding decl)]
  simp [founding]

/-- The first changes file the name and install a node. -/
theorem founding_eq
    (store : Store)
    (decl : ClassDecl) :
    ((Change.file decl.name decl.category).apply store).update decl.name
        (·.ensureNode decl.category) =
      store.replay (founding decl) :=
  rfl

/-- A header that may not file its type changes nothing. -/
theorem header_of_not_filed
    {visit : Visit}
    (fresh : visit.progress = .start)
    {atlas : Atlas}
    {decl : ClassDecl}
    (refused :
      ¬ (Change.file decl.name decl.category).Allowed atlas.store) :
    ∃ problem, visit.header atlas decl = ⟨visit, atlas, .error problem⟩ := by
  cases defined : atlas.store.define decl.name decl.category with
  | ok store =>
      exact absurd (Store.define_eq_ok_iff.mp defined).1 refused
  | error problem =>
      exact ⟨problem, by simp only [header, fresh, defined]⟩

/-- A header that may not claim its type leaves it filed and founded. -/
theorem header_of_not_claimed
    {visit : Visit}
    (fresh : visit.progress = .start)
    {atlas : Atlas}
    {decl : ClassDecl}
    (filed : (Change.file decl.name decl.category).Allowed atlas.store)
    (refused :
      ¬ (Change.claim decl.name decl.category).Allowed
        (atlas.store.replay (founding decl))) :
    ∃ problem,
      visit.header atlas decl =
        ⟨visit, { atlas with store := atlas.store.replay (founding decl) },
          .error problem⟩ := by
  have defined := Store.define_eq_ok_iff.mpr ⟨filed, rfl⟩
  obtain ⟨entry, node, found, category, installed⟩ :=
    find?_founding atlas.store decl
  cases claimed :
      (atlas.store.replay (founding decl)).claim decl.name decl.category with
  | ok result =>
      have allowed :=
        (Store.claim_eq_ok_iff found category installed).mp claimed
      exact absurd allowed.1 refused
  | error problem =>
      exact ⟨problem,
        by simp only [header, fresh, defined, founding_eq, claimed]⟩

/-- A header that claims its type links the supertypes. -/
theorem header_of_claimed
    {visit : Visit}
    (fresh : visit.progress = .start)
    {atlas : Atlas}
    {decl : ClassDecl}
    (filed : (Change.file decl.name decl.category).Allowed atlas.store)
    (claimed :
      (Change.claim decl.name decl.category).Allowed
        (atlas.store.replay (founding decl))) :
    visit.header atlas decl =
      let linked := linkHeader decl (atlas.store.replay (visit.opening decl))
      ⟨visit.headed atlas decl,
        { atlas with
          store := linked.1
          problems := atlas.problems ++ linked.2.toList },
        .ok decl.name⟩ := by
  have defined := Store.define_eq_ok_iff.mpr ⟨filed, rfl⟩
  obtain ⟨entry, node, found, category, installed⟩ :=
    find?_founding atlas.store decl
  have claims :=
    (Store.claim_eq_ok_iff found category installed).mpr
      ⟨claimed, rfl, rfl⟩
  rw [isVisited_founding] at claims
  simp only [header, fresh, defined, founding_eq, claims, Bool.not_not]
  rfl

/-- What becomes of a header: it is refused, or files its type, or enters it. -/
theorem header_cases
    (visit : Visit)
    (atlas : Atlas)
    (decl : ClassDecl) :
    (∃ problem, visit.header atlas decl = ⟨visit, atlas, .error problem⟩) ∨
      ((Change.file decl.name decl.category).Allowed atlas.store ∧
        ¬ (Change.claim decl.name decl.category).Allowed
          (atlas.store.replay (founding decl)) ∧
        ∃ problem,
          visit.header atlas decl =
            ⟨visit, { atlas with store := atlas.store.replay (founding decl) },
              .error problem⟩) ∨
      (Change.file decl.name decl.category).Allowed atlas.store ∧
        (Change.claim decl.name decl.category).Allowed
          (atlas.store.replay (founding decl)) ∧
        visit.header atlas decl =
          let linked :=
            linkHeader decl (atlas.store.replay (visit.opening decl))
          ⟨visit.headed atlas decl,
            { atlas with
              store := linked.1
              problems := atlas.problems ++ linked.2.toList },
            .ok decl.name⟩ := by
  cases reached : visit.progress with
  | header _ | members _ | ended =>
      exact Or.inl ⟨_, by simp only [header, reached]; rfl⟩
  | start =>
      by_cases filed :
          (Change.file decl.name decl.category).Allowed atlas.store
      · by_cases claimed :
            (Change.claim decl.name decl.category).Allowed
              (atlas.store.replay (founding decl))
        · exact Or.inr (Or.inr
            ⟨filed, claimed, header_of_claimed reached filed claimed⟩)
        · exact Or.inr (Or.inl
            ⟨filed, claimed, header_of_not_claimed reached filed claimed⟩)
      · exact Or.inl (header_of_not_filed reached filed)

/-! ## Whole declarations -/

/-- A declaration is passed over, or its header and then its body is entered. -/
theorem accept_eq
    (visit : Visit)
    (atlas : Atlas)
    (decl : ClassDecl) :
    visit.accept atlas decl =
      if decl.name = TypeName.root then
        (none, atlas)
      else
        let opened := visit.header atlas decl
        match opened.answer with
        | .error problem => (none, opened.atlas.report problem)
        | .ok name =>
            (some name, (enterBody decl (opened.visit, opened.atlas)).2) :=
  rfl

end Visit

end TypeAtlas
