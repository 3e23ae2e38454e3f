import Mathlib.Data.List.Induction
import TypeAtlas.Proofs.Entering.FirstVisits

namespace TypeAtlas

/-!
# The order of declarations

Declarations can be entered in any order. A type may be met as a superclass, as
an interface, in an annotation, a descriptor or a signature, long before or
after its own declaration, and each of these leaves its traces in the store;
the graph at the end is the same.

The proof goes through the scripts of the declarations. What a script adds to
the names, the visited types and the reverse references is a union, and so does
not hang on the order. What it does to a node does, but only a little: other
declarations do nothing to the node of a type but make sure that there is a
placeholder, and the type's own declaration leaves the same node with a
placeholder and without.
-/

/-- A declaration, and where it was found. -/
structure Source where
  decl : ClassDecl
  location : Option String := none
  isApplication : Bool := true

namespace Source

/-- The visit that enters the declaration. -/
def visit (source : Source) : Visit :=
  { location := source.location, isApplication := source.isApplication }

/-- Whether the declaration is entered at all. -/
def Tracked (source : Source) : Prop :=
  source.decl.name ≠ TypeName.root

end Source

namespace Atlas

/-- Enter declarations one after another. -/
def enterSources
    (atlas : Atlas)
    (sources : List Source) :
    Atlas :=
  sources.foldl
    (fun atlas source =>
      (atlas.enter source.decl source.location source.isApplication).2)
    atlas

end Atlas

/-- One declared type names another type as its superclass. -/
def Superclass
    (sources : List Source)
    (child parent : TypeName) :
    Prop :=
  ∃ source ∈ sources,
    source.decl.name = child ∧ source.decl.superName = some parent

/--
Declarations that can be entered without a conflict: no two of one name, no
cycle among superclasses, and no annotation type as a superclass.
-/
structure Consistent (sources : List Source) : Prop where
  distinct : (sources.map (·.decl.name)).Nodup
  acyclic : ∀ name, ¬ Relation.TransGen (Superclass sources) name name
  superclasses :
    ∀ source ∈ sources, ∀ other ∈ sources,
      source.decl.superName = some other.decl.name →
        other.decl.category ≠ .annotationType

namespace Consistent

/-- What holds of all declarations holds of those that come first. -/
theorem init
    {sources : List Source}
    {last : Source}
    (consistent : Consistent (sources ++ [last])) :
    Consistent sources where
  distinct := by
    have distinct := consistent.distinct
    rw [List.map_append] at distinct
    exact distinct.of_append_left
  acyclic name cycle := by
    refine consistent.acyclic name (cycle.lift id ?_)
    rintro child parent ⟨source, member, named⟩
    exact ⟨source, List.mem_append_left _ member, named⟩
  superclasses source member other present :=
    consistent.superclasses source (List.mem_append_left _ member) other
      (List.mem_append_left _ present)

/-- No declaration before the last one has its name. -/
theorem apart
    {sources : List Source}
    {last source : Source}
    (consistent : Consistent (sources ++ [last]))
    (member : source ∈ sources) :
    source.decl.name ≠ last.decl.name := by
  have distinct := consistent.distinct
  rw [List.map_append, List.nodup_append] at distinct
  exact distinct.2.2 _ (List.mem_map_of_mem member) _ (by simp)

/-- A type that another one names as its superclass is no annotation type. -/
theorem isExtensible
    {sources : List Source}
    {last source : Source}
    (consistent : Consistent (sources ++ [last]))
    (member : source ∈ sources)
    (named : source.decl.superName = some last.decl.name) :
    last.decl.category.isExtensible = true := by
  rw [← Bool.not_eq_false, Category.isExtensible_eq_false_iff]
  exact consistent.superclasses source (List.mem_append_left _ member) last
    (by simp) named

end Consistent

/-! ## What one script does -/

/-- Changes of members of a type leave the nodes of other types alone. -/
theorem nodeAfter_members_other
    {owner name : TypeName}
    {script : List Change}
    (members : ∀ change ∈ script, change.OfMember owner)
    (other : name ≠ owner)
    (node : Option Node) :
    nodeAfter name script node = node := by
  induction script generalizing node with
  | nil =>
      rfl
  | cons change script inductionHypothesis =>
      have kind := members change (by simp)
      have same : change.nodeAt name node = node := by
        cases change with
        | mention _ _ | mark _ _ =>
            rfl
        | amend target amendment =>
            have elsewhere : name ≠ target := fun here =>
              other (here.trans kind)
            simp [Change.nodeAt, elsewhere]
        | file _ _ | found _ _ | claim _ _ | link _ _ | take =>
            exact kind.elim
      rw [nodeAfter, List.foldl_cons, same]
      exact inductionHypothesis
        (fun change member => members change (List.mem_cons_of_mem _ member))
        node

/-- A node that is there stays. -/
theorem isSome_nodeAfter
    {name : TypeName}
    (script : List Change)
    {node : Option Node}
    (installed : node.isSome) :
    (nodeAfter name script node).isSome := by
  induction script generalizing node with
  | nil =>
      exact installed
  | cons change script inductionHypothesis =>
      apply inductionHypothesis
      obtain ⟨present, rfl⟩ := Option.isSome_iff_exists.mp installed
      cases change with
      | mention _ _ | file _ _ | mark _ _ | take =>
          rfl
      | found _ _ | claim _ _ | amend _ _ =>
          simp only [Change.nodeAt]
          split <;> rfl
      | link _ _ =>
          simp only [Change.nodeAt]
          split <;> split <;> rfl

namespace Visit

/-- A declaration only makes sure that its superclass has a node. -/
theorem nodeAfter_script_other
    (visit : Visit)
    {decl : ClassDecl}
    {body : List Change}
    (members : MemberScript decl.name body)
    {name : TypeName}
    (other : name ≠ decl.name)
    (node : Option Node) :
    nodeAfter name (visit.script decl body) node =
      if decl.linkedTo? = some name then
        node <|> some (Node.ofCategory .classType)
      else
        node := by
  rw [script, nodeAfter_append, nodeAfter_opening_other visit other,
    nodeAfter_append, nodeAfter_members_other members.ofMember other]
  unfold ClassDecl.superclassScript
  cases decl.linkedTo? with
  | none =>
      simp [nodeAfter]
  | some parent =>
      by_cases here : name = parent
      · simp [nodeAfter, Change.nodeAt, here ▸ other, here]
      · simp [nodeAfter, Change.nodeAt, other, here, Ne.symm here]

/-- A declaration leaves a node for its type. -/
theorem isSome_nodeAfter_script
    (visit : Visit)
    (decl : ClassDecl)
    (body : List Change) :
    (nodeAfter decl.name (visit.script decl body) none).isSome := by
  rw [script, nodeAfter_append, nodeAfter_opening visit (by simp)]
  exact isSome_nodeAfter _ rfl

/-- A visit claims the type of its declaration alone. -/
theorem claim_mem_script_iff
    (visit : Visit)
    {decl : ClassDecl}
    {body : List Change}
    (members : MemberScript decl.name body)
    {name : TypeName} :
    (∃ category, Change.claim name category ∈ visit.script decl body) ↔
      name = decl.name := by
  have unclaimed :
      ∀ category, Change.claim name category ∉ body :=
    fun category member => members.ofMember _ member
  simp only [script, ClassDecl.superclassScript, List.mem_append, unclaimed]
  cases decl.linkedTo? <;> simp [opening]

/-- A visit links the superclass of its declaration alone. -/
theorem link_mem_script
    (visit : Visit)
    {decl : ClassDecl}
    {body : List Change}
    (members : MemberScript decl.name body)
    {name parent : TypeName}
    (member : Change.link name parent ∈ visit.script decl body) :
    decl.linkedTo? = some parent := by
  have unlinked : Change.link name parent ∉ body :=
    fun member => members.ofMember _ member
  simp only [script, ClassDecl.superclassScript, List.mem_append,
    unlinked] at member
  cases linked : decl.linkedTo? with
  | none =>
      simp [linked, opening] at member
  | some other =>
      simp [linked, opening] at member
      rw [member.2]

end Visit

/-- Whoever has a superclass after a script had it before or was linked. -/
theorem parentNamed?_nodeAfter
    {name parent : TypeName}
    {script : List Change}
    {node : Option Node}
    (refers :
      Store.parentNamed? (nodeAfter name script node) = some parent) :
    Store.parentNamed? node = some parent ∨
      Change.link name parent ∈ script := by
  induction script generalizing node with
  | nil =>
      exact Or.inl refers
  | cons change script inductionHypothesis =>
      rcases inductionHypothesis refers with before | later
      · rcases Store.parentNamed?_nodeAt change name node with
          same | ⟨other, rfl, -, chosen⟩
        · exact Or.inl (same.symm.trans before)
        · rw [chosen, Option.some.injEq] at before
          rw [before]
          exact Or.inr List.mem_cons_self
      · exact Or.inr (List.mem_cons_of_mem _ later)

/-! ## What all scripts do -/

/-- What entering each declaration for the first time does. -/
structure Scripts (settings : Settings) where
  body : Source → List Change
  kept : Source → List Problem
  members :
    ∀ source, Visit.MemberScript source.decl.name (body source)
  accepts :
    ∀ (source : Source) (store : Store) (problems : List Problem),
      store.Awaits source.decl →
        (source.visit.accept ⟨settings, store, problems⟩ source.decl).2 =
          ⟨settings,
            store.replay (source.visit.script source.decl (body source)),
            problems ++ kept source⟩

/-- There is a script for every source. -/
theorem nonempty_scripts
    (settings : Settings) :
    Nonempty (Scripts settings) := by
  have entered := fun source : Source =>
    Visit.accept_awaited settings source.visit rfl source.decl
  choose body kept members accepts using entered
  exact ⟨⟨body, kept, members, accepts⟩⟩

namespace Scripts

variable {settings : Settings}

/-- The script of a declaration; that of the root type is passed over. -/
def of
    (scripts : Scripts settings)
    (source : Source) :
    List Change :=
  if source.decl.name = TypeName.root then
    []
  else
    source.visit.script source.decl (scripts.body source)

/-- The problems that entering a declaration keeps. -/
def problems
    (scripts : Scripts settings)
    (source : Source) :
    List Problem :=
  if source.decl.name = TypeName.root then [] else scripts.kept source

/-- A tracked source has its visit's script. -/
theorem of_tracked
    (scripts : Scripts settings)
    {source : Source}
    (tracked : source.Tracked) :
    scripts.of source =
      source.visit.script source.decl (scripts.body source) :=
  if_neg tracked

/-- The root type is passed over. -/
theorem of_untracked
    (scripts : Scripts settings)
    {source : Source}
    (untracked : ¬ source.Tracked) :
    scripts.of source = [] :=
  if_pos (not_not.mp untracked)

/-- The scripts of declarations, one after another. -/
def all
    (scripts : Scripts settings)
    (sources : List Source) :
    List Change :=
  sources.flatMap scripts.of

/-- The last source is entered last. -/
theorem all_append_singleton
    (scripts : Scripts settings)
    (sources : List Source)
    (source : Source) :
    scripts.all (sources ++ [source]) =
      scripts.all sources ++ scripts.of source := by
  simp [all]

/-- The node that a declaration leaves for its type. -/
def nodeOf
    (scripts : Scripts settings)
    (source : Source) :
    Option Node :=
  nodeAfter source.decl.name (scripts.of source) none

/-- All scripts together take no name to have an entry. -/
theorem grounded_all
    (scripts : Scripts settings)
    (sources : List Source) :
    Grounded [] (scripts.all sources) := by
  induction sources with
  | nil =>
      trivial
  | cons source sources inductionHypothesis =>
      have first : Grounded [] (scripts.of source) := by
        unfold of
        split
        · trivial
        · exact source.visit.grounded_script (scripts.members source)
      exact first.append (inductionHypothesis.mono (by simp))

/-- The types that are visited in the end are those that are declared. -/
theorem isVisited_all_iff
    (scripts : Scripts settings)
    (sources : List Source)
    {name : TypeName} :
    (({} : Store).replay (scripts.all sources)).isVisited name = true ↔
      ∃ source ∈ sources, source.Tracked ∧ source.decl.name = name := by
  have empty : ({} : Store).isVisited name = false := rfl
  rw [Store.isVisited_replay (by simp) (scripts.grounded_all sources), empty]
  simp only [Bool.false_eq_true, false_or, all, List.mem_flatMap]
  constructor
  · rintro ⟨category, source, member, claimed⟩
    have tracked : source.Tracked := by
      intro isRoot
      simp [of, isRoot] at claimed
    rw [scripts.of_tracked tracked] at claimed
    have named := (source.visit.claim_mem_script_iff
      (scripts.members source)).mp ⟨category, claimed⟩
    exact ⟨source, member, tracked, named.symm⟩
  · rintro ⟨source, member, tracked, rfl⟩
    obtain ⟨category, claimed⟩ := (source.visit.claim_mem_script_iff
      (scripts.members source)).mpr rfl
    refine ⟨category, source, member, ?_⟩
    rw [scripts.of_tracked tracked]
    exact claimed

/-! ## Nodes -/

/--
The node of a name is the one its declaration leaves, and without a declaration
it is a placeholder if some declaration has it as a superclass.
-/
structure Describes
    (scripts : Scripts settings)
    (sources : List Source)
    (name : TypeName)
    (node : Option Node) :
    Prop where
  declared :
    ∀ source ∈ sources, source.Tracked → source.decl.name = name →
      node = scripts.nodeOf source
  linked :
    (∀ source ∈ sources, source.Tracked → source.decl.name ≠ name) →
      (∃ source ∈ sources,
        source.Tracked ∧ source.decl.linkedTo? = some name) →
        node = some (Node.ofCategory .classType)
  absent :
    (∀ source ∈ sources, source.Tracked → source.decl.name ≠ name) →
      (∀ source ∈ sources,
        source.Tracked → source.decl.linkedTo? ≠ some name) →
        node = none

/-- A description leaves no choice. -/
theorem Describes.unique
    {scripts : Scripts settings}
    {sources : List Source}
    {name : TypeName}
    {first second : Option Node}
    (one : scripts.Describes sources name first)
    (other : scripts.Describes sources name second) :
    first = second := by
  by_cases declared :
      ∃ source ∈ sources, source.Tracked ∧ source.decl.name = name
  · obtain ⟨source, member, tracked, named⟩ := declared
    rw [one.declared source member tracked named,
      other.declared source member tracked named]
  · have undeclared :
        ∀ source ∈ sources, source.Tracked → source.decl.name ≠ name :=
      fun source member tracked named =>
        declared ⟨source, member, tracked, named⟩
    by_cases linked :
        ∃ source ∈ sources,
          source.Tracked ∧ source.decl.linkedTo? = some name
    · rw [one.linked undeclared linked, other.linked undeclared linked]
    · have unlinked :
          ∀ source ∈ sources,
            source.Tracked → source.decl.linkedTo? ≠ some name :=
        fun source member tracked link =>
          linked ⟨source, member, tracked, link⟩
      rw [one.absent undeclared unlinked, other.absent undeclared unlinked]

/-- The description of a node does not depend on the order of the sources. -/
theorem Describes.perm
    {scripts : Scripts settings}
    {first second : List Source}
    (perm : first.Perm second)
    {name : TypeName}
    {node : Option Node}
    (describes : scripts.Describes first name node) :
    scripts.Describes second name node where
  declared source member := describes.declared source (perm.mem_iff.mpr member)
  linked undeclared := fun ⟨source, member, link⟩ =>
    describes.linked
      (fun other present => undeclared other (perm.mem_iff.mp present))
      ⟨source, perm.mem_iff.mpr member, link⟩
  absent undeclared unlinked :=
    describes.absent
      (fun other present => undeclared other (perm.mem_iff.mp present))
      (fun other present => unlinked other (perm.mem_iff.mp present))

/-- A tracked source leaves a node. -/
theorem isSome_nodeOf
    (scripts : Scripts settings)
    {source : Source}
    (tracked : source.Tracked) :
    (scripts.nodeOf source).isSome := by
  rw [nodeOf, scripts.of_tracked tracked]
  exact source.visit.isSome_nodeAfter_script source.decl _

/-- A name that is not declared has a placeholder or nothing. -/
theorem Describes.eq_placeholder
    {scripts : Scripts settings}
    {sources : List Source}
    {name : TypeName}
    {node : Option Node}
    (describes : scripts.Describes sources name node)
    (undeclared :
      ∀ source ∈ sources, source.Tracked → source.decl.name ≠ name)
    {before : Node}
    (installed : node = some before) :
    before = Node.ofCategory .classType ∧
      ∃ source ∈ sources, source.decl.superName = some name := by
  by_cases linked :
      ∃ source ∈ sources,
        source.Tracked ∧ source.decl.linkedTo? = some name
  · have placeholder := describes.linked undeclared linked
    rw [installed, Option.some.injEq] at placeholder
    obtain ⟨source, member, -, link⟩ := linked
    exact ⟨placeholder, source, member,
      (ClassDecl.linkedTo?_eq_some_iff.mp link).2.1⟩
  · have nothing := describes.absent undeclared
      fun source member tracked link =>
        linked ⟨source, member, tracked, link⟩
    rw [installed] at nothing
    exact absurd nothing (by simp)

/-- Before a type's own declaration there is a placeholder at most. -/
theorem Describes.placeholder
    {scripts : Scripts settings}
    {sources : List Source}
    {last : Source}
    (consistent : Consistent (sources ++ [last]))
    {node : Option Node}
    (describes : scripts.Describes sources last.decl.name node)
    (before : Node)
    (installed : node = some before) :
    before = Node.ofCategory .classType ∧
      last.decl.category.isExtensible = true := by
  obtain ⟨blank, source, member, named⟩ :=
    describes.eq_placeholder (fun _ member _ => consistent.apart member)
      installed
  exact ⟨blank, consistent.isExtensible member named⟩

/-- The root type's declaration adds nothing to a description. -/
theorem Describes.snoc_untracked
    {scripts : Scripts settings}
    {sources : List Source}
    {name : TypeName}
    {node : Option Node}
    (describes : scripts.Describes sources name node)
    {last : Source}
    (untracked : ¬ last.Tracked) :
    scripts.Describes (sources ++ [last]) name node := by
  have early :
      ∀ source ∈ sources ++ [last], source.Tracked → source ∈ sources := by
    intro source member tracked
    rcases List.mem_append.mp member with old | new
    · exact old
    · rw [List.mem_singleton.mp new] at tracked
      exact absurd tracked untracked
  refine ⟨fun source member tracked => ?_, fun undeclared linked => ?_,
    fun undeclared unlinked => ?_⟩
  · exact describes.declared source (early source member tracked) tracked
  · obtain ⟨source, member, tracked, link⟩ := linked
    exact describes.linked
      (fun other present => undeclared other (List.mem_append_left _ present))
      ⟨source, early source member tracked, tracked, link⟩
  · exact describes.absent
      (fun other present => undeclared other (List.mem_append_left _ present))
      (fun other present => unlinked other (List.mem_append_left _ present))

/-- A type's own declaration takes over the placeholder, if there is one. -/
theorem Describes.snoc_own
    {scripts : Scripts settings}
    {sources : List Source}
    {last : Source}
    (tracked : last.Tracked)
    (consistent : Consistent (sources ++ [last]))
    {node : Option Node}
    (describes : scripts.Describes sources last.decl.name node) :
    scripts.Describes (sources ++ [last]) last.decl.name
      (nodeAfter last.decl.name (scripts.of last) node) := by
  have own :
      nodeAfter last.decl.name (scripts.of last) node =
        scripts.nodeOf last := by
    rw [nodeOf, scripts.of_tracked tracked]
    exact last.visit.nodeAfter_script (describes.placeholder consistent) _
  refine ⟨fun source member known named => ?_, fun missing => ?_,
    fun missing => ?_⟩
  · rcases List.mem_append.mp member with old | new
    · exact absurd named (consistent.apart old)
    · rw [List.mem_singleton.mp new, own]
  · exact absurd rfl (missing last (by simp) tracked)
  · exact absurd rfl (missing last (by simp) tracked)

/-- Another type's declaration adds a placeholder at most. -/
theorem Describes.snoc_other
    {scripts : Scripts settings}
    {sources : List Source}
    {last : Source}
    (tracked : last.Tracked)
    {name : TypeName}
    (other : name ≠ last.decl.name)
    {node : Option Node}
    (describes : scripts.Describes sources name node) :
    scripts.Describes (sources ++ [last]) name
      (nodeAfter name (scripts.of last) node) := by
  rw [scripts.of_tracked tracked,
    last.visit.nodeAfter_script_other (scripts.members last) other]
  refine ⟨fun source member known named => ?_, fun missing linked => ?_,
    fun missing unlinked => ?_⟩
  · rcases List.mem_append.mp member with old | new
    · have left := describes.declared source old known named
      obtain ⟨present, some⟩ :=
        Option.isSome_iff_exists.mp (scripts.isSome_nodeOf known)
      rw [left, some]
      split <;> rfl
    · rw [List.mem_singleton.mp new] at named
      exact absurd named.symm other
  · have undeclared :
        ∀ source ∈ sources, source.Tracked → source.decl.name ≠ name :=
      fun source member => missing source (List.mem_append_left _ member)
    by_cases early :
        ∃ source ∈ sources,
          source.Tracked ∧ source.decl.linkedTo? = some name
    · rw [describes.linked undeclared early]
      split <;> rfl
    · have nothing := describes.absent undeclared
        fun source member known link =>
          early ⟨source, member, known, link⟩
      obtain ⟨source, member, known, link⟩ := linked
      rcases List.mem_append.mp member with old | new
      · exact absurd ⟨source, old, known, link⟩ early
      · rw [List.mem_singleton.mp new] at link
        rw [nothing, if_pos link]
        rfl
  · have unlinkedLast := unlinked last (by simp) tracked
    rw [if_neg unlinkedLast]
    exact describes.absent
      (fun source member => missing source (List.mem_append_left _ member))
      (fun source member => unlinked source (List.mem_append_left _ member))

/-- Declarations that fit together describe every node at the end. -/
theorem describes_all
    (scripts : Scripts settings)
    {sources : List Source}
    (consistent : Consistent sources)
    (name : TypeName) :
    scripts.Describes sources name
      (nodeAfter name (scripts.all sources) none) := by
  induction sources using List.reverseRecOn with
  | nil =>
      exact ⟨by simp, by simp, fun _ _ => rfl⟩
  | append_singleton sources last inductionHypothesis =>
      have before := inductionHypothesis consistent.init
      rw [scripts.all_append_singleton, nodeAfter_append]
      by_cases tracked : last.Tracked
      · by_cases own : name = last.decl.name
        · subst own
          exact before.snoc_own tracked consistent
        · exact before.snoc_other tracked own
      · rw [scripts.of_untracked tracked]
        exact before.snoc_untracked tracked

/-- The node of a name after all sources is the one all scripts leave. -/
theorem node?_all
    (scripts : Scripts settings)
    (sources : List Source)
    (name : TypeName) :
    (({} : Store).replay (scripts.all sources)).node? name =
      nodeAfter name (scripts.all sources) none :=
  Store.node?_replay (by simp) (scripts.grounded_all sources) name

/-- A superclass in the graph is the superclass that a declaration names. -/
theorem superclass_of_extends
    (scripts : Scripts settings)
    {sources : List Source}
    (consistent : Consistent sources)
    {child parent : TypeName}
    (linked :
      (({} : Store).replay (scripts.all sources)).Extends child parent) :
    Superclass sources child parent := by
  have describes := scripts.describes_all consistent child
  rw [Store.Extends, Store.parentName?, scripts.node?_all] at linked
  by_cases declared :
      ∃ source ∈ sources, source.Tracked ∧ source.decl.name = child
  · obtain ⟨source, member, tracked, named⟩ := declared
    rw [describes.declared source member tracked named, nodeOf, named,
      scripts.of_tracked tracked] at linked
    rcases parentNamed?_nodeAfter linked with before | link
    · exact absurd before (by simp [Store.parentNamed?])
    · have chosen :=
        source.visit.link_mem_script (scripts.members source) link
      exact ⟨source, member, named,
        (ClassDecl.linkedTo?_eq_some_iff.mp chosen).2.1⟩
  · cases installed : nodeAfter child (scripts.all sources) none with
    | none =>
        simp [installed, Store.parentNamed?] at linked
    | some node =>
        obtain ⟨rfl, -⟩ := describes.eq_placeholder
          (fun source member tracked named =>
            declared ⟨source, member, tracked, named⟩) installed
        simp [installed, Store.parentNamed?] at linked

/-- Whatever was entered before, the next declaration is awaited. -/
theorem awaits_next
    (scripts : Scripts settings)
    {sources : List Source}
    {last : Source}
    (tracked : last.Tracked)
    (consistent : Consistent (sources ++ [last])) :
    (({} : Store).replay (scripts.all sources)).Awaits last.decl := by
  have describes := scripts.describes_all consistent.init last.decl.name
  refine ⟨tracked, ?_, fun node installed => ?_, fun parent named => ?_⟩
  · rw [Bool.eq_false_iff, ne_eq, scripts.isVisited_all_iff]
    rintro ⟨source, member, -, same⟩
    exact consistent.apart member same
  · rw [scripts.node?_all] at installed
    exact describes.placeholder consistent node installed
  · have first : Superclass (sources ++ [last]) last.decl.name parent :=
      ⟨last, by simp, rfl, named⟩
    refine ⟨fun same => ?_, fun path => ?_⟩
    · rw [same] at first
      exact consistent.acyclic _ (.single first)
    · have onward :
          Relation.ReflTransGen (Superclass (sources ++ [last])) parent
            last.decl.name := by
        refine path.lift id fun child above linked => ?_
        obtain ⟨source, member, declared⟩ :=
          scripts.superclass_of_extends consistent.init linked
        exact ⟨source, List.mem_append_left _ member, declared⟩
      exact consistent.acyclic _ (.head' first onward)

/-- Entering declarations that fit together replays their scripts. -/
theorem enterSources_eq
    (scripts : Scripts settings)
    {sources : List Source}
    (consistent : Consistent sources) :
    Atlas.enterSources { settings := settings } sources =
      ⟨settings, ({} : Store).replay (scripts.all sources),
        sources.flatMap scripts.problems⟩ := by
  induction sources using List.reverseRecOn with
  | nil =>
      rfl
  | append_singleton sources last inductionHypothesis =>
      have before := inductionHypothesis consistent.init
      simp only [Atlas.enterSources, List.foldl_append, List.foldl_cons,
        List.foldl_nil] at before ⊢
      rw [before, scripts.all_append_singleton, List.flatMap_append,
        Store.replay_append]
      by_cases tracked : last.Tracked
      · have entered := scripts.accepts last _
          (sources.flatMap scripts.problems)
          (scripts.awaits_next tracked consistent)
        have kept : scripts.problems last = scripts.kept last :=
          if_neg tracked
        rw [scripts.of_tracked tracked]
        simp only [List.flatMap_cons, List.flatMap_nil, List.append_nil, kept]
        exact entered
      · have isRoot : last.decl.name = TypeName.root := not_not.mp tracked
        have none : scripts.problems last = [] := if_pos isRoot
        rw [scripts.of_untracked tracked]
        simp [none, Atlas.enter, Visit.accept_eq, isRoot]

end Scripts

/-! ## Any order -/

/--
Two stores hold the same graph: the same names, the same visited types filed
alike, the same nodes and placeholders, and the same reverse references, in any
order.
-/
structure Store.SameGraph (first second : Store) : Prop where
  names : ∀ name, name ∈ first.names ↔ name ∈ second.names
  visited : ∀ name, first.isVisited name = second.isVisited name
  nodes : ∀ name, first.node? name = second.node? name
  filed :
    ∀ name, first.isVisited name = true →
      (first.find? name).map (fun entry => (entry.category, entry.pool)) =
        (second.find? name).map (fun entry => (entry.category, entry.pool))
  marks : ∀ name mark, first.Bears name mark ↔ second.Bears name mark

/-- The pool and the category of a visited type are those of its node. -/
theorem Store.WellFormed.filed_of_visited
    {store : Store}
    (wellFormed : store.WellFormed)
    {name : TypeName}
    (visited : store.isVisited name = true) :
    (store.find? name).map (fun entry => (entry.category, entry.pool)) =
      (store.node? name).map fun node =>
        (some node.category, some node.category.pool) := by
  cases known : store.find? name with
  | none =>
      simp [isVisited, known] at visited
  | some entry =>
      have fits := wellFormed.entries entry (mem_of_find? known)
      obtain ⟨node, installed, category⟩ :=
        fits.visited (by simpa [isVisited, known] using visited)
      simp [node?, known, installed, fits.filed, category]

/-- Entering sources makes changes that are allowed. -/
theorem Atlas.enterSources_evolves
    (sources : List Source)
    (atlas : Atlas) :
    Store.Evolves atlas.store (atlas.enterSources sources).store := by
  induction sources generalizing atlas with
  | nil =>
      exact .refl _
  | cons source sources inductionHypothesis =>
      exact (Visit.accept_evolves source.visit atlas source.decl).trans
        (inductionHypothesis _)

/-- Sources stay consistent in any order. -/
theorem Consistent.perm
    {first second : List Source}
    (permuted : first.Perm second)
    (consistent : Consistent first) :
    Consistent second where
  distinct :=
    ((permuted.map (·.decl.name)).nodup_iff).mp consistent.distinct
  acyclic name cycle := by
    refine consistent.acyclic name (cycle.lift id ?_)
    rintro child parent ⟨source, member, named⟩
    exact ⟨source, permuted.mem_iff.mpr member, named⟩
  superclasses source member other present :=
    consistent.superclasses source (permuted.mem_iff.mpr member) other
      (permuted.mem_iff.mpr present)

/--
Declarations that fit together give the same graph in any order, with the same
problems. Only the order inside the reverse references, and where types are
filed that were never visited, may be different.
-/
theorem Atlas.enterSources_perm
    (settings : Settings)
    {first second : List Source}
    (consistent : Consistent first)
    (permuted : first.Perm second) :
    let one := Atlas.enterSources { settings := settings } first
    let other := Atlas.enterSources { settings := settings } second
    one.store.SameGraph other.store ∧
      one.problems.Perm other.problems := by
  intro one other
  obtain ⟨scripts⟩ := nonempty_scripts settings
  have permutedConsistent := consistent.perm permuted
  have oneEntered : one = _ := scripts.enterSources_eq consistent
  have otherEntered : other = _ := scripts.enterSources_eq permutedConsistent
  have changes :
      ∀ change, change ∈ scripts.all first ↔ change ∈ scripts.all second :=
    fun change => (permuted.flatMap_right scripts.of).mem_iff
  have visited :
      ∀ name, one.store.isVisited name = other.store.isVisited name := by
    intro name
    rw [oneEntered, otherEntered, Bool.eq_iff_iff,
      scripts.isVisited_all_iff, scripts.isVisited_all_iff]
    simp only [permuted.mem_iff]
  have nodes : ∀ name, one.store.node? name = other.store.node? name := by
    intro name
    rw [oneEntered, otherEntered, scripts.node?_all, scripts.node?_all]
    exact ((scripts.describes_all consistent name).perm permuted).unique
      (scripts.describes_all permutedConsistent name)
  have wellFormed :
      ∀ sources,
        (Atlas.enterSources { settings := settings } sources).store.WellFormed :=
    fun sources => (Atlas.enterSources_evolves sources _).wellFormed
      Store.wellFormed_empty
  refine ⟨⟨fun name => ?_, visited, nodes, fun name known => ?_,
    fun name mark => ?_⟩, ?_⟩
  · rw [oneEntered, otherEntered]
    simp only [Store.mem_names_replay, changes]
  · rw [(wellFormed first).filed_of_visited known,
      (wellFormed second).filed_of_visited (visited name ▸ known)]
    rw [nodes name]
  · rw [oneEntered, otherEntered]
    simp only [changes,
      Store.bears_replay (by simp) (scripts.grounded_all _)]
  · rw [oneEntered, otherEntered]
    exact permuted.flatMap_right scripts.problems

/-- A class with a field, its subclass, and an annotated subclass of that. -/
def threeGenerations : List Source :=
  [{ decl :=
      { access := 0x21
        name := "A"
        fields := [{ access := 1, name := "next", descriptor := "LCCC;" }] } },
    { decl :=
      { access := 0x21
        name := "BB"
        superName := some "A"
        interfaces := ["I"] } },
    { decl :=
      { access := 0x21
        name := "CCC"
        superName := some "BB"
        annotations := [⟨"LMark;", true, []⟩] }
      isApplication := false }]

/-- The three sources agree on all that is asked of them. -/
theorem consistent_threeGenerations :
    Consistent threeGenerations := by
  refine ⟨by decide, fun name cycle => ?_, by decide⟩
  have shorter :
      ∀ child parent, Superclass threeGenerations child parent →
        parent.length < child.length := by
    rintro child parent ⟨source, member, rfl, named⟩
    simp only [threeGenerations, List.mem_cons, List.not_mem_nil,
      or_false] at member
    rcases member with rfl | rfl | rfl
    · simp at named
    · simp only [Option.some.injEq] at named
      rw [← named]
      decide
    · simp only [Option.some.injEq] at named
      rw [← named]
      decide
  have descends :
      ∀ child parent,
        Relation.TransGen (Superclass threeGenerations) child parent →
          parent.length < child.length := by
    intro child parent path
    induction path with
    | single step =>
        exact shorter _ _ step
    | tail _ step inductionHypothesis =>
        exact Nat.lt_trans (shorter _ _ step) inductionHypothesis
  exact Nat.lt_irrefl _ (descends name name cycle)

/-- Ancestors may come after their descendants. -/
theorem Atlas.enterSources_perm_threeGenerations :
    Consistent threeGenerations ∧
      threeGenerations.Perm threeGenerations.reverse ∧
      (Atlas.enterSources {} threeGenerations).store.SameGraph
        (Atlas.enterSources {} threeGenerations.reverse).store ∧
      (Atlas.enterSources {} threeGenerations).problems.Perm
        (Atlas.enterSources {} threeGenerations.reverse).problems :=
  ⟨consistent_threeGenerations, (List.reverse_perm _).symm,
    Atlas.enterSources_perm {} consistent_threeGenerations
      (List.reverse_perm _).symm⟩

end TypeAtlas
