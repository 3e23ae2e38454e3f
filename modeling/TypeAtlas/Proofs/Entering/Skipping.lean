import TypeAtlas.Proofs.Entering.Definitions
import TypeAtlas.Proofs.Entering.Rejection

namespace TypeAtlas

/-!
# Which declarations are passed over

Whether a declaration is passed over is decided by what the store knows of its
type, and what the store knows follows from the declarations that were accepted
before. A type is visited if one of them declared it, and then has the category
that all of them gave. A type that is not visited has a node if one of them,
not an annotation type, named it as its superclass, and that node is the
placeholder of a class. So the history alone tells which declaration comes too
late: one that gives its type another category than an accepted one, or that
makes an annotation type of what was taken to be a class.
-/

/-! ## Conflicts with the store -/

/-- The node of a type cannot take on the category of a declaration. -/
def Store.RulesOut
    (store : Store)
    (decl : ClassDecl) :
    Prop :=
  ∃ node,
    store.node? decl.name = some node ∧
      node.category ≠ decl.category ∧
      (store.isVisited decl.name = true ∨
        node.isExtensible ≠ decl.category.isExtensible)

/-- That two categories were given to one type. -/
def Problem.IsConflict : Problem → Prop
  | .categoryConflict _ _ _ => True
  | _ => False

theorem Problem.IsMinor.not_isConflict
    {problem : Problem}
    (minor : problem.IsMinor) :
    ¬ problem.IsConflict := by
  cases problem <;> simp_all [IsMinor, IsConflict]

namespace Visit

theorem claim_not_allowed_iff
    {store : Store}
    {decl : ClassDecl} :
    ¬ (Change.claim decl.name decl.category).Allowed
        (store.replay (founding decl)) ↔
      store.RulesOut decl := by
  rw [claim_allowed_iff, Store.RulesOut]
  cases store.node? decl.name with
  | none =>
      have fresh : (Node.ofCategory decl.category).category = decl.category :=
        rfl
      simp [fresh]
  | some node =>
      simp only [Option.getD_some, Option.some.injEq, exists_eq_left']
      cases store.isVisited decl.name <;> simp

/-- A declaration that may not be filed is at odds with a visited node. -/
theorem rulesOut_of_not_filed
    {store : Store}
    {decl : ClassDecl}
    (tracked : decl.name ≠ TypeName.root)
    (refused : ¬ (Change.file decl.name decl.category).Allowed store) :
    store.RulesOut decl := by
  simp only [Change.Allowed, tracked, ne_eq, not_false_eq_true, true_and,
    not_forall] at refused
  obtain ⟨node, known, other⟩ := refused
  obtain ⟨entry, found, here⟩ := Option.bind_eq_some_iff.mp known
  simp only [Entry.visitedNode?, Option.ite_none_right_eq_some] at here
  exact ⟨node, by simp [Store.node?, found, here.2], other,
    Or.inl (by simp [Store.isVisited, found, here.1])⟩

/-- A header is refused exactly for what the store knows of its type. -/
theorem header_refused_iff
    {visit : Visit}
    (fresh : visit.progress = .start)
    (atlas : Atlas)
    {decl : ClassDecl}
    (tracked : decl.name ≠ TypeName.root) :
    (∃ problem, (visit.header atlas decl).answer = .error problem) ↔
      atlas.store.RulesOut decl := by
  by_cases filed : (Change.file decl.name decl.category).Allowed atlas.store
  · rw [← claim_not_allowed_iff]
    by_cases claimed :
        (Change.claim decl.name decl.category).Allowed
          (atlas.store.replay (founding decl))
    · rw [header_of_claimed fresh filed claimed]
      simp [claimed]
    · obtain ⟨problem, refused⟩ := header_of_not_claimed fresh filed claimed
      rw [refused]
      simp [claimed]
  · obtain ⟨problem, refused⟩ := header_of_not_filed fresh filed
    rw [refused]
    simp [rulesOut_of_not_filed tracked filed]

/-- The only thing that a header is refused for is a conflict. -/
theorem header_conflict
    {visit : Visit}
    (fresh : visit.progress = .start)
    {atlas : Atlas}
    {decl : ClassDecl}
    (tracked : decl.name ≠ TypeName.root)
    {problem : Problem}
    (refused : (visit.header atlas decl).answer = .error problem) :
    (visit.header atlas decl).atlas.problems = atlas.problems ∧
      ∃ existing,
        problem = .categoryConflict decl.name existing decl.category := by
  cases defined : atlas.store.define decl.name decl.category with
  | error met =>
      simp only [header, fresh, defined, Except.error.injEq] at refused ⊢
      rw [refused] at defined
      rw [true_and]
      unfold Store.define at defined
      rw [if_neg tracked] at defined
      split at defined
      · simp at defined
      · split at defined
        · next node _ =>
            split at defined
            · simp at defined
            · exact ⟨node.category, (Except.error.inj defined).symm⟩
        · simp at defined
  | ok store =>
      obtain ⟨filed, rfl⟩ := Store.define_eq_ok_iff.mp defined
      cases claimed :
          (atlas.store.replay (founding decl)).claim decl.name
            decl.category with
      | ok result =>
          simp [header, fresh, defined, founding_eq, claimed] at refused
      | error met =>
          simp only [header, fresh, defined, founding_eq, claimed,
            Except.error.injEq] at refused ⊢
          obtain ⟨entry, node, -, -, -, conflict⟩ :=
            Store.claim_conflict filed claimed
          exact ⟨trivial, node.category, refused ▸ conflict⟩

end Visit

namespace Acceptance

theorem outcome_eq_none_iff
    (acceptance : Acceptance) :
    acceptance.outcome.1 = none ↔
      acceptance.decl.name = TypeName.root ∨
        acceptance.before.store.RulesOut acceptance.decl := by
  have entering :
      acceptance.outcome =
        acceptance.source.visit.accept acceptance.before acceptance.decl :=
    rfl
  rw [entering, Visit.accept_eq]
  split
  · next isRoot =>
      simp [isRoot]
  · next tracked =>
      have fresh : acceptance.source.visit.progress = .start := rfl
      rw [← Visit.header_refused_iff fresh acceptance.before tracked]
      dsimp only
      split <;> simp [*]

/-- A declaration that is passed over reports one conflict, or is of the root. -/
theorem problems_of_skipped
    {acceptance : Acceptance}
    (skipped : acceptance.outcome.1 = none) :
    acceptance.decl.name = TypeName.root ∧
        acceptance.outcome.2.problems = acceptance.before.problems ∨
      acceptance.decl.name ≠ TypeName.root ∧
        ∃ existing,
          acceptance.outcome.2.problems =
            acceptance.before.problems ++
              [.categoryConflict acceptance.decl.name existing
                acceptance.decl.category] := by
  have entering :
      acceptance.outcome =
        acceptance.source.visit.accept acceptance.before acceptance.decl :=
    rfl
  rw [entering, Visit.accept_eq] at skipped ⊢
  split
  · next isRoot =>
      exact Or.inl ⟨isRoot, rfl⟩
  · next tracked =>
      rw [if_neg tracked] at skipped
      have fresh : acceptance.source.visit.progress = .start := rfl
      refine Or.inr ⟨tracked, ?_⟩
      dsimp only at skipped ⊢
      split at skipped
      · next problem refused =>
          obtain ⟨same, existing, rfl⟩ :=
            Visit.header_conflict fresh tracked refused
          exact ⟨existing, by rw [Atlas.report, same]⟩
      · simp at skipped

/-- A declaration that is accepted reports no conflict. -/
theorem problems_of_accepted
    {acceptance : Acceptance}
    {name : TypeName}
    (accepted : acceptance.outcome.1 = some name) :
    ∃ reported,
      acceptance.outcome.2.problems =
          acceptance.before.problems ++ reported ∧
        ∀ problem ∈ reported, ¬ problem.IsConflict := by
  obtain ⟨kept, problems, minor⟩ := problems_outcome accepted
  refine ⟨_, problems, fun problem member => ?_⟩
  rcases List.mem_append.mp member with linking | entering
  · rcases acceptance.linked_problem with none | ⟨parent, -, cyclic⟩
    · simp [none] at linking
    · have same : problem = .cyclicInheritance acceptance.decl.name parent := by
        simpa [cyclic] using linking
      simp [same, Problem.IsConflict]
  · exact (minor problem entering).not_isConflict

end Acceptance

/-! ## Placeholders -/

/-- A superclass other than the root type has a node once it is named. -/
theorem Store.isSome_node?_linkSuperclass
    {store : Store}
    {decl : ClassDecl}
    (known : decl.name ∈ store.names)
    {name : TypeName}
    (other : name ≠ decl.name) :
    ((store.linkSuperclass decl).1.node? name).isSome ↔
      (store.node? name).isSome ∨
        decl.superName = some name ∧ name ≠ TypeName.root := by
  unfold linkSuperclass
  cases named : decl.superName with
  | none =>
      simp
  | some parent =>
      simp only [linkParent_eq, Option.some.injEq]
      split
      · next isRoot =>
          rw [isRoot]
          simp only [iff_self_or]
          rintro ⟨rfl, tracked⟩
          exact absurd rfl tracked
      · next tracked =>
          split
          · next cyclic =>
              -- A superclass that inherits from the type has a node already.
              simp only [node?_mention, iff_self_or]
              rintro ⟨rfl, -⟩
              rcases cyclic with same | inherits
              · exact absurd same other
              · simpa using (inheritsFrom_iff.mp inherits).1
          · rw [node?_linked (mem_names_mention.mpr (Or.inl known))
              (mem_names_mention.mpr (Or.inr ⟨rfl, tracked⟩)), node?_mention]
            by_cases here : name = parent
            · subst here
              cases store.node? name <;>
                simp [Change.nodeAt, other, tracked]
            · simp [Change.nodeAt, other, here, Ne.symm here]

namespace Visit

theorem isSome_node?_linkHeader
    {store : Store}
    {decl : ClassDecl}
    (known : decl.name ∈ store.names)
    {name : TypeName}
    (other : name ≠ decl.name) :
    ((linkHeader decl store).1.node? name).isSome ↔
      (store.node? name).isSome ∨ decl.linkedTo? = some name := by
  rw [ClassDecl.linkedTo?_eq_some_iff]
  unfold linkHeader
  split
  · next extensible =>
      obtain ⟨script, members, replayed⟩ :=
        Store.linkSupertypes_scripted decl.category decl
      rw [replayed, Store.node?_replay_members members.ofMember,
        nodeAfter_members_other members.ofMember other,
        Store.isSome_node?_linkSuperclass known other]
      simp [extensible]
  · next annotates =>
      simp [annotates]

end Visit

/-- An accepted declaration gives a node to its superclass, and to its type. -/
theorem Acceptance.isSome_node?_outcome
    {acceptance : Acceptance}
    (accepted : acceptance.outcome.1 = some acceptance.decl.name)
    {name : TypeName}
    (other : name ≠ acceptance.decl.name) :
    (acceptance.outcome.2.store.node? name).isSome ↔
      (acceptance.before.store.node? name).isSome ∨
        acceptance.decl.linkedTo? = some name := by
  obtain ⟨-, -, entered⟩ := outcome_eq accepted
  obtain ⟨script, _, body, done⟩ := Visit.enterBody_replays
    (Visit.headed_staysOn acceptance.source.visit acceptance.before
      acceptance.decl) acceptance.headed acceptance.decl
  have opened :
      (acceptance.before.store.replay
        (acceptance.source.visit.opening acceptance.decl)).node? name =
          acceptance.before.store.node? name := by
    rw [Store.node?_replay (by simp) (Visit.grounded_opening _ _)]
    exact Visit.nodeAfter_opening_other acceptance.source.visit other _
  have known :
      acceptance.decl.name ∈
        (acceptance.before.store.replay
          (acceptance.source.visit.opening acceptance.decl)).names :=
    Store.mem_names_of_node? (by rw [Visit.node?_opening]; rfl)
  rw [entered, done]
  simp only [Store.node?_replay_members body.memberScript.ofMember,
    nodeAfter_members_other body.memberScript.ofMember other]
  rw [← opened]
  exact Visit.isSome_node?_linkHeader known other

/-! ## Histories -/

/-- The declaration contradicts what was accepted before. -/
def ClassDecl.Contradicts
    (decl : ClassDecl)
    (accepted : List ClassDecl) :
    Prop :=
  (∃ other ∈ accepted,
    other.name = decl.name ∧ other.category ≠ decl.category) ∨
    decl.category = .annotationType ∧
      (∀ other ∈ accepted, other.name ≠ decl.name) ∧
      ∃ other ∈ accepted,
        other.category ≠ .annotationType ∧ other.superName = some decl.name

namespace Store

/-- A store knows of types what accepted declarations tell of them. -/
structure Reflects
    (store : Store)
    (accepted : List ClassDecl) :
    Prop where
  entered : ∀ decl ∈ accepted, store.Entered decl
  visited :
    ∀ name, store.isVisited name = true →
      ∃ decl ∈ accepted, decl.name = name
  blank :
    ∀ name node, store.isVisited name = false →
      store.node? name = some node → node = Node.ofCategory .classType
  placeholder :
    ∀ name, store.isVisited name = false →
      ((store.node? name).isSome ↔
        ∃ decl ∈ accepted, decl.linkedTo? = some name)

theorem reflects_empty :
    ({} : Store).Reflects [] :=
  ⟨by simp, by simp [isVisited, find?], by simp [node?, find?],
    by simp [node?, find?]⟩

/-- A declaration of a visited type must keep to the category of the others. -/
theorem Reflects.rulesOut_iff_of_visited
    {store : Store}
    {accepted : List ClassDecl}
    (reflects : store.Reflects accepted)
    {decl : ClassDecl}
    (visited : store.isVisited decl.name = true) :
    store.RulesOut decl ↔ decl.Contradicts accepted := by
  obtain ⟨first, declared, named⟩ := reflects.visited decl.name visited
  obtain ⟨node, -, installed, -⟩ := reflects.entered first declared
  rw [named] at installed
  have same :
      ∀ other ∈ accepted, other.name = decl.name →
        node.category = other.category := by
    intro other member named
    obtain ⟨_, -, here, category⟩ := reflects.entered other member
    rw [named, installed, Option.some.injEq] at here
    rw [here, category]
  constructor
  · rintro ⟨present, here, different, -⟩
    rw [installed, Option.some.injEq] at here
    rw [← here, same first declared named] at different
    exact Or.inl ⟨first, declared, named, different⟩
  · rintro (⟨other, member, named, different⟩ | ⟨-, undeclared, -⟩)
    · rw [← same other member named] at different
      exact ⟨node, installed, different, Or.inl visited⟩
    · exact absurd named (undeclared first declared)

/-- A type that is not visited has at most a node that a subclass gave it. -/
theorem Reflects.rulesOut_iff_of_unvisited
    {store : Store}
    {accepted : List ClassDecl}
    (reflects : store.Reflects accepted)
    {decl : ClassDecl}
    (tracked : decl.name ≠ TypeName.root)
    (visited : store.isVisited decl.name = false) :
    store.RulesOut decl ↔ decl.Contradicts accepted := by
  have undeclared : ∀ other ∈ accepted, other.name ≠ decl.name := by
    intro other member named
    obtain ⟨_, known, -⟩ := reflects.entered other member
    rw [named, visited] at known
    exact absurd known (by simp)
  have annotates :
      Category.isExtensible .classType ≠ decl.category.isExtensible ↔
        decl.category = .annotationType := by
    rw [← Category.isExtensible_eq_false_iff]
    cases decl.category.isExtensible <;> simp [Category.isExtensible]
  have linked :
      ∀ other : ClassDecl,
        other.linkedTo? = some decl.name ↔
          other.category ≠ .annotationType ∧
            other.superName = some decl.name := by
    intro other
    rw [ClassDecl.linkedTo?_eq_some_iff, ← Bool.not_eq_false,
      Category.isExtensible_eq_false_iff]
    simp [tracked]
  have placeholder := reflects.placeholder decl.name visited
  simp only [linked] at placeholder
  constructor
  · rintro ⟨node, installed, -, fits⟩
    rw [reflects.blank decl.name node visited installed,
      Node.isExtensible_ofCategory, visited] at fits
    exact Or.inr ⟨annotates.mp (fits.resolve_left (by simp)),
      undeclared, placeholder.mp (by simp [installed])⟩
  · rintro (⟨other, member, named, -⟩ | ⟨annotationType, -, extended⟩)
    · exact absurd named (undeclared other member)
    · obtain ⟨node, installed⟩ :=
        Option.isSome_iff_exists.mp (placeholder.mpr extended)
      refine ⟨node, installed, ?_, Or.inr ?_⟩
      · rw [reflects.blank decl.name node visited installed, annotationType]
        decide
      · rw [reflects.blank decl.name node visited installed,
          Node.isExtensible_ofCategory]
        exact annotates.mpr annotationType

/-- What a store rules out is what contradicts the declarations before. -/
theorem Reflects.rulesOut_iff
    {store : Store}
    {accepted : List ClassDecl}
    (reflects : store.Reflects accepted)
    {decl : ClassDecl}
    (tracked : decl.name ≠ TypeName.root) :
    store.RulesOut decl ↔ decl.Contradicts accepted := by
  cases visited : store.isVisited decl.name with
  | true =>
      exact reflects.rulesOut_iff_of_visited visited
  | false =>
      exact reflects.rulesOut_iff_of_unvisited tracked visited

end Store

namespace Acceptance

/-- A declaration that is passed over leaves the nodes alone. -/
theorem node?_of_skipped
    {acceptance : Acceptance}
    (skipped : acceptance.outcome.1 = none)
    (name : TypeName) :
    acceptance.outcome.2.store.node? name =
      acceptance.before.store.node? name := by
  have entering :
      acceptance.outcome =
        acceptance.source.visit.accept acceptance.before acceptance.decl :=
    rfl
  rw [entering, Visit.accept_eq] at skipped ⊢
  split
  · rfl
  · next tracked =>
      rw [if_neg tracked] at skipped
      rcases Visit.header_cases acceptance.source.visit acceptance.before
          acceptance.decl with
        ⟨problem, refused⟩ | ⟨-, unclaimed, problem, refused⟩ | ⟨-, -, entered⟩
      · rw [refused]
        rfl
      · rw [refused]
        exact Visit.node?_founding unclaimed name
      · simp [entered] at skipped

theorem reflects_skipped
    {acceptance : Acceptance}
    {accepted : List ClassDecl}
    (reflects : acceptance.before.store.Reflects accepted)
    (skipped : acceptance.outcome.1 = none) :
    acceptance.outcome.2.store.Reflects accepted := by
  have visited :
      ∀ name,
        acceptance.outcome.2.store.isVisited name =
          acceptance.before.store.isVisited name := by
    intro name
    rw [Bool.eq_iff_iff, acceptance.isVisited_outcome, skipped]
    simp
  constructor <;>
    simp only [Store.Entered, visited, node?_of_skipped skipped]
  · exact reflects.entered
  · exact reflects.visited
  · exact reflects.blank
  · exact reflects.placeholder

theorem reflects_accepted
    {acceptance : Acceptance}
    {accepted : List ClassDecl}
    (reflects : acceptance.before.store.Reflects accepted)
    {name : TypeName}
    (answered : acceptance.outcome.1 = some name) :
    acceptance.outcome.2.store.Reflects (accepted ++ [acceptance.decl]) := by
  have evolves :
      Store.Evolves acceptance.before.store acceptance.outcome.2.store :=
    Visit.accept_evolves acceptance.source.visit acceptance.before
      acceptance.decl
  have own : acceptance.outcome.2.store.Entered acceptance.decl := by
    obtain ⟨-, claimed, entered⟩ := outcome_eq answered
    have opened := Visit.entered_opening acceptance.source.visit claimed
    have headed : acceptance.headed.store.Entered acceptance.decl :=
      opened.evolves (Visit.linkHeader_builds opened).evolves
    rw [entered]
    exact headed.evolves (Visit.enterBody_builds acceptance.decl
      (_, acceptance.headed)).evolves
  have named : acceptance.decl.name = name := (outcome_eq answered).1
  subst named
  have visited := acceptance.isVisited_outcome
  simp only [answered, Option.some.injEq] at visited
  -- What is not visited now was not visited before, and is another type.
  have earlier :
      ∀ name, acceptance.outcome.2.store.isVisited name = false →
        acceptance.before.store.isVisited name = false ∧
          name ≠ acceptance.decl.name := by
    intro name fresh
    have never := mt (visited name).mpr (by simp [fresh])
    rw [not_or, Bool.not_eq_true] at never
    exact ⟨never.1, Ne.symm never.2⟩
  refine ⟨fun decl member => ?_, fun name known => ?_,
    fun name node fresh installed => ?_, fun name fresh => ?_⟩
  · rcases List.mem_append.mp member with old | new
    · exact (reflects.entered decl old).evolves evolves
    · rw [List.mem_singleton.mp new]
      exact own
  · rcases (visited name).mp known with before | here
    · obtain ⟨decl, member, declared⟩ := reflects.visited name before
      exact ⟨decl, List.mem_append_left _ member, declared⟩
    · exact ⟨acceptance.decl, by simp, here⟩
  · obtain ⟨before, other⟩ := earlier name fresh
    have leaves :
        acceptance.before.store.LeavesNode acceptance.outcome.2.store name :=
      Visit.accept_leavesNode fun same =>
        other (Option.some.inj (answered.symm.trans same)).symm
    rcases leaves with same | ⟨-, placed⟩
    · exact reflects.blank name node before (same ▸ installed)
    · rw [placed, Option.some.injEq] at installed
      exact installed.symm
  · obtain ⟨before, other⟩ := earlier name fresh
    rw [isSome_node?_outcome answered other,
      reflects.placeholder name before]
    simp [or_and_right, exists_or]

end Acceptance

namespace Atlas

/-- The sources whose declarations are accepted, in order. -/
def accepted
    (atlas : Atlas) :
    List Source → List Source
  | [] => []
  | source :: sources =>
      let entered :=
        atlas.enter source.decl source.location source.isApplication
      let later := entered.2.accepted sources
      if entered.1.isSome then source :: later else later

theorem accepted_concat
    (atlas : Atlas)
    (sources : List Source)
    (last : Source) :
    let acceptance : Acceptance := ⟨last, atlas.enterSources sources⟩
    atlas.accepted (sources ++ [last]) =
      if acceptance.outcome.1.isSome then
        atlas.accepted sources ++ [last]
      else
        atlas.accepted sources := by
  induction sources generalizing atlas with
  | nil =>
      rfl
  | cons source sources inductionHypothesis =>
      have later :=
        inductionHypothesis (Acceptance.mk source atlas).outcome.2
      have same :
          (Acceptance.mk source atlas).outcome.2.enterSources sources =
            atlas.enterSources (source :: sources) :=
        rfl
      have entering :
          (Acceptance.mk source atlas).outcome =
            atlas.enter source.decl source.location source.isApplication :=
        rfl
      rw [same, entering] at later
      simp only [accepted, List.cons_append, later]
      split <;> split <;> rfl

theorem enterSources_reflects
    (settings : Settings)
    (sources : List Source) :
    (Atlas.enterSources { settings := settings } sources).store.Reflects
      ((Atlas.accepted { settings := settings } sources).map (·.decl)) := by
  induction sources using List.reverseRecOn with
  | nil =>
      exact Store.reflects_empty
  | append_singleton sources last inductionHypothesis =>
      rw [enterSources_concat, accepted_concat]
      split
      · next entered =>
          obtain ⟨name, answered⟩ := Option.isSome_iff_exists.mp entered
          rw [List.map_append]
          exact Acceptance.reflects_accepted inductionHypothesis answered
      · next skipped =>
          exact Acceptance.reflects_skipped inductionHypothesis
            (Option.not_isSome_iff_eq_none.mp skipped)

/--
Whatever was entered before, a declaration is passed over exactly if it is of
the root type or contradicts the declarations that were accepted. One of the
root type reports nothing, another one that is passed over reports one conflict
and nothing else, and one that is accepted reports none.
-/
theorem enter_eq_none_iff
    (settings : Settings)
    (earlier : List Source)
    (source : Source) :
    let before := Atlas.enterSources { settings := settings } earlier
    let history :=
      (Atlas.accepted { settings := settings } earlier).map (·.decl)
    let entered :=
      before.enter source.decl source.location source.isApplication
    (entered.1 = none ↔
      source.decl.name = TypeName.root ∨
        source.decl.Contradicts history) ∧
      ∃ reported,
        entered.2.problems = before.problems ++ reported ∧
          (source.decl.name = TypeName.root → reported = []) ∧
          (entered.1 = none → source.decl.name ≠ TypeName.root →
            ∃ existing,
              reported =
                [.categoryConflict source.decl.name existing
                  source.decl.category]) ∧
          (entered.1 ≠ none →
            ∀ problem ∈ reported, ¬ problem.IsConflict) := by
  intro before history entered
  let acceptance : Acceptance := ⟨source, before⟩
  have reflects : before.store.Reflects history :=
    enterSources_reflects settings earlier
  have skips : entered.1 = none ↔
      source.decl.name = TypeName.root ∨ before.store.RulesOut source.decl :=
    acceptance.outcome_eq_none_iff
  refine ⟨?_, ?_⟩
  · rw [skips]
    by_cases isRoot : source.decl.name = TypeName.root
    · simp [isRoot]
    · rw [reflects.rulesOut_iff isRoot]
  · cases answered : entered.1 with
    | none =>
        rcases acceptance.problems_of_skipped answered with
          ⟨isRoot, same⟩ | ⟨tracked, existing, problems⟩
        · exact ⟨[], same.trans (List.append_nil _).symm, fun _ => rfl,
            fun _ tracked => absurd isRoot tracked, by simp⟩
        · exact ⟨_, problems, fun isRoot => absurd isRoot tracked,
            fun _ _ => ⟨existing, rfl⟩, by simp⟩
    | some name =>
        obtain ⟨reported, problems, none⟩ :=
          acceptance.problems_of_accepted answered
        have tracked : source.decl.name ≠ TypeName.root := fun isRoot => by
          have skipped := skips.mpr (Or.inl isRoot)
          rw [answered] at skipped
          exact absurd skipped (by simp)
        exact ⟨reported, problems, fun isRoot => absurd isRoot tracked,
          by simp, fun _ => none⟩

/-- A subclass, and then its superclass as an annotation type. -/
def extendedAnnotationType : List Source :=
  [{ decl := { access := 0x21, name := "c.Child", superName := some "c.Base" } },
    { decl := { access := 0x2601, name := "c.Base" } }]

example :
    (Atlas.accepted {} extendedAnnotationType).map (·.decl.name) =
        ["c.Child"] ∧
      (Atlas.accepted {} extendedAnnotationType.reverse).map (·.decl.name) =
        ["c.Base", "c.Child"] := by
  decide +kernel

end Atlas

end TypeAtlas
