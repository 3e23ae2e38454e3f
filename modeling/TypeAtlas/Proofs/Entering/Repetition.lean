import TypeAtlas.Proofs.Entering.Skipping
import TypeAtlas.Proofs.Store.Settled

namespace TypeAtlas

/-!
# Entering a declaration twice

A declaration that is entered again leaves the store as it is. If it was passed
over, it is passed over for the same reason. If it was accepted, its header has
nothing to add, since all its changes are settled; its superclass is refused
the second time exactly if it was the first time; and its body is skipped,
since the type was visited. What is left is that problems are reported again,
and no others than the first time.
-/

/-! ## The check for cycles -/

namespace Store

/-- The check for cycles looks at nodes only. -/
theorem inheritsFrom_congr
    {first second : Store}
    (same : ∀ name, first.node? name = second.node? name)
    (start name : TypeName) :
    first.inheritsFrom start name = second.inheritsFrom start name := by
  have parents : first.parentOf = second.parentOf := by
    funext child
    simp only [parentOf, same]
  rw [Bool.eq_iff_iff, inheritsFrom_iff, inheritsFrom_iff, parents, same]

@[simp] theorem inheritsFrom_mention
    (store : Store)
    (mentioned : TypeName)
    (hint : Option Category)
    (start name : TypeName) :
    (store.mention mentioned hint).inheritsFrom start name =
      store.inheritsFrom start name :=
  inheritsFrom_congr (store.node?_mention mentioned · hint) start name

/-- Where a node is left alone, so is the superclass. -/
theorem LeavesNode.parentName?_eq
    {before after : Store}
    {name : TypeName}
    (leaves : before.LeavesNode after name) :
    after.parentName? name = before.parentName? name := by
  rcases leaves with same | ⟨absent, placed⟩
  · rw [parentName?, parentName?, same]
  · simp [parentName?, parentNamed?, absent, placed]

/-- A type that has a superclass has a node. -/
theorem Extends.isSome_node?
    {store : Store}
    {child parent : TypeName}
    (linked : store.Extends child parent) :
    (store.node? child).isSome = true := by
  by_contra missing
  rw [Bool.not_eq_true, Option.isSome_eq_false_iff,
    Option.isNone_iff_eq_none] at missing
  simp [Extends, parentName?, parentNamed?, missing] at linked

/-- A superclass stays. -/
theorem Extends.persists
    {before after : Store}
    (persists : before.Persists after)
    {child parent : TypeName}
    (linked : before.Extends child parent) :
    after.Extends child parent := by
  obtain ⟨node, here⟩ := Option.isSome_iff_exists.mp linked.isSome_node?
  obtain ⟨grown, there, grows, -⟩ := persists.node? here
  simp only [Extends, parentName?, parentNamed?, here, there,
    Option.bind_some, Option.map_eq_some_iff] at linked ⊢
  obtain ⟨reference, set, named⟩ := linked
  exact ⟨reference, grows.lineage.parent reference set, named⟩

/--
A superclass of a type, old or new, does not change whether another type
inherits from it: a chain that comes to the type ends there.
-/
theorem inheritsFrom_stays
    {before after : Store}
    (founded : before.Founded)
    (persists : before.Persists after)
    {name : TypeName}
    (leaves : ∀ other, other ≠ name → before.LeavesNode after other)
    {start : TypeName}
    (different : start ≠ name) :
    after.inheritsFrom start name = before.inheritsFrom start name := by
  have earlier :
      ∀ {child parent}, child ≠ name → Leads after.parentOf child parent →
        Leads before.parentOf child parent := by
    intro child parent other step
    have linked : before.Extends child parent := by
      rw [Extends, ← (leaves child other).parentName?_eq]
      exact (mem_parentOf_iff.mp step).1
    exact mem_parentOf_iff.mpr ⟨linked, founded.installed _ _ linked⟩
  have later :
      ∀ child parent, Leads before.parentOf child parent →
        Leads after.parentOf child parent := by
    intro child parent step
    obtain ⟨linked, installed⟩ := mem_parentOf_iff.mp step
    exact mem_parentOf_iff.mpr
      ⟨linked.persists persists, persists.isSome_node? installed⟩
  rw [Bool.eq_iff_iff, inheritsFrom_iff, inheritsFrom_iff]
  constructor
  · rintro ⟨-, path⟩
    constructor
    · rcases path.cases_head with arrived | ⟨next, step, -⟩
      · exact absurd arrived different
      · exact (mem_parentOf_iff.mp (earlier different step)).1.isSome_node?
    · clear different
      induction path using Relation.ReflTransGen.head_induction_on with
      | refl =>
          exact .refl
      | @head child parent step _ inductionHypothesis =>
          by_cases arrived : child = name
          · rw [arrived]
          · exact .head (earlier arrived step) inductionHypothesis
  · rintro ⟨installed, path⟩
    exact ⟨persists.isSome_node? installed, path.lift id later⟩

/-! ## Supertypes -/

/-- The superclass that a link left in place stays, be it the linked one or not. -/
theorem parentName?_of_settled
    {before after : Store}
    {name parent : TypeName}
    (settled : (Change.link name parent).Settled before)
    (persists : before.Persists after) :
    after.parentName? name = before.parentName? name := by
  obtain ⟨-, node, here, chosen⟩ := settled
  obtain ⟨grown, there, grows, -⟩ := persists.node? here
  rw [parentName?, parentName?, here, there]
  cases extensible : node.isExtensible with
  | true =>
      obtain ⟨reference, set⟩ :=
        Option.isSome_iff_exists.mp (chosen extensible)
      simp [parentNamed?, set, grows.lineage.parent reference set]
  | false =>
      rw [← grows.isExtensible] at extensible
      have still := grows.isExtensible ▸ extensible
      simp [parentNamed?, Node.lineage_of_annotationType extensible,
        Node.lineage_of_annotationType still]

/-- A link that was made is not made again. -/
theorem linked_again
    {before last : Store}
    {name parent : TypeName}
    (wellFormed : before.WellFormed)
    (installed : (before.node? name).isSome = true)
    (allowed : (Change.link name parent).Allowed before)
    (onward : Evolves (before.linked name parent) last) :
    last.linked name parent = last := by
  let linked := (Change.link name parent).apply before
  let mark := Change.mark parent (.subType name)
  have linkedFormed : linked.WellFormed := wellFormed.apply allowed
  have marks : Evolves linked (before.linked name parent) := by
    dsimp only [Store.linked]
    split
    · exact .single mark trivial
    · exact .refl _
  have reached : Evolves linked last := marks.trans onward
  have lastFormed := reached.wellFormed linkedFormed
  have made : (Change.link name parent).Settled linked :=
    Change.settled_link allowed.1 installed
  have same := (made.evolves linkedFormed reached).apply_eq lastFormed
  have chosen : last.parentName? name = linked.parentName? name :=
    parentName?_of_settled made (reached.persists linkedFormed)
  have marked : linked.parentName? name = some parent → mark.Settled last := by
    intro taken
    have known : parent ∈ linked.names :=
      Change.mem_names_apply.mpr (Or.inl allowed.1)
    have bears : mark.Settled (mark.apply linked) :=
      Change.settled_mark known _
    have after : before.linked name parent = mark.apply linked :=
      if_pos taken
    rw [← after] at bears
    exact bears.evolves (marks.wellFormed linkedFormed) onward
  unfold Store.linked
  rw [same]
  dsimp only
  split
  · next taken =>
      exact (marked (chosen ▸ taken)).apply_eq lastFormed
  · rfl

/-- A mention is settled from then on. -/
theorem mention_again
    {before last : Store}
    {name : TypeName}
    {hint : Option Category}
    (wellFormed : before.WellFormed)
    (onward : Evolves (before.mention name hint) last) :
    last.mention name hint = last := by
  have after : (before.mention name hint).WellFormed :=
    (Evolves.single (.mention name hint) trivial).wellFormed wellFormed
  have made := Change.settled_mention before name hint
  exact (made.evolves after onward).apply_eq (onward.wellFormed after)

/-- A superclass that was dealt with is dealt with alike the next time. -/
theorem linkSuperclass_again
    {first last : Store}
    {decl : ClassDecl}
    (wellFormed : first.WellFormed)
    (founded : first.Founded)
    (installed : (first.node? decl.name).isSome = true)
    (onward : Evolves (first.linkSuperclass decl).1 last)
    (persists : first.Persists last)
    (leaves : ∀ other, other ≠ decl.name → first.LeavesNode last other) :
    last.linkSuperclass decl = (last, (first.linkSuperclass decl).2) := by
  unfold linkSuperclass at onward ⊢
  cases named : decl.superName with
  | none =>
      rfl
  | some parent =>
      rw [named] at onward
      have checked :
          (parent = decl.name ∨ last.inheritsFrom parent decl.name = true) ↔
            (parent = decl.name ∨
              first.inheritsFrom parent decl.name = true) := by
        by_cases itself : parent = decl.name
        · simp [itself]
        · rw [inheritsFrom_stays founded persists leaves itself]
      simp only [linkParent_eq, inheritsFrom_mention, checked] at onward ⊢
      split at onward
      · next isRoot =>
          rw [if_pos isRoot, if_pos isRoot]
      · next tracked =>
          rw [if_neg tracked, if_neg tracked]
          split at onward
          · next cyclic =>
              rw [if_pos cyclic, if_pos cyclic,
                mention_again wellFormed onward]
          · next free =>
              rw [if_neg free, if_neg free]
              let mentioned := first.mention parent (some .classType)
              have known : parent ∈ mentioned.names :=
                mem_names_mention.mpr (Or.inr ⟨rfl, tracked⟩)
              rw [not_or, Bool.not_eq_true] at free
              have allowed :
                  (Change.link decl.name parent).Allowed mentioned := by
                refine ⟨known, free.1, ?_⟩
                rw [inheritsFrom_mention]
                exact free.2
              have mentionedFormed : mentioned.WellFormed :=
                (Evolves.single (.mention parent (some .classType))
                  trivial).wellFormed wellFormed
              have still : (mentioned.node? decl.name).isSome = true := by
                rw [node?_mention]
                exact installed
              rw [mention_again wellFormed
                  ((linked_evolves allowed).trans onward),
                linked_again mentionedFormed still allowed onward]

end Store

namespace Visit

/-- The supertypes of a header that were linked are not linked again. -/
theorem linkHeader_again
    {first last : Store}
    {decl : ClassDecl}
    (wellFormed : first.WellFormed)
    (founded : first.Founded)
    (entered : first.Entered decl)
    (onward : Store.Evolves (linkHeader decl first).1 last)
    (leaves : ∀ other, other ≠ decl.name → first.LeavesNode last other) :
    linkHeader decl last = (last, (linkHeader decl first).2) := by
  have persists : first.Persists last :=
    ((linkHeader_builds entered).evolves.trans onward).persists wellFormed
  unfold linkHeader at onward ⊢
  split
  · next extensible =>
      obtain ⟨script, head, replayed⟩ :=
        Store.linkSupertypes_scripted decl.category decl
      rw [if_pos extensible, replayed] at onward
      rw [replayed, replayed]
      let superclass := (first.linkSuperclass decl).1
      have superclassBuilt := (linkSuperclass_builds extensible entered).evolves
      have superclassFormed : superclass.WellFormed :=
        superclassBuilt.wellFormed wellFormed
      have scriptMade := Store.evolves_memberScript head.toMemberScript
        superclass
      have reached : Store.Evolves superclass last := scriptMade.trans onward
      obtain ⟨node, -, here, -⟩ := entered.evolves superclassBuilt
      have installed : (superclass.node? decl.name).isSome = true := by
        rw [here, Option.isSome_some]
      have settled : ∀ change ∈ script, change.Settled last := by
        intro change member
        have known : ∀ name ∈ [decl.name], name ∈ superclass.names := by
          simpa using Store.mem_names_of_node? installed
        have made := Store.settled_replay head.grounded head.ofMember
          head.noMember superclassFormed known installed change member
        exact made.evolves (scriptMade.wellFormed superclassFormed) onward
      have lastFormed := reached.wellFormed superclassFormed
      obtain ⟨old, -, before, -⟩ := entered
      rw [Store.linkSuperclass_again wellFormed founded
          (by rw [before, Option.isSome_some]) reached persists leaves,
        Store.replay_of_settled lastFormed settled]
  · rfl

/-! ## Headers -/

/-- The opening changes of a header are settled once its type was entered. -/
theorem settled_opening
    {first last : Store}
    (visit : Visit)
    {decl : ClassDecl}
    (claimed :
      (Change.claim decl.name decl.category).Allowed
        (first.replay (founding decl)))
    (wellFormed : (first.replay (visit.opening decl)).WellFormed)
    (onward : Store.Evolves (first.replay (visit.opening decl)) last) :
    ∀ change ∈ visit.opening decl, change.Settled last := by
  obtain ⟨node, visited, here, category⟩ :=
    (entered_opening visit claimed).evolves onward
  have given : last.visitedNode? decl.name = some node := by
    obtain ⟨entry, found, installed⟩ := Option.bind_eq_some_iff.mp here
    have old : entry.visited = true := by
      simpa [Store.isVisited, found] using visited
    simp [Store.visitedNode?, Entry.visitedNode?, found, old, installed]
  have origin :
      (Change.amend decl.name (.origin visit)).Settled
        (first.replay (visit.opening decl)) := by
    obtain ⟨claimed, -, installed, -⟩ := entered_claim claimed
    exact Change.settled_amend (Option.isSome_of_eq_some installed) id
  intro change member
  simp only [opening, List.mem_cons, List.not_mem_nil, or_false] at member
  rcases member with rfl | rfl | rfl | rfl
  · exact ⟨node, given, category⟩
  · show (last.node? decl.name).isSome = true
    rw [here, Option.isSome_some]
  · exact ⟨node, given, category⟩
  · exact origin.evolves wellFormed onward

/-- A type that was entered for a declaration may be entered for it again. -/
theorem header_of_entered
    {visit : Visit}
    (fresh : visit.progress = .start)
    {atlas : Atlas}
    {decl : ClassDecl}
    (tracked : decl.name ≠ TypeName.root)
    (entered : atlas.store.Entered decl) :
    visit.header atlas decl =
      let linked := linkHeader decl (atlas.store.replay (visit.opening decl))
      ⟨visit.headed atlas decl,
        { atlas with
          store := linked.1
          problems := atlas.problems ++ linked.2.toList },
        .ok decl.name⟩ := by
  obtain ⟨node, visited, here, category⟩ := entered
  refine header_of_claimed fresh ⟨tracked, fun other given => ?_⟩ ?_
  · obtain ⟨entry, found, -, installed⟩ := Store.exists_of_visitedNode? given
    have same : other = node := by
      simpa [Store.node?, found, installed] using here
    rw [same, category]
  · rw [claim_allowed_iff, here]
    exact Or.inl category

/-! ## Whole declarations -/

/--
What is left of a declaration that is entered a second time: its answer, and
problems that were reported the first time.
-/
structure Repeats
    (before : Atlas)
    (once twice : Option TypeName × Atlas) :
    Prop where
  answer : twice.1 = once.1
  store : twice.2.store = once.2.store
  settings : twice.2.settings = once.2.settings
  problems :
    ∃ reported repeated : List Problem,
      once.2.problems = before.problems ++ reported ∧
        twice.2.problems = once.2.problems ++ repeated ∧
        repeated.Sublist reported

/-- A declaration that was accepted is accepted again, and adds nothing. -/
theorem repeats_accepted
    {visit : Visit}
    (fresh : visit.progress = .start)
    {atlas : Atlas}
    (wellFormed : atlas.store.WellFormed)
    (founded : atlas.store.Founded)
    {decl : ClassDecl}
    (tracked : decl.name ≠ TypeName.root)
    (filed : (Change.file decl.name decl.category).Allowed atlas.store)
    (claimed :
      (Change.claim decl.name decl.category).Allowed
        (atlas.store.replay (founding decl))) :
    Repeats atlas (visit.accept atlas decl)
      (visit.accept (visit.accept atlas decl).2 decl) := by
  let opened := atlas.store.replay (visit.opening decl)
  let linked := linkHeader decl opened
  let headed : Atlas :=
    { atlas with
      store := linked.1
      problems := atlas.problems ++ linked.2.toList }
  let last := (enterBody decl (visit.headed atlas decl, headed)).2
  have once : visit.accept atlas decl = (some decl.name, last) := by
    rw [accept_eq, if_neg tracked, header_of_claimed fresh filed claimed]
  have entered : opened.Entered decl := entered_opening visit claimed
  have opens : Store.Evolves atlas.store opened :=
    .step (.file decl.name decl.category) filed
      (.step (.found decl.name decl.category) trivial
        (.step (.claim decl.name decl.category) claimed
          (.single (.amend decl.name (.origin visit)) trivial)))
  have links : Store.Evolves opened linked.1 :=
    (linkHeader_builds entered).evolves
  have fills : Store.Evolves linked.1 last.store :=
    (enterBody_builds decl (visit.headed atlas decl, headed)).evolves
  have openedFormed := opens.wellFormed wellFormed
  have lastFormed := (links.trans fills).wellFormed openedFormed
  have known : decl.name ∈ opened.names := by
    obtain ⟨node, -, here, -⟩ := entered
    exact Store.mem_names_of_node? (Option.isSome_of_eq_some here)
  have leaves :
      ∀ other, other ≠ decl.name → opened.LeavesNode last.store other :=
    fun other different =>
      (linkHeader_leavesNode known different).trans
        (enterBody_leavesNode (headed_staysOn visit atlas decl) headed decl
          different)
  have reopened : last.store.replay (visit.opening decl) = last.store :=
    Store.replay_of_settled lastFormed
      (settled_opening visit claimed openedFormed (links.trans fills))
  have relinked : linkHeader decl last.store = (last.store, linked.2) :=
    linkHeader_again openedFormed (opens.founded founded) entered fills leaves
  have lastEntered := entered.evolves (links.trans fills)
  have twice :
      visit.accept last decl =
        (some decl.name,
          { last with problems := last.problems ++ linked.2.toList }) := by
    have ⟨_, visited, _⟩ := lastEntered
    rw [accept_eq, if_neg tracked,
      header_of_entered fresh tracked lastEntered, reopened, relinked]
    dsimp only
    rw [enterBody_idle rfl visited]
  obtain ⟨kept, problems, -⟩ := enterBody_meetsMinor decl
    (visit.headed atlas decl, headed)
  rw [once, twice]
  refine ⟨rfl, rfl, rfl, linked.2.toList ++ kept, linked.2.toList, ?_, rfl,
    List.sublist_append_left _ _⟩
  rw [← List.append_assoc]
  exact problems

/-- A declaration that is refused is passed over, and the problem is kept. -/
theorem accept_of_refused
    {visit : Visit}
    {atlas : Atlas}
    {decl : ClassDecl}
    (tracked : decl.name ≠ TypeName.root)
    {problem : Problem}
    (refused : (visit.header atlas decl).answer = .error problem) :
    visit.accept atlas decl =
      (none, (visit.header atlas decl).atlas.report problem) := by
  simp only [accept_eq, if_neg tracked, refused]

end Visit

/-- What a declaration that meets a conflict leaves of a store. -/
def Store.refiled
    (store : Store)
    (decl : ClassDecl) :
    Store :=
  if store.isVisited decl.name then
    store
  else
    store.update decl.name (·.fileUnder decl.category)

namespace Store

theorem node?_refiled
    (store : Store)
    (decl : ClassDecl) :
    (store.refiled decl).node? decl.name = store.node? decl.name := by
  unfold refiled
  split
  · rfl
  · exact store.node?_update decl.name decl.name (fun _ => rfl) fun _ => rfl

theorem isVisited_refiled
    (store : Store)
    (decl : ClassDecl) :
    (store.refiled decl).isVisited decl.name =
      store.isVisited decl.name := by
  unfold refiled
  split
  · rfl
  · have lookup :
        (store.update decl.name (·.fileUnder decl.category)).find? decl.name =
          (store.find? decl.name).map fun entry =>
            if decl.name = decl.name then
              entry.fileUnder decl.category
            else
              entry :=
      store.find?_update decl.name decl.name fun _ => rfl
    rw [isVisited, isVisited, lookup]
    cases store.find? decl.name <;> simp [Entry.fileUnder]

/-- An entry that was moved is not moved again. -/
theorem refiled_refiled
    (store : Store)
    (decl : ClassDecl) :
    (store.refiled decl).refiled decl = store.refiled decl := by
  rw [refiled, isVisited_refiled]
  split
  · rfl
  · next fresh =>
      have moved :
          store.refiled decl =
            store.update decl.name (·.fileUnder decl.category) :=
        if_neg fresh
      rw [moved]
      simp only [update, List.map_map]
      congr 2
      funext entry
      by_cases here : entry.name = decl.name <;>
        simp [here, Entry.fileUnder]

end Store

namespace Visit

/-- A declaration that met a conflict meets it again, and adds nothing. -/
theorem repeats_conflict
    {visit : Visit}
    (fresh : visit.progress = .start)
    {atlas : Atlas}
    (wellFormed : atlas.store.WellFormed)
    {decl : ClassDecl}
    (tracked : decl.name ≠ TypeName.root)
    {problem : Problem}
    (refused : (visit.header atlas decl).answer = .error problem) :
    Repeats atlas (visit.accept atlas decl)
      (visit.accept (visit.accept atlas decl).2 decl) := by
  obtain ⟨-, existing, rfl⟩ := header_conflict fresh tracked refused
  obtain ⟨-, -, installed, left⟩ := header_of_conflict wellFormed refused
  let conflict := Problem.categoryConflict decl.name existing decl.category
  let once : Atlas :=
    Atlas.report { atlas with store := atlas.store.refiled decl } conflict
  have first : visit.accept atlas decl = (none, once) := by
    rw [accept_of_refused tracked refused, left]
    rfl
  have onceFormed : once.store.WellFormed := by
    have formed :=
      (header_builds visit atlas decl).evolves.wellFormed wellFormed
    rwa [left] at formed
  have rulesOut : once.store.RulesOut decl := by
    have before := (header_refused_iff fresh atlas tracked).mp ⟨_, refused⟩
    simpa only [Store.RulesOut, once, Atlas.report, Store.node?_refiled,
      Store.isVisited_refiled] using before
  obtain ⟨again, refusedAgain⟩ :=
    (header_refused_iff fresh once tracked).mpr rulesOut
  obtain ⟨-, other, rfl⟩ := header_conflict fresh tracked refusedAgain
  obtain ⟨-, -, installedStill, leftAgain⟩ :=
    header_of_conflict onceFormed refusedAgain
  have sameConflict : other = existing := by
    have nodes : once.store.node? decl.name = atlas.store.node? decl.name :=
      atlas.store.node?_refiled decl
    rw [nodes, installed, Option.some.injEq] at installedStill
    exact installedStill.symm
  have sameStore :
      (visit.header once decl).atlas = once := by
    rw [leftAgain]
    exact congrArg (fun store => { once with store := store })
      (atlas.store.refiled_refiled decl)
  have second : visit.accept once decl = (none, once.report conflict) := by
    rw [accept_of_refused tracked refusedAgain, sameStore, sameConflict]
  rw [first, second]
  exact ⟨rfl, rfl, rfl, [conflict], [conflict], rfl, rfl,
    List.Sublist.refl _⟩

/-- Entering a declaration twice is the same as entering it once. -/
theorem accept_repeats
    (visit : Visit)
    {atlas : Atlas}
    (wellFormed : atlas.store.WellFormed)
    (founded : atlas.store.Founded)
    (decl : ClassDecl) :
    Repeats atlas (visit.accept atlas decl)
      (visit.accept (visit.accept atlas decl).2 decl) := by
  by_cases isRoot : decl.name = TypeName.root
  · have passed : ∀ other, visit.accept other decl = (none, other) := by
      intro other
      rw [accept_eq, if_pos isRoot]
    rw [passed, passed]
    exact ⟨rfl, rfl, rfl, [], [], by simp, by simp, .slnil⟩
  · cases reached : visit.progress with
    | header _ | members _ | ended =>
        -- A visit that has begun cannot begin again.
        have refused :
            ∀ other,
              visit.header other decl = visit.refuse other .header := by
          intro other
          simp only [header, reached]
        have passed := fun other =>
          accept_of_refused isRoot (congrArg Outcome.answer (refused other))
        simp only [refused] at passed
        rw [passed, passed]
        exact ⟨rfl, rfl, rfl, _, _, rfl, rfl, List.Sublist.refl _⟩
    | start =>
        rcases header_cases visit atlas decl with
          ⟨problem, refused⟩ | ⟨-, -, problem, refused⟩ |
            ⟨filed, claimed, -⟩
        · exact repeats_conflict reached wellFormed isRoot
            (congrArg Outcome.answer refused)
        · exact repeats_conflict reached wellFormed isRoot
            (congrArg Outcome.answer refused)
        · exact repeats_accepted reached wellFormed founded isRoot filed
            claimed

end Visit

/-! ## Sessions -/

/--
Whatever was done before, a declaration that is entered twice leaves the same
answer and the same store behind as one that is entered once, and reports no
problem that it did not report the first time.
-/
theorem Session.entering_twice
    (acts : List Act)
    (visit : Visit)
    (decl : ClassDecl) :
    let before := (Session.run {} acts).atlas
    let once := visit.accept before decl
    let twice := visit.accept once.2 decl
    Visit.Repeats before once twice := by
  have evolves := Session.run_evolves {} acts
  exact visit.accept_repeats (evolves.wellFormed Store.wellFormed_empty)
    (evolves.founded Store.founded_empty) decl

end TypeAtlas
