import TypeAtlas.Proofs.Store.WellFormed

namespace TypeAtlas

/-!
# Declarations that are passed over

A declaration can contradict what is known of its type in two places. That the
type was entered under another category shows before anything is written. That
it has a placeholder which cannot take on the category shows only after the
entry was filed under it, and the entry stays filed there although the
declaration is passed over. Nothing else is left behind in either case.
-/

/-! ## Changes without effect -/

/-- An entry whose pool fits is filed anew only under another category. -/
theorem Entry.WellFormed.fileUnder_eq_self_iff
    {entry : Entry}
    (wellFormed : entry.WellFormed)
    {category : Category} :
    entry.fileUnder category = entry ↔ entry.category = some category := by
  constructor
  · intro same
    rw [← same]
    rfl
  · intro filed
    have pool : entry.pool = some category.pool := by
      rw [wellFormed.filed, filed, Option.map_some]
    obtain ⟨_, _, _, _, _, _, _, _, _⟩ := entry
    cases filed
    cases pool
    rfl

theorem Entry.ensureNode_of_isSome
    {entry : Entry}
    (installed : entry.node.isSome)
    (category : Category) :
    entry.ensureNode category = entry := by
  obtain ⟨node, here⟩ := Option.isSome_iff_exists.mp installed
  obtain ⟨_, _, _, _, _, _, _, _, _⟩ := entry
  cases here
  rfl

namespace Store

/-- The entries of a name are all equal to the one that is found. -/
theorem WellFormed.update_congr
    {store : Store}
    (wellFormed : store.WellFormed)
    {name : TypeName}
    {entry : Entry}
    (found : store.find? name = some entry)
    {change other : Entry → Entry}
    (same : change entry = other entry) :
    store.update name change = store.update name other := by
  simp only [update]
  congr 1
  apply List.map_congr_left
  intro present member
  split
  · next named =>
      have lookup := find?_of_mem wellFormed.noDuplicates member
      rw [named, found, Option.some.injEq] at lookup
      rw [← lookup, same]
  · rfl

theorem update_id
    (store : Store)
    (name : TypeName) :
    store.update name id = store := by
  simp [update]

/-- Filing a name that has an entry leaves the store alone or moves the entry. -/
theorem WellFormed.fileUnder_eq_self_iff
    {store : Store}
    (wellFormed : store.WellFormed)
    {name : TypeName}
    {entry : Entry}
    (found : store.find? name = some entry)
    {category : Category} :
    store.update name (·.fileUnder category) = store ↔
      entry.category = some category := by
  rw [← (wellFormed.entries entry (mem_of_find? found)).fileUnder_eq_self_iff]
  constructor
  · intro same
    have lookup :
        (store.update name (·.fileUnder category)).find? name =
          (store.find? name).map fun entry =>
            if name = name then entry.fileUnder category else entry :=
      store.find?_update name name fun _ => rfl
    rw [same, found] at lookup
    simpa using lookup.symm
  · intro same
    have filed : entry.fileUnder category = id entry := same
    rw [wellFormed.update_congr found filed, update_id]

/-! ## Where a conflict shows -/

/-- Filing finds conflicts with types that were entered. -/
theorem define_conflict
    {store : Store}
    {name target : TypeName}
    {category existing requested : Category}
    (stopped :
      store.define name category =
        .error (.categoryConflict target existing requested)) :
    target = name ∧
      requested = category ∧
      (store.node? name).map (·.category) = some existing ∧
      store.isVisited name = true := by
  unfold define at stopped
  split at stopped
  · simp at stopped
  · split at stopped
    · simp at stopped
    · next entry found =>
        split at stopped
        · next node installed =>
            split at stopped
            · simp at stopped
            · simp only [Except.error.injEq,
                Problem.categoryConflict.injEq] at stopped
              obtain ⟨rfl, rfl, rfl⟩ := stopped
              simp only [Entry.visitedNode?, Option.ite_none_right_eq_some]
                at installed
              simp [node?, isVisited, found, installed]
        · simp at stopped

/-- Claiming finds conflicts with placeholders. -/
theorem claim_conflict
    {store : Store}
    {decl : ClassDecl}
    (filed : (Change.file decl.name decl.category).Allowed store)
    {problem : Problem}
    (stopped :
      (store.replay (Visit.founding decl)).claim decl.name decl.category =
        .error problem) :
    ∃ entry node,
      store.find? decl.name = some entry ∧
        entry.visited = false ∧
        entry.node = some node ∧
        problem =
          .categoryConflict decl.name node.category decl.category := by
  simp only [claim, Visit.founding, replay_cons, replay_nil,
    Change.find?_apply] at stopped
  cases found : store.find? decl.name with
  | none =>
      -- A fresh node has the category it is claimed under.
      simp [found, Change.create, Change.revise, Entry.ofName,
        Entry.ensureNode] at stopped
  | some entry =>
      cases installed : entry.node with
      | none =>
          have fresh : (Node.ofCategory decl.category).category = decl.category :=
            rfl
          simp [found, Change.revise, Entry.fileUnder, Entry.ensureNode,
            installed, fresh] at stopped
      | some node =>
          simp only [found, Change.revise, Entry.fileUnder, Entry.ensureNode,
            installed, ↓reduceIte, Option.orElse_eq_orElse,
            Option.orElse_some, Option.map_some, Option.getD_some] at stopped
          split at stopped
          · next clash =>
              refine ⟨entry, node, rfl, ?_, installed, ?_⟩
              · by_contra visited
                rw [Bool.not_eq_false] at visited
                refine clash.1 (filed.2 node ?_)
                simp [visitedNode?, Entry.visitedNode?, found, visited,
                  installed]
              · exact (Except.error.inj stopped).symm
          · simp at stopped

/-- With a node at hand, a declaration that is filed only moves its entry. -/
theorem WellFormed.founding_eq_fileUnder
    {store : Store}
    (wellFormed : store.WellFormed)
    {decl : ClassDecl}
    (filed : (Change.file decl.name decl.category).Allowed store)
    {entry : Entry}
    (found : store.find? decl.name = some entry)
    (installed : entry.node.isSome) :
    store.replay (Visit.founding decl) =
      store.update decl.name (·.fileUnder decl.category) := by
  let moved := (Change.file decl.name decl.category).apply store
  have lookup :
      moved.find? decl.name = some (entry.fileUnder decl.category) := by
    simp [moved, Change.find?_apply, found, Change.revise]
  have still : (entry.fileUnder decl.category).node.isSome := installed
  have same :
      (entry.fileUnder decl.category).ensureNode decl.category =
        id (entry.fileUnder decl.category) :=
    Entry.ensureNode_of_isSome still decl.category
  calc
    store.replay (Visit.founding decl) =
        moved.update decl.name (·.ensureNode decl.category) :=
      rfl
    _ = moved.update decl.name id :=
      (wellFormed.apply filed).update_congr lookup same
    _ = moved :=
      moved.update_id decl.name
    _ = store.update decl.name (·.fileUnder decl.category) := by
      simp [moved, Change.apply, found]

end Store

/-! ## What is left behind -/

namespace Visit

/-- A header that meets a conflict files the entry of a placeholder at most. -/
theorem header_of_conflict
    {visit : Visit}
    {atlas : Atlas}
    (wellFormed : atlas.store.WellFormed)
    {decl : ClassDecl}
    {name : TypeName}
    {existing requested : Category}
    (conflict :
      (visit.header atlas decl).answer =
        .error (.categoryConflict name existing requested)) :
    name = decl.name ∧
      requested = decl.category ∧
      (atlas.store.node? decl.name).map (·.category) = some existing ∧
      (visit.header atlas decl).atlas =
        { atlas with
          store :=
            if atlas.store.isVisited decl.name then
              atlas.store
            else
              atlas.store.update decl.name (·.fileUnder decl.category) } := by
  cases reached : visit.progress with
  | header _ | members _ | ended =>
      simp [header, reached, refuse] at conflict
  | start =>
      cases defined : atlas.store.define decl.name decl.category with
      | error problem =>
          simp only [header, reached, defined, Except.error.injEq]
            at conflict ⊢
          rw [conflict] at defined
          obtain ⟨target, category, installed, visited⟩ :=
            Store.define_conflict defined
          exact ⟨target, category, installed, by simp [visited]⟩
      | ok store =>
          obtain ⟨filed, rfl⟩ := Store.define_eq_ok_iff.mp defined
          cases claimed :
              (atlas.store.replay (founding decl)).claim decl.name
                decl.category with
          | ok result =>
              simp [header, reached, defined, founding_eq, claimed] at conflict
          | error problem =>
              simp only [header, reached, defined, founding_eq, claimed,
                Except.error.injEq] at conflict ⊢
              obtain ⟨entry, node, found, fresh, installed, rfl⟩ :=
                Store.claim_conflict filed claimed
              simp only [Problem.categoryConflict.injEq] at conflict
              obtain ⟨rfl, rfl, rfl⟩ := conflict
              rw [wellFormed.founding_eq_fileUnder filed found
                (by simp [installed])]
              simp [Store.node?, Store.isVisited, found, fresh, installed]

end Visit

namespace Session

/--
Whatever was done before, a declaration that meets a conflict is passed over
and the conflict is kept. It changes nothing if its type was entered before;
otherwise it moves the entry of its type to the declaration's category, which
leaves the store as it was only if the entry was filed there already.
-/
theorem conflict_moves_entry_at_most
    (acts : List Act)
    (visit : Visit)
    (decl : ClassDecl)
    {name : TypeName}
    {existing requested : Category}
    (conflict :
      (visit.header (Session.run {} acts).atlas decl).answer =
        .error (.categoryConflict name existing requested)) :
    let atlas := (Session.run {} acts).atlas
    name = decl.name ∧
      requested = decl.category ∧
      (atlas.store.node? decl.name).map (·.category) = some existing ∧
      visit.accept atlas decl =
        (none,
          { atlas with
            store :=
              if atlas.store.isVisited decl.name then
                atlas.store
              else
                atlas.store.update decl.name (·.fileUnder decl.category)
            problems :=
              atlas.problems ++
                [.categoryConflict name existing requested] }) ∧
      ((visit.accept atlas decl).2.store = atlas.store ↔
        atlas.store.isVisited decl.name = true ∨
          (atlas.store.find? decl.name).bind (·.category) =
            some decl.category) := by
  intro atlas
  have wellFormed : atlas.store.WellFormed := store_wellFormed acts
  obtain ⟨target, category, installed, left⟩ :=
    Visit.header_of_conflict wellFormed conflict
  have known : decl.name ∈ atlas.store.names := by
    apply Store.mem_names_of_node?
    rw [← Option.isSome_map, installed, Option.isSome_some]
  have tracked := wellFormed.ne_root known
  have passed :
      visit.accept atlas decl =
        (none, (visit.header atlas decl).atlas.report
          (.categoryConflict name existing requested)) := by
    simp [Visit.accept, tracked, conflict, atlas]
  rw [left] at passed
  refine ⟨target, category, installed, passed, ?_⟩
  rw [passed]
  obtain ⟨entry, found⟩ := Store.exists_of_mem_names known
  simp only [Atlas.report, found, Option.bind_some]
  split
  · next visited =>
      simp [visited]
  · next fresh =>
      simp [fresh, wellFormed.fileUnder_eq_self_iff found]

/-- A type is made a superclass before anything else is known of it. -/
def extendedBase : List Act :=
  [.visit none true,
    .accept 0
      { access := 0x1
        name := "c.Child"
        superName := some "c.Base" }]

/-- The same type, declared as an annotation type. -/
def annotationBase : ClassDecl :=
  { access := 0x2601
    name := "c.Base" }

theorem conflict_moves_entry_at_most_extendedBase :
    let atlas := (Session.run {} extendedBase).atlas
    let conflict : Problem :=
      .categoryConflict "c.Base" .classType .annotationType
    (Visit.header {} atlas annotationBase).answer = .error conflict ∧
      Visit.accept {} atlas annotationBase =
        (none,
          { atlas with
            store :=
              if atlas.store.isVisited "c.Base" then
                atlas.store
              else
                atlas.store.update "c.Base" (·.fileUnder .annotationType)
            problems := atlas.problems ++ [conflict] }) := by
  have conflict :
      (Visit.header {} (Session.run {} extendedBase).atlas
        annotationBase).answer =
          .error (.categoryConflict "c.Base" .classType .annotationType) := by
    rfl
  exact ⟨conflict,
    (conflict_moves_entry_at_most extendedBase {} annotationBase
      conflict).2.2.2.1⟩

/-- A declaration that is passed over can move an entry to another pool. -/
theorem conflict_moves_extendedBase :
    let atlas := (Session.run {} extendedBase).atlas
    let after := (Visit.accept {} atlas annotationBase).2
    (Visit.header {} atlas annotationBase).answer =
        .error (.categoryConflict "c.Base" .classType .annotationType) ∧
      atlas.store.namesIn (some .classes) = ["c.Child", "c.Base"] ∧
      after.store.namesIn (some .classes) = ["c.Child"] ∧
      atlas.store.namesIn (some .annotations) = [] ∧
      after.store.namesIn (some .annotations) = ["c.Base"] := by
  refine ⟨rfl, ?_, ?_, ?_, ?_⟩ <;> decide

end Session

end TypeAtlas
