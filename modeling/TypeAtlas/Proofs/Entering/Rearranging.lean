import Mathlib.Data.List.Nodup
import TypeAtlas.Proofs.Entering.AnnotationValues
import TypeAtlas.Proofs.Store.Growth

namespace TypeAtlas

/-!
# The order of new names

The order in which names are mentioned shows in two places: new entries stand
in that order, and so do new names on the worklist. Nothing that is found under
a name hangs on it, as long as the mentions give no category. This module
compares stores that differ in that order only.
-/

/-- Mentions without a category give no name one. -/
theorem hintedAs_of_uncategorized
    {hints : List Hint}
    (uncategorized : ∀ hint ∈ hints, hint.2 = none)
    (name : TypeName) :
    hintedAs hints name = none := by
  refine List.findSome?_eq_none_iff.mpr fun hint member => ?_
  exact uncategorized hint (List.mem_of_mem_filter member)

namespace Store

/--
Two stores that have grown out of one by the same names, in whatever order, and
in which the same is found under every name.
-/
structure GrowsAlike
    (before store other : Store) :
    Prop where
  entries : ∀ name, store.find? name = other.find? name
  added :
    ∃ names otherNames : List TypeName,
      names.Perm otherNames ∧
        store.names = before.names ++ names ∧
        store.pending = before.pending ++ names ∧
        other.names = before.names ++ otherNames ∧
        other.pending = before.pending ++ otherNames

/-! ## Mentions -/

/-- Mentions add the names that have no entry, each of them once. -/
theorem exists_added_mentions
    (store : Store)
    (hints : List Hint) :
    ∃ added : List TypeName,
      added.Nodup ∧
        (∀ name,
          name ∈ added ↔
            name ∉ store.names ∧
              name ∈ (mentions hints).flatMap Change.introduces) ∧
        (store.replay (mentions hints)).names = store.names ++ added ∧
        (store.replay (mentions hints)).pending = store.pending ++ added := by
  induction hints generalizing store with
  | nil =>
      exact ⟨[], by simp [mentions]⟩
  | cons hint hints inductionHypothesis =>
      let change : Change := .mention hint.1 hint.2
      let first := change.introduces.filter (· ∉ store.names)
      have names : (change.apply store).names = store.names ++ first :=
        change.names_apply store
      have pending : (change.apply store).pending = store.pending ++ first :=
        Change.pending_apply store (by simp [change])
      obtain ⟨rest, once, members, restNames, restPending⟩ :=
        inductionHypothesis (change.apply store)
      have inFirst :
          ∀ name,
            name ∈ first ↔
              name ∉ store.names ∧ name ∈ change.introduces := by
        intro name
        simp [first, and_comm]
      refine ⟨first ++ rest, ?_, fun name => ?_, ?_, ?_⟩
      · refine List.Nodup.append (change.nodup_introduces.filter _) once ?_
        intro name early late
        rw [members, names] at late
        exact late.1 (List.mem_append_right _ early)
      · have whole :
            (mentions (hint :: hints)).flatMap Change.introduces =
              change.introduces ++
                (mentions hints).flatMap Change.introduces :=
          rfl
        rw [List.mem_append, members, names, whole, List.mem_append,
          List.mem_append, inFirst]
        tauto
      · rw [← List.append_assoc, ← names]
        exact restNames
      · rw [← List.append_assoc, ← pending]
        exact restPending

theorem grown_mentions
    (store : Store)
    (hints : List Hint) :
    store.Grown ((mentions hints).flatMap Change.introduces)
      (store.replay (mentions hints)) := by
  obtain ⟨added, -, members, names, pending⟩ :=
    exists_added_mentions store hints
  exact ⟨added, fun name member => ((members name).mp member).2, names,
    pending⟩

/-- The same names without categories, mentioned in whatever order and number. -/
theorem growsAlike_mentions
    {hints otherHints : List Hint}
    (plain : ∀ hint ∈ hints, hint.1 ≠ TypeName.root ∧ hint.2 = none)
    (same : ∀ hint, hint ∈ hints ↔ hint ∈ otherHints)
    (store : Store) :
    GrowsAlike store (store.replay (mentions hints))
      (store.replay (mentions otherHints)) := by
  have named :
      ∀ name, name ∈ hints.map Prod.fst ↔ name ∈ otherHints.map Prod.fst := by
    intro name
    simp only [List.mem_map, same]
  have tracked : TypeName.root ∉ hints.map Prod.fst := by
    intro member
    obtain ⟨hint, inHints, isRoot⟩ := List.mem_map.mp member
    exact (plain hint inHints).1 isRoot
  constructor
  · intro name
    rw [store.find?_replay_mentions tracked,
      store.find?_replay_mentions (mt (named _).mpr tracked),
      hintedAs_of_uncategorized fun hint member => (plain hint member).2,
      hintedAs_of_uncategorized fun hint member =>
        (plain hint ((same hint).mpr member)).2]
    simp only [named]
  · obtain ⟨names, once, members, grown, waiting⟩ :=
      exists_added_mentions store hints
    obtain ⟨otherNames, otherOnce, otherMembers, otherGrown, otherWaiting⟩ :=
      exists_added_mentions store otherHints
    refine ⟨names, otherNames, ?_, grown, waiting, otherGrown, otherWaiting⟩
    rw [List.perm_ext_iff_of_nodup once otherOnce]
    intro name
    rw [members, otherMembers]
    simp [mentions, same]

/-- Names that were mentioned just before are mentioned in vain. -/
theorem mention_mention_none
    (store : Store)
    (name : TypeName)
    (hint : Option Category) :
    (store.mention name hint).mention name none = store.mention name hint := by
  by_cases isRoot : name = TypeName.root
  · simp [mention, isRoot]
  · have known :
        (store.mention name hint).find? name =
          some (Entry.afterMention name hint (store.find? name)) := by
      simp [find?_mention, isRoot]
    generalize store.mention name hint = after at known ⊢
    unfold mention
    rw [if_neg isRoot, known]

namespace GrowsAlike

variable {before store other : Store}

/-! ## Other changes -/

/-- A change that brings in no name is made in both stores. -/
theorem apply
    (alike : GrowsAlike before store other)
    {change : Change}
    (adds : change ≠ .take)
    (introduces : change.introduces = []) :
    GrowsAlike before (change.apply store) (change.apply other) := by
  obtain ⟨names, otherNames, same, grown, waiting, otherGrown,
    otherWaiting⟩ := alike.added
  refine ⟨fun name => ?_, names, otherNames, same, ?_⟩
  · rw [Change.find?_apply, Change.find?_apply, alike.entries]
  · simp [Change.names_apply, Change.pending_apply _ adds, introduces, grown,
      waiting, otherGrown, otherWaiting]

/-- So are changes one after another. -/
theorem replay
    (alike : GrowsAlike before store other)
    {script : List Change}
    (quiet :
      ∀ change ∈ script, change ≠ .take ∧ change.introduces = []) :
    GrowsAlike before (store.replay script) (other.replay script) := by
  induction script generalizing store other with
  | nil =>
      exact alike
  | cons change script inductionHypothesis =>
      obtain ⟨adds, introduces⟩ := quiet change (by simp)
      exact inductionHypothesis (alike.apply adds introduces)
        fun change member => quiet change (List.mem_cons_of_mem _ member)

/-- The stores may have had some growth in common before. -/
theorem of_grown
    {names : List TypeName}
    {first : Store}
    (alike : GrowsAlike before store other)
    (grown : Grown names first before) :
    GrowsAlike first store other := by
  obtain ⟨early, -, earlyNames, earlyPending⟩ := grown
  obtain ⟨late, otherLate, same, lateNames, latePending, otherNames,
    otherPending⟩ := alike.added
  refine ⟨alike.entries, early ++ late, early ++ otherLate,
    same.append_left early, ?_⟩
  simp [lateNames, latePending, otherNames, otherPending, earlyNames,
    earlyPending]

end GrowsAlike

end Store

end TypeAtlas
