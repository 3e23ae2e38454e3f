import Mathlib.Algebra.BigOperators.Group.List.Basic
import Mathlib.Algebra.GroupWithZero.Nat
import TypeAtlas.Proofs.Graph.Reach
import TypeAtlas.Proofs.Survey.Reconciling
import TypeAtlas.Proofs.Survey.Surveying

namespace TypeAtlas

/-!
# The catalog is a partition

The catalog counts in several places: by the mark that a declaration was
entered, by the nodes that there are, by the categories of these nodes, and by
the pools. The main result says that all of them agree in every store that a
session or a run can lead to. The entered types and the unresolved names share
out the names of the store, and the numbers that a summary prints add up.
-/

/-! ## Sharing out a list -/

/-- A value occurs as often as there are places that hold it. -/
theorem sum_eq_count
    [BEq β]
    [LawfulBEq β]
    (values : List β)
    (value : β) :
    (values.map fun other => if value == other then 1 else 0).sum =
      values.count value := by
  induction values with
  | nil =>
      rfl
  | cons other values inductionHypothesis =>
      rw [List.map_cons, List.sum_cons, inductionHypothesis, List.count_cons,
        BEq.comm, Nat.add_comm]

/-- Values that are all different and all there are share out a list. -/
theorem sum_length_filter
    [BEq β]
    [LawfulBEq β]
    {values : List β}
    (distinct : values.Nodup)
    (every : ∀ value, value ∈ values)
    (valueOf : α → β)
    (items : List α) :
    (values.map fun value =>
      (items.filter (valueOf · == value)).length).sum = items.length := by
  induction items with
  | nil =>
      simp
  | cons item items inductionHypothesis =>
      -- The item is counted under its own value and under no other.
      have once := List.count_eq_one_of_mem distinct (every (valueOf item))
      have counted :
          ∀ value,
            ((item :: items).filter (valueOf · == value)).length =
              (if valueOf item == value then 1 else 0)
                + (items.filter (valueOf · == value)).length := by
        intro value
        cases same : valueOf item == value <;>
          simp [same, Nat.add_comm]
      simp only [counted, List.sum_map_add, sum_eq_count, once,
        inductionHypothesis, List.length_cons, Nat.add_comm]

namespace Store

/-- The places an entry can be filed in. -/
def filings : List (Option Pool) :=
  [some .classes, some .interfaces, some .annotations, none]

/-- The pools, and the entries in none, share out a store. -/
theorem sum_namesIn
    (store : Store) :
    (filings.map fun pool => (store.namesIn pool).length).sum =
      store.size := by
  have every : ∀ pool, pool ∈ filings := by
    rintro (_ | _ | _ | _) <;> decide
  simp only [namesIn, List.length_map, size]
  exact sum_length_filter (by decide) every (·.pool) store.entries

/-! ## Sorted names -/

/-- Distinct names are only brought into another order. -/
theorem sortedNames_of_nodup
    {names : List TypeName}
    (distinct : names.Nodup) :
    (sortedNames names).Perm names := by
  let sorted := names.mergeSort fun a b => decide (a ≤ b)
  have reordered : sorted.Perm names :=
    List.mergeSort_perm names _
  refine List.Perm.trans ?_ reordered
  refine (List.perm_ext_iff_of_nodup (nodup_eraseDups _) ?_).mpr ?_
  · exact reordered.nodup_iff.mpr distinct
  · intro name
    exact List.mem_eraseDups

namespace WellFormed

variable {store : Store}

/-- A type was entered exactly if its entry gives a node as entered. -/
theorem visitedNode?_isSome
    (wellFormed : store.WellFormed)
    {entry : Entry}
    (member : entry ∈ store.entries) :
    entry.visitedNode?.isSome = entry.visited := by
  cases visited : entry.visited with
  | false =>
      simp [Entry.visitedNode?, visited]
  | true =>
      obtain ⟨node, installed, -⟩ :=
        (wellFormed.entries entry member).visited visited
      simp [Entry.visitedNode?, visited, installed]

/-- The types that are listed with their nodes are those that are listed. -/
theorem map_types
    (wellFormed : store.WellFormed) :
    store.types.map (·.1) = store.typeNames := by
  have kept :
      ∀ entries : List Entry,
        (∀ entry ∈ entries, entry.visitedNode?.isSome = entry.visited) →
        (entries.filterMap fun entry =>
          entry.visitedNode?.map fun _ => entry.name) =
            (entries.filter (·.visited)).map (·.name) := by
    intro entries marked
    induction entries with
    | nil =>
        rfl
    | cons entry entries inductionHypothesis =>
        have first := marked entry (by simp)
        have rest := inductionHypothesis fun other member =>
          marked other (List.mem_cons_of_mem _ member)
        cases visited : entry.visited <;>
          cases given : entry.visitedNode? <;>
            simp_all
  simp only [types, typeNames, List.map_filterMap, Option.map_map]
  exact kept store.entries fun entry member =>
    wellFormed.visitedNode?_isSome member

theorem mem_types_iff
    (wellFormed : store.WellFormed)
    {name : TypeName}
    {node : Node} :
    (name, node) ∈ store.types ↔ store.visitedNode? name = some node := by
  simp only [types, List.mem_filterMap, Option.map_eq_some_iff,
    Prod.mk.injEq]
  constructor
  · rintro ⟨entry, member, given, installed, rfl, rfl⟩
    simp [visitedNode?, find?_of_mem wellFormed.noDuplicates member,
      installed]
  · intro installed
    obtain ⟨entry, found, given⟩ := Option.bind_eq_some_iff.mp installed
    exact ⟨entry, mem_of_find? found, node, given, name_of_find? found, rfl⟩

/-- The entered types and the unresolved names share out all names. -/
theorem partition
    (wellFormed : store.WellFormed) :
    (store.typeNames ++ store.unresolvedNames).Perm store.names := by
  have distinct :
      ((store.entries.filter (!·.visited)).map (·.name)).Nodup :=
    wellFormed.noDuplicates.sublist (List.filter_sublist.map _)
  have halves :=
    (List.filter_append_perm (fun entry : Entry => entry.visited)
      store.entries).map (·.name)
  rw [List.map_append] at halves
  exact ((sortedNames_of_nodup distinct).append_left _).trans halves

theorem isVisited_iff
    (wellFormed : store.WellFormed)
    {name : TypeName} :
    store.isVisited name = true ↔
      ∃ node, store.visitedNode? name = some node := by
  rw [← wellFormed.mem_typeNames_iff, ← wellFormed.map_types]
  simp [wellFormed.mem_types_iff]

end WellFormed

/-! ## The catalog -/

/-- All ways to look at the catalog of a store agree. -/
structure Catalogued (store : Store) : Prop where
  /-- No name is listed twice, be it as a type, as unresolved or as both. -/
  distinct : (store.types.map (·.1) ++ store.unresolvedNames).Nodup
  /-- The types and the unresolved names are all names that there are. -/
  together :
    (store.types.map (·.1) ++ store.unresolvedNames).Perm store.names
  counted : store.typeCount = store.types.length
  /-- A look-up finds the types that are listed, with their nodes. -/
  lookedUp :
    ∀ name node,
      store.visitedNode? name = some node ↔ (name, node) ∈ store.types
  /-- A look-up by category finds an entered type under one category. -/
  oneCategory :
    ∀ name, store.isVisited name = true →
      ∃! category, (store.visitedNodeAs? name category).isSome
  /-- A look-up by category finds nothing else. -/
  noCategory :
    ∀ name category,
      (store.visitedNodeAs? name category).isSome →
        name ∈ store.types.map (·.1)
  pooled :
    (filings.map fun pool => (store.namesIn pool).length).sum = store.size

theorem WellFormed.catalogued
    {store : Store}
    (wellFormed : store.WellFormed) :
    store.Catalogued := by
  have shared := wellFormed.partition
  rw [← wellFormed.map_types] at shared
  refine
    { distinct := shared.nodup_iff.mpr wellFormed.noDuplicates
      together := shared
      counted := ?_
      lookedUp := fun name node => wellFormed.mem_types_iff.symm
      oneCategory := ?_
      noCategory := ?_
      pooled := store.sum_namesIn }
  · have same := congrArg List.length wellFormed.map_types
    simpa [typeNames, typeCount] using same.symm
  · intro name visited
    obtain ⟨node, installed⟩ := wellFormed.isVisited_iff.mp visited
    refine ⟨node.category, ?_, ?_⟩
    · simp [visitedNodeAs?, installed]
    · intro category given
      simp only [visitedNodeAs?, installed, Option.isSome_filter,
        Option.any_some, beq_iff_eq] at given
      exact given.symm
  · intro name category given
    cases installed : store.visitedNode? name with
    | none =>
        simp [visitedNodeAs?, installed] at given
    | some node =>
        exact List.mem_map_of_mem (wellFormed.mem_types_iff.mpr installed)

end Store

/-! ## Summaries -/

namespace Store

/-- The number of types of a category. -/
def numberOf
    (store : Store)
    (category : Category) :
    Nat :=
  store.types.countP (·.2.category == category)

/-- The numbers of types and of unresolved names, each in a line of its own. -/
def countLines (store : Store) : List String :=
  ["types: " ++ toString store.types.length,
    "  annotation: " ++ toString (store.numberOf .annotationType),
    "  class: " ++ toString (store.numberOf .classType),
    "  enum: " ++ toString (store.numberOf .enumType),
    "  interface: " ++ toString (store.numberOf .interfaceType),
    "unresolved: " ++ toString store.unresolvedNames.length]

/-- Every type has one of the four categories. -/
theorem sum_numberOf
    (store : Store) :
    store.numberOf .annotationType + store.numberOf .classType
        + store.numberOf .enumType + store.numberOf .interfaceType =
      store.types.length := by
  have every : ∀ category, category ∈ Report.categories := by
    rintro (_ | _ | _ | _) <;> decide
  have shared :=
    sum_length_filter (by decide) every (·.2.category) store.types
  simpa [Report.categories, numberOf, List.countP_eq_length_filter,
    Nat.add_assoc] using shared

end Store

namespace Report

/--
A summary begins with numbers that add up: those of the categories to that of
the types, and this and that of the unresolved names to the size of the store.
-/
structure AddsUp
    (store : Store)
    (lines : List String) :
    Prop where
  begins : store.countLines <+: lines
  categories :
    store.numberOf .annotationType + store.numberOf .classType
        + store.numberOf .enumType + store.numberOf .interfaceType =
      store.types.length
  names :
    store.types.length + store.unresolvedNames.length = store.size

/-- A number below another one is written behind its label. -/
theorem indented_count
    (label : String)
    (number : Nat) :
    indented (count label number) =
      "  " ++ label ++ ": " ++ toString number := by
  simp only [indented, count, String.append_assoc]

/-- The lines of a summary up to its number of unresolved names. -/
theorem countLines_eq
    {store : Store}
    (counted : store.typeCount = store.types.length) :
    store.countLines =
      typeCounts store ++ [count "unresolved" store.unresolvedNames.length] := by
  have same :
      ∀ category, store.countOf category = store.numberOf category :=
    fun _ => List.countP_eq_length_filter.symm
  simp only [typeCounts, categories, counted, same, indented_count]
  rfl

theorem addsUp_summary
    {atlas : Atlas}
    (catalogued : atlas.store.Catalogued)
    (tally : Tally) :
    AddsUp atlas.store (summary atlas tally) := by
  refine ⟨?_, atlas.store.sum_numberOf, ?_⟩
  · refine ⟨atlas.store.unresolvedNames.map indented
      ++ problems atlas.problems ++ failures tally.failures, ?_⟩
    rw [countLines_eq catalogued.counted]
    simp [summary, unresolved]
  · have lengths := catalogued.together.length_eq
    simpa [Store.names, Store.size] using lengths

/--
In every session the catalog of the store is a partition of its names, and the
numbers of a summary add up. A run on files gathers an atlas that a session can
lead to, and prints such a summary of it.
-/
theorem summary_partitions :
    (∀ (acts : List Act) (tally : Tally),
      let atlas := (Session.run {} acts).atlas
      atlas.store.Catalogued ∧ AddsUp atlas.store (summary atlas tally)) ∧
    ∀ (invocation : CommandLine.Invocation) (tree : FileTree) (printed : String),
      invocation.command = .summary → invocation.run tree = .ok printed →
        ∃ (atlas : Atlas) (tally : Tally) (lines : List String),
          invocation.gather tree = .ok (atlas, tally) ∧
            (∃ acts, (Session.run {} acts).atlas = atlas) ∧
            atlas.store.Catalogued ∧
            AddsUp atlas.store lines ∧
            Prints printed lines := by
  have summarized :
      ∀ (acts : List Act) (tally : Tally),
        let atlas := (Session.run {} acts).atlas
        atlas.store.Catalogued ∧ AddsUp atlas.store (summary atlas tally) := by
    intro acts tally
    have catalogued := (Session.store_wellFormed acts).catalogued
    exact ⟨catalogued, addsUp_summary catalogued tally⟩
  refine ⟨summarized, fun invocation tree printed asked ran => ?_⟩
  obtain ⟨atlas, tally, lines, gathered, answered, rfl⟩ :=
    CommandLine.Invocation.gather_of_run_eq_ok ran
  obtain ⟨acts, rfl⟩ :=
    CommandLine.Invocation.exists_acts_of_gather gathered
  obtain ⟨catalogued, addsUp⟩ := summarized acts tally
  rw [asked] at answered
  cases answered
  exact ⟨_, tally, _, gathered, ⟨acts, rfl⟩, catalogued, addsUp,
    prints_text _⟩

/-- A class file whose class extends one that is nowhere. -/
def orphanFiles : List (List String × FileContent) :=
  [(["in", "c", "Orphan.class"],
    .bytes (ClassFile.encode
      { access := 0x21, name := "c.Orphan", superName := some "c.Lost" }))]

/-- The request for the summary of what is there. -/
def summing : CommandLine.Invocation :=
  { options := {}
    paths := ["/in"]
    command := .summary }

theorem summary_partitions_summing :
    let printed :=
      "types: 1\n  annotation: 0\n  class: 1\n  enum: 0\n  interface: 0\n"
        ++ "unresolved: 1\n  c.Lost\n"
    summing.run { files := orphanFiles } = .ok printed ∧
      ∃ atlas tally lines,
        summing.gather { files := orphanFiles } = .ok (atlas, tally) ∧
          (∃ acts, (Session.run {} acts).atlas = atlas) ∧
          atlas.store.Catalogued ∧
          AddsUp atlas.store lines ∧
          Prints printed lines := by
  intro printed
  have ran : summing.run { files := orphanFiles } = .ok printed := by
    decide +kernel
  exact ⟨ran, summary_partitions.2 summing _ printed rfl ran⟩

end Report

end TypeAtlas
