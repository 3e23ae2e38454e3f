import Mathlib.Data.List.Dedup
import Mathlib.Logic.Relation
import TypeAtlas.Query.Hierarchy

namespace TypeAtlas

/-!
# Reaching is the closure of the step

The breadth-first search gives exactly the things that can be reached by
following the step. That nothing is missing rests on the number of rounds: a
round that adds something adds a name that has an entry, or else only names
that lead nowhere, after which nothing can be added any more.
-/

/-- One thing leads to another. -/
def Leads
    (next : α → List α)
    (a b : α) :
    Prop :=
  b ∈ next a

/-- Nothing leads out of a list of things. -/
def Closed
    (next : α → List α)
    (known : List α) :
    Prop :=
  ∀ a ∈ known, ∀ b ∈ next a, b ∈ known

section

variable [BEq α] [LawfulBEq α]

/-- What one round adds. -/
theorem mem_round_iff
    {next : α → List α}
    {known : List α}
    {b : α} :
    b ∈ ((known.flatMap next).filter (!known.contains ·)).eraseDups ↔
      (∃ a ∈ known, b ∈ next a) ∧ b ∉ known := by
  simp [List.mem_flatMap]

omit [LawfulBEq α] in
/-- What is known stays known, in front of what is added. -/
theorem prefix_reach
    (next : α → List α)
    (rounds : Nat)
    (known : List α) :
    known <+: reach next rounds known := by
  induction rounds generalizing known with
  | zero =>
      exact List.prefix_refl known
  | succ rounds inductionHypothesis =>
      simp only [reach]
      split
      · exact List.prefix_refl known
      · exact (List.prefix_append known _).trans (inductionHypothesis _)

/-- Everything the search gives can be reached. -/
theorem reachable_of_mem_reach
    {next : α → List α}
    {rounds : Nat}
    {known : List α}
    {b : α}
    (member : b ∈ reach next rounds known) :
    ∃ a ∈ known, Relation.ReflTransGen (Leads next) a b := by
  induction rounds generalizing known with
  | zero =>
      exact ⟨b, member, .refl⟩
  | succ rounds inductionHypothesis =>
      simp only [reach] at member
      split at member
      · exact ⟨b, member, .refl⟩
      · obtain ⟨middle, known', path⟩ := inductionHypothesis member
        rcases List.mem_append.mp known' with old | new
        · exact ⟨middle, old, path⟩
        · obtain ⟨⟨a, present, step⟩, -⟩ := mem_round_iff.mp new
          exact ⟨a, present, path.head step⟩

/-- Nothing is added to what nothing leads out of. -/
theorem reach_of_closed
    {next : α → List α}
    (rounds : Nat)
    {known : List α}
    (closed : Closed next known) :
    reach next rounds known = known := by
  cases rounds with
  | zero =>
      rfl
  | succ rounds =>
      have nothing :
          ((known.flatMap next).filter (!known.contains ·)).eraseDups = [] := by
        apply List.eq_nil_iff_forall_not_mem.mpr
        intro b member
        obtain ⟨⟨a, present, step⟩, new⟩ := mem_round_iff.mp member
        exact new (closed a present b step)
      simp only [reach, nothing, List.isEmpty_nil, ↓reduceIte]

/-- The things of a list that are not known yet. -/
def missing
    (whole known : List α) :
    List α :=
  whole.filter (!known.contains ·)

/-- A round that adds something of a list leaves less of it missing. -/
theorem length_missing_lt
    {whole known new : List α}
    {a : α}
    (inWhole : a ∈ whole)
    (unknown : a ∉ known)
    (added : a ∈ new) :
    (missing whole (known ++ new)).length <
      (missing whole known).length := by
  have fewer :
      missing whole (known ++ new) =
        (missing whole known).filter (!new.contains ·) := by
    simp only [missing, List.filter_filter]
    apply List.filter_congr
    intro b _
    by_cases old : b ∈ known <;> by_cases fresh : b ∈ new <;>
      simp [old, fresh]
  rw [fewer]
  apply List.length_filter_lt_length_iff_exists.mpr
  refine ⟨a, ?_, by simp [added]⟩
  simp [missing, inWhole, unknown]

/--
With a round to spare for every thing that leads further and is not known yet,
nothing leads out of what the search gives.
-/
theorem closed_reach
    {next : α → List α}
    {whole : List α}
    (leads : ∀ a b, b ∈ next a → a ∈ whole)
    {rounds : Nat}
    {known : List α}
    (enough : (missing whole known).length < rounds) :
    Closed next (reach next rounds known) := by
  induction rounds generalizing known with
  | zero =>
      exact absurd enough (Nat.not_lt_zero _)
  | succ rounds inductionHypothesis =>
      simp only [reach]
      split
      · next nothing =>
          intro a present b step
          by_contra unknown
          have member := mem_round_iff.mpr ⟨⟨a, present, step⟩, unknown⟩
          rw [List.isEmpty_iff.mp nothing] at member
          exact List.not_mem_nil member
      · generalize shape :
          ((known.flatMap next).filter (!known.contains ·)).eraseDups = new
        have added : ∀ b, b ∈ new ↔
            (∃ a ∈ known, b ∈ next a) ∧ b ∉ known := by
          intro b
          rw [← shape]
          exact mem_round_iff
        by_cases further : ∃ a ∈ new, a ∈ whole
        · obtain ⟨a, fresh, inWhole⟩ := further
          have less := length_missing_lt inWhole ((added a).mp fresh).2 fresh
          exact inductionHypothesis (by omega)
        · -- The new things lead nowhere, so the search is over.
          have closed : Closed next (known ++ new) := by
            intro a present b step
            rcases List.mem_append.mp present with old | fresh
            · by_cases isOld : b ∈ known
              · exact List.mem_append_left _ isOld
              · exact List.mem_append_right _
                  ((added b).mpr ⟨⟨a, old, step⟩, isOld⟩)
            · exact absurd ⟨a, fresh, leads a b step⟩ further
          rw [reach_of_closed rounds closed]
          exact closed

/-- Each thing stands once in a list without repetitions. -/
theorem nodup_eraseDups
    (items : List α) :
    items.eraseDups.Nodup := by
  cases items with
  | nil =>
      simp
  | cons item items =>
      rw [List.eraseDups_cons, List.nodup_cons]
      exact ⟨by simp, nodup_eraseDups _⟩
termination_by items.length
decreasing_by
  -- The rest of the list is filtered first, which makes it no longer.
  exact Nat.lt_succ_of_le (List.length_filter_le _ _)

end

namespace Store

/-- What is reached from names is what steps lead to from them. -/
theorem mem_closure_iff
    {store : Store}
    {next : TypeName → List TypeName}
    (leads : ∀ a b, b ∈ next a → a ∈ store.names)
    {start : List TypeName}
    {b : TypeName} :
    b ∈ store.closure next start ↔
      ∃ a ∈ start, Relation.ReflTransGen (Leads next) a b := by
  constructor
  · intro member
    obtain ⟨a, present, path⟩ := reachable_of_mem_reach member
    exact ⟨a, List.mem_eraseDups.mp present, path⟩
  · rintro ⟨a, present, path⟩
    have enough :
        (missing store.names start.eraseDups).length < store.size + 1 := by
      have bound := List.length_filter_le
        (!start.eraseDups.contains ·) store.names
      simp only [missing, size]
      simp only [names, List.length_map] at bound ⊢
      omega
    have closed := closed_reach leads enough
    induction path with
    | refl =>
        exact (prefix_reach next _ _).subset (List.mem_eraseDups.mpr present)
    | tail _ step inductionHypothesis =>
        exact closed _ inductionHypothesis _ step

end Store

end TypeAtlas
