import TypeAtlas.Proofs.Store.WellFormed

namespace TypeAtlas

/-!
# Growing stores

A store never loses a name. What is new in it comes with an entry behind the
others and, at the same time, with a place at the end of the worklist. This
module says so of every change but the one that takes a name off the worklist,
and says which names a change can bring in and which types it can visit.
-/

namespace Store

/-- One store becomes another by entries for some of the given names. -/
def Grown
    (names : List TypeName)
    (before after : Store) :
    Prop :=
  ∃ added : List TypeName,
    (∀ name ∈ added, name ∈ names) ∧
      after.names = before.names ++ added ∧
      after.pending = before.pending ++ added

/-- A store grows by some of the given names, and no type is newly visited. -/
structure Gains
    (names : List TypeName)
    (before after : Store) :
    Prop where
  grown : Grown names before after
  visited : ∀ name, after.isVisited name = before.isVisited name

namespace Grown

theorem refl
    (names : List TypeName)
    (store : Store) :
    Grown names store store :=
  ⟨[], by simp⟩

theorem trans
    {names : List TypeName}
    {first middle last : Store}
    (earlier : Grown names first middle)
    (later : Grown names middle last) :
    Grown names first last := by
  obtain ⟨early, earlyNamed, earlyNames, earlyPending⟩ := earlier
  obtain ⟨late, lateNamed, lateNames, latePending⟩ := later
  refine ⟨early ++ late, ?_, ?_, ?_⟩
  · intro name member
    rcases List.mem_append.mp member with inEarly | inLate
    · exact earlyNamed name inEarly
    · exact lateNamed name inLate
  · rw [lateNames, earlyNames, List.append_assoc]
  · rw [latePending, earlyPending, List.append_assoc]

/-- A store may have grown by more names. -/
theorem mono
    {names more : List TypeName}
    {before after : Store}
    (grown : Grown names before after)
    (subset : ∀ name ∈ names, name ∈ more) :
    Grown more before after := by
  obtain ⟨added, named, rest⟩ := grown
  exact ⟨added, fun name member => subset name (named name member), rest⟩

/-- Names that have entries keep them. -/
theorem mem_names
    {names : List TypeName}
    {before after : Store}
    (grown : Grown names before after)
    {name : TypeName}
    (member : name ∈ before.names) :
    name ∈ after.names := by
  obtain ⟨added, -, longer, -⟩ := grown
  rw [longer]
  exact List.mem_append_left _ member

end Grown

namespace Gains

theorem refl
    (names : List TypeName)
    (store : Store) :
    Gains names store store :=
  ⟨.refl names store, fun _ => rfl⟩

theorem trans
    {names : List TypeName}
    {first middle last : Store}
    (earlier : Gains names first middle)
    (later : Gains names middle last) :
    Gains names first last :=
  ⟨earlier.grown.trans later.grown,
    fun name => (later.visited name).trans (earlier.visited name)⟩

/-- More names may have been gained. -/
theorem mono
    {names more : List TypeName}
    {before after : Store}
    (gains : Gains names before after)
    (subset : ∀ name ∈ names, name ∈ more) :
    Gains more before after :=
  ⟨gains.grown.mono subset, gains.visited⟩

end Gains

end Store

/-! ## Changes -/

namespace Change

/-- New names go to the end of the worklist. -/
theorem pending_apply
    (store : Store)
    {change : Change}
    (adds : change ≠ .take) :
    (change.apply store).pending =
      store.pending ++ change.introduces.filter (· ∉ store.names) := by
  cases change with
  | mention target hint =>
      simp only [apply, introduces, Store.mention]
      by_cases isRoot : target = TypeName.root
      · simp [isRoot]
      · simp only [isRoot, ↓reduceIte]
        cases known : store.find? target with
        | none =>
            have absent := Store.find?_eq_none_iff.mp known
            simp [absent, Entry.ofName, Store.add]
        | some entry =>
            have present : target ∈ store.names :=
              Store.isSome_find?_iff.mp (by simp [known])
            cases hint with
            | none =>
                simp [present]
            | some category =>
                dsimp only
                split <;> simp [present, Store.update]
  | file target category =>
      simp only [apply, introduces]
      cases known : store.find? target with
      | none =>
          have absent := Store.find?_eq_none_iff.mp known
          simp [absent, Entry.ofName, Store.add]
      | some entry =>
          have present : target ∈ store.names :=
            Store.isSome_find?_iff.mp (by simp [known])
          simp [present, Store.update]
  | found _ _ | claim _ _ | link _ _ | mark _ _ | amend _ _ =>
      simp [apply, introduces, Store.update, Store.updateNode]
  | take =>
      exact absurd rfl adds

/-- A change grows a store by the names that it introduces. -/
theorem grown_apply
    (store : Store)
    (change : Change)
    (adds : change ≠ .take) :
    store.Grown change.introduces (change.apply store) :=
  ⟨change.introduces.filter (· ∉ store.names),
    fun _ member => (List.mem_filter.mp member).1,
    names_apply store change, pending_apply store adds⟩

/-- Only claiming a type makes it visited. -/
theorem isVisited_apply_of_unclaimed
    (store : Store)
    {change : Change}
    {name : TypeName}
    (unclaimed : ∀ category, change ≠ .claim name category) :
    (change.apply store).isVisited name = store.isVisited name := by
  simp only [Store.isVisited, find?_apply]
  cases known : store.find? name with
  | some entry =>
      have kept := visited_revise name change entry
      simp only [unclaimed, exists_false, or_false] at kept
      exact Bool.eq_iff_iff.mpr kept
  | none =>
      cases created : change.create name with
      | none =>
          rfl
      | some entry =>
          obtain ⟨hint, rfl⟩ := create_blank created
          rfl

/-- The changes that neither visit a type nor take a name off the worklist. -/
def Gathers : Change → Prop
  | claim _ _ => False
  | take => False
  | _ => True

/-- A change that neither visits nor takes gains the names it introduces. -/
theorem gains_apply
    (store : Store)
    (change : Change)
    (gathers : change.Gathers) :
    store.Gains change.introduces (change.apply store) := by
  refine ⟨grown_apply store change ?_, fun name => ?_⟩
  · rintro rfl
    exact gathers
  · refine isVisited_apply_of_unclaimed store fun category same => ?_
    rw [same] at gathers
    exact gathers

end Change

namespace Store

/-- A script that claims a type nowhere does not visit it. -/
theorem isVisited_replay_of_unclaimed
    {script : List Change}
    {name : TypeName}
    (unclaimed :
      ∀ change ∈ script, ∀ category, change ≠ .claim name category)
    (store : Store) :
    (store.replay script).isVisited name = store.isVisited name := by
  induction script generalizing store with
  | nil =>
      rfl
  | cons change script inductionHypothesis =>
      rw [replay_cons, inductionHypothesis fun other member =>
          unclaimed other (List.mem_cons_of_mem _ member),
        Change.isVisited_apply_of_unclaimed store (unclaimed change (by simp))]

/-- A script of such changes brings in the names that its changes do. -/
theorem gains_replay
    {names : List TypeName}
    {script : List Change}
    (gathers : ∀ change ∈ script, change.Gathers)
    (named : ∀ change ∈ script, ∀ name ∈ change.introduces, name ∈ names)
    (store : Store) :
    store.Gains names (store.replay script) := by
  induction script generalizing store with
  | nil =>
      exact .refl names store
  | cons change script inductionHypothesis =>
      have first := Change.gains_apply store change (gathers change (by simp))
      have rest := inductionHypothesis
        (fun change member => gathers change (List.mem_cons_of_mem _ member))
        (fun change member => named change (List.mem_cons_of_mem _ member))
        (change.apply store)
      exact (first.mono (named change (by simp))).trans rest

/-- A mention brings in the name itself at most. -/
theorem gains_mention
    (store : Store)
    (name : TypeName)
    (hint : Option Category) :
    store.Gains [name] (store.mention name hint) := by
  refine (Change.gains_apply store (.mention name hint) trivial).mono
    fun other member => ?_
  simp only [Change.introduces] at member
  split at member
  · simp at member
  · exact member

/-- Recording annotations gains no names. -/
theorem gains_recordUses
    (names : List TypeName)
    (store : Store)
    (uses : List AnnotationUse)
    (element : Element) :
    store.Gains names (store.recordUses uses element) := by
  rw [store.recordUses_eq_replay]
  refine gains_replay (fun change member => ?_) (fun change member => ?_) store
  · obtain ⟨use, -, rfl⟩ := List.mem_map.mp member
    trivial
  · obtain ⟨use, -, rfl⟩ := List.mem_map.mp member
    simp [Change.introduces]

end Store

end TypeAtlas
