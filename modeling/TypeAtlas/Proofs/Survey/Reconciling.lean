import Mathlib.Data.List.Perm.Subperm
import TypeAtlas.ClassFile.Writer
import TypeAtlas.Proofs.Entering.Growth
import TypeAtlas.Proofs.Session
import TypeAtlas.Survey

namespace TypeAtlas

/-!
# Reconciling is exact

A reconciliation gives every name on the worklist one turn, those included that
are put there while it runs. What it reports is what there is to see in the
store afterwards: the names it calls missing are the unresolved names, and it
counts one located name for every type that was entered meanwhile.

Both follow from one invariant. A name that is still unresolved waits for its
turn or is among the missing, never both, and a name that had its turn has none
again. The last holds because a locator answers a name with a declaration of
that name, so that no turn enters the type of another name.
-/

/-- A locator answers a name with declarations of that name only. -/
def Locator.Faithful (locator : Locator) : Prop :=
  ∀ name found decl,
    locator.locate? name = some found →
      ClassFile.decode found.bytes = .ok decl →
      decl.name = name

/-! ## The catalog -/

namespace Store

/-- Names in another order are sorted alike. -/
theorem sortedNames_perm
    {first second : List TypeName}
    (permuted : first.Perm second) :
    sortedNames first = sortedNames second := by
  let before : TypeName → TypeName → Bool := fun a b => decide (a ≤ b)
  have sorted :
      ∀ names : List TypeName,
        (names.mergeSort before).Pairwise (fun a b => before a b = true) := by
    refine List.pairwise_mergeSort ?_ ?_
    · intro a b c first second
      simp only [before, decide_eq_true_eq] at first second ⊢
      exact String.le_trans first second
    · intro a b
      simpa [before] using String.le_total a b
  have same : first.mergeSort before = second.mergeSort before := by
    refine List.Perm.eq_of_pairwise ?_ (sorted first) (sorted second) ?_
    · intro a b _ _ first second
      simp only [before, decide_eq_true_eq] at first second
      exact String.le_antisymm first second
    · exact (List.mergeSort_perm first before).trans
        (permuted.trans (List.mergeSort_perm second before).symm)
  unfold sortedNames
  exact congrArg List.eraseDups same

theorem mem_names_of_isVisited
    {store : Store}
    {name : TypeName}
    (visited : store.isVisited name = true) :
    name ∈ store.names := by
  rw [← isSome_find?_iff]
  cases known : store.find? name with
  | none =>
      simp [isVisited, known] at visited
  | some entry =>
      rfl

namespace WellFormed

theorem isVisited_of_mem
    {store : Store}
    (wellFormed : store.WellFormed)
    {entry : Entry}
    (member : entry ∈ store.entries) :
    store.isVisited entry.name = entry.visited := by
  simp [isVisited, find?_of_mem wellFormed.noDuplicates member]

theorem mem_typeNames_iff
    {store : Store}
    (wellFormed : store.WellFormed)
    {name : TypeName} :
    name ∈ store.typeNames ↔ store.isVisited name = true := by
  simp only [typeNames, List.mem_map, List.mem_filter]
  constructor
  · rintro ⟨entry, ⟨member, visited⟩, rfl⟩
    rw [wellFormed.isVisited_of_mem member, visited]
  · intro visited
    obtain ⟨entry, found⟩ :=
      exists_of_mem_names (mem_names_of_isVisited visited)
    have named := name_of_find? found
    refine ⟨entry, ⟨mem_of_find? found, ?_⟩, named⟩
    rw [← wellFormed.isVisited_of_mem (mem_of_find? found), named, visited]

theorem nodup_typeNames
    {store : Store}
    (wellFormed : store.WellFormed) :
    store.typeNames.Nodup :=
  wellFormed.noDuplicates.sublist (List.filter_sublist.map _)

/-- The unresolved names are those that have an entry and were not visited. -/
theorem unresolvedNames_eq
    {store : Store}
    (wellFormed : store.WellFormed)
    {names : List TypeName}
    (distinct : names.Nodup)
    (unresolved :
      ∀ name,
        name ∈ names ↔ name ∈ store.names ∧ store.isVisited name = false) :
    store.unresolvedNames = sortedNames names := by
  refine sortedNames_perm ((List.perm_ext_iff_of_nodup ?_ distinct).mpr ?_)
  · exact wellFormed.noDuplicates.sublist (List.filter_sublist.map _)
  · intro name
    rw [unresolved name]
    simp only [List.mem_map, List.mem_filter, Bool.not_eq_true']
    constructor
    · rintro ⟨entry, ⟨member, unvisited⟩, rfl⟩
      refine ⟨List.mem_map_of_mem member, ?_⟩
      rw [wellFormed.isVisited_of_mem member, unvisited]
    · rintro ⟨known, unvisited⟩
      obtain ⟨entry, found⟩ := exists_of_mem_names known
      have named := name_of_find? found
      refine ⟨entry, ⟨mem_of_find? found, ?_⟩, named⟩
      rw [← wellFormed.isVisited_of_mem (mem_of_find? found), named,
        unvisited]

end WellFormed

end Store

/-! ## Turns that are left -/

namespace Store

/-- The turns left, if no other names than the given ones can turn up. -/
def turnsLeft
    (names : List TypeName)
    (store : Store) :
    Nat :=
  store.pending.length + (names.filter (· ∉ store.names)).length

/-- A name that turns up has a turn, but cannot turn up again. -/
theorem Grown.turnsLeft_le
    {names : List TypeName}
    {before after : Store}
    (grown : Grown names before after)
    (distinct : after.names.Nodup) :
    after.turnsLeft names ≤ before.turnsLeft names := by
  obtain ⟨added, named, longer, waiting⟩ := grown
  rw [longer] at distinct
  have apart := (List.nodup_append.mp distinct).2
  let absent := names.filter (· ∉ before.names)
  have used : added.length ≤ (absent.filter (· ∈ added)).length := by
    refine (List.subperm_of_subset apart.1 fun name new => ?_).length_le
    have fresh : name ∉ before.names :=
      fun old => apart.2 name old name new rfl
    simp [absent, new, named name new, fresh]
  have kept :
      names.filter (· ∉ after.names) =
        absent.filter fun name => !decide (name ∈ added) := by
    simp only [absent, List.filter_filter, longer, List.mem_append, not_or]
    refine List.filter_congr fun name _ => ?_
    simp [Bool.and_comm]
  have halves := List.length_eq_length_filter_add (l := absent) (· ∈ added)
  have left : before.turnsLeft names =
      before.pending.length + absent.length :=
    rfl
  rw [left]
  simp only [turnsLeft, waiting, List.length_append, kept]
  omega

end Store

/-- Work ends with an empty list if every turn leaves fewer of them. -/
theorem workThrough_ends
    (Holds : σ → Prop)
    (left : σ → Nat)
    {next? : σ → Option (TypeName × σ)}
    {handle : TypeName → σ → σ}
    (turn :
      ∀ state name rest, Holds state → next? state = some (name, rest) →
        Holds (handle name rest) ∧ left (handle name rest) < left state)
    {fuel : Nat}
    {state : σ}
    (enough : left state < fuel)
    (start : Holds state) :
    Holds (workThrough next? handle fuel state) ∧
      next? (workThrough next? handle fuel state) = none := by
  induction fuel generalizing state with
  | zero =>
      exact absurd enough (Nat.not_lt_zero _)
  | succ fuel inductionHypothesis =>
      unfold workThrough
      split
      · next ended =>
          exact ⟨start, ended⟩
      · next name rest taken =>
          obtain ⟨holds, fewer⟩ := turn state name rest start taken
          exact inductionHypothesis (by omega) holds

/-! ## One turn -/

namespace Reconciliation

/--
What a reconciliation that began with a store reports so far is what there is
to see in its store.
-/
structure Accounts
    (start : Store)
    (state : Reconciliation) :
    Prop where
  wellFormed : state.atlas.store.WellFormed
  /-- No name waits twice, and none that is missing waits. -/
  once : (state.missing ++ state.atlas.store.pending).Nodup
  known :
    ∀ name ∈ state.missing ++ state.atlas.store.pending,
      name ∈ state.atlas.store.names
  unresolved :
    ∀ name ∈ state.missing, state.atlas.store.isVisited name = false
  /-- Whatever is not resolved is missing or waits. -/
  covered :
    ∀ name ∈ state.atlas.store.names,
      state.atlas.store.isVisited name = false →
        name ∈ state.missing ++ state.atlas.store.pending
  counted :
    state.atlas.store.typeCount = start.typeCount + state.located

/-- The store after the type of a name may have been entered, and no other. -/
structure Enters
    (names : List TypeName)
    (name : TypeName)
    (before after : Store) :
    Prop where
  wellFormed : after.WellFormed
  grown : before.Grown names after
  visited :
    ∀ other,
      after.isVisited other = true ↔
        before.isVisited other = true ∨
          other = name ∧ after.isVisited name = true

/-- The type of no name is entered if the store stays as it is. -/
theorem Enters.refl
    {names : List TypeName}
    {name : TypeName}
    {store : Store}
    (wellFormed : store.WellFormed) :
    Enters names name store store := by
  refine ⟨wellFormed, .refl _ _, fun other => ?_⟩
  constructor
  · exact Or.inl
  · rintro (old | ⟨rfl, new⟩)
    · exact old
    · exact new

/-- Entering the class that a faithful locator finds for a name. -/
theorem enters_enterBytes
    {locator : Locator}
    (faithful : locator.Faithful)
    {name : TypeName}
    {found : LocatedClass}
    (located : locator.locate? name = some found)
    {atlas : Atlas}
    (wellFormed : atlas.store.WellFormed) :
    Enters (reachable (some locator)) name atlas.store
      (atlas.enterBytes found.bytes found.location false).2.store := by
  unfold Atlas.enterBytes
  cases decoded : ClassFile.decode found.bytes with
  | error fault =>
      exact .refl wellFormed
  | ok decl =>
      have named : decl.name = name :=
        faithful name found decl located decoded
      let visit : Visit := { location := found.location, isApplication := false }
      have mentioned :
          ∀ other ∈ decl.mentions,
            other ∈ reachable (some locator) := by
        intro other member
        refine List.mem_flatMap.mpr ⟨found.bytes,
          locator.answers_complete name found located, ?_⟩
        simpa [decoded] using member
      refine ⟨(visit.accept_evolves atlas decl).wellFormed wellFormed,
        (visit.accept_grown atlas decl).mono mentioned, fun other => ?_⟩
      have own := visit.isVisited_accept atlas decl name
      have visited := visit.isVisited_accept atlas decl other
      have answered :
          (visit.accept atlas decl).1 = some other → other = name := by
        intro accepted
        rw [← named]
        exact (visit.name_of_accept accepted).symm
      constructor
      · intro now
        rcases visited.mp now with old | accepted
        · exact Or.inl old
        · obtain rfl := answered accepted
          exact Or.inr ⟨rfl, now⟩
      · rintro (old | ⟨rfl, new⟩)
        · exact visited.mpr (Or.inl old)
        · exact new

/-- The type of the name is counted if it was entered. -/
theorem Enters.typeCount_eq
    {names : List TypeName}
    {name : TypeName}
    {before after : Store}
    (enters : Enters names name before after)
    (wellFormed : before.WellFormed)
    (unvisited : before.isVisited name = false) :
    after.typeCount =
      before.typeCount + if after.isVisited name then 1 else 0 := by
  have counts : ∀ store : Store, store.typeCount = store.typeNames.length := by
    simp [Store.typeCount, Store.typeNames]
  have listed :
      ∀ other,
        other ∈ after.typeNames ↔
          other ∈ before.typeNames ∨
            other = name ∧ after.isVisited name = true := by
    intro other
    rw [enters.wellFormed.mem_typeNames_iff, wellFormed.mem_typeNames_iff]
    exact enters.visited other
  have absent : name ∉ before.typeNames := by
    rw [wellFormed.mem_typeNames_iff, unvisited]
    simp
  rw [counts, counts]
  split
  · next entered =>
      have permuted : after.typeNames.Perm (name :: before.typeNames) := by
        refine (List.perm_ext_iff_of_nodup enters.wellFormed.nodup_typeNames
          (List.nodup_cons.mpr ⟨absent, wellFormed.nodup_typeNames⟩)).mpr
            fun other => ?_
        rw [listed other, List.mem_cons]
        simp [entered, or_comm]
      exact permuted.length_eq
  · next passed =>
      have permuted : after.typeNames.Perm before.typeNames := by
        refine (List.perm_ext_iff_of_nodup enters.wellFormed.nodup_typeNames
          wellFormed.nodup_typeNames).mpr fun other => ?_
        rw [listed other]
        simp [passed]
      exact permuted.length_eq

/-- A reconciliation with other names waiting. -/
def waitingFor
    (state : Reconciliation)
    (names : List TypeName) :
    Reconciliation :=
  let store := { state.atlas.store with pending := names }
  { state with atlas := { state.atlas with store := store } }

theorem next?_eq_some
    {state rest : Reconciliation}
    {name : TypeName}
    (next : state.next? = some (name, rest)) :
    ∃ later,
      state.atlas.store.pending = name :: later ∧
        rest = state.waitingFor later := by
  unfold next? Store.nextPending? at next
  cases waiting : state.atlas.store.pending with
  | nil =>
      simp [waiting] at next
  | cons first later =>
      simp only [waiting, Option.map_some, Option.some.injEq,
        Prod.mk.injEq] at next
      obtain ⟨rfl, rfl⟩ := next
      exact ⟨later, rfl, rfl⟩

theorem pending_of_next?_eq_none
    {state : Reconciliation}
    (ended : state.next? = none) :
    state.atlas.store.pending = [] := by
  unfold next? Store.nextPending? at ended
  cases waiting : state.atlas.store.pending with
  | nil =>
      rfl
  | cons first later =>
      simp [waiting] at ended

theorem Accounts.wellFormed_waitingFor
    {start : Store}
    {state : Reconciliation}
    (accounts : Accounts start state)
    (names : List TypeName) :
    (state.waitingFor names).atlas.store.WellFormed :=
  ⟨accounts.wellFormed.noDuplicates, accounts.wellFormed.rootless,
    accounts.wellFormed.entries⟩

/-- The report after a turn, by whether the type of the name is entered now. -/
def afterTurn
    (state : Reconciliation)
    (name : TypeName)
    (atlas : Atlas) :
    Reconciliation :=
  if atlas.store.isVisited name then
    { state with atlas := atlas, located := state.located + 1 }
  else
    { state with atlas := atlas, missing := state.missing ++ [name] }

/-- A name that was entered before its turn is passed over. -/
theorem Accounts.pass
    {start : Store}
    {state : Reconciliation}
    (accounts : Accounts start state)
    {name : TypeName}
    {rest : List TypeName}
    (waiting : state.atlas.store.pending = name :: rest)
    (visited : state.atlas.store.isVisited name = true) :
    Accounts start (state.waitingFor rest) := by
  have shorter :
      (state.missing ++ rest).Sublist
        (state.missing ++ state.atlas.store.pending) := by
    rw [waiting]
    exact (List.sublist_cons_self name rest).append_left state.missing
  refine ⟨accounts.wellFormed_waitingFor rest, accounts.once.sublist shorter,
    fun other member => accounts.known other (shorter.subset member),
    accounts.unresolved, fun other member unresolved => ?_, accounts.counted⟩
  have covered := accounts.covered other member unresolved
  rw [waiting] at covered
  rcases List.mem_append.mp covered with missing | waits
  · exact List.mem_append_left _ missing
  · rcases List.mem_cons.mp waits with rfl | later
    · exact absurd (visited.symm.trans unresolved) (by decide)
    · exact List.mem_append_right _ later

/--
A turn is accounted for: the name is called missing unless its type is entered
now, and names that turn up wait behind the others.
-/
theorem Accounts.turn
    {start : Store}
    {names : List TypeName}
    {state : Reconciliation}
    (accounts : Accounts start state)
    {name : TypeName}
    {rest : List TypeName}
    (waiting : state.atlas.store.pending = name :: rest)
    (unvisited : state.atlas.store.isVisited name = false)
    {atlas : Atlas}
    (enters :
      Enters names name (state.waitingFor rest).atlas.store atlas.store) :
    Accounts start (state.afterTurn name atlas) := by
  obtain ⟨added, -, longer, later⟩ := enters.grown
  have counted :=
    enters.typeCount_eq (accounts.wellFormed_waitingFor rest) unvisited
  have before :
      (state.waitingFor rest).atlas.store.typeCount =
        start.typeCount + state.located :=
    accounts.counted
  have distinct := enters.wellFormed.noDuplicates
  have once := accounts.once
  have known := accounts.known
  have covered := accounts.covered
  rw [waiting] at once known covered
  rw [longer] at distinct
  -- The names accounted for before the turn, and those that turned up in it.
  let listed := (state.missing ++ name :: rest) ++ added
  have listed_nodup : listed.Nodup := by
    refine List.nodup_append.mpr ⟨once, (List.nodup_append.mp distinct).2.1, ?_⟩
    rintro other old _ new rfl
    exact (List.nodup_append.mp distinct).2.2
      other (known other old) other new rfl
  have listed_known : ∀ other ∈ listed, other ∈ atlas.store.names := by
    intro other member
    rw [longer]
    rcases List.mem_append.mp member with old | new
    · exact List.mem_append_left _ (known other old)
    · exact List.mem_append_right _ new
  have listed_covers :
      ∀ other ∈ atlas.store.names,
        atlas.store.isVisited other = false → other ∈ listed := by
    intro other member unresolved
    rw [longer] at member
    rcases List.mem_append.mp member with old | new
    · have unresolvedBefore : state.atlas.store.isVisited other = false := by
        rw [Bool.eq_false_iff] at unresolved ⊢
        exact fun visited =>
          unresolved ((enters.visited other).mpr (Or.inl visited))
      exact List.mem_append_left _ (covered other old unresolvedBefore)
    · exact List.mem_append_right _ new
  have stillMissing :
      ∀ other ∈ state.missing, atlas.store.isVisited other = false := by
    intro other missing
    rw [Bool.eq_false_iff]
    intro now
    rcases (enters.visited other).mp now with old | ⟨rfl, -⟩
    · exact absurd (old.symm.trans (accounts.unresolved other missing))
        (by decide)
    · exact (List.nodup_append.mp once).2.2 other missing other (by simp) rfl
  have waits : atlas.store.pending = rest ++ added := later
  unfold afterTurn
  split
  · next entered =>
      rw [if_pos entered, before] at counted
      have shorter :
          (state.missing ++ atlas.store.pending).Sublist listed := by
        rw [waits, ← List.append_assoc]
        exact ((List.sublist_cons_self name rest).append_left _).append_right _
      refine ⟨enters.wellFormed, listed_nodup.sublist shorter,
        fun other member => listed_known other (shorter.subset member),
        stillMissing, fun other member unresolved => ?_, counted⟩
      have other_ne : other ≠ name := by
        rintro rfl
        exact absurd (entered.symm.trans unresolved) (by decide)
      have inListed := listed_covers other member unresolved
      rw [waits]
      simpa [listed, other_ne] using inListed
  · next passed =>
      rw [if_neg passed, before] at counted
      have same :
          (state.missing ++ [name]) ++ atlas.store.pending = listed := by
        simp [waits, listed]
      refine ⟨enters.wellFormed, by rw [same]; exact listed_nodup,
        by rw [same]; exact listed_known, ?_,
        by rw [same]; exact listed_covers, counted⟩
      intro other missing
      rcases List.mem_append.mp missing with old | new
      · exact stillMissing other old
      · rw [List.mem_singleton.mp new]
        exact Bool.eq_false_iff.mpr passed

/-- An unresolved name has its type entered, if its class can be had. -/
theorem handle_enters
    {locator : Option Locator}
    (faithful : ∀ given ∈ locator, given.Faithful)
    {name : TypeName}
    {state : Reconciliation}
    (wellFormed : state.atlas.store.WellFormed)
    (unvisited : state.atlas.store.isVisited name = false) :
    ∃ atlas,
      handle locator name state = state.afterTurn name atlas ∧
        Enters (reachable locator) name state.atlas.store atlas.store := by
  unfold handle
  rw [if_neg (by simp [unvisited])]
  cases located : locator.bind (·.locate? name) with
  | none =>
      exact ⟨state.atlas, by simp [afterTurn, unvisited], .refl wellFormed⟩
  | some found =>
      obtain ⟨given, rfl, answered⟩ := Option.bind_eq_some_iff.mp located
      exact ⟨(state.atlas.enterBytes found.bytes found.location false).2, rfl,
        enters_enterBytes (faithful given rfl) answered wellFormed⟩

/-- A turn is accounted for, and leaves one turn less. -/
theorem Accounts.handle
    {locator : Option Locator}
    (faithful : ∀ given ∈ locator, given.Faithful)
    {start : Store}
    {state rest : Reconciliation}
    (accounts : Accounts start state)
    {name : TypeName}
    (next : state.next? = some (name, rest)) :
    Accounts start (handle locator name rest) ∧
      (handle locator name rest).atlas.store.turnsLeft (reachable locator) <
        state.atlas.store.turnsLeft (reachable locator) := by
  obtain ⟨later, waiting, rfl⟩ := next?_eq_some next
  let rest := state.waitingFor later
  have fewer :
      rest.atlas.store.turnsLeft (reachable locator) <
        state.atlas.store.turnsLeft (reachable locator) := by
    simp [Store.turnsLeft, rest, waitingFor, waiting, Store.names]
  cases visited : rest.atlas.store.isVisited name with
  | true =>
      have passed : Reconciliation.handle locator name rest = rest := by
        simp [Reconciliation.handle, visited]
      rw [passed]
      exact ⟨accounts.pass waiting visited, fewer⟩
  | false =>
      obtain ⟨atlas, handled, enters⟩ :=
        handle_enters faithful (accounts.wellFormed_waitingFor later) visited
      have store_afterTurn :
          (rest.afterTurn name atlas).atlas.store = atlas.store := by
        unfold afterTurn
        split <;> rfl
      rw [handled]
      refine ⟨accounts.turn waiting visited enters, ?_⟩
      rw [store_afterTurn]
      exact Nat.lt_of_le_of_lt
        (enters.grown.turnsLeft_le enters.wellFormed.noDuplicates) fewer

/-- What is accounted for when no name waits is what there is to see. -/
theorem Accounts.unresolvedNames_eq
    {start : Store}
    {state : Reconciliation}
    (accounts : Accounts start state)
    (ended : state.atlas.store.pending = []) :
    state.atlas.store.unresolvedNames = Store.sortedNames state.missing := by
  have once := accounts.once
  have known := accounts.known
  have covered := accounts.covered
  simp only [ended, List.append_nil] at once known covered
  refine accounts.wellFormed.unresolvedNames_eq once fun name => ?_
  constructor
  · intro missing
    exact ⟨known name missing, accounts.unresolved name missing⟩
  · rintro ⟨member, unresolved⟩
    exact covered name member unresolved

end Reconciliation

/-! ## Whole runs -/

/-- The reports of a reconciliation that all names wait for. -/
theorem Atlas.reconcile_reports
    {atlas : Atlas}
    (wellFormed : atlas.store.WellFormed)
    (undrained : atlas.store.pending = atlas.store.names)
    {locator : Option Locator}
    (faithful : ∀ given ∈ locator, given.Faithful) :
    let report := atlas.reconcile locator
    report.missing = report.atlas.store.unresolvedNames ∧
      report.atlas.store.typeCount =
        atlas.store.typeCount + report.located ∧
      report.atlas.store.pending = [] := by
  have start : Reconciliation.Accounts atlas.store { atlas := atlas } := by
    refine ⟨wellFormed, ?_, ?_, by simp, ?_, rfl⟩
    · simpa [undrained] using wellFormed.noDuplicates
    · simp [undrained]
    · intro name member _
      simpa [undrained] using member
  have enough :
      atlas.store.turnsLeft (Reconciliation.reachable locator) <
        Reconciliation.bound locator atlas.store := by
    have fewer := List.length_filter_le (· ∉ atlas.store.names)
      (Reconciliation.reachable locator)
    simp only [Store.turnsLeft, Reconciliation.bound]
    omega
  obtain ⟨accounts, ended⟩ := workThrough_ends
    (Reconciliation.Accounts atlas.store)
    (·.atlas.store.turnsLeft (Reconciliation.reachable locator))
    (fun state name rest holds next => holds.handle faithful next)
    enough start
  have empty := Reconciliation.pending_of_next?_eq_none ended
  exact ⟨(accounts.unresolvedNames_eq empty).symm, accounts.counted, empty⟩

/-! ## Sessions -/

/-- Whether an act takes names off the worklist. -/
def Act.drains : Act → Bool
  | .take => true
  | .drain _ => true
  | _ => false

namespace Session

theorem proceed_grown
    (session : Session)
    (place : Nat)
    {names : List TypeName}
    {step : Visit → Atlas → Outcome α}
    (grown :
      ∀ visit atlas,
        Store.Grown names atlas.store (step visit atlas).atlas.store) :
    Store.Grown names session.atlas.store
      (session.proceed place step).atlas.store := by
  unfold proceed
  split
  · exact .refl _ _
  · exact grown _ _

/-- The store grows by every act that does not drain it. -/
theorem step_grown
    (session : Session)
    {act : Act}
    (undrained : act.drains = false) :
    ∃ names,
      session.atlas.store.Grown names (session.step act).atlas.store := by
  cases act with
  | configure settings =>
      exact ⟨[], .refl _ _⟩
  | mention name hint =>
      exact ⟨[name], (Store.gains_mention _ name hint).grown⟩
  | define name category =>
      simp only [step]
      split
      · next store defined =>
          obtain ⟨-, rfl⟩ := Store.define_eq_ok_iff.mp defined
          exact ⟨_, Change.grown_apply _ (.file name category) (by simp)⟩
      · exact ⟨[], .refl _ _⟩
  | take | drain mentions =>
      simp [Act.drains] at undrained
  | visit location isApplication =>
      exact ⟨[], .refl _ _⟩
  | header place decl =>
      exact ⟨_, session.proceed_grown place
        fun visit atlas => visit.header_grown atlas decl⟩
  | annotate place decl =>
      exact ⟨_, session.proceed_grown place
        fun visit atlas => (visit.annotate_gains atlas decl).grown⟩
  | field place decl =>
      exact ⟨_, session.proceed_grown place
        fun visit atlas => (visit.field_gains atlas decl).grown⟩
  | method place decl =>
      exact ⟨_, session.proceed_grown place
        fun visit atlas => (visit.method_gains atlas decl).grown⟩
  | finish place =>
      exact ⟨[], session.proceed_grown place
        fun visit atlas => (visit.finish_gains [] atlas).grown⟩
  | accept place decl =>
      simp only [step, enterAt]
      split
      · exact ⟨[], .refl _ _⟩
      · next visit _ =>
          exact ⟨_, visit.accept_grown _ decl⟩

/-- Every name waits in a session that never drained the worklist. -/
theorem run_undrained
    {session : Session}
    {acts : List Act}
    (undrained : ∀ act ∈ acts, act.drains = false)
    (waiting : session.atlas.store.pending = session.atlas.store.names) :
    (session.run acts).atlas.store.pending =
      (session.run acts).atlas.store.names := by
  induction acts generalizing session with
  | nil =>
      exact waiting
  | cons act acts inductionHypothesis =>
      refine inductionHypothesis
        (fun act member => undrained act (List.mem_cons_of_mem _ member)) ?_
      obtain ⟨names, added, -, longer, later⟩ :=
        session.step_grown (undrained act (by simp))
      rw [longer, later, waiting]

/--
Reconciling after any acts that left the worklist alone reports exactly the
unresolved names of the store it leaves, and as many located names as types
were entered. Nothing is left on the worklist.
-/
theorem reconcile_exact
    (acts : List Act)
    (undrained : ∀ act ∈ acts, act.drains = false)
    (locator : Option Locator)
    (faithful : ∀ given ∈ locator, given.Faithful) :
    let atlas := (({} : Session).run acts).atlas
    let report := atlas.reconcile locator
    report.missing = report.atlas.store.unresolvedNames ∧
      report.atlas.store.typeCount =
        atlas.store.typeCount + report.located ∧
      report.atlas.store.pending = [] :=
  Atlas.reconcile_reports (store_wellFormed acts)
    (run_undrained undrained rfl) faithful

/--
A library that has one class an application needs, which brings in a name of
its own, and bytes for another that are no class.
-/
def partialLibrary : Locator :=
  .ofTable
    [("c.Base", ⟨ClassFile.encode
        { access := 0x0001, name := "c.Base", interfaces := ["c.Late"] },
          some "lib.jar"⟩),
      ("c.Broken", ⟨[], some "lib.jar"⟩)]

/-- An application that needs the library. -/
def applicationActs : List Act :=
  [.visit none true,
    .accept 0
      { access := 0x0001
        name := "c.App"
        superName := some "c.Base"
        interfaces := ["c.Gone", "c.Broken"] }]

theorem reconcile_exact_partialLibrary :
    let atlas := (({} : Session).run applicationActs).atlas
    let report := atlas.reconcile (some partialLibrary)
    (∀ act ∈ applicationActs, act.drains = false) ∧
      partialLibrary.Faithful ∧
      report.missing = report.atlas.store.unresolvedNames ∧
      report.atlas.store.typeCount =
        atlas.store.typeCount + report.located ∧
      report.atlas.store.pending = [] := by
  have undrained : ∀ act ∈ applicationActs, act.drains = false := by
    simp [applicationActs, Act.drains]
  have faithful : partialLibrary.Faithful := by
    have base :
        (partialLibrary.locate? "c.Base").bind (fun found =>
          (ClassFile.decode found.bytes).toOption.map (·.name)) =
            some "c.Base" := by
      decide +kernel
    have broken : (ClassFile.decode []).toOption.isNone = true := by
      decide +kernel
    intro name found decl located decoded
    by_cases isBase : name = "c.Base"
    · subst isBase
      simpa [located, decoded, Except.toOption, eq_comm] using base
    · by_cases isBroken : name = "c.Broken"
      · subst isBroken
        obtain rfl : (⟨[], some "lib.jar"⟩ : LocatedClass) = found := by
          simpa [partialLibrary, Locator.ofTable, List.lookup_cons] using
            located
        simp [decoded, Except.toOption] at broken
      · have absent : partialLibrary.locate? name = none := by
          have notBase : (name == "c.Base") = false := beq_false_of_ne isBase
          have notBroken : (name == "c.Broken") = false :=
            beq_false_of_ne isBroken
          simp only [partialLibrary, Locator.ofTable, List.lookup_cons,
            List.lookup_nil, notBase, notBroken]
        rw [absent] at located
        cases located
  have exactly := reconcile_exact applicationActs undrained
    (some partialLibrary) (by simpa using faithful)
  exact ⟨undrained, faithful, exactly⟩

end Session

end TypeAtlas
