import TypeAtlas.Proofs.Survey.Reconciling

namespace TypeAtlas

/-!
# The discipline of the worklist

A ledger follows the worklist through a session. Between drains, and in what
drains hand names on to, any acts are done that do not drain themselves. The
ledger keeps which names had their turn, with the store that each of them met,
and which names were handed on.

One invariant carries all results: the names that had their turn, followed by
those that wait, are the names of the store in the order of their creation. So
a name waits once and from its creation on, has one turn, and has it in order.
-/

/-- An act that takes nothing off the worklist. -/
abbrev Deed :=
  { act : Act // act.drains = false }

/-- A session, and what drains did in it. -/
structure Ledger where
  session : Session := {}
  /-- The names that had their turn, each with the store it met. -/
  turns : List (TypeName × Store) := []
  /-- The names that were handed on. -/
  handed : List TypeName := []

/-- What is done with the names that a drain hands on, as things stand then. -/
abbrev Callback :=
  Ledger → TypeName → List Deed

/-- One thing that is done in a run: a deed, or some turns of a drain. -/
inductive Move where
  | deed (deed : Deed)
  | drain (callback : Callback) (turns : Nat)

namespace Ledger

def store (ledger : Ledger) : Store :=
  ledger.session.atlas.store

/-- Do deeds one after another. -/
def perform
    (ledger : Ledger)
    (deeds : List Deed) :
    Ledger :=
  { ledger with session := ledger.session.run (deeds.map (·.val)) }

/-- Take the first name off the worklist. -/
def next? (ledger : Ledger) : Option (TypeName × Ledger) :=
  ledger.store.nextPending?.map fun (name, store) =>
    (name, { ledger with session := ledger.session.withStore store })

/-- Give a name its turn: it is handed on, unless it has been entered. -/
def giveTurn
    (callback : Callback)
    (name : TypeName)
    (ledger : Ledger) :
    Ledger :=
  let reached :=
    { ledger with turns := ledger.turns ++ [(name, ledger.store)] }
  if ledger.store.isVisited name then
    reached
  else
    { reached with handed := ledger.handed ++ [name] }.perform
      (callback ledger name)

/-- Drain the worklist, for at most the given number of turns. -/
def drain
    (ledger : Ledger)
    (callback : Callback)
    (turns : Nat) :
    Ledger :=
  workThrough next? (giveTurn callback) turns ledger

/-- A drain ends with a ledger, which further turns would leave as it is. -/
def Returns
    (before : Ledger)
    (callback : Callback)
    (after : Ledger) :
    Prop :=
  ∃ enough, ∀ turns, enough ≤ turns → before.drain callback turns = after

def step (ledger : Ledger) : Move → Ledger
  | .deed deed => ledger.perform [deed]
  | .drain callback turns => ledger.drain callback turns

/-- The ledger after a list of moves. -/
def run
    (ledger : Ledger)
    (moves : List Move) :
    Ledger :=
  moves.foldl step ledger

end Ledger

/-! ## Turns -/

/-- What every turn preserves holds after all of them. -/
theorem workThrough_preserves
    (Holds : σ → Prop)
    {next? : σ → Option (TypeName × σ)}
    {handle : TypeName → σ → σ}
    (turn :
      ∀ state name rest, Holds state → next? state = some (name, rest) →
        Holds (handle name rest))
    (fuel : Nat)
    {state : σ}
    (start : Holds state) :
    Holds (workThrough next? handle fuel state) := by
  induction fuel generalizing state with
  | zero =>
      exact start
  | succ fuel inductionHypothesis =>
      unfold workThrough
      split
      · exact start
      · next name rest taken =>
          exact inductionHypothesis (turn state name rest start taken)

/-- One more turn is taken at the end. -/
theorem workThrough_succ
    (next? : σ → Option (TypeName × σ))
    (handle : TypeName → σ → σ)
    (fuel : Nat)
    (state : σ) :
    workThrough next? handle (fuel + 1) state =
      workThrough next? handle 1 (workThrough next? handle fuel state) := by
  induction fuel generalizing state with
  | zero =>
      rfl
  | succ fuel inductionHypothesis =>
      cases taken : next? state with
      | none =>
          simp [workThrough, taken]
      | some first =>
          obtain ⟨name, rest⟩ := first
          have unfolded :
              ∀ more, workThrough next? handle (more + 1) state =
                workThrough next? handle more (handle name rest) := by
            intro more
            simp only [workThrough, taken]
          rw [unfolded, unfolded, inductionHypothesis]

/-- Work that has come to its end takes no more turns. -/
theorem workThrough_of_ended
    {next? : σ → Option (TypeName × σ)}
    (handle : TypeName → σ → σ)
    (fuel : Nat)
    {state : σ}
    (ended : next? state = none) :
    workThrough next? handle fuel state = state := by
  cases fuel <;> simp [workThrough, ended]

/-- Two ways to work take turns side by side. -/
theorem workThrough_simulates
    (Related : σ → τ → Prop)
    {next? : σ → Option (TypeName × σ)}
    {other? : τ → Option (TypeName × τ)}
    {handle : TypeName → σ → σ}
    {handleOther : TypeName → τ → τ}
    (ends :
      ∀ state other, Related state other →
        next? state = none → other? other = none)
    (turn :
      ∀ state other name rest, Related state other →
        next? state = some (name, rest) →
        ∃ otherRest,
          other? other = some (name, otherRest) ∧
            Related (handle name rest) (handleOther name otherRest))
    (fuel : Nat)
    {state : σ}
    {other : τ}
    (start : Related state other) :
    Related (workThrough next? handle fuel state)
      (workThrough other? handleOther fuel other) := by
  induction fuel generalizing state other with
  | zero =>
      exact start
  | succ fuel inductionHypothesis =>
      cases taken : next? state with
      | none =>
          have ended := ends state other start taken
          simpa [workThrough, taken, ended] using start
      | some first =>
          obtain ⟨name, rest⟩ := first
          obtain ⟨otherRest, otherTaken, related⟩ :=
            turn state other name rest start taken
          simp only [workThrough, taken, otherTaken]
          exact inductionHypothesis related

namespace Ledger

/-- The ledger with other names waiting. -/
def waitingFor
    (ledger : Ledger)
    (names : List TypeName) :
    Ledger :=
  let store := { ledger.store with pending := names }
  { ledger with session := ledger.session.withStore store }

/-- The next turn goes to the oldest name that waits. -/
theorem next?_eq_some
    {ledger rest : Ledger}
    {name : TypeName}
    (taken : ledger.next? = some (name, rest)) :
    ∃ later,
      ledger.store.pending = name :: later ∧
        rest = ledger.waitingFor later := by
  unfold next? Store.nextPending? at taken
  cases waiting : ledger.store.pending with
  | nil =>
      simp [waiting] at taken
  | cons first later =>
      simp only [waiting, Option.map_some, Option.some.injEq,
        Prod.mk.injEq] at taken
      obtain ⟨rfl, rfl⟩ := taken
      exact ⟨later, rfl, rfl⟩

/-- There is no next turn when nothing waits. -/
theorem next?_eq_none_iff
    {ledger : Ledger} :
    ledger.next? = none ↔ ledger.store.pending = [] := by
  cases waiting : ledger.store.pending <;>
    simp [next?, Store.nextPending?, waiting]

/-- A name was taken off the worklist, and its turn is entered. -/
def afterTurn
    (ledger : Ledger)
    (name : TypeName)
    (later handed : List TypeName) :
    Ledger :=
  let rest := ledger.waitingFor later
  { rest with turns := ledger.turns ++ [(name, rest.store)], handed := handed }

/-- A name is handed on in its turn, unless its type has been visited. -/
theorem giveTurn_waitingFor
    (ledger : Ledger)
    (callback : Callback)
    (name : TypeName)
    (later : List TypeName) :
    (ledger.waitingFor later).giveTurn callback name =
      if ledger.store.isVisited name then
        ledger.afterTurn name later ledger.handed
      else
        (ledger.afterTurn name later (ledger.handed ++ [name])).perform
          (callback (ledger.waitingFor later) name) :=
  rfl

/-! ## The invariant -/

/--
The names that had their turn, followed by those that wait, are all names in
order of creation, and those that met a store in which they had not been
entered were handed on. What was entered then is entered now.
-/
structure Disciplined (ledger : Ledger) : Prop where
  wellFormed : ledger.store.WellFormed
  inOrder :
    ledger.turns.map (·.1) ++ ledger.store.pending = ledger.store.names
  unvisited :
    ledger.handed =
      (ledger.turns.filter fun turn => !turn.2.isVisited turn.1).map (·.1)
  lasting :
    ∀ turn ∈ ledger.turns, ∀ name,
      turn.2.isVisited name = true → ledger.store.isVisited name = true

/-- The empty ledger is disciplined. -/
theorem disciplined_empty :
    Disciplined {} :=
  ⟨Store.wellFormed_empty, rfl, rfl, by simp⟩

namespace Disciplined

variable {ledger : Ledger}

/-- Whatever a callback does once keeps the discipline. -/
theorem deed
    (disciplined : ledger.Disciplined)
    (deed : Deed) :
    (ledger.perform [deed]).Disciplined := by
  obtain ⟨act, undrained⟩ := deed
  have evolves :
      Store.Evolves ledger.store (ledger.session.step act).atlas.store :=
    (ledger.session.step_builds act).evolves
  obtain ⟨names, added, -, longer, later⟩ :=
    ledger.session.step_grown undrained
  refine ⟨evolves.wellFormed disciplined.wellFormed, ?_,
    disciplined.unvisited, fun turn member name visited => ?_⟩
  · change ledger.turns.map (·.1) ++ (ledger.session.step act).atlas.store.pending =
      (ledger.session.step act).atlas.store.names
    rw [longer, later, ← List.append_assoc]
    exact congrArg (· ++ added) disciplined.inOrder
  · exact evolves.isVisited (disciplined.lasting turn member name visited)

/-- So does all that it does. -/
theorem perform
    (disciplined : ledger.Disciplined)
    (deeds : List Deed) :
    (ledger.perform deeds).Disciplined := by
  induction deeds generalizing ledger with
  | nil =>
      exact disciplined
  | cons first deeds inductionHypothesis =>
      exact inductionHypothesis (disciplined.deed first)

/-- A name is entered as handed on exactly if it has not been entered. -/
theorem afterTurn
    (disciplined : ledger.Disciplined)
    {name : TypeName}
    {later handed : List TypeName}
    (waiting : ledger.store.pending = name :: later)
    (given :
      handed =
        ledger.handed ++ if ledger.store.isVisited name then [] else [name]) :
    (ledger.afterTurn name later handed).Disciplined := by
  refine ⟨⟨disciplined.wellFormed.noDuplicates,
    disciplined.wellFormed.rootless, disciplined.wellFormed.entries⟩,
    ?_, ?_, fun turn member other visited => ?_⟩
  · have order := disciplined.inOrder
    rw [waiting] at order
    simp only [Ledger.afterTurn, List.map_append, List.append_assoc]
    exact order
  · have met :
        (ledger.waitingFor later).store.isVisited name =
          ledger.store.isVisited name :=
      rfl
    simp only [Ledger.afterTurn, List.filter_append, List.map_append]
    rw [given, ← disciplined.unvisited]
    cases visited : ledger.store.isVisited name <;> simp [met, visited]
  · rcases List.mem_append.mp member with old | new
    · exact disciplined.lasting turn old other visited
    · rw [List.mem_singleton.mp new] at visited
      exact visited

/-- A name at the front of the worklist has its turn. -/
theorem turn
    (disciplined : ledger.Disciplined)
    (callback : Callback)
    {name : TypeName}
    {rest : Ledger}
    (taken : ledger.next? = some (name, rest)) :
    (rest.giveTurn callback name).Disciplined := by
  obtain ⟨later, waiting, rfl⟩ := next?_eq_some taken
  rw [giveTurn_waitingFor]
  split
  · next visited =>
      refine disciplined.afterTurn waiting ?_
      rw [if_pos visited, List.append_nil]
  · next unvisited =>
      refine (disciplined.afterTurn waiting ?_).perform _
      rw [if_neg unvisited]

/-- So does draining the worklist. -/
theorem drain
    (disciplined : ledger.Disciplined)
    (callback : Callback)
    (turns : Nat) :
    (ledger.drain callback turns).Disciplined :=
  workThrough_preserves Disciplined
    (fun _ _ _ holds taken => holds.turn callback taken) turns disciplined

/-- So does whatever is done between drains. -/
theorem step
    (disciplined : ledger.Disciplined)
    (move : Move) :
    (ledger.step move).Disciplined := by
  cases move with
  | deed deed =>
      exact disciplined.deed deed
  | drain callback turns =>
      exact disciplined.drain callback turns

/-- A run of moves keeps the discipline. -/
theorem run
    (disciplined : ledger.Disciplined)
    (moves : List Move) :
    (ledger.run moves).Disciplined := by
  induction moves generalizing ledger with
  | nil =>
      exact disciplined
  | cons move moves inductionHypothesis =>
      exact inductionHypothesis (disciplined.step move)

/-- Names are handed on in the order of their creation, and once at most. -/
theorem sublist_names
    (disciplined : ledger.Disciplined) :
    ledger.handed.Sublist ledger.store.names := by
  have reached : (ledger.turns.map (·.1)).Sublist ledger.store.names := by
    rw [← disciplined.inOrder]
    exact List.sublist_append_left _ _
  rw [disciplined.unvisited]
  exact (List.filter_sublist.map _).trans reached

/-- A name that had its turn and has not been entered was handed on. -/
theorem mem_handed
    (disciplined : ledger.Disciplined)
    {name : TypeName}
    (known : name ∈ ledger.store.names)
    (reached : name ∉ ledger.store.pending)
    (unvisited : ledger.store.isVisited name = false) :
    name ∈ ledger.handed := by
  rw [← disciplined.inOrder, List.mem_append] at known
  obtain ⟨turn, member, rfl⟩ := List.mem_map.mp (known.resolve_right reached)
  rw [disciplined.unvisited]
  refine List.mem_map_of_mem (List.mem_filter.mpr ⟨member, ?_⟩)
  by_contra visited
  have lasts := disciplined.lasting turn member turn.1 (by simpa using visited)
  simp [unvisited] at lasts

end Disciplined

/-! ## Drains that return -/

/-- A turn is given once. -/
theorem length_turns_giveTurn
    (callback : Callback)
    (name : TypeName)
    (ledger : Ledger) :
    (ledger.giveTurn callback name).turns.length = ledger.turns.length + 1 := by
  unfold giveTurn
  dsimp only
  split <;> simp [perform]

/-- A drain that returns leaves nothing on the worklist. -/
theorem Returns.pending_eq_nil
    {before after : Ledger}
    {callback : Callback}
    (returns : before.Returns callback after) :
    after.store.pending = [] := by
  obtain ⟨enough, same⟩ := returns
  have further : after.drain callback 1 = after := by
    have once := workThrough_succ next? (giveTurn callback) enough before
    have early : workThrough next? (giveTurn callback) enough before = after :=
      same enough (Nat.le_refl _)
    have late :
        workThrough next? (giveTurn callback) (enough + 1) before = after :=
      same (enough + 1) (Nat.le_succ _)
    rw [early, late] at once
    exact once.symm
  rw [← next?_eq_none_iff]
  cases taken : after.next? with
  | none =>
      rfl
  | some first =>
      -- Another turn would be entered in the ledger.
      obtain ⟨name, rest⟩ := first
      obtain ⟨later, -, rfl⟩ := next?_eq_some taken
      have longer := congrArg (·.turns.length) further
      simp [drain, workThrough, taken, length_turns_giveTurn, waitingFor]
        at longer

/-- A drain that finds nothing on the worklist any more returns. -/
theorem returns_of_pending_eq_nil
    {before : Ledger}
    {callback : Callback}
    {turns : Nat}
    (empty : (before.drain callback turns).store.pending = []) :
    before.Returns callback (before.drain callback turns) := by
  refine ⟨turns, fun more enough => ?_⟩
  obtain ⟨extra, rfl⟩ := Nat.exists_eq_add_of_le enough
  induction extra with
  | zero =>
      rfl
  | succ extra inductionHypothesis =>
      have same := inductionHypothesis (Nat.le_add_right _ _)
      have once :=
        workThrough_succ next? (giveTurn callback) (turns + extra) before
      unfold drain at same ⊢
      rw [← Nat.add_assoc, once, same]
      exact workThrough_of_ended _ 1 (next?_eq_none_iff.mpr empty)

/-- A turn leaves one turn less if it can bring in some names only. -/
theorem turnsLeft_giveTurn
    {ledger rest : Ledger}
    {callback : Callback}
    {names : List TypeName}
    (grown :
      ∀ (other : Ledger) name,
        other.store.Grown names (other.perform (callback other name)).store)
    {name : TypeName}
    (taken : ledger.next? = some (name, rest))
    (wellFormed : (rest.giveTurn callback name).store.WellFormed) :
    (rest.giveTurn callback name).store.turnsLeft names <
      ledger.store.turnsLeft names := by
  obtain ⟨later, waiting, rfl⟩ := next?_eq_some taken
  have fewer :
      (ledger.waitingFor later).store.turnsLeft names <
        ledger.store.turnsLeft names := by
    have shorter : (ledger.waitingFor later).store.pending = later := rfl
    have same : (ledger.waitingFor later).store.names = ledger.store.names :=
      rfl
    simp [Store.turnsLeft, shorter, same, waiting]
  rw [giveTurn_waitingFor] at wellFormed ⊢
  split at wellFormed
  · next visited =>
      rw [if_pos visited]
      exact fewer
  · next unvisited =>
      rw [if_neg unvisited]
      have more := grown (ledger.waitingFor later) name
      exact Nat.lt_of_le_of_lt (more.turnsLeft_le wellFormed.noDuplicates)
        fewer

/-- A drain returns if what it hands names on to can bring in some names only. -/
theorem Disciplined.returns
    {ledger : Ledger}
    (disciplined : ledger.Disciplined)
    {callback : Callback}
    {names : List TypeName}
    (grown :
      ∀ (other : Ledger) name,
        other.store.Grown names (other.perform (callback other name)).store)
    {turns : Nat}
    (enough : ledger.store.turnsLeft names < turns) :
    ledger.Returns callback (ledger.drain callback turns) := by
  obtain ⟨-, ended⟩ := workThrough_ends Disciplined (·.store.turnsLeft names)
    (fun state name rest holds taken =>
      ⟨holds.turn callback taken,
        turnsLeft_giveTurn grown taken (holds.turn callback taken).wellFormed⟩)
    enough disciplined
  exact returns_of_pending_eq_nil (next?_eq_none_iff.mp ended)

/-! ## The drains of stores and atlases -/

/-- Mention the names that a table gives for a name. -/
def mentioning (mentions : List (TypeName × List TypeName)) : Callback :=
  fun _ name =>
    ((mentions.lookup name).getD []).map fun mentioned =>
      ⟨.mention mentioned none, rfl⟩

/-- What is done by mentioning names shows in the store. -/
theorem store_perform_mentions
    (ledger : Ledger)
    (mentioned : List TypeName) :
    (ledger.perform
      (mentioned.map fun name => ⟨.mention name none, rfl⟩)).store =
        mentioned.foldl (·.mention · none) ledger.store := by
  induction mentioned generalizing ledger with
  | nil =>
      rfl
  | cons name mentioned inductionHypothesis =>
      exact inductionHypothesis (ledger.perform [⟨.mention name none, rfl⟩])

/-- Mentioning names grows a store by those names. -/
theorem grown_mentions
    (mentioned : List TypeName)
    (store : Store) :
    store.Grown mentioned (mentioned.foldl (·.mention · none) store) := by
  induction mentioned generalizing store with
  | nil =>
      exact .refl _ _
  | cons name mentioned inductionHypothesis =>
      have first := (store.gains_mention name none).grown
      have rest := inductionHypothesis (store.mention name none)
      exact (first.mono (by simp)).trans
        (rest.mono fun _ member => List.mem_cons_of_mem _ member)

/-- A callback that mentions names grows the store by some of them. -/
theorem grown_mentioning
    (mentions : List (TypeName × List TypeName))
    (ledger : Ledger)
    (name : TypeName) :
    ledger.store.Grown (mentions.flatMap (·.2))
      (ledger.perform (mentioning mentions ledger name)).store := by
  rw [mentioning, store_perform_mentions]
  refine (grown_mentions _ _).mono fun other member => ?_
  cases given : mentions.lookup name with
  | none =>
      simp [given] at member
  | some mentioned =>
      rw [given, Option.getD_some] at member
      obtain ⟨before, after, rfl, -⟩ := List.lookup_eq_some_iff.mp given
      simp [member]

/-- The drain of a store is one that mentions names, and it returns. -/
theorem Disciplined.drain_store
    {ledger : Ledger}
    (disciplined : ledger.Disciplined)
    (mentions : List (TypeName × List TypeName)) :
    ∃ after,
      ledger.Returns (mentioning mentions) after ∧
        after.store = (ledger.store.drain mentions).store ∧
        after.handed =
          ledger.handed ++ (ledger.store.drain mentions).handed := by
  have enough :
      ledger.store.turnsLeft (mentions.flatMap (·.2)) <
        ledger.store.pending.length + (mentions.flatMap (·.2)).length + 1 := by
    have fewer := List.length_filter_le (· ∉ ledger.store.names)
      (mentions.flatMap (·.2))
    simp only [Store.turnsLeft]
    omega
  refine ⟨_, disciplined.returns (grown_mentioning mentions) enough, ?_⟩
  refine workThrough_simulates
    (fun (state : Ledger) (drained : Drained) =>
      state.store = drained.store ∧
        state.handed = ledger.handed ++ drained.handed)
    ?_ ?_ _ ⟨rfl, (List.append_nil _).symm⟩
  · rintro state drained ⟨same, -⟩ ended
    rw [next?_eq_none_iff, same] at ended
    simp [Store.nextPending?, ended]
  · rintro state drained name rest ⟨same, handed⟩ taken
    obtain ⟨later, waiting, rfl⟩ := next?_eq_some taken
    let left : Store := { drained.store with pending := later }
    have leaves : (state.waitingFor later).store = left := by
      simp [left, ← same, waitingFor, Ledger.store, Session.withStore]
    refine ⟨{ drained with store := left }, ?_, ?_⟩
    · rw [same] at waiting
      simp [Store.nextPending?, waiting, left]
    · rw [giveTurn_waitingFor]
      have met : state.store.isVisited name = left.isVisited name := by
        rw [← leaves]
        rfl
      rw [met]
      dsimp only
      split
      · exact ⟨leaves, handed⟩
      · refine ⟨?_, ?_⟩
        · rw [mentioning, store_perform_mentions, ← leaves]
          rfl
        · change state.handed ++ [name] = _
          rw [handed, List.append_assoc]

/-- Look a name up and enter the class that is found for it. -/
def lookingUp (locator : Option Locator) : Callback :=
  fun ledger name =>
    match locator.bind (·.locate? name) with
    | none => []
    | some found =>
        match ClassFile.decode found.bytes with
        | .error _ => []
        | .ok decl =>
            [⟨.visit found.location false, rfl⟩,
              ⟨.accept ledger.session.visits.length decl, rfl⟩]

/-- What is found is entered by a visit of its own. -/
theorem atlas_perform_lookingUp
    (locator : Option Locator)
    (ledger : Ledger)
    (name : TypeName) :
    (ledger.perform (lookingUp locator ledger name)).session.atlas =
      match locator.bind (·.locate? name) with
      | none => ledger.session.atlas
      | some found =>
          (ledger.session.atlas.enterBytes found.bytes found.location
            false).2 := by
  unfold lookingUp
  cases locator.bind (·.locate? name) with
  | none =>
      rfl
  | some found =>
      dsimp only [Atlas.enterBytes]
      cases ClassFile.decode found.bytes with
      | error fault =>
          rfl
      | ok decl =>
          simp [perform, Session.run, Session.step, Session.enterAt,
            Atlas.enter]

/-- A callback that looks classes up grows the store by what can be reached. -/
theorem grown_lookingUp
    (locator : Option Locator)
    (ledger : Ledger)
    (name : TypeName) :
    ledger.store.Grown (Reconciliation.reachable locator)
      (ledger.perform (lookingUp locator ledger name)).store := by
  rw [Ledger.store, Ledger.store, atlas_perform_lookingUp]
  cases located : locator.bind (·.locate? name) with
  | none =>
      exact .refl _ _
  | some found =>
      obtain ⟨given, rfl, answered⟩ := Option.bind_eq_some_iff.mp located
      dsimp only [Atlas.enterBytes]
      cases decoded : ClassFile.decode found.bytes with
      | error fault =>
          exact .refl _ _
      | ok decl =>
          refine (Visit.accept_grown _ _ decl).mono fun other member => ?_
          refine List.mem_flatMap.mpr
            ⟨found.bytes, given.answers_complete name found answered, ?_⟩
          simpa [decoded] using member

/--
A ledger and a reconciliation have come equally far, from a ledger that had
handed on some names: each name that was handed on since then was located or is
missing.
-/
structure Follows
    (earlier : List TypeName)
    (ledger : Ledger)
    (report : Reconciliation) :
    Prop where
  atlas : ledger.session.atlas = report.atlas
  called :
    ∃ called,
      ledger.handed = earlier ++ called ∧
        report.missing.Sublist called ∧
        called.length = report.located + report.missing.length

/-- A name that is handed on is located or missing when its turn is over. -/
theorem Follows.handle
    {earlier : List TypeName}
    {state reached : Ledger}
    {report : Reconciliation}
    (follows : Follows earlier state report)
    (locator : Option Locator)
    {name : TypeName}
    (sameSession : reached.session = state.session)
    (handedOn : reached.handed = state.handed ++ [name])
    (unvisited : report.atlas.store.isVisited name = false) :
    Follows earlier (reached.perform (lookingUp locator state name))
      (report.handle locator name) := by
  obtain ⟨same, called, handed, among, counted⟩ := follows
  have entered :
      (reached.perform (lookingUp locator state name)).session.atlas =
        (state.perform (lookingUp locator state name)).session.atlas := by
    rw [perform, perform, sameSession]
  rw [atlas_perform_lookingUp, same] at entered
  have longer : reached.handed = earlier ++ (called ++ [name]) := by
    rw [handedOn, handed, List.append_assoc]
  have missed :
      (report.missing ++ [name]).Sublist (called ++ [name]) :=
    among.append_right _
  unfold Reconciliation.handle
  rw [if_neg (by simp [unvisited])]
  cases located : locator.bind (·.locate? name) with
  | none =>
      rw [located] at entered
      refine ⟨entered, _, longer, missed, ?_⟩
      simp only [List.length_append, List.length_singleton]
      omega
  | some found =>
      rw [located] at entered
      dsimp only
      split
      · refine ⟨entered, _, longer, among.trans (by simp), ?_⟩
        simp only [List.length_append, List.length_singleton]
        omega
      · refine ⟨entered, _, longer, missed, ?_⟩
        simp only [List.length_append, List.length_singleton]
        omega

/-- A ledger and a reconciliation take their turns side by side. -/
theorem Follows.turn
    {earlier : List TypeName}
    {state rest : Ledger}
    {report : Reconciliation}
    (follows : Follows earlier state report)
    (locator : Option Locator)
    {name : TypeName}
    (taken : state.next? = some (name, rest)) :
    ∃ left,
      report.next? = some (name, left) ∧
        Follows earlier (rest.giveTurn (lookingUp locator) name)
          (left.handle locator name) := by
  obtain ⟨later, waiting, rfl⟩ := next?_eq_some taken
  have leaves :
      (state.waitingFor later).session.atlas =
        (report.waitingFor later).atlas := by
    simp [waitingFor, Reconciliation.waitingFor, Ledger.store,
      Session.withStore, follows.atlas]
  refine ⟨report.waitingFor later, ?_, ?_⟩
  · rw [Ledger.store, follows.atlas] at waiting
    simp [Reconciliation.next?, Store.nextPending?, waiting,
      Reconciliation.waitingFor]
  · have met :
        state.store.isVisited name =
          (report.waitingFor later).atlas.store.isVisited name := by
      rw [← leaves]
      rfl
    have left :
        Follows earlier (state.waitingFor later) (report.waitingFor later) :=
      ⟨leaves, follows.called⟩
    rw [giveTurn_waitingFor, met]
    split
    · next visited =>
        rw [Reconciliation.handle, if_pos visited]
        exact ⟨leaves, follows.called⟩
    · next unvisited =>
        exact left.handle locator rfl rfl (Bool.eq_false_iff.mpr unvisited)

/-- Reconciling is a drain that looks names up, and it returns. -/
theorem Disciplined.drain_reconciling
    {ledger : Ledger}
    (disciplined : ledger.Disciplined)
    (locator : Option Locator) :
    ∃ after report,
      ledger.Returns (lookingUp locator) after ∧
        Follows ledger.handed after report ∧
        ledger.session.atlas.reconcile locator =
          { report with missing := Store.sortedNames report.missing } := by
  have enough :
      ledger.store.turnsLeft (Reconciliation.reachable locator) <
        Reconciliation.bound locator ledger.session.atlas.store := by
    have fewer := List.length_filter_le (· ∉ ledger.store.names)
      (Reconciliation.reachable locator)
    simp only [Store.turnsLeft, Reconciliation.bound, Ledger.store] at fewer ⊢
    omega
  refine ⟨_, _, disciplined.returns (grown_lookingUp locator) enough, ?_, rfl⟩
  refine workThrough_simulates (Follows ledger.handed) ?_ ?_ _
    ⟨rfl, [], (List.append_nil _).symm, List.nil_sublist _, rfl⟩
  · intro state report follows ended
    rw [next?_eq_none_iff, Ledger.store, follows.atlas] at ended
    simp [Reconciliation.next?, Store.nextPending?, ended]
  · intro state report name rest follows taken
    exact follows.turn locator taken

/-- Reconciling an atlas is a drain that looks classes up. -/
theorem Disciplined.drain_atlas
    {ledger : Ledger}
    (disciplined : ledger.Disciplined)
    (locator : Option Locator) :
    ∃ after,
      ledger.Returns (lookingUp locator) after ∧
        after.session.atlas =
          (ledger.session.atlas.reconcile locator).atlas := by
  obtain ⟨after, report, returns, follows, reconciled⟩ :=
    disciplined.drain_reconciling locator
  exact ⟨after, returns, by rw [reconciled, follows.atlas]⟩

/--
In every run, whatever deeds are done between drains and by what drains hand
names on to, each name that a deed creates goes to the end of the worklist at
once. The names that had their turn and those that wait are all names, each
once and in order of creation. Exactly those are handed on that have not been
entered when their turn comes, so none is handed on twice and all of them are
in order. Once a drain returns no name waits, and every name that has not been
entered has been handed on. The drain of a store and a reconciliation are such
drains, and they return.
-/
theorem worklist_disciplined
    (moves : List Move) :
    let ledger := Ledger.run {} moves
    (∀ deed, ∃ created,
      (ledger.perform [deed]).store.names = ledger.store.names ++ created ∧
        (ledger.perform [deed]).store.pending =
          ledger.store.pending ++ created) ∧
      ledger.turns.map (·.1) ++ ledger.store.pending = ledger.store.names ∧
      ledger.store.names.Nodup ∧
      ledger.handed =
        (ledger.turns.filter fun turn => !turn.2.isVisited turn.1).map (·.1) ∧
      ledger.handed.Nodup ∧
      ledger.handed.Sublist ledger.store.names ∧
      (∀ callback after, ledger.Returns callback after →
        after.store.pending = [] ∧
          ∀ name ∈ after.store.names, after.store.isVisited name = false →
            name ∈ after.handed) ∧
      (∀ mentions, ∃ after,
        ledger.Returns (mentioning mentions) after ∧
          after.store = (ledger.store.drain mentions).store ∧
          after.handed =
            ledger.handed ++ (ledger.store.drain mentions).handed) ∧
      ∀ locator, ∃ after,
        ledger.Returns (lookingUp locator) after ∧
          after.session.atlas =
            (ledger.session.atlas.reconcile locator).atlas := by
  intro ledger
  have disciplined : ledger.Disciplined := disciplined_empty.run moves
  have distinct := disciplined.wellFormed.noDuplicates
  refine ⟨fun deed => ?_, disciplined.inOrder, distinct,
    disciplined.unvisited, distinct.sublist disciplined.sublist_names,
    disciplined.sublist_names, fun callback after returns => ?_,
    disciplined.drain_store, disciplined.drain_atlas⟩
  · obtain ⟨names, created, -, longer, later⟩ :=
      ledger.session.step_grown deed.property
    exact ⟨created, longer, later⟩
  · have empty := returns.pending_eq_nil
    obtain ⟨enough, same⟩ := returns
    have further : after.Disciplined := by
      rw [← same enough (Nat.le_refl _)]
      exact disciplined.drain callback enough
    exact ⟨empty, fun name known unvisited =>
      further.mem_handed known (by simp [empty]) unvisited⟩

/-- Enter a class, which extends one not met before, for one of two names. -/
def enteringOther : Callback :=
  fun ledger name =>
    if name = "c.One" then
      [⟨.visit none true, rfl⟩,
        ⟨.accept ledger.session.visits.length
          { access := 0x1
            name := "c.Other"
            superName := some "c.Base" }, rfl⟩]
    else
      []

/-- Two names, of which one is entered when the other has its turn. -/
def enteredMeanwhile : List Move :=
  [.deed ⟨.mention "c.One" none, rfl⟩,
    .deed ⟨.mention "c.Other" (some .classType), rfl⟩]

/-- The name that is entered before its turn is passed over. -/
theorem worklist_disciplined_enteredMeanwhile :
    let before := Ledger.run {} enteredMeanwhile
    let after := before.drain enteringOther 3
    before.Returns enteringOther after ∧
      after.turns.map (·.1) = ["c.One", "c.Other", "c.Base"] ∧
      after.handed = ["c.One", "c.Base"] ∧
      after.store.pending = [] ∧
      ∀ name ∈ after.store.names, after.store.isVisited name = false →
        name ∈ after.handed := by
  intro before after
  have empty : after.store.pending = [] := by
    decide +kernel
  have returns : before.Returns enteringOther after :=
    returns_of_pending_eq_nil empty
  obtain ⟨-, -, -, -, -, -, returned, -⟩ :=
    worklist_disciplined enteredMeanwhile
  exact ⟨returns, by decide +kernel, by decide +kernel,
    returned enteringOther after returns⟩

end Ledger

end TypeAtlas
