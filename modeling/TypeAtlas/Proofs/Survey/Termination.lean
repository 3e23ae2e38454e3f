import Mathlib.Data.Set.Card
import TypeAtlas.Proofs.Entering.Merging
import TypeAtlas.Proofs.Query.Catalog
import TypeAtlas.Proofs.Survey.Worklist

namespace TypeAtlas

/-!
# Reconciling ends

A reconciliation fills its own worklist from the classes it finds, and a class
that is found for a name need not declare that name. It ends all the same if
there are finitely many classes to find: a name has one turn, so what is left
to do is bounded by the names that have no entry yet and that some class of the
locator can give one.

The bound is not in terms of what classes mention. It is in terms of the names
that entering a class does register, in some session with the same settings.
-/

/-- A way to look names up that answers with finitely many byte strings. -/
def AnswersFinitely (locate? : TypeName → Option LocatedClass) : Prop :=
  {bytes | ∃ name found,
    locate? name = some found ∧ found.bytes = bytes}.Finite

/-- Every such way is the one of a locator. -/
theorem AnswersFinitely.exists_locator
    {locate? : TypeName → Option LocatedClass}
    (finite : AnswersFinitely locate?) :
    ∃ locator : Locator, locator.locate? = locate? := by
  obtain ⟨answers, listed⟩ := Set.Finite.exists_finset finite
  refine ⟨⟨0, locate?, answers.toList, fun name found located => ?_⟩, rfl⟩
  rw [Finset.mem_toList, listed]
  exact ⟨name, found, located, rfl⟩

/-- A name that had no entry has one when a declaration has been entered. -/
def ClassDecl.Registers
    (settings : Settings)
    (decl : ClassDecl)
    (name : TypeName) :
    Prop :=
  ∃ acts location isApplication,
    let atlas := (({} : Session).run acts).atlas
    atlas.settings = settings ∧
      name ∉ atlas.store.names ∧
      name ∈ (atlas.enter decl location isApplication).2.store.names

/-- The declarations that a locator can answer with. -/
def Locator.Offers
    (locator : Option Locator)
    (decl : ClassDecl) :
    Prop :=
  ∃ asked found,
    locator.bind (·.locate? asked) = some found ∧
      ClassFile.decode found.bytes = .ok decl

/-- The names that the declarations of a locator can register. -/
def Locator.registrable
    (settings : Settings)
    (locator : Option Locator) :
    Set TypeName :=
  {name | ∃ decl, Offers locator decl ∧ decl.Registers settings name}

/-! ## What can be registered -/

/-- Only names that a declaration mentions are registered by it. -/
theorem ClassDecl.Registers.mem_mentions
    {settings : Settings}
    {decl : ClassDecl}
    {name : TypeName}
    (registers : decl.Registers settings name) :
    name ∈ decl.mentions := by
  obtain ⟨acts, location, isApplication, -, absent, present⟩ := registers
  obtain ⟨added, mentioned, longer, -⟩ :=
    Visit.accept_grown { location := location, isApplication := isApplication }
      (({} : Session).run acts).atlas decl
  rw [Atlas.enter, longer] at present
  exact mentioned name ((List.mem_append.mp present).resolve_left absent)

namespace Locator

/-- What an offered declaration mentions is among the reachable names. -/
theorem Offers.mem_reachable
    {locator : Option Locator}
    {decl : ClassDecl}
    (offers : Offers locator decl)
    {name : TypeName}
    (mentioned : name ∈ decl.mentions) :
    name ∈ Reconciliation.reachable locator := by
  obtain ⟨asked, found, located, decoded⟩ := offers
  obtain ⟨given, rfl, answered⟩ := Option.bind_eq_some_iff.mp located
  refine List.mem_flatMap.mpr
    ⟨found.bytes, given.answers_complete asked found answered, ?_⟩
  simpa [decoded] using mentioned

theorem finite_registrable
    (settings : Settings)
    (locator : Option Locator) :
    (registrable settings locator).Finite := by
  refine (List.finite_toSet (Reconciliation.reachable locator)).subset ?_
  rintro name ⟨decl, offers, registers⟩
  exact offers.mem_reachable registers.mem_mentions

end Locator

/-! ## What is registered -/

namespace Ledger

/-- The session of a ledger is one that acts can lead to. -/
def Reached (ledger : Ledger) : Prop :=
  ∃ acts, ({} : Session).run acts = ledger.session

theorem Reached.perform
    {ledger : Ledger}
    (reached : ledger.Reached)
    (deeds : List Deed) :
    (ledger.perform deeds).Reached := by
  obtain ⟨acts, led⟩ := reached
  exact ⟨acts ++ deeds.map (·.val), by rw [Session.run_append, led]; rfl⟩

theorem Reached.take
    {ledger : Ledger}
    (reached : ledger.Reached)
    {name : TypeName}
    {rest : List TypeName}
    (waiting : ledger.store.pending = name :: rest) :
    (ledger.waitingFor rest).Reached := by
  obtain ⟨acts, led⟩ := reached
  refine ⟨acts ++ [.take], ?_⟩
  have pending : ledger.session.atlas.store.pending = name :: rest := waiting
  rw [Session.run_append, led]
  simp [Session.run, Session.step, Store.nextPending?, pending, waitingFor,
    Ledger.store]

theorem Reached.turn
    {ledger rest : Ledger}
    (reached : ledger.Reached)
    (callback : Callback)
    {name : TypeName}
    (taken : ledger.next? = some (name, rest)) :
    (rest.giveTurn callback name).Reached := by
  obtain ⟨later, waiting, rfl⟩ := next?_eq_some taken
  have left := reached.take waiting
  rw [giveTurn_waitingFor]
  split
  · exact left
  · exact Reached.perform left _

theorem Reached.run
    {ledger : Ledger}
    (reached : ledger.Reached)
    (moves : List Move) :
    (ledger.run moves).Reached := by
  induction moves generalizing ledger with
  | nil =>
      exact reached
  | cons move moves inductionHypothesis =>
      refine inductionHypothesis ?_
      cases move with
      | deed deed =>
          exact reached.perform [deed]
      | drain callback turns =>
          exact workThrough_preserves Reached
            (fun _ _ _ holds taken => holds.turn callback taken) turns reached

/-- Every name of a ledger was there at the start or can be registered. -/
structure Registered
    (settings : Settings)
    (locator : Option Locator)
    (start : List TypeName)
    (ledger : Ledger) :
    Prop where
  reached : ledger.Reached
  ruled : ledger.session.atlas.settings = settings
  names :
    ∀ name ∈ ledger.store.names,
      name ∈ start ∨ name ∈ Locator.registrable settings locator

/-- Looking a name up registers what the class that is found can register. -/
theorem Registered.lookUp
    {settings : Settings}
    {locator : Option Locator}
    {start : List TypeName}
    {ledger : Ledger}
    (registered : Registered settings locator start ledger)
    (name : TypeName) :
    Registered settings locator start
      (ledger.perform (lookingUp locator ledger name)) := by
  have reached := registered.reached.perform (lookingUp locator ledger name)
  have entered := atlas_perform_lookingUp locator ledger name
  -- Nothing is entered if no class is found, or if what is found is none.
  have unentered :
      (ledger.perform (lookingUp locator ledger name)).session.atlas =
          ledger.session.atlas →
        Registered settings locator start
          (ledger.perform (lookingUp locator ledger name)) := by
    intro same
    refine ⟨reached, by rw [same, registered.ruled], ?_⟩
    rw [Ledger.store, same]
    exact registered.names
  cases located : locator.bind (·.locate? name) with
  | none =>
      rw [located] at entered
      exact unentered entered
  | some found =>
      rw [located] at entered
      dsimp only [Atlas.enterBytes] at entered
      cases decoded : ClassFile.decode found.bytes with
      | error fault =>
          rw [decoded] at entered
          exact unentered entered
      | ok decl =>
          rw [decoded] at entered
          refine ⟨reached, ?_, fun other present => ?_⟩
          · rw [entered]
            exact (Visit.settings_accept _ _ decl).trans registered.ruled
          · by_cases old : other ∈ ledger.store.names
            · exact registered.names other old
            · obtain ⟨acts, led⟩ := registered.reached
              rw [Ledger.store, entered] at present
              refine Or.inr ⟨decl, ⟨name, found, located, decoded⟩, acts,
                found.location, false, ?_⟩
              rw [led]
              exact ⟨registered.ruled, old, present⟩

theorem Registered.turn
    {settings : Settings}
    {locator : Option Locator}
    {start : List TypeName}
    {ledger rest : Ledger}
    (registered : Registered settings locator start ledger)
    {name : TypeName}
    (taken : ledger.next? = some (name, rest)) :
    Registered settings locator start
      (rest.giveTurn (lookingUp locator) name) := by
  obtain ⟨later, waiting, rfl⟩ := next?_eq_some taken
  have left : Registered settings locator start (ledger.waitingFor later) :=
    ⟨registered.reached.take waiting, registered.ruled, registered.names⟩
  rw [giveTurn_waitingFor]
  split
  · exact ⟨left.reached, left.ruled, left.names⟩
  · have lookedUp := left.lookUp name
    exact ⟨lookedUp.reached, lookedUp.ruled, lookedUp.names⟩

theorem Returns.registered
    {before after : Ledger}
    (reached : before.Reached)
    {locator : Option Locator}
    (returns : before.Returns (lookingUp locator) after) :
    Registered before.session.atlas.settings locator before.store.names
      after := by
  obtain ⟨enough, same⟩ := returns
  rw [← same enough (Nat.le_refl _)]
  exact workThrough_preserves
    (Registered before.session.atlas.settings locator before.store.names)
    (fun _ _ _ holds taken => holds.turn taken) enough
    ⟨reached, rfl, fun _ old => Or.inl old⟩

end Ledger

/-! ## The bound -/

/-- Distinct items of a list and of a finite set are no more than there are. -/
theorem length_le_of_subset
    {items listed : List α}
    {others : Set α}
    (distinct : items.Nodup)
    (finite : others.Finite)
    (among : ∀ item ∈ items, item ∈ listed ∨ item ∈ others) :
    items.length ≤ listed.length + others.ncard := by
  classical
  have subset : items.toFinset ⊆ listed.toFinset ∪ finite.toFinset := by
    intro item member
    simpa using among item (List.mem_toFinset.mp member)
  calc
    items.length = items.toFinset.card :=
      (List.toFinset_card_of_nodup distinct).symm
    _ ≤ (listed.toFinset ∪ finite.toFinset).card :=
      Finset.card_le_card subset
    _ ≤ listed.toFinset.card + finite.toFinset.card :=
      Finset.card_union_le _ _
    _ ≤ listed.length + others.ncard := by
      rw [← Set.ncard_eq_toFinset_card others finite]
      exact Nat.add_le_add_right listed.toFinset_card_le _

namespace Ledger

/--
Whatever was done before, and whatever a locator answers names with, the wrong
classes and what is no class included, as long as it has finitely many answers:
reconciling returns. Names are handed on once each, and are names of the store
or names that entering a class of the locator registers. So no more names are
handed on than there are of both. Each of them is reported, as located or as
missing.
-/
theorem reconciling_returns
    (moves : List Move) :
    let before := Ledger.run {} moves
    let atlas := before.session.atlas
    (∀ locate?, AnswersFinitely locate? →
      ∃ locator : Locator, locator.locate? = locate?) ∧
      ∀ locator,
        let registrable := Locator.registrable atlas.settings locator
        registrable.Finite ∧
          (∀ name ∈ registrable,
            ∃ decl, Locator.Offers locator decl ∧ name ∈ decl.mentions) ∧
          ∃ after called,
            before.Returns (lookingUp locator) after ∧
              after.session.atlas = (atlas.reconcile locator).atlas ∧
              after.handed = before.handed ++ called ∧
              called.length =
                (atlas.reconcile locator).located +
                  (atlas.reconcile locator).missing.length ∧
              called.Nodup ∧
              (∀ name ∈ called,
                name ∈ atlas.store.names ∨ name ∈ registrable) ∧
              called.length ≤ atlas.store.names.length + registrable.ncard := by
  intro before atlas
  have disciplined : before.Disciplined := disciplined_empty.run moves
  have started : Reached {} := ⟨[], rfl⟩
  refine ⟨fun _ finite => finite.exists_locator, fun locator => ?_⟩
  have finite := Locator.finite_registrable atlas.settings locator
  refine ⟨finite, ?_, ?_⟩
  · rintro name ⟨decl, offers, registers⟩
    exact ⟨decl, offers, registers.mem_mentions⟩
  · obtain ⟨after, report, returns, ⟨same, called, handed, among, counted⟩,
      reconciled⟩ := disciplined.drain_reconciling locator
    have registered := returns.registered (started.run moves)
    have further : after.Disciplined := by
      obtain ⟨enough, ends⟩ := returns
      rw [← ends enough (Nat.le_refl _)]
      exact disciplined.drain _ enough
    have listed : called.Sublist after.store.names := by
      refine List.Sublist.trans ?_ further.sublist_names
      rw [handed]
      exact List.sublist_append_right _ _
    have distinct : called.Nodup :=
      further.wellFormed.noDuplicates.sublist listed
    have within : ∀ name ∈ called,
        name ∈ atlas.store.names ∨
          name ∈ Locator.registrable atlas.settings locator :=
      fun name member => registered.names name (listed.subset member)
    have reported :
        (Store.sortedNames report.missing).length = report.missing.length :=
      (Store.sortedNames_of_nodup (distinct.sublist among)).length_eq
    refine ⟨after, called, returns, ?_, handed, ?_, distinct, within,
      length_le_of_subset distinct finite within⟩
    · rw [reconciled, same]
    · rw [reconciled, counted, reported]

/-- A locator that answers every name with one class, which names another. -/
def alwaysLoop : Locator :=
  let bytes := ClassFile.encode
    { access := 0x0001, name := "c.Loop", superName := some "c.Next" }
  { size := 1
    locate? := fun _ => some ⟨bytes, none⟩
    answers := [bytes]
    answers_complete := by
      rintro name found located
      rw [← Option.some.inj located]
      exact List.mem_singleton.mpr rfl }

/-- The class is entered once, and the name that was asked for never. -/
theorem reconciling_returns_alwaysLoop :
    let before := Ledger.run {} [.deed ⟨.mention "c.Asked" none, rfl⟩]
    let report := before.session.atlas.reconcile (some alwaysLoop)
    AnswersFinitely alwaysLoop.locate? ∧
      report.located = 0 ∧
      report.atlas.store.names = ["c.Asked", "c.Loop", "c.Next"] ∧
      ∃ after called,
        before.Returns (lookingUp (some alwaysLoop)) after ∧
          after.handed = called ∧
          called.length = report.missing.length ∧
          called.length ≤
            1 + (Locator.registrable {} (some alwaysLoop)).ncard := by
  intro before report
  have finite : AnswersFinitely alwaysLoop.locate? := by
    refine (List.finite_toSet alwaysLoop.answers).subset ?_
    rintro bytes ⟨name, found, located, rfl⟩
    exact alwaysLoop.answers_complete name found located
  have located : report.located = 0 := by
    decide +kernel
  obtain ⟨-, reconciling⟩ :=
    reconciling_returns [.deed ⟨.mention "c.Asked" none, rfl⟩]
  obtain ⟨-, -, after, called, returns, -, handed, reported, -, -, few⟩ :=
    reconciling (some alwaysLoop)
  refine ⟨finite, located, by decide +kernel, after, called, returns, handed,
    ?_, few⟩
  exact reported.trans (by rw [located, Nat.zero_add])

end Ledger

end TypeAtlas
