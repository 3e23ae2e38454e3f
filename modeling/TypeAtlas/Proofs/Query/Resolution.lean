import TypeAtlas.Proofs.Entering.Growth
import TypeAtlas.Proofs.Entering.Populating

namespace TypeAtlas

/-!
# Resolved references

Every reference in the graph goes back to a place where a declaration that was
handed in names a type. If it is tracked, there is one entry of its name, and
this is the one it leads to; the entry has a visited node exactly if the header
of a declaration of that name was accepted.
-/

/-! ## Accepted names -/

namespace Session

/-- The name that a visit accepts by an act, if it does. -/
def acceptedBy
    (session : Session) :
    Act → List TypeName
  | .header place decl =>
      match session.visits[place]? with
      | none => []
      | some visit => (visit.header session.atlas decl).answer.toOption.toList
  | .accept place decl =>
      match session.visits[place]? with
      | none => []
      | some visit => (visit.accept session.atlas decl).1.toList
  | _ => []

/-- The names that are accepted by acts one after another. -/
def accepted
    (session : Session) :
    List Act → List TypeName
  | [] => []
  | act :: acts => session.acceptedBy act ++ (session.step act).accepted acts

theorem isVisited_proceed
    (session : Session)
    (place : Nat)
    {step : Visit → Atlas → Outcome α}
    {name : TypeName}
    (keeps :
      ∀ visit atlas,
        (step visit atlas).atlas.store.isVisited name =
          atlas.store.isVisited name) :
    (session.proceed place step).atlas.store.isVisited name =
      session.atlas.store.isVisited name := by
  unfold proceed
  split
  · rfl
  · exact keeps _ _

/-- A type is visited by acts that accept a declaration of it, and no others. -/
theorem isVisited_step
    (session : Session)
    (act : Act)
    (name : TypeName) :
    (session.step act).atlas.store.isVisited name = true ↔
      session.atlas.store.isVisited name = true ∨
        name ∈ session.acceptedBy act := by
  cases act with
  | configure settings | visit location isApplication =>
      simp [step, acceptedBy]
  | mention other hint =>
      simp [step, withStore, acceptedBy,
        (Store.gains_mention session.atlas.store other hint).visited]
  | define other category =>
      simp only [step, acceptedBy, List.not_mem_nil, or_false]
      split
      · next store defined =>
          obtain ⟨-, rfl⟩ := Store.define_eq_ok_iff.mp defined
          rw [withStore, Change.isVisited_apply_of_unclaimed _ (by simp)]
      · rfl
  | take =>
      simp only [step, acceptedBy, List.not_mem_nil, or_false]
      split
      · next taken =>
          rw [Store.nextPending?_eq_take taken]
          rfl
      · rfl
  | drain mentions =>
      obtain ⟨script, drains, replayed⟩ :=
        session.atlas.store.drain_scripted mentions
      have unclaimed :
          ∀ change ∈ script, ∀ category, change ≠ .claim name category := by
        rintro _ member category rfl
        exact drains _ member
      simp [step, withStore, acceptedBy, replayed,
        Store.isVisited_replay_of_unclaimed unclaimed]
  | header place decl =>
      simp only [step, proceed, acceptedBy]
      cases session.visits[place]? with
      | none =>
          simp
      | some visit =>
          dsimp only
          rw [visit.isVisited_header session.atlas decl name]
          cases (visit.header session.atlas decl).answer with
          | error problem =>
              simp [Except.toOption]
          | ok accepted =>
              simp [Except.toOption, eq_comm (b := name)]
  | annotate place decl =>
      rw [step, session.isVisited_proceed place fun visit atlas =>
        (visit.annotate_gains atlas decl).visited name]
      simp [acceptedBy]
  | field place decl =>
      rw [step, session.isVisited_proceed place fun visit atlas =>
        (visit.field_gains atlas decl).visited name]
      simp [acceptedBy]
  | method place decl =>
      rw [step, session.isVisited_proceed place fun visit atlas =>
        (visit.method_gains atlas decl).visited name]
      simp [acceptedBy]
  | finish place =>
      rw [step, session.isVisited_proceed place fun visit atlas =>
        (visit.finish_gains [] atlas).visited name]
      simp [acceptedBy]
  | accept place decl =>
      simp only [step, enterAt, acceptedBy]
      cases session.visits[place]? with
      | none =>
          simp
      | some visit =>
          dsimp only
          rw [visit.isVisited_accept session.atlas decl name,
            Option.mem_toList]

theorem isVisited_run
    (session : Session)
    (acts : List Act)
    (name : TypeName) :
    (session.run acts).atlas.store.isVisited name = true ↔
      session.atlas.store.isVisited name = true ∨
        name ∈ session.accepted acts := by
  induction acts generalizing session with
  | nil =>
      simp [run, accepted]
  | cons act acts inductionHypothesis =>
      have later := inductionHypothesis (session.step act)
      rw [isVisited_step, or_assoc, ← List.mem_append] at later
      exact later

end Session

/-! ## Entries behind references -/

namespace Store

/-- A tracked reference is resolved exactly if its type was visited. -/
theorem WellFormed.isResolved_iff
    {store : Store}
    (wellFormed : store.WellFormed)
    {reference : Reference}
    (tracked : reference.tracked = true) :
    store.isResolved reference = true ↔
      store.isVisited reference.name = true := by
  simp only [isResolved, referent?, tracked, ↓reduceIte, isVisited]
  cases found : store.find? reference.name with
  | none =>
      simp
  | some entry =>
      have filed := (wellFormed.entries entry (mem_of_find? found)).visited
      simp only [Option.bind_some, Entry.visitedNode?, Option.any_some]
      cases visited : entry.visited with
      | false =>
          simp
      | true =>
          obtain ⟨node, installed, -⟩ := filed visited
          simp [installed]

end Store

namespace Session

/--
Whatever is done in a session, every reference in a node goes back to a place
where an act names a type. Either it is tracked: then it does not name the root
type, there is one entry of its name, which is the one it leads to, and it is
resolved exactly if a declaration of that name was accepted. Or it is untracked:
then the place names the root type, or something primitive, or it is a
descriptor in an annotation that is not the one of a class.
-/
theorem references_closed
    (acts : List Act) :
    let store := (Session.run {} acts).atlas.store
    ∀ owner node, store.node? owner = some node →
      ∀ reference ∈ node.references,
        ∃ origin ∈ acts.flatMap Act.origins,
          reference = origin.reference ∧
            (reference.tracked = true ∧
                reference.name ≠ TypeName.root ∧
                (∃ entry,
                  store.find? reference.name = some entry ∧
                    store.referent? reference = some entry ∧
                    ∀ other ∈ store.entries,
                      other.name = reference.name → other = entry) ∧
                (store.isResolved reference = true ↔
                  reference.name ∈ Session.accepted {} acts) ∨
              reference.tracked = false ∧ origin.LeadsNowhere) := by
  intro store owner node installed reference member
  have wellFormed : store.WellFormed := store_wellFormed acts
  have closed : store.Closed (acts.flatMap Act.origins) :=
    (run_populates acts).closed .empty
  obtain ⟨known, origin, listed, rfl⟩ :=
    closed owner node installed reference member
  refine ⟨origin, listed, rfl, ?_⟩
  cases tracked : origin.reference.tracked with
  | false =>
      exact Or.inr ⟨rfl, origin.leadsNowhere_iff.mpr tracked⟩
  | true =>
      refine Or.inl ⟨rfl, Origin.name_ne_root tracked, ?_, ?_⟩
      · obtain ⟨entry, found⟩ := Store.exists_of_mem_names (known tracked)
        refine ⟨entry, found, by simp [Store.referent?, tracked, found], ?_⟩
        intro other among named
        have lookup := Store.find?_of_mem wellFormed.noDuplicates among
        rw [named, found] at lookup
        exact (Option.some.inj lookup).symm
      · rw [wellFormed.isResolved_iff tracked, isVisited_run]
        simp [Store.isVisited, Store.find?]

/-- A field of an entered type, with an annotation that names an array. -/
def itemField : List Act :=
  [.visit none true,
    .accept 0
      { access := 0x1
        name := "c.Owner"
        fields :=
          [{ access := 0x2
             name := "items"
             descriptor := "[Lc/Item;"
             annotations :=
               [{ descriptor := "Lc/Mark;"
                  values := [("kind", .classLiteral "[I")] }] }] },
    .accept 0 { access := 0x1, name := "c.Item" }]

/-- The field's type is resolved, that of the annotation is not. -/
theorem references_closed_itemField :
    let store := (Session.run {} itemField).atlas.store
    ∃ node,
      store.node? "c.Owner" = some node ∧
        node.references =
          [⟨"c.Item", true⟩, ⟨"c.Mark", true⟩, ⟨"int[]", false⟩] ∧
        store.isResolved ⟨"c.Item", true⟩ = true ∧
        store.isResolved ⟨"c.Mark", true⟩ = false ∧
        ∃ origin : Origin,
          origin.reference = ⟨"int[]", false⟩ ∧ origin.LeadsNowhere := by
  intro store
  have shown :
      (store.node? "c.Owner").map (·.references) =
        some [⟨"c.Item", true⟩, ⟨"c.Mark", true⟩, ⟨"int[]", false⟩] := by
    decide +kernel
  obtain ⟨node, installed, references⟩ := Option.map_eq_some_iff.mp shown
  have closed := references_closed itemField "c.Owner" node installed
  rw [references] at closed
  have item :
      store.isResolved ⟨"c.Item", true⟩ = true := by
    obtain ⟨_, -, -, ⟨-, -, -, resolved⟩ | ⟨untracked, -⟩⟩ :=
      closed ⟨"c.Item", true⟩ (by simp)
    · exact resolved.mpr (by decide +kernel)
    · simp at untracked
  obtain ⟨origin, -, same, ⟨tracked, -⟩ | ⟨-, nowhere⟩⟩ :=
    closed ⟨"int[]", false⟩ (by simp)
  · simp at tracked
  · exact ⟨node, installed, references, item, by decide +kernel, origin,
      same.symm, nowhere⟩

end Session

end TypeAtlas
