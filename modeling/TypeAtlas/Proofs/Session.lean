import TypeAtlas.Proofs.Entering.Building

namespace TypeAtlas

/-!
# Sessions

A session is everything that can be done to an atlas from the outside, in any
order: names are mentioned and filed, the worklist is drained, visits are begun
and taken further step by step, several of them side by side, and declarations
are entered as a whole. What a drain hands on may be dealt with by any acts
before the next name is taken.

Every act builds on the store with the supertypes of the declaration it hands
in, so the store of a session is built from the empty one with the supertypes
of the declarations that were handed in.
-/

/-- An atlas, and the visits that were begun. -/
structure Session where
  atlas : Atlas := {}
  visits : List Visit := []

/-- One thing that is done in a session; visits are named by their places. -/
inductive Act where
  | configure (settings : Settings)
  | mention (name : TypeName) (hint : Option Category)
  | define (name : TypeName) (category : Category)
  /-- Take the first name off the worklist. -/
  | take
  | drain (mentions : List (TypeName × List TypeName))
  /-- Begin a visit. -/
  | visit (location : Option String) (isApplication : Bool)
  | header (place : Nat) (decl : ClassDecl)
  | annotate (place : Nat) (decl : AnnotationDecl)
  | field (place : Nat) (decl : FieldDecl)
  | method (place : Nat) (decl : MethodDecl)
  | finish (place : Nat)
  | accept (place : Nat) (decl : ClassDecl)

/-- The declaration that an act hands in. -/
def Act.decl? : Act → Option ClassDecl
  | .header _ decl => some decl
  | .accept _ decl => some decl
  | _ => none

namespace Session

def withStore
    (session : Session)
    (store : Store) :
    Session :=
  { session with atlas := { session.atlas with store := store } }

/-- Take a step of the visit at a place. -/
def proceed
    (session : Session)
    (place : Nat)
    (step : Visit → Atlas → Outcome α) :
    Session :=
  match session.visits[place]? with
  | none => session
  | some visit =>
      let outcome := step visit session.atlas
      { atlas := outcome.atlas
        visits := session.visits.set place outcome.visit }

/-- Enter a whole declaration with the visit at a place. -/
def enterAt
    (session : Session)
    (place : Nat)
    (decl : ClassDecl) :
    Session :=
  match session.visits[place]? with
  | none => session
  | some visit =>
      { session with atlas := (visit.accept session.atlas decl).2 }

/-- The session after an act. -/
def step (session : Session) : Act → Session
  | .configure settings =>
      { session with atlas := { session.atlas with settings := settings } }
  | .mention name hint =>
      session.withStore (session.atlas.store.mention name hint)
  | .define name category =>
      match session.atlas.store.define name category with
      | .ok store => session.withStore store
      | .error _ => session
  | .take =>
      match session.atlas.store.nextPending? with
      | some (_, store) => session.withStore store
      | none => session
  | .drain mentions =>
      session.withStore (session.atlas.store.drain mentions).store
  | .visit location isApplication =>
      { session with
        visits := session.visits ++
          [{ location := location, isApplication := isApplication }] }
  | .header place decl => session.proceed place (·.header · decl)
  | .annotate place decl => session.proceed place (·.annotate · decl)
  | .field place decl => session.proceed place (·.field · decl)
  | .method place decl => session.proceed place (·.method · decl)
  | .finish place => session.proceed place (·.finish ·)
  | .accept place decl => session.enterAt place decl

/-- The session after a list of acts. -/
def run
    (session : Session)
    (acts : List Act) :
    Session :=
  acts.foldl step session

end Session

/-! ## The worklist -/

/-- What taking and handling names preserve holds after all of them. -/
theorem workThrough_keeps
    (Holds : σ → Prop)
    {next? : σ → Option (TypeName × σ)}
    {handle : TypeName → σ → σ}
    (takes :
      ∀ state name rest, Holds state → next? state = some (name, rest) →
        Holds rest)
    (handles : ∀ name state, Holds state → Holds (handle name state))
    (fuel : Nat)
    {state : σ}
    (start : Holds state) :
    Holds (workThrough next? handle fuel state) := by
  induction fuel generalizing state with
  | zero =>
      exact start
  | succ fuel inductionHypothesis =>
      unfold workThrough
      split
      · exact start
      · next name rest taken =>
          apply inductionHypothesis
          exact handles name rest (takes state name rest start taken)

/-- The changes that are made while the worklist is drained. -/
def Change.Drains : Change → Prop
  | .mention _ _ => True
  | .take => True
  | _ => False

namespace Store

theorem nextPending?_eq_take
    {store rest : Store}
    {name : TypeName}
    (taken : store.nextPending? = some (name, rest)) :
    rest = Change.take.apply store := by
  unfold nextPending? at taken
  split at taken
  · simp at taken
  · next pending =>
      simp only [Option.some.injEq, Prod.mk.injEq] at taken
      rw [← taken.2]
      simp [Change.apply, pending]

/-- A drain takes names off the worklist and mentions names. -/
theorem drain_scripted
    (store : Store)
    (mentions : List (TypeName × List TypeName)) :
    ∃ script : List Change,
      (∀ change ∈ script, change.Drains) ∧
        (store.drain mentions).store = store.replay script := by
  unfold drain
  refine workThrough_keeps
    (fun state : Drained =>
      ∃ script : List Change,
        (∀ change ∈ script, change.Drains) ∧
          state.store = store.replay script)
    ?_ ?_ _ ⟨[], by simp, rfl⟩
  · rintro state name rest ⟨script, drains, replayed⟩ taken
    simp only [Option.map_eq_some_iff, Prod.mk.injEq, Prod.exists] at taken
    obtain ⟨_, left, next, -, rfl⟩ := taken
    refine ⟨script ++ [.take], ?_, ?_⟩
    · simpa [or_imp, forall_and] using ⟨drains, trivial⟩
    · rw [nextPending?_eq_take next, replayed, replay_append]
      rfl
  · rintro name state ⟨script, drains, replayed⟩
    dsimp only
    split
    · exact ⟨script, drains, replayed⟩
    · refine ⟨script ++ ((mentions.lookup name).getD []).map (.mention · none),
        ?_, ?_⟩
      · intro change member
        rcases List.mem_append.mp member with early | late
        · exact drains change early
        · obtain ⟨mentioned, -, rfl⟩ := List.mem_map.mp late
          trivial
      · rw [replay_append, ← replayed, replay, List.foldl_map]
        rfl

end Store

/-! ## Acts -/

namespace Session

theorem proceed_builds
    (session : Session)
    (place : Nat)
    {decls : List ClassDecl}
    {step : Visit → Atlas → Outcome α}
    (builds :
      ∀ visit atlas,
        Store.Builds decls atlas.store (step visit atlas).atlas.store) :
    Store.Builds decls session.atlas.store
      (session.proceed place step).atlas.store := by
  unfold proceed
  split
  · exact .refl _
  · exact builds _ _

/-- Every act builds with the supertypes of the declaration it hands in. -/
theorem step_builds
    (session : Session)
    (act : Act) :
    Store.Builds act.decl?.toList session.atlas.store
      (session.step act).atlas.store := by
  cases act with
  | configure settings =>
      exact .refl _
  | mention name hint =>
      exact .single (.mention name hint) trivial trivial
  | define name category =>
      simp only [step]
      split
      · next store defined =>
          obtain ⟨allowed, rfl⟩ := Store.define_eq_ok_iff.mp defined
          exact .single (.file name category) trivial allowed
      · exact .refl _
  | take =>
      simp only [step]
      split
      · next taken =>
          rw [Store.nextPending?_eq_take taken]
          exact .single .take trivial trivial
      · exact .refl _
  | drain mentions =>
      obtain ⟨script, drains, replayed⟩ :=
        session.atlas.store.drain_scripted mentions
      simp only [step, withStore, replayed]
      refine Store.builds_replay (fun change member => ?_) _
      cases change with
      | mention _ _ | take =>
          exact ⟨trivial, fun _ => trivial⟩
      | file _ _ | found _ _ | claim _ _ | link _ _ | mark _ _ | amend _ _ =>
          exact (drains _ member).elim
  | visit location isApplication =>
      exact .refl _
  | header place decl =>
      exact session.proceed_builds place
        fun visit atlas => visit.header_builds atlas decl
  | annotate place decl =>
      exact session.proceed_builds place
        fun visit atlas => visit.annotate_builds atlas decl
  | field place decl =>
      exact session.proceed_builds place
        fun visit atlas => visit.field_builds atlas decl
  | method place decl =>
      exact session.proceed_builds place
        fun visit atlas => visit.method_builds atlas decl
  | finish place =>
      exact session.proceed_builds place
        fun visit atlas => visit.finish_builds atlas
  | accept place decl =>
      simp only [step, enterAt]
      split
      · exact .refl _
      · next visit _ =>
          exact visit.accept_builds _ decl

/-- A session builds with the supertypes of all declarations handed in. -/
theorem run_builds
    (session : Session)
    (acts : List Act) :
    Store.Builds (acts.filterMap Act.decl?) session.atlas.store
      (session.run acts).atlas.store := by
  induction acts generalizing session with
  | nil =>
      exact .refl _
  | cons act acts inductionHypothesis =>
      have first := session.step_builds act
      have rest := inductionHypothesis (session.step act)
      refine (first.mono ?_).trans (rest.mono ?_)
      · intro decl member
        simp only [Option.mem_toList] at member
        exact List.mem_filterMap.mpr ⟨act, by simp, member⟩
      · intro decl member
        obtain ⟨other, present, handed⟩ := List.mem_filterMap.mp member
        exact List.mem_filterMap.mpr
          ⟨other, List.mem_cons_of_mem _ present, handed⟩

/-- A session changes the store by allowed changes only. -/
theorem run_evolves
    (session : Session)
    (acts : List Act) :
    Store.Evolves session.atlas.store (session.run acts).atlas.store :=
  (session.run_builds acts).evolves

theorem run_append
    (session : Session)
    (first second : List Act) :
    session.run (first ++ second) = (session.run first).run second := by
  simp [run]

end Session

end TypeAtlas
