import TypeAtlas.Proofs.Entering.Skipping
import TypeAtlas.Proofs.Entering.Unkept
import TypeAtlas.Proofs.Session

namespace TypeAtlas

/-!
# The protocol of a visit

A visit takes calls in a fixed order: headers until one succeeds, annotations,
fields and methods, and an end. Calls out of turn are misuse. What is in turn is
settled by the stage of the visit alone, and the stage is what the calls so far
have spelled, those apart that were misuse: a header that fails leaves the visit
at its start, but a member that fails has begun the members all the same.

The calls of one visit may be mixed with anything else that is done in its
session, with the calls of other visits too. So the calls of a visit are read
off a whole session.
-/

/-! ## Calls -/

/-- A call of a visit, with what is handed in. -/
inductive Call where
  | header (decl : ClassDecl)
  | annotate (decl : AnnotationDecl)
  | field (decl : FieldDecl)
  | method (decl : MethodDecl)
  | finish

/-- What a call leaves behind, and the problem that it failed with. -/
structure Reply where
  visit : Visit
  atlas : Atlas
  problem? : Option Problem

/-- Whether a call failed because it was misuse. -/
def Reply.isMisuse (reply : Reply) : Bool :=
  reply.problem?.any (·.isMisuse)

/-- The reply that an outcome gives, whatever it answers. -/
def Outcome.reply (outcome : Outcome α) : Reply :=
  { visit := outcome.visit
    atlas := outcome.atlas
    problem? :=
      match outcome.answer with
      | .ok _ => none
      | .error problem => some problem }

/-- The reply to a call. -/
def Visit.call
    (visit : Visit)
    (atlas : Atlas) :
    Call → Reply
  | .header decl => (visit.header atlas decl).reply
  | .annotate decl => (visit.annotate atlas decl).reply
  | .field decl => (visit.field atlas decl).reply
  | .method decl => (visit.method atlas decl).reply
  | .finish => (visit.finish atlas).reply

/-- What a call that was let through spells. -/
inductive Letter where
  | failedHeader
  | header
  | annotate
  | field
  | method
  | finish
  deriving Repr, DecidableEq

/-- Whether a letter stands for a member. -/
def Letter.isMember : Letter → Bool
  | field => true
  | method => true
  | _ => false

/-- The letter of a call that was let through, by what it failed with. -/
def Call.letter
    (problem? : Option Problem) :
    Call → Letter
  | header _ => if problem?.isSome then .failedHeader else .header
  | annotate _ => .annotate
  | field _ => .field
  | method _ => .method
  | finish => .finish

/-- A call that was made, and the problem that it failed with. -/
structure Record where
  call : Call
  problem? : Option Problem

/-- What a record spells; calls that were misuse spell nothing. -/
def Record.letter? (record : Record) : Option Letter :=
  if record.problem?.any (·.isMisuse) then
    none
  else
    some (record.call.letter record.problem?)

/-- What the calls so far spell. -/
def spelling (past : List Record) : List Letter :=
  past.filterMap (·.letter?)

/--
Whether a call is out of turn, by what the calls before it spell: a header is
after a successful one, and always for the root type; an annotation is before a
successful header, and after a member or the end; a member or the end is before
a successful header, and after the end.
-/
def Call.OutOfTurn
    (word : List Letter) :
    Call → Prop
  | .header decl => .header ∈ word ∨ decl.name = TypeName.root
  | .annotate _ =>
      .header ∉ word ∨ ∃ letter ∈ word, letter.isMember ∨ letter = .finish
  | .field _ | .method _ | .finish => .header ∉ word ∨ .finish ∈ word

/--
The word that a whole visit spells: failed headers, a header, annotations,
members, an end.
-/
def wholeVisit
    (failed annotations : Nat)
    (members : List Letter) :
    List Letter :=
  List.replicate failed .failedHeader ++ .header ::
    List.replicate annotations .annotate ++ members ++ [.finish]

/-! ## Stages -/

/-- What has been spelled when a visit is at a stage. -/
def Stage.Spelled : Stage → List Letter → Prop
  | .start, word =>
      ∃ failed, word = List.replicate failed .failedHeader
  | .header, word =>
      ∃ failed annotations,
        word = List.replicate failed .failedHeader ++
          .header :: List.replicate annotations .annotate
  | .members, word =>
      ∃ failed annotations members,
        members ≠ [] ∧
          (∀ letter ∈ members, letter.isMember = true) ∧
          word = List.replicate failed .failedHeader ++
            .header :: List.replicate annotations .annotate ++ members
  | .ended, word =>
      ∃ failed annotations members,
        (∀ letter ∈ members, letter.isMember = true) ∧
          word = wholeVisit failed annotations members

/-- The stage of a visit after a letter was spelled. -/
def Letter.stage : Letter → Stage
  | failedHeader => .start
  | header => .header
  | annotate => .header
  | field => .members
  | method => .members
  | finish => .ended

/-- Whether a letter can be spelled at a stage. -/
def Letter.Follows (stage : Stage) : Letter → Prop
  | failedHeader | header => stage = .start
  | annotate => stage = .header
  | field | method | finish => stage = .header ∨ stage = .members

/-- The calls that are misuse at a stage. -/
def Stage.Refuses (stage : Stage) : Call → Prop
  | .header decl => stage ≠ .start ∨ decl.name = TypeName.root
  | .annotate _ => stage ≠ .header
  | .field _ | .method _ | .finish => stage = .start ∨ stage = .ended

namespace Stage.Spelled

variable {stage : Stage} {word : List Letter}

theorem header_mem_iff
    (spelled : stage.Spelled word) :
    .header ∈ word ↔ stage ≠ .start := by
  cases stage with
  | start =>
      obtain ⟨failed, rfl⟩ := spelled
      simp
  | header =>
      obtain ⟨failed, annotations, rfl⟩ := spelled
      simp
  | members =>
      obtain ⟨failed, annotations, members, -, -, rfl⟩ := spelled
      simp
  | ended =>
      obtain ⟨failed, annotations, members, -, rfl⟩ := spelled
      simp [wholeVisit]

theorem finish_mem_iff
    (spelled : stage.Spelled word) :
    .finish ∈ word ↔ stage = .ended := by
  cases stage with
  | start =>
      obtain ⟨failed, rfl⟩ := spelled
      simp
  | header =>
      obtain ⟨failed, annotations, rfl⟩ := spelled
      simp
  | members =>
      obtain ⟨failed, annotations, members, -, ofMembers, rfl⟩ := spelled
      have absent : Letter.finish ∉ members :=
        fun member => absurd (ofMembers _ member) (by decide)
      simp [absent]
  | ended =>
      obtain ⟨failed, annotations, members, -, rfl⟩ := spelled
      simp [wholeVisit]

/-- The members have begun once a member or the end is spelled. -/
theorem beyond_iff
    (spelled : stage.Spelled word) :
    (∃ letter ∈ word, letter.isMember ∨ letter = .finish) ↔
      stage = .members ∨ stage = .ended := by
  cases stage with
  | start =>
      obtain ⟨failed, rfl⟩ := spelled
      simp [Letter.isMember]
  | header =>
      obtain ⟨failed, annotations, rfl⟩ := spelled
      refine iff_of_false ?_ (by simp)
      rintro ⟨letter, member, beyond⟩
      simp only [List.mem_append, List.mem_cons, List.mem_replicate] at member
      rcases member with ⟨-, rfl⟩ | rfl | ⟨-, rfl⟩ <;>
        simp [Letter.isMember] at beyond
  | members =>
      obtain ⟨failed, annotations, members, begun, ofMembers, rfl⟩ := spelled
      obtain ⟨letter, member⟩ := List.exists_mem_of_ne_nil members begun
      exact iff_of_true
        ⟨letter, List.mem_append_right _ member,
          Or.inl (ofMembers letter member)⟩
        (Or.inl rfl)
  | ended =>
      exact iff_of_true
        ⟨.finish, (finish_mem_iff spelled).mpr rfl, Or.inr rfl⟩ (Or.inr rfl)

/-- What is out of turn by the calls so far is what the stage refuses. -/
theorem outOfTurn_iff
    (spelled : stage.Spelled word)
    (call : Call) :
    call.OutOfTurn word ↔ stage.Refuses call := by
  cases call with
  | header decl =>
      rw [Call.OutOfTurn, Refuses, spelled.header_mem_iff]
  | annotate decl =>
      rw [Call.OutOfTurn, Refuses, spelled.header_mem_iff, spelled.beyond_iff]
      cases stage <;> simp
  | field _ | method _ | finish =>
      rw [Call.OutOfTurn, Refuses, spelled.header_mem_iff,
        spelled.finish_mem_iff, not_not]

/-- Members may follow annotations or other members. -/
theorem members
    (spelled : stage.Spelled word)
    (opened : stage = .header ∨ stage = .members) :
    ∃ failed annotations members,
      (∀ letter ∈ members, letter.isMember = true) ∧
        word = List.replicate failed .failedHeader ++
          .header :: List.replicate annotations .annotate ++ members := by
  rcases opened with rfl | rfl
  · obtain ⟨failed, annotations, rfl⟩ := spelled
    exact ⟨failed, annotations, [], by simp, by simp⟩
  · obtain ⟨failed, annotations, members, -, ofMembers, rfl⟩ := spelled
    exact ⟨failed, annotations, members, ofMembers, rfl⟩

/-- One more letter brings the visit to the stage of the letter. -/
theorem extend
    (spelled : stage.Spelled word)
    {letter : Letter}
    (follows : letter.Follows stage) :
    letter.stage.Spelled (word ++ [letter]) := by
  cases letter with
  | failedHeader =>
      obtain rfl : stage = .start := follows
      obtain ⟨failed, rfl⟩ := spelled
      exact ⟨failed + 1, List.replicate_succ'.symm⟩
  | header =>
      obtain rfl : stage = .start := follows
      obtain ⟨failed, rfl⟩ := spelled
      exact ⟨failed, 0, rfl⟩
  | annotate =>
      obtain rfl : stage = .header := follows
      obtain ⟨failed, annotations, rfl⟩ := spelled
      exact ⟨failed, annotations + 1, by simp [List.replicate_succ']⟩
  | field | method =>
      obtain ⟨failed, annotations, members, ofMembers, rfl⟩ :=
        spelled.members follows
      refine ⟨failed, annotations, members ++ [_], by simp, ?_,
        List.append_assoc ..⟩
      intro letter member
      rcases List.mem_append.mp member with old | new
      · exact ofMembers letter old
      · rw [List.mem_singleton.mp new]
        rfl
  | finish =>
      obtain ⟨failed, annotations, members, ofMembers, rfl⟩ :=
        spelled.members follows
      exact ⟨failed, annotations, members, ofMembers, rfl⟩

/-- Whatever the stage, a whole visit may still be spelled. -/
theorem isPrefix
    (spelled : stage.Spelled word) :
    ∃ failed annotations members,
      (∀ letter ∈ members, letter.isMember = true) ∧
        word <+: wholeVisit failed annotations members := by
  cases stage with
  | start =>
      obtain ⟨failed, rfl⟩ := spelled
      exact ⟨failed, 0, [], by simp, by simp [wholeVisit]⟩
  | header =>
      obtain ⟨failed, annotations, rfl⟩ := spelled
      exact ⟨failed, annotations, [], by simp, by simp [wholeVisit]⟩
  | members =>
      obtain ⟨failed, annotations, members, -, ofMembers, rfl⟩ := spelled
      exact ⟨failed, annotations, members, ofMembers, by simp [wholeVisit]⟩
  | ended =>
      obtain ⟨failed, annotations, members, ofMembers, rfl⟩ := spelled
      exact ⟨failed, annotations, members, ofMembers, List.prefix_rfl⟩

end Stage.Spelled

/-! ## One call -/

namespace Visit

theorem openMembers?_eq_none_iff
    {visit : Visit} :
    visit.openMembers? = none ↔
      visit.progress.stage = .start ∨ visit.progress.stage = .ended := by
  unfold openMembers?
  cases visit.progress <;> simp [Progress.stage]

/-- The members are open between the header and the end. -/
theorem exists_openMembers?
    {visit : Visit}
    (between :
      ¬ (visit.progress.stage = .start ∨ visit.progress.stage = .ended)) :
    (visit.progress.stage = .header ∨ visit.progress.stage = .members) ∧
      ∃ current, visit.openMembers? = some current := by
  rw [← openMembers?_eq_none_iff] at between
  refine ⟨?_, Option.ne_none_iff_exists'.mp between⟩
  rw [openMembers?_eq_none_iff] at between
  cases reached : visit.progress.stage <;> simp_all

end Visit

/-- A call that goes on: it is no misuse, and the visit is at a stage then. -/
structure Reply.Proceeds
    (reply : Reply)
    (stage : Stage) :
    Prop where
  inTurn : reply.isMisuse = false
  reached : reply.visit.progress.stage = stage

namespace Visit

/-- A header of a type that can be modelled goes on, whether it fails or not. -/
theorem header_proceeds
    {visit : Visit}
    (fresh : visit.progress = .start)
    (atlas : Atlas)
    {decl : ClassDecl}
    (tracked : decl.name ≠ TypeName.root) :
    let reply := (visit.header atlas decl).reply
    reply.Proceeds ((Call.header decl).letter reply.problem?).stage := by
  -- The only problem of such a header is a conflict, which is no misuse.
  have failing :
      ∀ after problem, visit.header atlas decl =
          ⟨visit, after, .error problem⟩ →
        (visit.header atlas decl).reply.Proceeds .start := by
    intro after problem refused
    obtain ⟨-, existing, rfl⟩ :=
      header_conflict fresh tracked (congrArg Outcome.answer refused)
    rw [refused]
    exact ⟨rfl, congrArg Progress.stage fresh⟩
  by_cases filed : (Change.file decl.name decl.category).Allowed atlas.store
  · by_cases claimed :
        (Change.claim decl.name decl.category).Allowed
          (atlas.store.replay (founding decl))
    · rw [header_of_claimed fresh filed claimed]
      exact ⟨rfl, rfl⟩
    · obtain ⟨problem, refused⟩ := header_of_not_claimed fresh filed claimed
      have proceeds := failing _ _ refused
      rw [refused] at proceeds ⊢
      exact proceeds
  · obtain ⟨problem, refused⟩ := header_of_not_filed fresh filed
    have proceeds := failing _ _ refused
    rw [refused] at proceeds ⊢
    exact proceeds

theorem annotate_proceeds
    {visit : Visit}
    (headed : visit.progress.stage = .header)
    (atlas : Atlas)
    (decl : AnnotationDecl) :
    (visit.annotate atlas decl).reply.Proceeds .header := by
  unfold annotate
  cases reached : visit.progress with
  | header current =>
      dsimp only
      split
      · exact ⟨rfl, by rw [← headed]; rfl⟩
      · exact ⟨rfl, rfl⟩
  | start | members _ | ended =>
      simp [reached, Progress.stage] at headed

/-- A member that is settled is in turn, even if its descriptor is malformed. -/
theorem isMisuse_of_settles
    {problem : Problem}
    (ofMember : problem.isMisuse = false)
    {step : Filing (Except Problem (Option α))}
    {store : Store}
    (settles : Filing.Settles problem step store)
    (visit : Visit)
    (atlas : Atlas) :
    (Outcome.mk visit atlas (step.run store).1).reply.isMisuse = false := by
  rcases settles with failed | dropped | ⟨kept, answered⟩
  · rw [failed]
    exact ofMember
  · rw [dropped]
    rfl
  · rw [answered]
    rfl

theorem field_proceeds
    {visit : Visit}
    {current : Current}
    (opened : visit.openMembers? = some current)
    (atlas : Atlas)
    (decl : FieldDecl) :
    (visit.field atlas decl).reply.Proceeds .members := by
  unfold field
  rw [opened]
  dsimp only
  split
  · exact ⟨rfl, rfl⟩
  · split
    · split <;> exact ⟨rfl, rfl⟩
    · have settles := Filing.enterField_settles atlas.settings current.name
        decl atlas.store
      exact ⟨isMisuse_of_settles rfl settles _ _, rfl⟩

theorem method_proceeds
    {visit : Visit}
    {current : Current}
    (opened : visit.openMembers? = some current)
    (atlas : Atlas)
    (decl : MethodDecl) :
    (visit.method atlas decl).reply.Proceeds .members := by
  unfold method
  rw [opened]
  dsimp only
  split
  · exact ⟨rfl, rfl⟩
  · generalize (if current.category = .annotationType then
        (atlas.file (Filing.enterDefault current.name decl)).2
      else atlas) = recorded
    split
    · have settles := Filing.enterMethod_settles recorded.settings
        current.name decl recorded.store
      exact ⟨isMisuse_of_settles rfl settles _ _, rfl⟩
    · exact ⟨rfl, rfl⟩

theorem finish_proceeds
    {visit : Visit}
    {current : Current}
    (opened : visit.openMembers? = some current)
    (atlas : Atlas) :
    (visit.finish atlas).reply.Proceeds .ended := by
  unfold finish
  rw [opened]
  exact ⟨rfl, rfl⟩

/-- A call that its stage refuses is misuse, and changes nothing. -/
theorem call_refused
    {visit : Visit}
    {call : Call}
    (refused : visit.progress.stage.Refuses call)
    (atlas : Atlas) :
    (visit.call atlas call).isMisuse = true ∧
      (visit.call atlas call).visit = visit ∧
      (visit.call atlas call).atlas = atlas := by
  cases call with
  | header decl =>
      simp only [call, header]
      cases reached : visit.progress with
      | start =>
          have isRoot : decl.name = TypeName.root := by
            simpa [Stage.Refuses, reached, Progress.stage] using refused
          simp [Store.define, isRoot, Outcome.reply, Reply.isMisuse,
            Problem.isMisuse]
      | header _ | members _ | ended =>
          exact ⟨rfl, rfl, rfl⟩
  | annotate decl =>
      simp only [call, annotate]
      cases reached : visit.progress with
      | header _ =>
          simp [Stage.Refuses, reached, Progress.stage] at refused
      | start | members _ | ended =>
          exact ⟨rfl, rfl, rfl⟩
  | field decl =>
      simp only [call, field, openMembers?_eq_none_iff.mpr refused]
      exact ⟨rfl, rfl, rfl⟩
  | method decl =>
      simp only [call, method, openMembers?_eq_none_iff.mpr refused]
      exact ⟨rfl, rfl, rfl⟩
  | finish =>
      simp only [call, finish, openMembers?_eq_none_iff.mpr refused]
      exact ⟨rfl, rfl, rfl⟩

/-- A call that its stage does not refuse goes on to the stage of its letter. -/
theorem call_proceeds
    {visit : Visit}
    {call : Call}
    (inTurn : ¬ visit.progress.stage.Refuses call)
    (atlas : Atlas) :
    let reply := visit.call atlas call
    (call.letter reply.problem?).Follows visit.progress.stage ∧
      reply.Proceeds (call.letter reply.problem?).stage := by
  cases call with
  | header decl =>
      obtain ⟨start, tracked⟩ := not_or.mp inTurn
      have fresh : visit.progress = .start := by
        cases reached : visit.progress <;>
          simp [reached, Progress.stage] at start ⊢
      refine ⟨?_, header_proceeds fresh atlas tracked⟩
      dsimp only [Call.letter]
      split <;> exact not_not.mp start
  | annotate decl =>
      have headed := not_not.mp inTurn
      exact ⟨headed, annotate_proceeds headed atlas decl⟩
  | field decl =>
      obtain ⟨between, current, opened⟩ := exists_openMembers? inTurn
      exact ⟨between, field_proceeds opened atlas decl⟩
  | method decl =>
      obtain ⟨between, current, opened⟩ := exists_openMembers? inTurn
      exact ⟨between, method_proceeds opened atlas decl⟩
  | finish =>
      obtain ⟨between, current, opened⟩ := exists_openMembers? inTurn
      exact ⟨between, finish_proceeds opened atlas⟩

/-- A call is misuse exactly if its stage refuses it. -/
theorem isMisuse_call_iff
    (visit : Visit)
    (atlas : Atlas)
    (call : Call) :
    (visit.call atlas call).isMisuse = true ↔
      visit.progress.stage.Refuses call := by
  constructor
  · intro misuse
    by_contra inTurn
    have proceeds := (call_proceeds inTurn atlas).2
    simp [proceeds.inTurn] at misuse
  · intro refused
    exact (call_refused refused atlas).1

/-- What has been spelled after a call brings the visit to where it is then. -/
theorem spelled_call
    {visit : Visit}
    {past : List Record}
    (spelled : visit.progress.stage.Spelled (spelling past))
    (atlas : Atlas)
    (call : Call) :
    (visit.call atlas call).visit.progress.stage.Spelled
      (spelling (past ++ [⟨call, (visit.call atlas call).problem?⟩])) := by
  by_cases refused : visit.progress.stage.Refuses call
  · obtain ⟨misuse, stays, -⟩ := call_refused refused atlas
    have silent :
        (Record.mk call (visit.call atlas call).problem?).letter? = none :=
      if_pos misuse
    rw [stays, spelling, List.filterMap_append, List.filterMap_cons, silent]
    simpa [spelling] using spelled
  · obtain ⟨follows, proceeds⟩ := call_proceeds refused atlas
    have spells :
        (Record.mk call (visit.call atlas call).problem?).letter? =
          some (call.letter (visit.call atlas call).problem?) :=
      if_neg (Bool.eq_false_iff.mp proceeds.inTurn)
    rw [proceeds.reached, spelling, List.filterMap_append, List.filterMap_cons,
      spells]
    exact spelled.extend follows

end Visit

/-! ## The calls of a session -/

/-- The call that an act makes of the visit at a place. -/
def Act.callAt?
    (place : Nat) :
    Act → Option Call
  | .header other decl =>
      if other = place then some (.header decl) else none
  | .annotate other decl =>
      if other = place then some (.annotate decl) else none
  | .field other decl =>
      if other = place then some (.field decl) else none
  | .method other decl =>
      if other = place then some (.method decl) else none
  | .finish other =>
      if other = place then some .finish else none
  | _ => none

namespace Session

/-- The record of an act, if it is a call of the visit at a place. -/
def record?
    (session : Session)
    (place : Nat)
    (act : Act) :
    Option Record :=
  session.visits[place]?.bind fun visit =>
    (act.callAt? place).map fun call =>
      ⟨call, (visit.call session.atlas call).problem?⟩

/-- The calls that acts make of the visit at a place, from first to last. -/
def history
    (place : Nat) :
    Session → List Act → List Record
  | _, [] => []
  | session, act :: acts =>
      (session.record? place act).toList ++
        history place (session.step act) acts

/-- A call of a visit changes the visit and the atlas as the reply says. -/
theorem step_of_call
    {session : Session}
    {place : Nat}
    {visit : Visit}
    (here : session.visits[place]? = some visit)
    {act : Act}
    {call : Call}
    (calls : act.callAt? place = some call) :
    session.step act =
      { atlas := (visit.call session.atlas call).atlas
        visits :=
          session.visits.set place (visit.call session.atlas call).visit } := by
  unfold Act.callAt? at calls
  cases act with
  | header other decl | annotate other decl | field other decl
  | method other decl | finish other =>
      simp only [Option.ite_none_right_eq_some, Option.some.injEq] at calls
      obtain ⟨rfl, rfl⟩ := calls
      simp [step, proceed, here, Visit.call, Outcome.reply]
  | configure _ | mention _ _ | define _ _ | take | drain _ | visit _ _
  | accept _ _ =>
      simp at calls

/-- A visit elsewhere, or one that was not begun, is not this one. -/
theorem visits_proceed
    {session : Session}
    {place other : Nat}
    (apart : other = place → session.visits[place]? = none)
    (step : Visit → Atlas → Outcome α) :
    (session.proceed other step).visits[place]? = session.visits[place]? := by
  unfold proceed
  split
  · rfl
  · next visit here =>
      refine List.getElem?_set_ne fun same => ?_
      rw [same, apart same] at here
      simp at here

/-- Acts that are no calls of a visit leave it alone, or begin it. -/
theorem visits_step_of_no_call
    {session : Session}
    {place : Nat}
    {act : Act}
    (silent : session.record? place act = none) :
    (session.step act).visits[place]? = session.visits[place]? ∨
      session.visits[place]? = none ∧
        ∃ visit : Visit,
          (session.step act).visits[place]? = some visit ∧
            visit.progress = .start := by
  cases act with
  | header other decl | annotate other decl | field other decl
  | method other decl | finish other =>
      refine Or.inl (visits_proceed (fun same => ?_) _)
      subst same
      cases here : session.visits[other]? with
      | none =>
          rfl
      | some visit =>
          simp [record?, Act.callAt?, here] at silent
  | visit location isApplication =>
      rcases Nat.lt_trichotomy place session.visits.length with
        before | rfl | beyond
      · exact Or.inl (List.getElem?_append_left before)
      · exact Or.inr ⟨List.getElem?_eq_none (Nat.le_refl _), _,
          List.getElem?_concat_length, rfl⟩
      · refine Or.inl ?_
        simp only [step]
        rw [List.getElem?_eq_none (by simp; omega),
          List.getElem?_eq_none (by omega)]
  | define name category | take =>
      simp only [step]
      split <;> exact Or.inl rfl
  | accept other decl =>
      simp only [step, enterAt]
      split <;> exact Or.inl rfl
  | configure _ | mention _ _ | drain _ =>
      exact Or.inl rfl

/-- The visit at a place is where the calls so far have brought it. -/
def InTurn
    (session : Session)
    (place : Nat)
    (past : List Record) :
    Prop :=
  match session.visits[place]? with
  | none => past = []
  | some visit => visit.progress.stage.Spelled (spelling past)

theorem InTurn.step
    {session : Session}
    {place : Nat}
    {past : List Record}
    (inTurn : session.InTurn place past)
    (act : Act) :
    (session.step act).InTurn place
      (past ++ (session.record? place act).toList) := by
  unfold InTurn at *
  cases recorded : session.record? place act with
  | none =>
      rw [Option.toList_none, List.append_nil]
      rcases visits_step_of_no_call recorded with
        same | ⟨absent, visit, begun, start⟩
      · rw [same]
        exact inTurn
      · simp only [absent] at inTurn
        simp only [begun, start, inTurn]
        exact ⟨0, rfl⟩
  | some record =>
      obtain ⟨visit, here, made⟩ := Option.bind_eq_some_iff.mp recorded
      obtain ⟨call, calls, rfl⟩ := Option.map_eq_some_iff.mp made
      have within : place < session.visits.length :=
        (List.getElem?_eq_some_iff.mp here).1
      simp only [here] at inTurn
      rw [step_of_call here calls, List.getElem?_set_self within]
      exact Visit.spelled_call inTurn session.atlas call

theorem InTurn.run
    {session : Session}
    {place : Nat}
    {past : List Record}
    (inTurn : session.InTurn place past)
    (acts : List Act) :
    (session.run acts).InTurn place (past ++ history place session acts) := by
  induction acts generalizing session past with
  | nil =>
      rw [history, List.append_nil]
      exact inTurn
  | cons act acts inductionHypothesis =>
      rw [history, ← List.append_assoc]
      exact inductionHypothesis (inTurn.step act)

/--
In every session, whatever else is done in it, a call of a visit is misuse
exactly if it is out of turn by the calls of the visit before it, and misuse
changes nothing, neither the visit nor the atlas. So the calls that were let
through spell failed headers, a header, annotations, fields and methods, and an
end, as far as they go.
-/
theorem visits_follow_protocol
    (acts : List Act)
    (place : Nat) :
    let session := run {} acts
    let word := spelling (history place {} acts)
    (∃ failed annotations members,
      (∀ letter ∈ members, letter.isMember = true) ∧
        word <+: wholeVisit failed annotations members) ∧
      ∀ visit ∈ session.visits[place]?, ∀ call,
        let reply := visit.call session.atlas call
        (reply.isMisuse = true ↔ call.OutOfTurn word) ∧
          (reply.isMisuse = true →
            reply.visit = visit ∧ reply.atlas = session.atlas) := by
  intro session word
  have started : InTurn {} place [] := rfl
  have inTurn : session.InTurn place (history place {} acts) :=
    started.run acts
  unfold InTurn at inTurn
  cases here : session.visits[place]? with
  | none =>
      simp only [here] at inTurn
      refine ⟨⟨0, 0, [], by simp, ?_⟩, by simp⟩
      simp [word, inTurn, spelling]
  | some visit =>
      simp only [here] at inTurn
      refine ⟨inTurn.isPrefix, fun other member call => ?_⟩
      obtain rfl : visit = other := by simpa using member
      refine ⟨?_, fun misuse => ?_⟩
      · rw [inTurn.outOfTurn_iff, Visit.isMisuse_call_iff]
      · rw [Visit.isMisuse_call_iff] at misuse
        exact (Visit.call_refused misuse session.atlas).2

/--
A visit in which every kind of call is out of turn once: an annotation before
the header, a header for a type that is modelled otherwise and one for the root
type, a second header, an annotation after a member that failed, and a field
after the end. One visit was accepted before it, another comes in between.
-/
def tangledActs : List Act :=
  [.visit none true, .accept 0 { access := 0x0601, name := "c.Taken" },
    .visit none true, .annotate 1 ⟨"Lc/Mark;", true, []⟩,
    .header 1 { access := 0x0001, name := "c.Taken" },
    .header 1 { access := 0x0001, name := TypeName.root },
    .header 1 { access := 0x0001, name := "c.Type" },
    .visit none true, .header 2 { access := 0x0001, name := "c.Other" },
    .header 1 { access := 0x0001, name := "c.Again" },
    .annotate 1 ⟨"Lc/Mark;", true, []⟩,
    .field 1 { access := 0x0002, name := "broken", descriptor := "?" },
    .annotate 1 ⟨"Lc/Late;", true, []⟩, .finish 1,
    .field 1 { access := 0x0002, name := "late", descriptor := "I" }]

theorem visits_follow_protocol_tangled :
    let session := run {} tangledActs
    let word := spelling (history 1 {} tangledActs)
    word = [.failedHeader, .header, .annotate, .field, .finish] ∧
      (history 1 {} tangledActs).length = 10 ∧
      (∃ failed annotations members,
        (∀ letter ∈ members, letter.isMember = true) ∧
          word <+: wholeVisit failed annotations members) ∧
      ∀ visit ∈ session.visits[1]?,
        (visit.call session.atlas .finish).isMisuse = true ∧
          (visit.call session.atlas .finish).atlas = session.atlas := by
  intro session word
  have spelled :
      word = [.failedHeader, .header, .annotate, .field, .finish] := by
    decide +kernel
  obtain ⟨whole, replies⟩ := visits_follow_protocol tangledActs 1
  refine ⟨spelled, by decide +kernel, whole, fun visit here => ?_⟩
  obtain ⟨misuse, unchanged⟩ := replies visit here .finish
  have ended : (visit.call session.atlas .finish).isMisuse = true :=
    misuse.mpr (Or.inr (by rw [show spelling _ = _ from spelled]; decide))
  exact ⟨ended, (unchanged ended).2⟩

end Session

end TypeAtlas
