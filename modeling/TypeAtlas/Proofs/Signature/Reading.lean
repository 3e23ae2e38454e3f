import Mathlib.Data.List.TakeWhile
import TypeAtlas.Proofs.Signature.Unambiguity

namespace TypeAtlas.Signature

/-!
# What is read is in the grammar

A walk that succeeds has read the text of a tree and has reported the events
of that tree. What a single step does when it succeeds is said once, as an
equivalence, and a walk is taken apart into its steps with these.
-/

/-! ## Steps that succeed -/

/-- What a step gives at a cursor, and the cursor it leaves. -/
def Scan.at
    (step : Scan α)
    (cursor : Cursor) :
    Except Fault α × Cursor :=
  step.run.run cursor

/-- A step succeeds at a cursor with a value, and leaves another cursor. -/
def Succeeds
    (step : Scan α)
    (cursor : Cursor)
    (value : α)
    (after : Cursor) :
    Prop :=
  Scan.at step cursor = (.ok value, after)

/-- A step that fails is the end, behind any other the next one goes on. -/
theorem at_bind
    (first : Scan α)
    (next : α → Scan β)
    (cursor : Cursor) :
    Scan.at (first >>= next) cursor =
      match Scan.at first cursor with
      | (.ok found, between) => Scan.at (next found) between
      | (.error fault, between) => (.error fault, between) := by
  simp only [Scan.at, ExceptT.run_bind, StateT.run_bind]
  generalize first.run.run cursor = ran
  obtain ⟨outcome, between⟩ := ran
  cases outcome <;> rfl

/-- Steps succeed together exactly if each of them succeeds in its turn. -/
theorem succeeds_bind
    {first : Scan α}
    {next : α → Scan β}
    {cursor after : Cursor}
    {value : β} :
    Succeeds (first >>= next) cursor value after ↔
      ∃ found between,
        Succeeds first cursor found between ∧
          Succeeds (next found) between value after := by
  unfold Succeeds
  rw [at_bind]
  cases Scan.at first cursor with
  | mk outcome between =>
      cases outcome with
      | ok found =>
          simp
      | error fault =>
          simp

theorem succeeds_pure
    {cursor after : Cursor}
    {given value : α} :
    Succeeds (pure given) cursor value after ↔
      value = given ∧ after = cursor := by
  have ran : Scan.at (pure given : Scan α) cursor = (.ok given, cursor) :=
    rfl
  simp [Succeeds, ran, eq_comm]

/-- A fault never succeeds. -/
theorem succeeds_throw
    {cursor after : Cursor}
    {fault : Fault}
    {value : α} :
    Succeeds (throw fault) cursor value after ↔ False := by
  have ran :
      Scan.at (throw fault : Scan α) cursor = (.error fault, cursor) :=
    rfl
  simp [Succeeds, ran]

/-- The cursor is given as it is. -/
theorem succeeds_get
    {cursor after value : Cursor} :
    Succeeds get cursor value after ↔
      value = cursor ∧ after = cursor := by
  have ran : Scan.at (get : Scan Cursor) cursor = (.ok cursor, cursor) :=
    rfl
  simp [Succeeds, ran, eq_comm]

/-- An event is added behind the others. -/
theorem succeeds_emit
    {cursor after : Cursor}
    {event : Event}
    {value : Unit} :
    Succeeds (emit event) cursor value after ↔
      after = { cursor with events := cursor.events ++ [event] } := by
  have ran :
      Scan.at (emit event) cursor =
        (.ok (), { cursor with events := cursor.events ++ [event] }) :=
    rfl
  simp [Succeeds, ran, eq_comm]

/-- The cursor after some characters of the text. -/
def Cursor.skip
    (cursor : Cursor)
    (count : Nat) :
    Cursor :=
  { cursor with
    rest := cursor.rest.drop count
    position := cursor.position + Text.byteCount (cursor.rest.take count) }

/-- A move always succeeds. -/
theorem succeeds_advance
    {cursor after : Cursor}
    {count : Nat}
    {value : Unit} :
    Succeeds (advance count) cursor value after ↔
      after = cursor.skip count := by
  have ran : Scan.at (advance count) cursor = (.ok (), cursor.skip count) :=
    rfl
  simp [Succeeds, ran, eq_comm]

/-- A look succeeds where a character is left, and moves nothing. -/
theorem succeeds_peek
    {cursor after : Cursor}
    {c : Char} :
    Succeeds peek cursor c after ↔
      cursor.rest.head? = some c ∧ after = cursor := by
  simp only [peek, succeeds_bind, succeeds_get]
  cases remaining : cursor.rest with
  | nil =>
      simp [remaining, succeeds_throw]
  | cons d rest =>
      simp [remaining, succeeds_pure, eq_comm]

/-- An expected character has to be there, and is stepped over. -/
theorem succeeds_expect
    {cursor after : Cursor}
    {c : Char}
    {value : Unit} :
    Succeeds (expect c) cursor value after ↔
      cursor.rest.head? = some c ∧ after = cursor.skip 1 := by
  simp only [expect, succeeds_bind, succeeds_peek]
  constructor
  · rintro ⟨d, between, ⟨first, rfl⟩, step⟩
    split at step
    · next same =>
        exact ⟨same ▸ first, succeeds_advance.mp step⟩
    · exact absurd step (by simp [succeeds_throw])
  · rintro ⟨first, rfl⟩
    refine ⟨c, cursor, ⟨first, rfl⟩, ?_⟩
    rw [if_pos rfl]
    exact succeeds_advance.mpr rfl

/-- The end is where nothing is left. -/
theorem succeeds_atEnd
    {cursor after : Cursor}
    {value : Bool} :
    Succeeds atEnd cursor value after ↔
      value = cursor.rest.isEmpty ∧ after = cursor := by
  simp only [atEnd, succeeds_bind, succeeds_get, succeeds_pure]
  simp

/-! ## What a step has read -/

/-- A text and events lie between two cursors. -/
structure Between
    (text : List Char)
    (events : List Event)
    (cursor after : Cursor) :
    Prop where
  text : cursor.rest = text ++ after.rest
  events : after.events = cursor.events ++ events

namespace Between

theorem trans
    {text more : List Char}
    {events others : List Event}
    {cursor middle after : Cursor}
    (earlier : Between text events cursor middle)
    (later : Between more others middle after) :
    Between (text ++ more) (events ++ others) cursor after := by
  constructor
  · rw [earlier.text, later.text, List.append_assoc]
  · rw [later.events, earlier.events, List.append_assoc]

theorem refl
    (cursor : Cursor) :
    Between [] [] cursor cursor :=
  ⟨rfl, (List.append_nil _).symm⟩

/-- A character that is looked at and stepped over. -/
theorem advance
    {cursor after : Cursor}
    {c : Char}
    {value : Unit}
    (first : cursor.rest.head? = some c)
    (step : Succeeds (advance 1) cursor value after) :
    Between [c] [] cursor after := by
  obtain rfl := succeeds_advance.mp step
  obtain ⟨rest, same⟩ := List.head?_eq_some_iff.mp first
  exact ⟨by simp [Cursor.skip, same], by simp [Cursor.skip]⟩

/-- Behind an expected character lies that character. -/
theorem expect
    {cursor after : Cursor}
    {c : Char}
    {value : Unit}
    (step : Succeeds (expect c) cursor value after) :
    Between [c] [] cursor after := by
  obtain ⟨first, skipped⟩ := succeeds_expect.mp step
  have stepped : Succeeds (Signature.advance 1) cursor value after :=
    succeeds_advance.mpr skipped
  exact advance first stepped

/-- An event alone reads nothing. -/
theorem emit
    {cursor after : Cursor}
    {event : Event}
    {value : Unit}
    (step : Succeeds (emit event) cursor value after) :
    Between [] [event] cursor after := by
  obtain rfl := succeeds_emit.mp step
  exact ⟨rfl, rfl⟩

end Between

/-- A name is the run up to a stop character, if there are both. -/
theorem succeeds_identifier
    {stops : List Char}
    {cursor after : Cursor}
    {value : String} :
    Succeeds (identifier stops) cursor value after ↔
      let name := cursor.rest.takeWhile (!stops.contains ·)
      name.length ≠ cursor.rest.length ∧
        name ≠ [] ∧
        value = String.ofList name ∧
        after = cursor.skip name.length := by
  simp only [identifier, succeeds_bind, succeeds_get, succeeds_advance]
  constructor
  · rintro ⟨_, _, ⟨rfl, rfl⟩, _, _, rfl, step⟩
    split at step
    · exact absurd step (by simp [succeeds_throw])
    · next goesOn =>
        split at step
        · exact absurd step (by simp [succeeds_throw])
        · next given =>
            obtain ⟨rfl, rfl⟩ := succeeds_pure.mp step
            exact ⟨goesOn, by simpa using given, rfl, rfl⟩
  · rintro ⟨goesOn, given, rfl, rfl⟩
    refine ⟨cursor, cursor, ⟨rfl, rfl⟩, (), _, rfl, ?_⟩
    rw [if_neg goesOn, if_neg (by simpa using given)]
    exact succeeds_pure.mpr ⟨rfl, rfl⟩

/-- A name that is read is one of the grammar, and ends at a stop character. -/
theorem identifier_sound
    {stops : List Char}
    {cursor after : Cursor}
    {value : String}
    (read : Succeeds (identifier stops) cursor value after) :
    ∃ name : Identifier stops,
      value = name.name ∧
        Between name.chars [] cursor after ∧
        StartsIn stops after.rest := by
  obtain ⟨goesOn, given, rfl, rfl⟩ := succeeds_identifier.mp read
  let chars := cursor.rest.takeWhile (!stops.contains ·)
  let others := cursor.rest.dropWhile (!stops.contains ·)
  have whole : chars ++ others = cursor.rest :=
    List.takeWhile_append_dropWhile
  have left : cursor.rest.drop chars.length = others := by
    rw [← whole, List.drop_left]
  have nonempty : others ≠ [] := by
    intro blank
    rw [blank, List.append_nil] at whole
    exact goesOn (congrArg List.length whole)
  refine ⟨⟨chars, given, ?_⟩, rfl, ⟨?_, by simp [Cursor.skip]⟩, ?_⟩
  · intro c member
    simpa using List.mem_takeWhile_imp member
  · change cursor.rest = chars ++ cursor.rest.drop chars.length
    rw [left, whole]
  · change StartsIn stops (cursor.rest.drop chars.length)
    rw [left]
    refine ⟨others.head nonempty, others.tail,
      (List.cons_head_tail nonempty).symm, ?_⟩
    have stop : (!stops.contains (others.head nonempty)) = false :=
      List.head_dropWhile_not _ nonempty
    simpa using stop

/-- A name of the grammar is read up to a stop character. -/
theorem identifier_complete
    {stops : List Char}
    (name : Identifier stops)
    {cursor : Cursor}
    {rest : List Char}
    (ends : StartsIn stops rest)
    (remaining : cursor.rest = name.chars ++ rest) :
    Succeeds (identifier stops) cursor name.name
      (cursor.skip name.chars.length) := by
  have read : cursor.rest.takeWhile (!stops.contains ·) = name.chars := by
    rw [remaining, name.takeWhile_append ends]
  refine succeeds_identifier.mpr ?_
  rw [read]
  refine ⟨?_, name.nonempty, rfl, rfl⟩
  obtain ⟨c, more, rfl, -⟩ := ends
  simp [remaining]

/-! ## Nothing else is accepted -/

/-- A reader of all types is sound if that of reference types is. -/
theorem typeOr_sound
    {reference : Scan Unit}
    (referenceSound :
      ∀ {cursor after : Cursor} {value : Unit},
        Succeeds reference cursor value after →
          ∃ tree : ReferenceTree,
            Between tree.chars tree.events cursor after)
    {cursor after : Cursor}
    {value : Unit}
    (read : Succeeds (typeOr reference) cursor value after) :
    ∃ tree : TypeTree, Between tree.chars tree.events cursor after := by
  simp only [typeOr, succeeds_bind, succeeds_peek] at read
  obtain ⟨c, _, ⟨first, rfl⟩, step⟩ := read
  split at step
  · next type tagged =>
      have tag : type.tag = c := by
        simpa using List.find?_some tagged
      simp only [succeeds_bind] at step
      obtain ⟨_, _, advanced, told⟩ := step
      refine ⟨.base type, ?_⟩
      simp only [TypeTree.chars, TypeTree.events, tag]
      exact (Between.advance first advanced).trans (.emit told)
  · obtain ⟨tree, passed⟩ := referenceSound step
    refine ⟨.reference tree, ?_⟩
    simpa only [TypeTree.chars, TypeTree.events] using passed

/-- An argument that names a type, with the arguments after it. -/
theorem Between.bounded
    (wildcard : Wildcard)
    {type : ReferenceTree}
    {rest : ArgumentTrees}
    {cursor marked typed after : Cursor}
    (marks : Between wildcard.chars [.argument wildcard] cursor marked)
    (types : Between type.chars type.events marked typed)
    (more : Between (rest.chars ++ ['>']) rest.events typed after) :
    Between ((ArgumentTrees.bounded wildcard type rest).chars ++ ['>'])
      (ArgumentTrees.bounded wildcard type rest).events cursor after := by
  simpa [ArgumentTrees.chars, ArgumentTrees.events] using
    marks.trans (types.trans more)

mutual

/-- A reference type that is read has a tree, whatever the budget. -/
theorem referenceType_sound
    (fuel : Nat)
    {cursor after : Cursor}
    {value : Unit}
    (read : Succeeds (referenceType fuel) cursor value after) :
    ∃ tree : ReferenceTree, Between tree.chars tree.events cursor after := by
  match fuel with
  | 0 =>
      simp [referenceType, succeeds_throw] at read
  | fuel + 1 =>
      simp only [referenceType, succeeds_bind, succeeds_peek] at read
      obtain ⟨c, _, ⟨first, rfl⟩, step⟩ := read
      split at step
      · obtain ⟨tree, passed⟩ := classType_sound fuel step
        refine ⟨.classType tree, ?_⟩
        simpa only [ReferenceTree.chars, ReferenceTree.events] using passed
      · simp only [succeeds_bind] at step
        obtain ⟨_, _, opened, _, _, named, _, _, closed, told⟩ := step
        obtain ⟨name, rfl, passed, ends⟩ := identifier_sound named
        obtain ⟨c, rest, same, stop⟩ := ends
        obtain rfl := List.mem_singleton.mp stop
        have closing : Between [';'] [] _ _ :=
          Between.advance (by simp [same]) closed
        refine ⟨.typeVariable name, ?_⟩
        simpa [ReferenceTree.chars, ReferenceTree.events] using
          (Between.advance first opened).trans
            (passed.trans (closing.trans (.emit told)))
      · simp only [succeeds_bind] at step
        obtain ⟨_, _, opened, _, _, told, step⟩ := step
        obtain ⟨element, passed⟩ :=
          typeOr_sound (referenceType_sound fuel) step
        refine ⟨.array element, ?_⟩
        simp only [ReferenceTree.chars, ReferenceTree.events]
        exact ((Between.advance first opened).trans (.emit told)).trans passed
      · exact absurd step (by simp [succeeds_throw])

/-- A class type that is read has a tree. -/
theorem classType_sound
    (fuel : Nat)
    {cursor after : Cursor}
    {value : Unit}
    (read : Succeeds (classType fuel) cursor value after) :
    ∃ tree : ClassTree, Between tree.chars tree.events cursor after := by
  match fuel with
  | 0 =>
      simp [classType, succeeds_throw] at read
  | fuel + 1 =>
      simp only [classType, succeeds_bind] at read
      obtain ⟨_, _, opened, _, _, named, _, _, told, _, _, bracketed,
        _, _, nested, _, _, closed, ended⟩ := read
      obtain ⟨name, rfl, passed, -⟩ := identifier_sound named
      obtain ⟨arguments, given⟩ := typeArguments_sound fuel bracketed
      obtain ⟨segments, inside⟩ := nestedSegments_sound fuel nested
      have body := passed.trans ((Between.emit told).trans
        (given.trans inside))
      refine ⟨.named name arguments segments, ?_⟩
      simpa [ClassTree.chars, ClassTree.events] using
        (Between.expect opened).trans
          (body.trans ((Between.expect closed).trans (.emit ended)))

/-- Nested segments that are read have a tree. -/
theorem nestedSegments_sound
    (fuel : Nat)
    {cursor after : Cursor}
    {value : Unit}
    (read : Succeeds (nestedSegments fuel) cursor value after) :
    ∃ tree : SegmentTrees, Between tree.chars tree.events cursor after := by
  match fuel with
  | 0 =>
      simp [nestedSegments, succeeds_throw] at read
  | fuel + 1 =>
      simp only [nestedSegments, succeeds_bind, succeeds_peek] at read
      obtain ⟨c, _, ⟨first, rfl⟩, step⟩ := read
      split at step
      · next dot =>
          subst dot
          simp only [succeeds_bind] at step
          obtain ⟨_, _, opened, _, _, named, _, _, told, _, _, bracketed,
            more⟩ := step
          obtain ⟨name, rfl, passed, -⟩ := identifier_sound named
          obtain ⟨arguments, given⟩ := typeArguments_sound fuel bracketed
          obtain ⟨rest, inside⟩ := nestedSegments_sound fuel more
          have body := passed.trans ((Between.emit told).trans
            (given.trans inside))
          refine ⟨.nested name arguments rest, ?_⟩
          simpa [SegmentTrees.chars, SegmentTrees.events] using
            (Between.advance first opened).trans body
      · obtain ⟨-, rfl⟩ := succeeds_pure.mp step
        exact ⟨.nil, .refl _⟩

/-- Type arguments that are read have a tree. -/
theorem typeArguments_sound
    (fuel : Nat)
    {cursor after : Cursor}
    {value : Unit}
    (read : Succeeds (typeArguments fuel) cursor value after) :
    ∃ tree : BracketTree, Between tree.chars tree.events cursor after := by
  match fuel with
  | 0 =>
      simp [typeArguments, succeeds_throw] at read
  | fuel + 1 =>
      simp only [typeArguments, succeeds_bind, succeeds_peek] at read
      obtain ⟨c, _, ⟨first, rfl⟩, step⟩ := read
      split at step
      · next bracket =>
          subst bracket
          simp only [succeeds_bind] at step
          obtain ⟨_, _, opened, listed⟩ := step
          obtain ⟨arguments, given⟩ := argumentList_sound fuel listed
          refine ⟨.given arguments, ?_⟩
          simp only [BracketTree.chars, BracketTree.events]
          exact (Between.advance first opened).trans given
      · obtain ⟨-, rfl⟩ := succeeds_pure.mp step
        exact ⟨.omitted, .refl _⟩

/-- A list of arguments that is read has a tree, and a bracket behind it. -/
theorem argumentList_sound
    (fuel : Nat)
    {cursor after : Cursor}
    {value : Unit}
    (read : Succeeds (argumentList fuel) cursor value after) :
    ∃ tree : ArgumentTrees,
      Between (tree.chars ++ ['>']) tree.events cursor after := by
  match fuel with
  | 0 =>
      simp [argumentList, succeeds_throw] at read
  | fuel + 1 =>
      simp only [argumentList, succeeds_bind, succeeds_peek] at read
      obtain ⟨c, _, ⟨first, rfl⟩, step⟩ := read
      split at step
      · exact ⟨.nil, Between.advance first step⟩
      · simp only [succeeds_bind] at step
        obtain ⟨_, _, opened, _, _, told, more⟩ := step
        obtain ⟨rest, given⟩ := argumentList_sound fuel more
        refine ⟨.any rest, ?_⟩
        simp only [ArgumentTrees.chars, ArgumentTrees.events]
        exact ((Between.advance first opened).trans (.emit told)).trans given
      · simp only [succeeds_bind] at step
        obtain ⟨_, _, opened, _, _, told, _, _, typed, more⟩ := step
        obtain ⟨type, passed⟩ := referenceType_sound fuel typed
        obtain ⟨rest, given⟩ := argumentList_sound fuel more
        exact ⟨.bounded .upper type rest, Between.bounded .upper
          ((Between.advance first opened).trans (.emit told)) passed given⟩
      · simp only [succeeds_bind] at step
        obtain ⟨_, _, opened, _, _, told, _, _, typed, more⟩ := step
        obtain ⟨type, passed⟩ := referenceType_sound fuel typed
        obtain ⟨rest, given⟩ := argumentList_sound fuel more
        exact ⟨.bounded .lower type rest, Between.bounded .lower
          ((Between.advance first opened).trans (.emit told)) passed given⟩
      · simp only [succeeds_bind] at step
        obtain ⟨_, _, told, _, _, typed, more⟩ := step
        obtain ⟨type, passed⟩ := referenceType_sound fuel typed
        obtain ⟨rest, given⟩ := argumentList_sound fuel more
        exact ⟨.bounded .exact type rest,
          Between.bounded .exact (.emit told) passed given⟩

end

/-- Interface bounds that are read have trees. -/
theorem interfaceBounds_sound
    (fuel : Nat)
    {cursor after : Cursor}
    {value : Unit}
    (read : Succeeds (interfaceBounds fuel) cursor value after) :
    ∃ bounds : List ReferenceTree,
      Between (bounds.flatMap (':' :: ·.chars))
        (bounds.flatMap (.interfaceBound :: ·.events)) cursor after := by
  induction fuel generalizing cursor with
  | zero =>
      simp [interfaceBounds, succeeds_throw] at read
  | succ fuel inductionHypothesis =>
      simp only [interfaceBounds, succeeds_bind, succeeds_peek] at read
      obtain ⟨c, _, ⟨first, rfl⟩, step⟩ := read
      split at step
      · next colon =>
          subst colon
          simp only [succeeds_bind] at step
          obtain ⟨_, _, opened, _, _, told, _, _, typed, more⟩ := step
          obtain ⟨type, passed⟩ := referenceType_sound fuel typed
          obtain ⟨bounds, given⟩ := inductionHypothesis more
          refine ⟨type :: bounds, ?_⟩
          simpa using (Between.advance first opened).trans
            ((Between.emit told).trans (passed.trans given))
      · obtain ⟨-, rfl⟩ := succeeds_pure.mp step
        exact ⟨[], .refl _⟩

/-- What is read behind a type parameter is not taken for something else. -/
theorem FormalTree.mayFollow_of_between
    {formal next : FormalTree}
    {more : List FormalTree}
    {events : List Event}
    {cursor after : Cursor}
    (passed :
      Between ((next :: more).flatMap (·.chars) ++ ['>']) events cursor after)
    {c : Char}
    (first : cursor.rest.head? = some c)
    (notClosed : c ≠ '>')
    (noBound :
      formal.classBound = none → formal.interfaceBounds = [] →
        c ∉ boundStarts) :
    formal.MayFollow next := by
  have same : next.name.first = c := by
    obtain ⟨_, begins⟩ := flatMap_eq_cons next more
    rw [passed.text, begins] at first
    exact Option.some.inj first
  unfold MayFollow
  rw [same]
  exact ⟨notClosed, noBound⟩

/-- A class bound is read exactly where one begins. -/
theorem classBound_sound
    {fuel : Nat}
    {next : Scan Unit}
    {cursor after : Cursor}
    {c : Char}
    {value : Unit}
    (read :
      Succeeds
        (if ['L', 'T', '['].contains c then do
          emit .classBound
          referenceType fuel
          next
        else
          next)
        cursor value after) :
    ∃ classBound : Option ReferenceTree, ∃ middle,
      Between ((classBound.map (·.chars)).getD [])
          ((classBound.map (.classBound :: ·.events)).getD [])
          cursor middle ∧
        (classBound = none → middle = cursor ∧ c ∉ FormalTree.boundStarts) ∧
        Succeeds next middle value after := by
  split at read
  · simp only [succeeds_bind] at read
    obtain ⟨_, _, told, _, middle, typed, more⟩ := read
    obtain ⟨type, passed⟩ := referenceType_sound fuel typed
    exact ⟨some type, middle, (Between.emit told).trans passed, by simp, more⟩
  · next absent =>
      exact ⟨none, cursor, .refl _,
        fun _ => ⟨rfl, by simpa [FormalTree.boundStarts] using absent⟩, read⟩

/-- Type parameters that are read have trees that may follow each other. -/
theorem formalList_sound
    (fuel : Nat)
    {cursor after : Cursor}
    {value : Unit}
    (read : Succeeds (formalList fuel) cursor value after) :
    ∃ formal more,
      (formal :: more).IsChain FormalTree.MayFollow ∧
        Between ((formal :: more).flatMap (·.chars) ++ ['>'])
          ((formal :: more).flatMap (·.events)) cursor after := by
  induction fuel generalizing cursor with
  | zero =>
      simp [formalList, succeeds_throw] at read
  | succ fuel inductionHypothesis =>
      simp only [formalList, succeeds_bind, succeeds_peek] at read
      obtain ⟨_, _, named, _, _, told, _, _, colon, c, _, ⟨first, rfl⟩,
        step⟩ := read
      obtain ⟨name, rfl, passed, -⟩ := identifier_sound named
      obtain ⟨classBound, middle, bound, unbounded, step⟩ :=
        classBound_sound step
      simp only [succeeds_bind, succeeds_peek] at step
      obtain ⟨_, _, listed, d, bounded, ⟨second, rfl⟩, step⟩ := step
      obtain ⟨interfaceBounds, given⟩ := interfaceBounds_sound fuel listed
      let formal : FormalTree := ⟨name, classBound, interfaceBounds⟩
      have whole : Between formal.chars formal.events cursor bounded := by
        have body := (Between.emit told).trans
          ((Between.expect colon).trans (bound.trans given))
        simpa [formal, FormalTree.chars, FormalTree.boundChars,
          FormalTree.events] using passed.trans body
      split at step
      · next close =>
          subst close
          refine ⟨formal, [], .singleton _, ?_⟩
          simpa using whole.trans (Between.advance second step)
      · next notClosed =>
          obtain ⟨next, more, apart, rest⟩ := inductionHypothesis step
          refine ⟨formal, next :: more, .cons_cons ?_ apart, ?_⟩
          · refine FormalTree.mayFollow_of_between rest second notClosed ?_
            intro noClass noInterface
            obtain ⟨rfl, absent⟩ := unbounded noClass
            have noBounds : interfaceBounds = [] := noInterface
            have same : middle.rest.head? = some d := by
              rw [given.text, noBounds]
              exact second
            rwa [Option.some.inj (first.symm.trans same)] at absent
          · simpa using whole.trans rest

/-- A list of type parameters that is read has a tree. -/
theorem formals_sound
    (fuel : Nat)
    {cursor after : Cursor}
    {value : Unit}
    (read : Succeeds (formals fuel) cursor value after) :
    ∃ trees : FormalTrees, Between trees.chars trees.events cursor after := by
  simp only [formals, succeeds_bind, succeeds_get] at read
  obtain ⟨_, _, ⟨rfl, rfl⟩, step⟩ := read
  split at step
  · next bracket =>
      simp only [succeeds_bind] at step
      obtain ⟨_, _, opened, listed⟩ := step
      obtain ⟨formal, more, apart, passed⟩ := formalList_sound fuel listed
      refine ⟨⟨formal :: more, apart⟩, ?_⟩
      simpa [FormalTrees.chars, FormalTrees.events] using
        (Between.advance bracket opened).trans passed
  · obtain ⟨-, rfl⟩ := succeeds_pure.mp step
    exact ⟨⟨[], .nil⟩, .refl _⟩

/-- Interfaces that are read have trees and leave nothing. -/
theorem interfaces_sound
    (fuel : Nat)
    {cursor after : Cursor}
    {value : Unit}
    (read : Succeeds (interfaces fuel) cursor value after) :
    ∃ trees : List ClassTree,
      Between (trees.flatMap (·.chars))
          (trees.flatMap (.interface :: ·.events)) cursor after ∧
        after.rest = [] := by
  induction fuel generalizing cursor with
  | zero =>
      simp [interfaces, succeeds_throw] at read
  | succ fuel inductionHypothesis =>
      simp only [interfaces, succeeds_bind, succeeds_atEnd] at read
      obtain ⟨_, _, ⟨rfl, rfl⟩, step⟩ := read
      split at step
      · next ended =>
          obtain ⟨-, rfl⟩ := succeeds_pure.mp step
          exact ⟨[], .refl _, by simpa using ended⟩
      · simp only [succeeds_bind] at step
        obtain ⟨_, _, told, _, _, typed, more⟩ := step
        obtain ⟨type, passed⟩ := classType_sound fuel typed
        obtain ⟨trees, given, ended⟩ := inductionHypothesis more
        refine ⟨type :: trees, ?_, ended⟩
        simpa using (Between.emit told).trans (passed.trans given)

/-- Parameters that are read have trees. -/
theorem parameters_sound
    (fuel : Nat)
    {cursor after : Cursor}
    {value : Unit}
    (read : Succeeds (parameters fuel) cursor value after) :
    ∃ trees : List TypeTree,
      Between (trees.flatMap (·.chars))
        (trees.flatMap (.parameter :: ·.events)) cursor after := by
  induction fuel generalizing cursor with
  | zero =>
      simp [parameters, succeeds_throw] at read
  | succ fuel inductionHypothesis =>
      simp only [parameters, succeeds_bind, succeeds_peek] at read
      obtain ⟨c, _, ⟨first, rfl⟩, step⟩ := read
      split at step
      · obtain ⟨-, rfl⟩ := succeeds_pure.mp step
        exact ⟨[], .refl _⟩
      · simp only [succeeds_bind] at step
        obtain ⟨_, _, told, _, _, typed, more⟩ := step
        obtain ⟨type, passed⟩ := typeOr_sound (referenceType_sound fuel) typed
        obtain ⟨trees, given⟩ := inductionHypothesis more
        refine ⟨type :: trees, ?_⟩
        simpa using (Between.emit told).trans (passed.trans given)

/-- Thrown types that are read have trees and leave nothing. -/
theorem thrownTypes_sound
    (fuel : Nat)
    {cursor after : Cursor}
    {value : Unit}
    (read : Succeeds (thrownTypes fuel) cursor value after) :
    ∃ trees : List ReferenceTree,
      Between (trees.flatMap ('^' :: ·.chars))
          (trees.flatMap (.thrown :: ·.events)) cursor after ∧
        after.rest = [] := by
  induction fuel generalizing cursor with
  | zero =>
      simp [thrownTypes, succeeds_throw] at read
  | succ fuel inductionHypothesis =>
      simp only [thrownTypes, succeeds_bind, succeeds_atEnd] at read
      obtain ⟨_, _, ⟨rfl, rfl⟩, step⟩ := read
      split at step
      · next ended =>
          obtain ⟨-, rfl⟩ := succeeds_pure.mp step
          exact ⟨[], .refl _, by simpa using ended⟩
      · simp only [succeeds_bind] at step
        obtain ⟨_, _, marked, _, _, told, _, _, typed, more⟩ := step
        obtain ⟨type, passed⟩ := referenceType_sound fuel typed
        obtain ⟨trees, given, ended⟩ := inductionHypothesis more
        refine ⟨type :: trees, ?_, ended⟩
        simpa using (Between.expect marked).trans
          ((Between.emit told).trans (passed.trans given))

/-- A class signature that is read is that of a tree. -/
theorem classSignature_sound
    (fuel : Nat)
    {cursor after : Cursor}
    {value : Unit}
    (read : Succeeds (classSignature fuel) cursor value after) :
    ∃ tree : ClassSignature,
      Between tree.chars tree.events cursor after ∧ after.rest = [] := by
  simp only [classSignature, succeeds_bind] at read
  obtain ⟨_, _, declared, _, _, told, _, _, typed, listed⟩ := read
  obtain ⟨formals, first⟩ := formals_sound fuel declared
  obtain ⟨superclass, second⟩ := classType_sound fuel typed
  obtain ⟨interfaces, third, ended⟩ := interfaces_sound fuel listed
  refine ⟨⟨formals, superclass, interfaces⟩, ?_, ended⟩
  simpa [ClassSignature.chars, ClassSignature.events] using
    first.trans ((Between.emit told).trans (second.trans third))

/-- The result of a method is a type or none. -/
theorem result_sound
    {fuel : Nat}
    {next : Scan Unit}
    {cursor after : Cursor}
    {c : Char}
    {value : Unit}
    (first : cursor.rest.head? = some c)
    (read :
      Succeeds
        (if c = 'V' then do
          advance 1
          emit (.base 'V')
          next
        else do
          typeOr (referenceType fuel)
          next)
        cursor value after) :
    ∃ result : Option TypeTree, ∃ middle,
      Between ((result.map (·.chars)).getD ['V'])
          ((result.map (·.events)).getD [.base 'V']) cursor middle ∧
        Succeeds next middle value after := by
  split at read
  · next void =>
      subst void
      simp only [succeeds_bind] at read
      obtain ⟨_, _, opened, _, middle, told, more⟩ := read
      exact ⟨none, middle,
        (Between.advance first opened).trans (.emit told), more⟩
  · simp only [succeeds_bind] at read
    obtain ⟨_, middle, typed, more⟩ := read
    obtain ⟨type, passed⟩ := typeOr_sound (referenceType_sound fuel) typed
    exact ⟨some type, middle, passed, more⟩

/-- A method signature that is read is that of a tree. -/
theorem methodSignature_sound
    (fuel : Nat)
    {cursor after : Cursor}
    {value : Unit}
    (read : Succeeds (methodSignature fuel) cursor value after) :
    ∃ tree : MethodSignature,
      Between tree.chars tree.events cursor after ∧ after.rest = [] := by
  simp only [methodSignature, succeeds_bind, succeeds_peek] at read
  obtain ⟨_, _, declared, _, _, opened, _, _, listed, _, _, closed, _, _, told,
    c, _, ⟨first, rfl⟩, step⟩ := read
  obtain ⟨formals, formalsPassed⟩ := formals_sound fuel declared
  obtain ⟨parameters, parametersPassed⟩ := parameters_sound fuel listed
  obtain ⟨result, _, resultPassed, step⟩ := result_sound first step
  obtain ⟨thrown, thrownPassed, ended⟩ := thrownTypes_sound fuel step
  have front := formalsPassed.trans ((Between.expect opened).trans
    (parametersPassed.trans (Between.expect closed)))
  have back := (Between.emit told).trans (resultPassed.trans thrownPassed)
  refine ⟨⟨formals, parameters, result, thrown⟩, ?_, ended⟩
  simpa [MethodSignature.chars, MethodSignature.events] using front.trans back

/-- A field signature that is read is that of a tree. -/
theorem fieldSignature_sound
    (fuel : Nat)
    {cursor after : Cursor}
    {value : Unit}
    (read : Succeeds (fieldSignature fuel) cursor value after) :
    ∃ tree : TypeTree,
      Between tree.chars tree.events cursor after ∧ after.rest = [] := by
  simp only [fieldSignature, succeeds_bind, succeeds_atEnd] at read
  obtain ⟨_, _, typed, _, _, ⟨rfl, rfl⟩, step⟩ := read
  obtain ⟨tree, passed⟩ := typeOr_sound (referenceType_sound fuel) typed
  split at step
  · next ended =>
      obtain ⟨-, rfl⟩ := succeeds_pure.mp step
      exact ⟨tree, passed, by simpa using ended⟩
  · exact absurd step (by simp [succeeds_throw])

end TypeAtlas.Signature
