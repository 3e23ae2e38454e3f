import TypeAtlas.Proofs.Bytewise.Descriptors
import TypeAtlas.Proofs.Signature.Reading

namespace TypeAtlas.Bytewise

/-!
# Signatures read byte by byte

The readers of signatures, as walks over bytes. They descend as often as the
text makes them, without a budget of calls. A walk keeps level with a reader
of characters if it stands at the same position, has reported the same events,
and gives the text up where the other does and for the same reason. The rules
here take this from single steps to their sequences; of the readers themselves
they cover those of names, where the walk cuts text out.
-/

open Signature (Event Fault Cursor Scan StartsIn)

/-! ## Walks -/

namespace Track

/-- Read a non-empty name up to one of the stop characters, which is left. -/
def identifier (text : Track) (stops : List Char) : Walk Event String := do
  let start := (← get).position
  let _ ← text.skipWhile (!stops.contains ·)
  let _ ← text.look
  let stop := (← get).position
  if stop = start then
    refuse "empty identifier"
  else
    text.cut start stop

mutual

/-- Read a primitive type, or else a reference type. -/
def signatureType (text : Track) : Walk Event Unit := do
  let shown ← text.look
  match BaseType.ofTag? shown with
  | some _ =>
      text.advance
      tell (.base shown)
  | none => text |>.referenceType
partial_fixpoint

/-- Read a class type, a type variable or an array. -/
def referenceType (text : Track) : Walk Event Unit := do
  let shown ← text.look
  if shown = 'L' then
    text |>.classType
  else if shown = 'T' then
    text.advance
    let name ← text.identifier [';']
    text.advance
    tell (.typeVariable name)
  else if shown = '[' then
    text.advance
    tell .array
    text |>.signatureType
  else
    refuse s!"unexpected type tag '{shown}'"
partial_fixpoint

/-- Read a class name with its arguments and nested segments. -/
def classType (text : Track) : Walk Event Unit := do
  text.expect 'L'
  let name ← text.identifier ['<', '.', ';']
  tell (.classType (TypeName.ofInternal name))
  text |>.typeArguments
  text |>.nestedSegments
  text.expect ';'
  tell .close
partial_fixpoint

/-- Read the nested segments that follow a class name. -/
def nestedSegments (text : Track) : Walk Event Unit := do
  if (← text.look) = '.' then
    text.advance
    let name ← text.identifier ['<', '.', ';']
    tell (.nested name)
    text |>.typeArguments
    text |>.nestedSegments
partial_fixpoint

/-- Read an optional list of type arguments. -/
def typeArguments (text : Track) : Walk Event Unit := do
  if (← text.look) = '<' then
    text.advance
    text |>.argumentList
partial_fixpoint

/-- Read type arguments up to the closing bracket, which is consumed. -/
def argumentList (text : Track) : Walk Event Unit := do
  let shown ← text.look
  if shown = '>' then
    text.advance
  else if shown = '*' then
    text.advance
    tell .anyArgument
    text |>.argumentList
  else if shown = '+' then
    text.advance
    tell (.argument .upper)
    text |>.referenceType
    text |>.argumentList
  else if shown = '-' then
    text.advance
    tell (.argument .lower)
    text |>.referenceType
    text |>.argumentList
  else
    tell (.argument .exact)
    text |>.referenceType
    text |>.argumentList
partial_fixpoint

end

/-- Read the interface bounds of a type parameter. -/
def interfaceBounds (text : Track) : Walk Event Unit := do
  if (← text.look) = ':' then
    text.advance
    tell .interfaceBound
    text.referenceType
    text |>.interfaceBounds
partial_fixpoint

/-- Read type parameters up to the closing bracket, which is consumed. -/
def formalList (text : Track) : Walk Event Unit := do
  let name ← text.identifier [':']
  tell (.formal name)
  text.expect ':'
  if ['L', 'T', '['].contains (← text.look) then
    tell .classBound
    text.referenceType
  text.interfaceBounds
  if (← text.look) = '>' then
    text.advance
  else
    text |>.formalList
partial_fixpoint

/-- Read an optional list of type parameters. -/
def formals (text : Track) : Walk Event Unit := do
  unless ← text.atEnd do
    if (← text.look) = '<' then
      text.advance
      text.formalList

/-- Read interfaces up to the end of the text. -/
def interfaces (text : Track) : Walk Event Unit := do
  unless ← text.atEnd do
    tell .interface
    text.classType
    text |>.interfaces
partial_fixpoint

/-- Read parameter types up to the closing bracket, which is left. -/
def parameters (text : Track) : Walk Event Unit := do
  unless (← text.look) = ')' do
    tell .parameter
    text.signatureType
    text |>.parameters
partial_fixpoint

/-- Read thrown types up to the end of the text. -/
def thrownTypes (text : Track) : Walk Event Unit := do
  unless ← text.atEnd do
    text.expect '^'
    tell .thrown
    text.referenceType
    text |>.thrownTypes
partial_fixpoint

/-- A class signature: type parameters, the superclass, the interfaces. -/
def classSignature (text : Track) : Walk Event Unit := do
  text.formals
  tell .superclass
  text.classType
  text.interfaces

/-- A method signature: type parameters, parameters, result, thrown types. -/
def methodSignature (text : Track) : Walk Event Unit := do
  text.formals
  text.expect '('
  text.parameters
  text.expect ')'
  tell .result
  if (← text.look) = 'V' then
    text.advance
    tell (.base 'V')
  else
    text.signatureType
  text.thrownTypes

/-- A field signature: one type and nothing else. -/
def fieldSignature (text : Track) : Walk Event Unit := do
  text.signatureType
  unless ← text.atEnd do
    refuse "trailing characters"

end Track

open Track

/-- Why a text is refused: the whole text, the position, and the reason. -/
structure Complaint where
  source : String
  position : Nat
  reason : String
  deriving Repr, DecidableEq

/--
What it comes to when a whole text is read by a walk: the events, and why the
text is refused if it is. A misstep comes instead of both.
-/
def traceBytes
    (walk : String → Walk Event Unit)
    (text : String) :
    Option (Except Misstep (List Event × Option Complaint)) :=
  match (walk text).run.run {} with
  | none => none
  | some (.error (.misstep misstep), _) => some (.error misstep)
  | some (.error (.refused reason), last) =>
      some (.ok (last.events, some ⟨text, last.position, reason⟩))
  | some (.ok (), last) => some (.ok (last.events, none))

/-! ## Keeping level -/

/-- A walk and a reader of characters stand at the same place. -/
structure Level
    (text : String)
    (cursor : Cursor)
    (place : Place Event) :
    Prop where
  stands : Stands text cursor.rest place.position
  position : place.position = cursor.position
  events : place.events = cursor.events

/-- Both stay level over the characters of a name. -/
theorem Level.skip
    {text : String}
    {cursor : Cursor}
    {place : Place Event}
    {name left : List Char}
    (level : Level text cursor place)
    (remaining : cursor.rest = name ++ left) :
    Level text (cursor.skip name.length)
      (place.moved (Text.byteCount name)) := by
  obtain ⟨stands, position, events⟩ := level
  rw [remaining] at stands
  refine ⟨?_, ?_, events⟩
  · rw [Cursor.skip, remaining, List.drop_left]
    exact stands.skip
  · rw [Cursor.skip, remaining, List.take_left, ← position]
    rfl

/--
A walk keeps level with a step of the reader: both succeed and leave less than
a number of characters, or both give the text up for the same reason.
-/
inductive KeepsLevel
    (text : String)
    (walk : Walk Event α)
    (place : Place Event)
    (bound : Nat) :
    Except Fault α × Cursor → Prop
  | reads
      {value : α}
      {cursor : Cursor}
      {after : Place Event}
      (ends : Ends walk place (.ok value) after)
      (level : Level text cursor after)
      (left : cursor.rest.length < bound) :
      KeepsLevel text walk place bound (.ok value, cursor)
  | refuses
      {fault : Fault}
      {cursor : Cursor}
      {after : Place Event}
      (ends : Ends walk place (.error fault.reason) after)
      (level : Level text cursor after) :
      KeepsLevel text walk place bound (.error fault, cursor)

/-- A walk keeps level with a step wherever the given characters are left. -/
def Mirrors
    (text : String)
    (rest : List Char)
    (walk : Walk Event α)
    (step : Scan α)
    (bound : Nat) :
    Prop :=
  ∀ (cursor : Cursor) (place : Place Event),
    Level text cursor place →
      cursor.rest = rest →
        KeepsLevel text walk place bound (Scan.at step cursor)

variable
  {text : String}
  {rest : List Char}
  {bound : Nat}

/-- What keeps level may come after steps that end. -/
theorem KeepsLevel.after
    {first : Walk Event β}
    {next : β → Walk Event α}
    {found : β}
    {place between : Place Event}
    {read : Except Fault α × Cursor}
    (ended : KeepsLevel text (next found) between bound read)
    (begun : Ends first place (.ok found) between) :
    KeepsLevel text (first >>= next) place bound read := by
  cases ended with
  | reads ends level left =>
      exact .reads (begun.bind ends) level left
  | refuses ends level =>
      exact .refuses (begun.bind ends) level

theorem mirrors_pure
    {value : α}
    (left : rest.length < bound) :
    Mirrors text rest (pure value) (pure value) bound := by
  rintro cursor place level rfl
  exact .reads (ends_pure _ _) level left

/-- Both give the text up for one reason. -/
theorem mirrors_refuse
    (fault : Fault) :
    Mirrors text rest (refuse fault.reason : Walk Event α) (throw fault)
      bound :=
  fun _ _ level _ => .refuses (ends_refuse _ _) level

namespace Mirrors

/-- Walks that keep level can be put behind each other. -/
theorem bind
    {first : Walk Event β}
    {firstStep : Scan β}
    {next : β → Walk Event α}
    {nextStep : β → Scan α}
    {between : Nat}
    (begun : Mirrors text rest first firstStep between)
    (ended :
      ∀ value left,
        left.length < between →
          Mirrors text left (next value) (nextStep value) bound) :
    Mirrors text rest (first >>= next) (firstStep >>= nextStep) bound := by
  intro cursor place level remaining
  have read := begun cursor place level remaining
  rw [Signature.at_bind]
  generalize Scan.at firstStep cursor = ran at read ⊢
  cases read with
  | reads ends level left =>
      exact (ended _ _ left _ _ level rfl).after ends
  | refuses ends level =>
      exact .refuses ends.bind_refused level

/-- More characters may be allowed to be left. -/
theorem mono
    {walk : Walk Event α}
    {step : Scan α}
    {other : Nat}
    (mirrors : Mirrors text rest walk step bound)
    (within : bound ≤ other) :
    Mirrors text rest walk step other := by
  intro cursor place level remaining
  have read := mirrors cursor place level remaining
  generalize Scan.at step cursor = ran at read ⊢
  cases read with
  | reads ends level left =>
      exact .reads ends level (Nat.lt_of_lt_of_le left within)
  | refuses ends level =>
      exact .refuses ends level

section

variable
  {next : Unit → Walk Event α}
  {nextStep : Unit → Scan α}

/-- An event is told on both sides before going on. -/
theorem tell
    (event : Event)
    (ended : Mirrors text rest (next ()) (nextStep ()) bound) :
    Mirrors text rest (Bytewise.tell event >>= next)
      (Signature.emit event >>= nextStep) bound := by
  rintro cursor place level rfl
  have told : Level text { cursor with events := cursor.events ++ [event] }
      { place with events := place.events ++ [event] } :=
    ⟨level.stands, level.position, congrArg (· ++ [event]) level.events⟩
  rw [Signature.at_bind]
  exact (ended _ _ told rfl).after (ends_tell _ _)

/-- A character in the ASCII range is passed on both sides before going on. -/
theorem advance
    {c : Char}
    (ascii : c.toNat < 0x80)
    (ended : Mirrors text rest (next ()) (nextStep ()) bound) :
    Mirrors text (c :: rest) (Track.advance text >>= next)
      (Signature.advance 1 >>= nextStep) bound := by
  intro cursor place level remaining
  have stands := level.stands
  have moved :
      Level text (cursor.skip [c].length) (place.moved (Text.byteCount [c])) :=
    level.skip remaining
  have left : (cursor.skip 1).rest = rest := by
    rw [Cursor.skip, remaining, List.drop_one, List.tail_cons]
  rw [remaining] at stands
  rw [byteCount_ascii (by simpa using ascii)] at moved
  rw [Signature.at_bind]
  exact (ended _ _ moved left).after (ends_advance stands)

/-- What a byte is taken for depends on the character it belongs to. -/
theorem look
    {next : Char → Walk Event α}
    {nextStep : Char → Scan α}
    (ended :
      ∀ c more,
        rest = c :: more →
          Mirrors text rest (next (Text.leadByte c)) (nextStep c) bound) :
    Mirrors text rest (Track.look text >>= next)
      (Signature.peek >>= nextStep) bound := by
  rintro ⟨left, position, events⟩ place level rfl
  rw [Signature.at_bind]
  cases left with
  | nil =>
      exact .refuses (ends_look_nil level.stands).bind_refused level
  | cons c more =>
      exact (ended c more rfl _ _ level rfl).after (ends_look level.stands)

/-- A byte is one of ASCII exactly if the character is. -/
theorem branch
    {c d : Char}
    {walk otherWalk : Walk Event α}
    {step otherStep : Scan α}
    (ascii : d.toNat < 0x80)
    (found : c = d → Mirrors text rest walk step bound)
    (other : c ≠ d → Mirrors text rest otherWalk otherStep bound) :
    Mirrors text rest (if Text.leadByte c = d then walk else otherWalk)
      (if c = d then step else otherStep) bound := by
  simp only [leadByte_eq_iff ascii]
  split
  · next same =>
      exact found same
  · next differs =>
      exact other differs

/-- The walk may look where the reader does not. -/
theorem aheadLook
    {c : Char}
    {next : Char → Walk Event α}
    {step : Scan α}
    (ended : Mirrors text (c :: rest) (next (Text.leadByte c)) step bound) :
    Mirrors text (c :: rest) (Track.look text >>= next) step bound := by
  intro cursor place level remaining
  have stands := level.stands
  rw [remaining] at stands
  exact (ended _ _ level remaining).after (ends_look stands)

/-- The walk asks for the end of the text where the reader looks ahead. -/
theorem aheadAtEnd
    {next : Bool → Walk Event α}
    {step : Scan α}
    (ended : Mirrors text rest (next rest.isEmpty) step bound) :
    Mirrors text rest (Track.atEnd text >>= next) step bound := by
  rintro cursor place level rfl
  exact (ended _ _ level rfl).after (ends_atEnd level.stands)

/-- The reader may use its cursor where the walk does not. -/
theorem get
    {walk : Walk Event α}
    {nextStep : Cursor → Scan α}
    (ended :
      ∀ cursor : Cursor,
        cursor.rest = rest →
          Mirrors text rest walk (nextStep cursor) bound) :
    Mirrors text rest walk (get >>= nextStep) bound :=
  fun cursor place level remaining =>
    ended cursor remaining cursor place level remaining

/-- Both ask for the end of the text. -/
theorem atEnd
    {next : Bool → Walk Event α}
    {nextStep : Bool → Scan α}
    (ended :
      Mirrors text rest (next rest.isEmpty) (nextStep rest.isEmpty) bound) :
    Mirrors text rest (Track.atEnd text >>= next)
      (Signature.atEnd >>= nextStep) bound := by
  refine .aheadAtEnd (.get fun cursor remaining => ?_)
  rw [remaining]
  exact ended

end

end Mirrors

/-- An event is told on both sides. -/
theorem mirrors_tell
    (event : Event)
    (left : rest.length < bound) :
    Mirrors text rest (tell event) (Signature.emit event) bound := by
  rw [← bind_pure (tell event), ← bind_pure (Signature.emit event)]
  exact .tell event (mirrors_pure left)

/-- A character in the ASCII range is passed on both sides. -/
theorem mirrors_advance
    {c : Char}
    (ascii : c.toNat < 0x80)
    (left : rest.length < bound) :
    Mirrors text (c :: rest) (advance text) (Signature.advance 1) bound := by
  rw [← bind_pure (advance text), ← bind_pure (Signature.advance 1)]
  exact .advance ascii (mirrors_pure left)

/-- A character that is expected is passed or refused on both sides. -/
theorem mirrors_expect
    {c : Char}
    (ascii : c.toNat < 0x80) :
    Mirrors text rest (expect text c) (Signature.expect c) rest.length := by
  refine .look fun d more remaining => .branch ascii ?_ ?_
  · rintro rfl
    subst remaining
    exact mirrors_advance ascii (Nat.lt_succ_self _)
  · exact fun _ => mirrors_refuse (.expected c)

/-! ## Names -/

/-- What the reader of a name gives, and the cursor it leaves. -/
theorem at_identifier
    (stops : List Char)
    (cursor : Cursor) :
    let name := cursor.rest.takeWhile (!stops.contains ·)
    Scan.at (Signature.identifier stops) cursor =
      (if name.length = cursor.rest.length then
        .error .unexpectedEnd
      else if name.isEmpty then
        .error .emptyIdentifier
      else
        .ok (String.ofList name),
      cursor.skip name.length) := by
  dsimp only
  rw [Signature.identifier, Signature.at_bind]
  change Scan.at (Signature.advance _ >>= _) cursor = _
  rw [Signature.at_bind]
  by_cases ended :
      (cursor.rest.takeWhile (!stops.contains ·)).length = cursor.rest.length
  · simp only [if_pos ended]
    rfl
  · by_cases empty : (cursor.rest.takeWhile (!stops.contains ·)).isEmpty
    · simp only [if_neg ended, if_pos empty]
      rfl
    · simp only [if_neg ended, if_neg empty]
      rfl

/-- A name that is read is not empty, and a stop character is behind it. -/
theorem identifier_leaves
    {stops : List Char}
    {cursor after : Cursor}
    {value : String}
    (read :
      Signature.Succeeds (Signature.identifier stops) cursor value after) :
    after.rest.length < cursor.rest.length ∧ StartsIn stops after.rest := by
  obtain ⟨name, -, between, ends⟩ := Signature.identifier_sound read
  refine ⟨?_, ends⟩
  rw [between.text, List.length_append]
  exact Nat.lt_add_of_pos_left (List.length_pos_iff.mpr name.nonempty)

/--
A name is cut out between two characters, because a byte that ends it is a
whole character of the text.
-/
theorem keepsLevel_identifier
    {stops : List Char}
    {cursor : Cursor}
    {place : Place Event}
    (ascii : stops.all (·.toNat < 0x80))
    (level : Level text cursor place) :
    KeepsLevel text (identifier text stops) place cursor.rest.length
      (Scan.at (Signature.identifier stops) cursor) := by
  let name := cursor.rest.takeWhile (!stops.contains ·)
  let left := cursor.rest.dropWhile (!stops.contains ·)
  let stop := place.moved (Text.byteCount name)
  have whole : cursor.rest = name ++ left :=
    List.takeWhile_append_dropWhile.symm
  have moved : Level text (cursor.skip name.length) stop :=
    level.skip whole
  have skipped :
      Ends (skipWhile text (!stops.contains ·)) place
        (.ok (Text.byteCount name)) stop :=
    ends_skipWhile ((coarse_contains ascii).comp (! ·)) level.stands
  have behind : Stands text left stop.position := by
    have stands := level.stands
    rw [whole] at stands
    exact stands.skip
  have unmoved : stop.position = place.position ↔ name.isEmpty := by
    rw [List.isEmpty_iff, ← utf8Bytes_eq_nil, ← List.length_eq_zero_iff]
    exact Nat.add_eq_left
  rw [at_identifier]
  unfold identifier
  refine KeepsLevel.after ?_ (.get (ends_pure _ _))
  refine KeepsLevel.after ?_ skipped
  cases remains : left with
  | nil =>
      have ended : name.length = cursor.rest.length := by
        rw [whole, remains, List.append_nil]
      rw [remains] at behind
      rw [if_pos ended]
      exact .refuses (ends_look_nil behind).bind_refused moved
  | cons c more =>
      have goesOn : name.length ≠ cursor.rest.length := by
        simp [whole, remains]
      rw [remains] at behind
      rw [if_neg goesOn]
      refine KeepsLevel.after ?_ (ends_look behind)
      refine KeepsLevel.after ?_ (.get (ends_pure _ _))
      by_cases isEmpty : name.isEmpty
      · rw [if_pos (unmoved.mpr isEmpty), if_pos isEmpty]
        exact .refuses (ends_refuse _ _) moved
      · have read :
            Signature.Succeeds (Signature.identifier stops) cursor
              (String.ofList name) (cursor.skip name.length) :=
          Signature.succeeds_identifier.mpr
            ⟨goesOn, by rwa [List.isEmpty_iff] at isEmpty, rfl, rfl⟩
        rw [if_neg (mt unmoved.mp isEmpty), if_neg isEmpty]
        exact .reads (ends_cut (whole ▸ level.stands)) moved
          (identifier_leaves read).1

/-- An identifier is cut out on both sides before going on. -/
theorem Mirrors.identifier
    {stops : List Char}
    {next : String → Walk Event α}
    {nextStep : String → Scan α}
    (ascii : stops.all (·.toNat < 0x80))
    (ended :
      ∀ name left,
        left.length < rest.length →
          StartsIn stops left →
            Mirrors text left (next name) (nextStep name) bound) :
    Mirrors text rest (Track.identifier text stops >>= next)
      (Signature.identifier stops >>= nextStep) bound := by
  rintro cursor place level rfl
  have read := keepsLevel_identifier ascii level
  have leaves :
      ∀ name after,
        Scan.at (Signature.identifier stops) cursor = (.ok name, after) →
          StartsIn stops after.rest :=
    fun _ _ read => (identifier_leaves read).2
  rw [Signature.at_bind]
  generalize Scan.at (Signature.identifier stops) cursor = ran at read leaves ⊢
  cases read with
  | reads ends level left =>
      exact (ended _ _ left (leaves _ _ rfl) _ _ level rfl).after ends
  | refuses ends level =>
      exact .refuses ends.bind_refused level

end TypeAtlas.Bytewise
