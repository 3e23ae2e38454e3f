import TypeAtlas.Descriptor.Parser
import TypeAtlas.Proofs.Bytewise.Walk

namespace TypeAtlas.Bytewise

/-!
# Descriptors read byte by byte

The readers of descriptors, as walks over bytes. A class name may hold any
characters, but it ends at a semicolon, which is a byte that no other
character has among its own; so a name is always cut out between characters.
Each walk takes a text apart exactly as the reader of characters does, and
refuses it with the same message.
-/

/-! ## Walks -/

namespace Track

/-- Read a class name with the letter before it and the semicolon behind it. -/
def classDescriptor (text : Track) : Walk Empty Descriptor := do
  text.expect 'L'
  let start := (← get).position
  let _ ← text.skipWhile (· != ';')
  let stop := (← get).position
  if (← text.atEnd) || stop == start then
    refuse "unterminated reference descriptor"
  else
    let name ← text.cut start stop
    text.advance
    return .object (TypeName.ofInternal name)

/-- Read a type. -/
def typeDescriptor (text : Track) : Walk Empty Descriptor := do
  let shown ← text.look
  match BaseType.ofTag? shown with
  | some type =>
      text.advance
      return .base type
  | none =>
      if shown = 'L' then
        text.classDescriptor
      else if shown = '[' then
        let dimensions ← text.skipWhile (· == '[')
        return .array (← text |>.typeDescriptor) dimensions
      else
        refuse s!"unexpected descriptor tag '{shown}'"
partial_fixpoint

/-- Read parameter types up to the closing bracket, which is left. -/
def parameterTypes (text : Track) : Walk Empty (List Descriptor) := do
  if (← text.look) = ')' then
    return []
  else
    let type ← text.typeDescriptor
    return type :: (← text |>.parameterTypes)
partial_fixpoint

/-- Read a return type, if there is one. -/
def returnType (text : Track) : Walk Empty (Option Descriptor) := do
  if (← text.look) = 'V' then
    text.advance
    return none
  else
    return some (← text.typeDescriptor)

/-- Read the types of a method. -/
def methodDescriptor (text : Track) : Walk Empty MethodDescriptor := do
  text.expect '('
  let parameters ← text.parameterTypes
  text.expect ')'
  return ⟨parameters, ← text.returnType⟩

end Track

open Track

/--
What it comes to when a whole text is read by a walk: a value, or the message
with which the text is refused. A misstep comes instead of both.
-/
def readWhole
    (walk : String → Walk Empty α)
    (text : String) :
    Option (Except Misstep (Except String α)) :=
  match (walk text).run.run {} with
  | none => none
  | some (.error (.misstep misstep), _) => some (.error misstep)
  | some (.error (.refused reason), _) =>
      some (.ok (.error s!"malformed descriptor: {reason} in '{text}'"))
  | some (.ok value, last) =>
      if (bytes text).length ≤ last.position then
        some (.ok (.ok value))
      else
        some (.ok (.error s!"malformed descriptor: {text}"))

/-! ## Each walk follows its reader -/

/--
A walk does what a reader of characters has done: it gives the same value and
stands where the same characters are left, or it refuses the text with a
reason that makes up the same message.
-/
inductive Follows
    (text : String)
    (walk : Walk Empty α)
    (place : Place Empty) :
    Except Descriptor.Fault (α × List Char) → Prop
  | reads
      {value : α}
      {rest : List Char}
      {after : Place Empty}
      (ends : Ends walk place (.ok value) after)
      (stands : Stands text rest after.position) :
      Follows text walk place (.ok (value, rest))
  | refuses
      {fault : Descriptor.Fault}
      {reason : String}
      {after : Place Empty}
      (ends : Ends walk place (.error reason) after)
      (message :
        Descriptor.Malformed.message ⟨text, fault⟩ =
          s!"malformed descriptor: {reason} in '{text}'") :
      Follows text walk place (.error fault)

variable
  {text : String}
  {place : Place Empty}
  {cs : List Char}

/-- What a walk follows may come after steps that end. -/
theorem Follows.after
    {first : Walk Empty α}
    {next : α → Walk Empty β}
    {found : α}
    {between : Place Empty}
    {read : Except Descriptor.Fault (β × List Char)}
    (ended : Follows text (next found) between read)
    (begun : Ends first place (.ok found) between) :
    Follows text (first >>= next) place read := by
  cases ended with
  | reads ends stands =>
      exact .reads (begun.bind ends) stands
  | refuses ends message =>
      exact .refuses (begun.bind ends) message

/-- Walks that follow their readers can be put behind each other. -/
theorem Follows.bind
    {first : Walk Empty α}
    {next : α → Walk Empty β}
    {read : Except Descriptor.Fault (α × List Char)}
    {goOn : α × List Char → Except Descriptor.Fault (β × List Char)}
    (begun : Follows text first place read)
    (ended :
      ∀ value {rest : List Char} {between : Place Empty},
        Stands text rest between.position →
          Follows text (next value) between (goOn (value, rest))) :
    Follows text (first >>= next) place (read >>= goOn) := by
  cases begun with
  | reads ends stands =>
      exact (ended _ stands).after ends
  | refuses ends message =>
      exact .refuses ends.bind_refused message

theorem follows_pure
    (value : α)
    (stands : Stands text cs place.position) :
    Follows text (pure value) place (.ok (value, cs)) :=
  .reads (ends_pure value place) stands

/-- A class name is cut out between its letter and its semicolon. -/
theorem follows_classDescriptor
    (stands : Stands text ('L' :: cs) place.position) :
    Follows text (classDescriptor text) place (Descriptor.scanObject cs) := by
  let name := cs.takeWhile (· != ';')
  let start := place.moved 1
  let stop := start.moved (Text.byteCount name)
  have opened : Stands text cs start.position :=
    stands.step (by decide)
  have named :
      Stands text (name ++ cs.dropWhile (· != ';')) start.position := by
    rwa [List.takeWhile_append_dropWhile]
  have skipped :
      Ends (skipWhile text (· != ';')) start (.ok (Text.byteCount name))
        stop :=
    ends_skipWhile ((coarse_beq (by decide)).comp (! ·)) opened
  have unnamed : (stop.position == start.position) = name.isEmpty := by
    rw [Bool.eq_iff_iff, beq_iff_eq, List.isEmpty_iff, ← utf8Bytes_eq_nil,
      ← List.length_eq_zero_iff]
    exact Nat.add_eq_left
  unfold classDescriptor Descriptor.scanObject
  refine Follows.after ?_ (ends_expect stands (by decide))
  refine Follows.after ?_ (.get (ends_pure _ _))
  refine Follows.after ?_ skipped
  refine Follows.after ?_ (.get (ends_pure _ _))
  refine Follows.after ?_ (ends_atEnd named.skip)
  rw [unnamed]
  cases behind : cs.dropWhile (· != ';') with
  | nil =>
      exact .refuses (ends_refuse _ _) rfl
  | cons semicolon rest =>
      rw [List.isEmpty_cons, Bool.false_or]
      dsimp only
      by_cases isEmpty : name.isEmpty
      · rw [if_pos isEmpty, if_pos isEmpty]
        exact .refuses (ends_refuse _ _) rfl
      · rw [behind] at named
        have closed := named.skip
        have first := List.head?_dropWhile_not (· != ';') cs
        rw [behind] at first
        obtain rfl : semicolon = ';' := by
          simpa using first
        rw [if_neg isEmpty, if_neg isEmpty]
        refine Follows.after ?_ (ends_cut named)
        refine Follows.after ?_ (ends_advance closed)
        exact follows_pure _ (closed.step (by decide))

/-- The letters of primitive types are in the ASCII range. -/
theorem ascii_of_ofTag?
    {c : Char}
    {type : BaseType}
    (tagged : BaseType.ofTag? c = some type) :
    c.toNat < 0x80 := by
  have same : type.tag = c := by
    simpa using List.find?_some tagged
  rw [← same]
  cases type <;> decide

/-- Only ASCII characters are tags, so a tag is told by its byte. -/
theorem coarse_ofTag? :
    Coarse BaseType.ofTag? := by
  refine ⟨none, fun c beyond => ?_⟩
  cases tagged : BaseType.ofTag? c with
  | none =>
      rfl
  | some type =>
      have small := ascii_of_ofTag? tagged
      omega

/-- A type without brackets is followed. -/
theorem follows_typeDescriptor_element
    (stands : Stands text cs place.position)
    (single : cs.head? ≠ some '[') :
    Follows text (typeDescriptor text) place (Descriptor.scanElement cs) := by
  rw [typeDescriptor]
  cases cs with
  | nil =>
      exact .refuses (ends_look_nil stands).bind_refused rfl
  | cons c rest =>
      refine Follows.after ?_ (ends_look stands)
      rw [coarse_ofTag?.leadByte_eq, Descriptor.scanElement]
      cases tagged : BaseType.ofTag? c with
      | some type =>
          refine Follows.after ?_ (ends_advance stands)
          exact follows_pure _ (stands.step (ascii_of_ofTag? tagged))
      | none =>
          have asClass : Text.leadByte c = 'L' ↔ c = 'L' :=
            leadByte_eq_iff (by decide)
          have asArray : Text.leadByte c = '[' ↔ c = '[' :=
            leadByte_eq_iff (by decide)
          simp only [asClass, asArray]
          by_cases isClass : c = 'L'
          · subst isClass
            exact follows_classDescriptor stands
          · rw [if_neg isClass, if_neg isClass, if_neg (by simpa using single)]
            exact .refuses (ends_refuse _ _) rfl

/-- Where there is no bracket, there is only one type to read. -/
theorem scan_eq_scanElement
    (single : cs.head? ≠ some '[') :
    Descriptor.scan cs = Descriptor.scanElement cs := by
  have none :
      cs.takeWhile (· == '[') = [] ∧ cs.dropWhile (· == '[') = cs := by
    cases cs with
    | nil =>
        exact ⟨rfl, rfl⟩
    | cons c rest =>
        have other : ¬ (c == '[') = true := by
          simpa using single
        exact ⟨List.takeWhile_cons_of_neg other,
          List.dropWhile_cons_of_neg other⟩
  unfold Descriptor.scan
  rw [none.1, none.2]
  cases Descriptor.scanElement cs <;> rfl

/-- A type is followed, with the brackets before it. -/
theorem follows_typeDescriptor
    (stands : Stands text cs place.position) :
    Follows text (typeDescriptor text) place (Descriptor.scan cs) := by
  by_cases single : cs.head? = some '['
  · -- The walk takes all brackets at once, so it calls itself where none is
    -- left, and no induction is needed.
    let dimensions := cs.takeWhile (· == '[')
    have counted : Text.byteCount dimensions = dimensions.length := by
      refine byteCount_ascii fun c member => ?_
      obtain rfl : c = '[' := by
        simpa using List.mem_takeWhile_imp member
      decide
    have skipped :
        Ends (skipWhile text (· == '[')) place (.ok dimensions.length)
          (place.moved dimensions.length) := by
      rw [← counted]
      exact ends_skipWhile (coarse_beq (by decide)) stands
    have behind :
        Stands text (cs.dropWhile (· == '['))
          (place.moved dimensions.length).position := by
      rw [← counted]
      refine Stands.skip ?_
      rwa [List.takeWhile_append_dropWhile]
    rw [typeDescriptor]
    obtain ⟨more, rfl⟩ := List.head?_eq_some_iff.mp single
    refine Follows.after ?_ (ends_look stands)
    refine Follows.after ?_ skipped
    refine (follows_typeDescriptor_element behind ?_).bind ?_
    · have unbracketed := List.head?_dropWhile_not (· == '[') ('[' :: more)
      intro bracketed
      rw [bracketed] at unbracketed
      cases unbracketed
    · exact fun _ _ _ read => follows_pure _ read
  · rw [scan_eq_scanElement single]
    exact follows_typeDescriptor_element stands single

/-- Where no bracket closes the parameters, one more is read. -/
theorem follows_parameter
    {c : Char}
    {read : Except Descriptor.Fault (List Descriptor × List Char)}
    (unclosed : c ≠ ')')
    (stands : Stands text (c :: cs) place.position)
    (goesOn :
      Follows text
        (do
          let type ← typeDescriptor text
          return type :: (← parameterTypes text))
        place read) :
    Follows text (parameterTypes text) place read := by
  rw [parameterTypes]
  refine Follows.after ?_ (ends_look stands)
  rw [if_neg (mt (leadByte_eq_iff (by decide)).mp unclosed)]
  exact goesOn

/-- The walk stops before the bracket that the reader takes with it. -/
theorem follows_parameterTypes
    (stands : Stands text cs place.position) :
    Follows text (parameterTypes text) place
      ((MethodDescriptor.scanParameters cs).map fun read =>
        (read.1, ')' :: read.2)) := by
  fun_induction MethodDescriptor.scanParameters cs generalizing place with
  | case1 =>
      rw [parameterTypes]
      exact .refuses (ends_look_nil stands).bind_refused rfl
  | case2 rest =>
      rw [parameterTypes]
      refine Follows.after ?_ (ends_look stands)
      exact follows_pure _ stands
  | case3 c tail unclosed fault scanned =>
      have read := follows_typeDescriptor stands
      rw [scanned] at read
      obtain ⟨⟩ | ⟨ends, message⟩ := read
      exact follows_parameter unclosed stands
        (.refuses ends.bind_refused message)
  | case4 c tail unclosed type rest scanned fault failed inductionHypothesis =>
      have read := follows_typeDescriptor stands
      rw [scanned] at read
      obtain ⟨ends, behind⟩ | ⟨⟩ := read
      have others := inductionHypothesis behind
      rw [failed] at others
      obtain ⟨⟩ | ⟨failing, message⟩ := others
      exact follows_parameter unclosed stands
        (.refuses (ends.bind failing.bind_refused) message)
  | case5 c tail unclosed type rest scanned types left listed inductionHypothesis =>
      have read := follows_typeDescriptor stands
      rw [scanned] at read
      obtain ⟨ends, behind⟩ | ⟨⟩ := read
      have others := inductionHypothesis behind
      rw [listed] at others
      obtain ⟨listing, closed⟩ | ⟨⟩ := others
      exact follows_parameter unclosed stands
        (.reads (ends.bind (listing.bind (ends_pure _ _))) closed)

/-- The result of a method is followed, void included. -/
theorem follows_returnType
    (stands : Stands text cs place.position) :
    Follows text (returnType text) place (MethodDescriptor.scanResult cs) := by
  unfold returnType
  fun_cases MethodDescriptor.scanResult cs with
  | case1 =>
      exact .refuses (ends_look_nil stands).bind_refused rfl
  | case2 rest =>
      refine Follows.after ?_ (ends_look stands)
      refine Follows.after ?_ (ends_advance stands)
      exact follows_pure _ (stands.step (by decide))
  | case3 _ given other =>
      obtain ⟨c, rest, rfl⟩ := List.exists_cons_of_ne_nil given
      have unvoid : c ≠ 'V' := by
        rintro rfl
        exact other rest rfl
      refine Follows.after ?_ (ends_look stands)
      rw [if_neg (mt (leadByte_eq_iff (by decide)).mp unvoid)]
      exact (follows_typeDescriptor stands).bind
        fun _ _ _ read => follows_pure _ read

/-- A method descriptor is followed from its bracket to its result. -/
theorem follows_methodDescriptor
    (stands : Stands text cs place.position) :
    Follows text (methodDescriptor text) place (MethodDescriptor.scan cs) := by
  unfold methodDescriptor
  fun_cases MethodDescriptor.scan cs with
  | case1 =>
      exact .refuses (ends_expect_nil _ stands).bind_refused rfl
  | case2 rest =>
      refine Follows.after ?_ (ends_expect stands (by decide))
      have listed : Follows text _ (place.moved 1) _ :=
        follows_parameterTypes (stands.step (by decide))
      cases scanned : MethodDescriptor.scanParameters rest with
      | error fault =>
          rw [scanned] at listed
          obtain ⟨⟩ | ⟨ends, message⟩ := listed
          exact .refuses ends.bind_refused message
      | ok read =>
          rw [scanned] at listed
          obtain ⟨ends, closed⟩ | ⟨⟩ := listed
          refine Follows.after ?_ ends
          refine Follows.after ?_ (ends_expect closed (by decide))
          have ended := closed.step (by decide)
          exact (follows_returnType ended).bind
            fun _ _ _ read => follows_pure _ read
  | case3 _ given other =>
      obtain ⟨c, rest, rfl⟩ := List.exists_cons_of_ne_nil given
      have unopened : c ≠ '(' := by
        rintro rfl
        exact other rest rfl
      exact .refuses
        (ends_expect_other stands (by decide) unopened).bind_refused rfl

/-! ## Whole texts -/

/-- The position is at the end where no characters are left. -/
theorem Stands.length_le_iff
    {left : List Char}
    {position : Nat}
    (stands : Stands text left position) :
    (bytes text).length ≤ position ↔ left = [] := by
  rw [← List.drop_eq_nil_iff, stands.drop_bytes, utf8Bytes_eq_nil]

/-- What a text is read as, by what a reader has left of it. -/
def conclude
    (text : String) :
    Except Descriptor.Fault (α × List Char) → Except Descriptor.Malformed α
  | .error fault => .error ⟨text, fault⟩
  | .ok (value, []) => .ok value
  | .ok (_, _ :: _) => .error ⟨text, .trailing⟩

/-- A walk over a whole text ends as the reader of characters does. -/
theorem readWhole_eq
    {walk : String → Walk Empty α}
    {read : Except Descriptor.Fault (α × List Char)}
    (follows : Follows text (walk text) {} read) :
    readWhole walk text =
      some (.ok ((conclude text read).mapError (·.message))) := by
  unfold readWhole
  cases follows with
  | refuses ends message =>
      rw [show (walk text).run.run {} = _ from ends]
      simp only [conclude, Except.mapError, message]
  | @reads value rest after ends stands =>
      rw [show (walk text).run.run {} = _ from ends]
      cases rest with
      | nil =>
          exact if_pos (stands.length_le_iff.mpr rfl)
      | cons c rest =>
          exact if_neg (mt stands.length_le_iff.mp (List.cons_ne_nil c rest))

/-- The walk over a type descriptor gives what parsing it gives. -/
theorem readWhole_typeDescriptor
    (text : String) :
    readWhole typeDescriptor text =
      some (.ok ((Descriptor.parse text).mapError (·.message))) := by
  rw [readWhole_eq (follows_typeDescriptor (stands_start text)),
    Descriptor.parse]
  rcases Descriptor.scan text.toList with fault | ⟨type, _ | ⟨c, rest⟩⟩ <;> rfl

/-- The walk over a method descriptor gives what parsing it gives. -/
theorem readWhole_methodDescriptor
    (text : String) :
    readWhole methodDescriptor text =
      some (.ok ((MethodDescriptor.parse text).mapError (·.message))) := by
  rw [readWhole_eq (follows_methodDescriptor (stands_start text)),
    MethodDescriptor.parse]
  rcases MethodDescriptor.scan text.toList with
    fault | ⟨method, _ | ⟨c, rest⟩⟩ <;> rfl

end TypeAtlas.Bytewise
