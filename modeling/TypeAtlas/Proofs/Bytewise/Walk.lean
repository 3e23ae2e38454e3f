import Mathlib.Data.List.TakeWhile
import TypeAtlas.Text.Utf8

namespace TypeAtlas.Bytewise

/-!
# Walking over the bytes of a text

A reader that takes a list of characters apart cannot stand inside a
character. A reader of bytes can: its position is a number, it moves on by
single bytes, and it cuts names out between two positions. Three things can go
wrong, and here each of them ends the walk with a misstep: the position passes
the end of the text, a byte is looked at that is not there, or a name is cut
out whose ends are in the wrong order or inside a character. Nothing bounds a
walk, so it could also go on for ever; it then has no result.

The rules of this module say what every step does where characters are left
to be read. A walk that only stands between characters when it cuts takes no
misstep, and from the rules follows which characters it has read.
-/

/-! ## Steps -/

/-- What a reader of bytes must not do. -/
inductive Misstep where
  /-- The position would lie behind the end of the text. -/
  | overrun (position : Nat)
  /-- There is no byte at the position. -/
  | unreadable (position : Nat)
  /-- No part of the text lies between the two positions. -/
  | torn (start stop : Nat)
  deriving Repr, DecidableEq

/-- Why a walk stops early: it refuses the text, or it missteps. -/
inductive Stop where
  | refused (reason : String)
  | misstep (misstep : Misstep)
  deriving Repr, DecidableEq

/-- Where a walk stands, and the events that it has reported. -/
structure Place (ω : Type) where
  position : Nat := 0
  events : List ω := []
  deriving Repr, DecidableEq

/-- The place a number of bytes further on. -/
def Place.moved
    (place : Place ω)
    (count : Nat) :
    Place ω :=
  { place with position := place.position + count }

/-- One byte and then others are moved over like all of them at once. -/
theorem Place.moved_succ
    (place : Place ω)
    (count : Nat) :
    place.moved (count + 1) = (place.moved 1).moved count := by
  simp only [moved, Nat.add_right_comm, Nat.add_assoc]

/-- A walk over bytes. Without a result it does not come to an end. -/
abbrev Walk (ω : Type) :=
  ExceptT Stop (StateT (Place ω) Option)

/-- The bytes of a text. -/
def bytes (text : String) : List UInt8 :=
  text.toByteArray.data.toList

/-- Give the text up. -/
def refuse (reason : String) : Walk ω α :=
  throw (.refused reason)

/-- Report an event. -/
def tell (event : ω) : Walk ω Unit :=
  modify fun place =>
    { place with events := place.events ++ [event] }

/-- A text that is walked over. -/
abbrev Track := String

namespace Track

def atEnd (text : Track) : Walk ω Bool := do
  return (bytes text).length ≤ (← get).position

/-- The byte at the position, as the character with its code. -/
def here (text : Track) : Walk ω Char := do
  let place ← get
  match (bytes text)[place.position]? with
  | some byte => return Char.ofUInt8 byte
  | none => throw (.misstep (.unreadable place.position))

/-- Step over one byte. -/
def advance (text : Track) : Walk ω Unit := do
  let next := (← get).moved 1
  if next.position ≤ (bytes text).length then
    set next
  else
    throw (.misstep (.overrun next.position))

/-- The part of the text between two positions. -/
def cut (text : Track) (start stop : Nat) : Walk ω String :=
  if inPlace :
      start ≤ stop ∧
        (⟨start⟩ : String.Pos.Raw).IsValid text ∧
        (⟨stop⟩ : String.Pos.Raw).IsValid text then
    return text.extract
      (text.pos ⟨start⟩ inPlace.2.1) (text.pos ⟨stop⟩ inPlace.2.2)
  else
    throw (.misstep (.torn start stop))

/-- The next byte, which has to exist. -/
def look (text : Track) : Walk ω Char := do
  if ← text.atEnd then
    refuse "unexpected end"
  else
    text.here

/-- Step over one given character. -/
def expect (text : Track) (c : Char) : Walk ω Unit := do
  if (← text.look) = c then
    text.advance
  else
    refuse s!"expected '{c}'"

/-- Step over the bytes that are wanted, and count them. -/
def skipWhile (text : Track) (wanted : Char → Bool) : Walk ω Nat := do
  if ← text.atEnd then
    return 0
  else if wanted (← text.here) then
    text.advance
    return (← text |>.skipWhile wanted) + 1
  else
    return 0
partial_fixpoint

end Track

open Track

/-! ## Walks that end -/

variable
  {text : String}
  {place between after : Place ω}

/--
A walk comes to an end without a misstep: it gives a value or a reason why it
refuses the text, and leaves a place.
-/
def Ends
    (walk : Walk ω α)
    (place : Place ω)
    (outcome : Except String α)
    (after : Place ω) :
    Prop :=
  walk.run.run place = some (outcome.mapError .refused, after)

theorem ends_pure
    (value : α)
    (place : Place ω) :
    Ends (pure value) place (.ok value) place :=
  rfl

/-- A walk that refuses the text ends where it stands. -/
theorem ends_refuse
    (reason : String)
    (place : Place ω) :
    Ends (refuse reason : Walk ω α) place (.error reason) place :=
  rfl

/-- An event is reported on the spot. -/
theorem ends_tell
    (event : ω)
    (place : Place ω) :
    Ends (tell event) place (.ok ())
      { place with events := place.events ++ [event] } :=
  rfl

/-- A walk that ends is followed by the next one where it has ended. -/
theorem Ends.bind
    {first : Walk ω α}
    {next : α → Walk ω β}
    {found : α}
    {outcome : Except String β}
    (begun : Ends first place (.ok found) between)
    (ended : Ends (next found) between outcome after) :
    Ends (first >>= next) place outcome after := by
  unfold Ends at *
  rw [ExceptT.run_bind, StateT.run_bind, begun]
  exact ended

/-- What follows a refusal is not reached. -/
theorem Ends.bind_refused
    {first : Walk ω α}
    {next : α → Walk ω β}
    {reason : String}
    (begun : Ends first place (.error reason) after) :
    Ends (first >>= next) place (.error reason) after := by
  unfold Ends at *
  rw [ExceptT.run_bind, StateT.run_bind, begun]
  rfl

/-- What comes next may depend on the place. -/
theorem Ends.get
    {next : Place ω → Walk ω α}
    {outcome : Except String α}
    (ended : Ends (next place) place outcome after) :
    Ends (get >>= next) place outcome after :=
  ended

/-! ## Characters as bytes -/

/--
Seen as characters, the bytes of an ASCII character are that character, and
the bytes of any other are not ASCII either.
-/
theorem ofUInt8_of_mem
    {c : Char}
    {byte : UInt8}
    (member : byte ∈ String.utf8EncodeChar c) :
    Char.ofUInt8 byte = c ∨
      0x80 ≤ c.toNat ∧ 0x80 ≤ (Char.ofUInt8 byte).toNat := by
  have code : c.val.toNat = c.toNat := rfl
  have shown : (Char.ofUInt8 byte).toNat = byte.toNat :=
    UInt8.toNat_toUInt32 byte
  unfold String.utf8EncodeChar at member
  dsimp only at member
  rw [code] at member
  split at member
  · left
    obtain rfl := List.mem_singleton.mp member
    apply Char.toNat_inj.mp
    rw [shown, UInt8.toNat_ofNat']
    omega
  · right
    rw [shown]
    refine ⟨by omega, ?_⟩
    split at member
    case isTrue =>
      simp only [List.mem_cons, List.not_mem_nil, or_false] at member
      rcases member with rfl | rfl <;> rw [UInt8.toNat_ofNat'] <;> omega
    case isFalse =>
      split at member
      all_goals
        simp only [List.mem_cons, List.not_mem_nil, or_false] at member
      · rcases member with rfl | rfl | rfl <;>
          rw [UInt8.toNat_ofNat'] <;> omega
      · rcases member with rfl | rfl | rfl | rfl <;>
          rw [UInt8.toNat_ofNat'] <;> omega

/-- A test that has one answer for all characters beyond ASCII. -/
def Coarse (test : Char → γ) : Prop :=
  ∃ answer, ∀ c : Char, 0x80 ≤ c.toNat → test c = answer

/-- An ASCII character is told from all characters beyond ASCII alike. -/
theorem coarse_beq
    {d : Char}
    (ascii : d.toNat < 0x80) :
    Coarse (· == d) := by
  refine ⟨false, fun c beyond => beq_false_of_ne ?_⟩
  rintro rfl
  omega

/-- So is a set of them. -/
theorem coarse_contains
    {stops : List Char}
    (ascii : stops.all (·.toNat < 0x80)) :
    Coarse (stops.contains ·) := by
  refine ⟨false, fun c beyond => ?_⟩
  simp only [List.contains_eq_mem, decide_eq_false_iff_not]
  intro member
  have small : c.toNat < 0x80 :=
    of_decide_eq_true (List.all_eq_true.mp ascii c member)
  omega

namespace Coarse

/-- What is made of the answer of a coarse test is coarse again. -/
theorem comp
    {test : Char → γ}
    (coarse : Coarse test)
    (other : γ → δ) :
    Coarse fun c => other (test c) := by
  obtain ⟨answer, same⟩ := coarse
  exact ⟨other answer, fun c beyond => congrArg other (same c beyond)⟩

/-- A coarse test takes every byte of a character as it takes the character. -/
theorem ofUInt8_of_mem
    {test : Char → γ}
    (coarse : Coarse test)
    {c : Char}
    {byte : UInt8}
    (member : byte ∈ String.utf8EncodeChar c) :
    test (Char.ofUInt8 byte) = test c := by
  obtain ⟨answer, same⟩ := coarse
  rcases Bytewise.ofUInt8_of_mem member with isSame | ⟨beyond, alsoBeyond⟩
  · rw [isSame]
  · rw [same _ alsoBeyond, same _ beyond]

end Coarse

/-- The first byte of a character is the one it is shown as. -/
theorem exists_lead
    (c : Char) :
    ∃ byte more,
      String.utf8EncodeChar c = byte :: more ∧
        Char.ofUInt8 byte = Text.leadByte c := by
  obtain ⟨byte, more, shape⟩ :=
    List.exists_cons_of_ne_nil (String.utf8EncodeChar_ne_nil (c := c))
  exact ⟨byte, more, shape, by simp [Text.leadByte, shape]⟩

/-- A coarse test takes the first byte for the whole character. -/
theorem Coarse.leadByte_eq
    {test : Char → γ}
    (coarse : Coarse test)
    (c : Char) :
    test (Text.leadByte c) = test c := by
  obtain ⟨byte, more, shape, shown⟩ := exists_lead c
  rw [← shown]
  exact coarse.ofUInt8_of_mem (by simp [shape])

/-- An ASCII character is told from all others by its first byte. -/
theorem leadByte_eq_iff
    {c d : Char}
    (ascii : d.toNat < 0x80) :
    Text.leadByte c = d ↔ c = d := by
  have same := (coarse_beq ascii).leadByte_eq c
  rw [← beq_iff_eq, same, beq_iff_eq]

/-- So a run of wanted bytes is a run of wanted characters. -/
theorem Coarse.takeWhile_utf8Bytes
    {wanted : Char → Bool}
    (coarse : Coarse wanted)
    (cs : List Char) :
    (Text.utf8Bytes cs).takeWhile (fun byte => wanted (Char.ofUInt8 byte)) =
      Text.utf8Bytes (cs.takeWhile wanted) := by
  induction cs with
  | nil =>
      rfl
  | cons c cs inductionHypothesis =>
      rw [Text.utf8Bytes, List.flatMap_cons]
      by_cases isWanted : wanted c
      · rw [List.takeWhile_cons_of_pos isWanted]
        rw [List.takeWhile_append_of_pos fun byte member =>
          (coarse.ofUInt8_of_mem member).trans isWanted]
        rw [Text.utf8Bytes, List.flatMap_cons]
        exact congrArg _ inductionHypothesis
      · obtain ⟨byte, more, shape, -⟩ := exists_lead c
        have first : wanted (Char.ofUInt8 byte) = wanted c :=
          coarse.ofUInt8_of_mem (by simp [shape])
        rw [← first] at isWanted
        rw [shape, List.cons_append, List.takeWhile_cons, List.takeWhile_cons,
          ← first, if_neg isWanted, if_neg isWanted]
        rfl

/-- Characters one behind the other have the bytes of both. -/
theorem byteCount_append
    (cs ds : List Char) :
    Text.byteCount (cs ++ ds) = Text.byteCount cs + Text.byteCount ds := by
  simp [Text.byteCount, Text.utf8Bytes]

/-- ASCII characters have one byte each. -/
theorem byteCount_ascii
    {cs : List Char}
    (ascii : ∀ c ∈ cs, c.toNat < 0x80) :
    Text.byteCount cs = cs.length := by
  induction cs with
  | nil =>
      rfl
  | cons c cs inductionHypothesis =>
      obtain ⟨first, others⟩ := List.forall_mem_cons.mp ascii
      have single : Text.byteCount [c] = 1 := by
        rw [Text.byteCount, Text.utf8Bytes, List.flatMap_singleton,
          String.length_utf8EncodeChar, Char.utf8Size_eq_one_iff,
          UInt32.le_iff_toNat_le]
        exact Nat.le_of_lt_succ first
      rw [← List.singleton_append, byteCount_append, single,
        inductionHypothesis others, List.length_append]
      rfl

/-- Only where no characters are left are no bytes left. -/
theorem utf8Bytes_eq_nil
    {cs : List Char} :
    Text.utf8Bytes cs = [] ↔ cs = [] := by
  cases cs with
  | nil =>
      simp [Text.utf8Bytes]
  | cons c cs =>
      simp [Text.utf8Bytes, String.utf8EncodeChar_ne_nil]

/-- The encoding of a list is that of its characters one after another. -/
theorem utf8Encode_eq
    (cs : List Char) :
    cs.utf8Encode.data.toList = Text.utf8Bytes cs := by
  simp [List.utf8Encode, Text.utf8Bytes]

/-- An encoding is as long as its bytes are counted. -/
theorem size_utf8Encode
    (cs : List Char) :
    cs.utf8Encode.size = Text.byteCount cs := by
  rw [Text.byteCount, ← utf8Encode_eq]
  simp

/-- The bytes of a text are those of its characters. -/
theorem bytes_eq
    (text : String) :
    bytes text = Text.utf8Bytes text.toList := by
  rw [bytes, ← String.utf8Encode_toList, utf8Encode_eq]

/-! ## Between characters -/

/-- A position lies right before the characters that are left of a text. -/
def Stands
    (text : String)
    (left : List Char)
    (position : Nat) :
    Prop :=
  ∃ passed,
    text.toList = passed ++ left ∧ position = Text.byteCount passed

/-- A walk begins before all characters. -/
theorem stands_start
    (text : String) :
    Stands text text.toList 0 :=
  ⟨[], rfl, rfl⟩

namespace Stands

variable
  {name left : List Char}
  {position : Nat}

/-- Behind a name the characters behind it are left. -/
theorem skip
    (stands : Stands text (name ++ left) position) :
    Stands text left (position + Text.byteCount name) := by
  obtain ⟨passed, whole, rfl⟩ := stands
  refine ⟨passed ++ name, ?_, (byteCount_append _ _).symm⟩
  rw [whole, List.append_assoc]

/-- An ASCII character is stepped over by one byte. -/
theorem step
    {c : Char}
    (stands : Stands text (c :: left) position)
    (ascii : c.toNat < 0x80) :
    Stands text left (position + 1) := by
  have moved : Stands text left (position + Text.byteCount [c]) :=
    skip stands
  rwa [byteCount_ascii (by simpa using ascii)] at moved

/-- What is left of the bytes are the bytes of what is left. -/
theorem drop_bytes
    (stands : Stands text left position) :
    (bytes text).drop position = Text.utf8Bytes left := by
  obtain ⟨passed, whole, rfl⟩ := stands
  rw [bytes_eq, whole, Text.utf8Bytes, List.flatMap_append]
  exact List.drop_left

/-- The next byte is the first one of the next character. -/
theorem drop_bytes_cons
    {c : Char}
    (stands : Stands text (c :: left) position) :
    ∃ byte more,
      (bytes text).drop position = byte :: more ∧
        Char.ofUInt8 byte = Text.leadByte c := by
  obtain ⟨byte, more, shape, shown⟩ := exists_lead c
  refine ⟨byte, more ++ Text.utf8Bytes left, ?_, shown⟩
  rw [stands.drop_bytes, Text.utf8Bytes, List.flatMap_cons, shape]
  rfl

/-- A place before a character is one where a text can be cut. -/
theorem isValid
    (stands : Stands text left position) :
    (⟨position⟩ : String.Pos.Raw).IsValid text := by
  obtain ⟨passed, whole, rfl⟩ := stands
  have split : text = String.ofList passed ++ String.ofList left := by
    rw [← String.ofList_append, ← whole, String.ofList_toList]
  have ended :
      (⟨Text.byteCount passed⟩ : String.Pos.Raw) =
        (String.ofList passed).rawEndPos := by
    rw [String.Pos.Raw.ext_iff, String.byteIdx_rawEndPos,
      ← String.size_toByteArray, String.toByteArray_ofList, size_utf8Encode]
  rw [split, ended]
  exact String.Pos.Raw.isValid_rawEndPos.append_right _

/-- Such a place lies in the text. -/
theorem le_utf8ByteSize
    (stands : Stands text left position) :
    position ≤ text.utf8ByteSize :=
  stands.isValid.le_utf8ByteSize

/-- The part of a text up to the characters behind a name is that name. -/
theorem extract_eq
    (stands : Stands text (name ++ left) position) :
    text.extract (text.pos ⟨position⟩ stands.isValid)
        (text.pos ⟨position + Text.byteCount name⟩ stands.skip.isValid) =
      String.ofList name := by
  obtain ⟨passed, whole, rfl⟩ := stands
  apply String.toByteArray_inj.mp
  rw [String.toByteArray_extract, String.offset_pos, String.offset_pos,
    String.toByteArray_ofList, ← String.utf8Encode_toList, whole,
    List.utf8Encode_append, List.utf8Encode_append]
  calc
    _ = (name.utf8Encode ++ left.utf8Encode).extract 0 (Text.byteCount name) :=
        ByteArray.extract_append_size_add' (i := 0)
          (size_utf8Encode passed).symm
    _ = name.utf8Encode :=
        ByteArray.extract_append_eq_left (size_utf8Encode name).symm

end Stands

/-! ## What a step does -/

section

variable
  {rest : List UInt8}

/-- The end is where no bytes are left. -/
theorem ends_atEnd_bytes
    (unread : (bytes text).drop place.position = rest) :
    Ends (atEnd text) place (.ok rest.isEmpty) place := by
  have same :
      decide ((bytes text).length ≤ place.position) = rest.isEmpty := by
    rw [← unread, Bool.eq_iff_iff, decide_eq_true_iff, List.isEmpty_iff,
      List.drop_eq_nil_iff]
  rw [← same]
  rfl

/-- The byte at the position is the first one that is unread. -/
theorem ends_here
    {byte : UInt8}
    (unread : (bytes text).drop place.position = byte :: rest) :
    Ends (here text) place (.ok (Char.ofUInt8 byte)) place := by
  have found : (bytes text)[place.position]? = some byte := by
    rw [← List.head?_drop, unread]
    rfl
  refine .get ?_
  simp only [found]
  exact ends_pure _ _

/-- A step over one byte is allowed where a byte is unread. -/
theorem ends_advance_bytes
    {byte : UInt8}
    (unread : (bytes text).drop place.position = byte :: rest) :
    Ends (advance text) place (.ok ()) (place.moved 1) := by
  have inside : (place.moved 1).position ≤ (bytes text).length := by
    have size := congrArg List.length unread
    simp only [List.length_drop, List.length_cons] at size
    simp only [Place.moved]
    omega
  refine .get ?_
  simp only [if_pos inside]
  rfl

/-- The bytes that are stepped over are the first ones that are wanted. -/
theorem ends_skipWhile_bytes
    {wanted : Char → Bool}
    (unread : (bytes text).drop place.position = rest) :
    let run := rest.takeWhile fun byte => wanted (Char.ofUInt8 byte)
    Ends (skipWhile text wanted) place (.ok run.length)
      (place.moved run.length) := by
  dsimp only
  induction rest generalizing place with
  | nil =>
      rw [skipWhile]
      exact (ends_atEnd_bytes unread).bind (ends_pure _ _)
  | cons byte rest inductionHypothesis =>
      rw [skipWhile]
      refine (ends_atEnd_bytes unread).bind ?_
      refine (ends_here unread).bind ?_
      by_cases isWanted : wanted (Char.ofUInt8 byte)
      · have behind :
            (bytes text).drop (place.moved 1).position = rest := by
          simp only [Place.moved, ← List.drop_drop, unread, List.drop_one,
            List.tail_cons]
        rw [if_pos isWanted, List.takeWhile_cons, if_pos isWanted,
          List.length_cons, Place.moved_succ]
        refine (ends_advance_bytes unread).bind ?_
        exact (inductionHypothesis behind).bind (ends_pure _ _)
      · rw [if_neg isWanted, List.takeWhile_cons, if_neg isWanted]
        exact ends_pure _ _

end

section

variable
  {left : List Char}

/-- The end is where no characters are left. -/
theorem ends_atEnd
    (stands : Stands text left place.position) :
    Ends (atEnd text) place (.ok left.isEmpty) place := by
  have same : (Text.utf8Bytes left).isEmpty = left.isEmpty := by
    rw [Bool.eq_iff_iff, List.isEmpty_iff, List.isEmpty_iff, utf8Bytes_eq_nil]
  rw [← same]
  exact ends_atEnd_bytes stands.drop_bytes

/-- At the end there is nothing to look at. -/
theorem ends_look_nil
    (stands : Stands text [] place.position) :
    Ends (look text) place (.error "unexpected end") place :=
  (ends_atEnd stands).bind (ends_refuse _ _)

/-- A look shows the first byte of the next character. -/
theorem ends_look
    {c : Char}
    (stands : Stands text (c :: left) place.position) :
    Ends (look text) place (.ok (Text.leadByte c)) place := by
  obtain ⟨byte, more, unread, shown⟩ := stands.drop_bytes_cons
  rw [← shown]
  exact (ends_atEnd stands).bind (ends_here unread)

/-- A step goes over the first byte of the next character. -/
theorem ends_advance
    {c : Char}
    (stands : Stands text (c :: left) place.position) :
    Ends (advance text) place (.ok ()) (place.moved 1) := by
  obtain ⟨byte, more, unread, -⟩ := stands.drop_bytes_cons
  exact ends_advance_bytes unread

/-- At the end nothing can be expected. -/
theorem ends_expect_nil
    (c : Char)
    (stands : Stands text [] place.position) :
    Ends (expect text c) place (.error "unexpected end") place :=
  (ends_look_nil stands).bind_refused

/-- The expected character is stepped over. -/
theorem ends_expect
    {c : Char}
    (stands : Stands text (c :: left) place.position)
    (ascii : c.toNat < 0x80) :
    Ends (expect text c) place (.ok ()) (place.moved 1) := by
  refine (ends_look stands).bind ?_
  rw [if_pos ((leadByte_eq_iff ascii).mpr rfl)]
  exact ends_advance stands

/-- Any other character is refused. -/
theorem ends_expect_other
    {c d : Char}
    (stands : Stands text (d :: left) place.position)
    (ascii : c.toNat < 0x80)
    (other : d ≠ c) :
    Ends (expect text c) place (.error s!"expected '{c}'") place := by
  refine (ends_look stands).bind ?_
  rw [if_neg (mt (leadByte_eq_iff ascii).mp other)]
  exact ends_refuse _ _

/-- A name is cut out between the characters around it. -/
theorem ends_cut
    {name : List Char}
    {position : Nat}
    (stands : Stands text (name ++ left) position) :
    Ends (cut text position (position + Text.byteCount name)) place
      (.ok (String.ofList name)) place := by
  rw [cut, dif_pos ⟨by omega, stands.isValid, stands.skip.isValid⟩,
    stands.extract_eq]
  exact ends_pure _ _

/-! A cut through a character is a misstep. -/

example :
    (cut "é" 0 1 : Walk Empty String).run.run {} =
      some (.error (.misstep (.torn 0 1)), {}) := by
  decide

/-- A run of wanted characters is skipped with all their bytes. -/
theorem ends_skipWhile
    {wanted : Char → Bool}
    (coarse : Coarse wanted)
    (stands : Stands text left place.position) :
    Ends (skipWhile text wanted) place
      (.ok (Text.byteCount (left.takeWhile wanted)))
      (place.moved (Text.byteCount (left.takeWhile wanted))) := by
  unfold Text.byteCount
  rw [← coarse.takeWhile_utf8Bytes]
  exact ends_skipWhile_bytes stands.drop_bytes

end

end TypeAtlas.Bytewise
