import TypeAtlas.Proofs.ClassFile.Fields

namespace TypeAtlas.ClassFile

/-!
# Texts in both encodings

A text in a class file is a sequence of sixteen-bit units on one, two or three
bytes each, but a text in plain UTF-8 is taken as well. The reader does not
know which of the two it has been given: it takes bytes for plain UTF-8
whenever they can be. This module writes down how units are stored and which
characters they spell, and shows that the guess does no harm. Bytes of units
that pass for plain UTF-8 hold neither a null nor half of a surrogate pair, and
for all other units the two encodings are the same.
-/

/-! ## Units as bytes -/

/-- The bytes of a unit. The null unit takes two, so that no byte is null. -/
def encodeUnit (unit : UInt16) : Bytes :=
  let code := unit.toNat
  if code = 0 then
    [0xC0, 0x80]
  else if code ≤ 0x7F then
    [UInt8.ofNat code]
  else if code ≤ 0x7FF then
    [UInt8.ofNat (0xC0 + code / 64), UInt8.ofNat (0x80 + code % 64)]
  else
    [UInt8.ofNat (0xE0 + code / 4096), UInt8.ofNat (0x80 + code / 64 % 64),
      UInt8.ofNat (0x80 + code % 64)]

/-- The bytes of units. -/
def encodeUnits (units : List UInt16) : Bytes :=
  units.flatMap encodeUnit

/-- The first byte of one tells that there is no other. -/
theorem single_byte :
    ∀ code < 0x80,
      UInt8.ofNat code &&& 0x80 = 0 ∧
        (UInt8.ofNat code).toUInt16 = UInt16.ofNat code := by
  decide

/-- The first byte of two, and the bits it holds. -/
theorem lead_of_two :
    ∀ bits < 32,
      UInt8.ofNat (0xC0 + bits) &&& 0x80 ≠ 0 ∧
        UInt8.ofNat (0xC0 + bits) &&& 0xE0 = 0xC0 ∧
        (UInt8.ofNat (0xC0 + bits) &&& 0x1F).toUInt16 = UInt16.ofNat bits := by
  decide

/-- The first byte of three, and the bits it holds. -/
theorem lead_of_three :
    ∀ bits < 16,
      UInt8.ofNat (0xE0 + bits) &&& 0x80 ≠ 0 ∧
        UInt8.ofNat (0xE0 + bits) &&& 0xE0 ≠ 0xC0 ∧
        UInt8.ofNat (0xE0 + bits) &&& 0xF0 = 0xE0 ∧
        (UInt8.ofNat (0xE0 + bits) &&& 0x0F).toUInt16 = UInt16.ofNat bits := by
  decide

/-- The bits of a byte that is not the first. -/
theorem further_byte :
    ∀ bits < 64,
      (UInt8.ofNat (0x80 + bits) &&& 0x3F).toUInt16 = UInt16.ofNat bits := by
  decide

/-- The bits of three bytes make a unit. -/
theorem join_more_bits
    {high middle low : Nat}
    (highSmall : high < 16)
    (middleSmall : middle < 64)
    (lowSmall : low < 64) :
    UInt16.ofNat high <<< 12 ||| UInt16.ofNat middle <<< 6 |||
        UInt16.ofNat low =
      UInt16.ofNat (high * 4096 + middle * 64 + low) := by
  rw [← UInt16.toNat_inj]
  have first : (UInt16.ofNat high <<< 12).toNat = high <<< 12 := by
    simp [Nat.shiftLeft_eq]
    omega
  have second : (UInt16.ofNat middle <<< 6).toNat = middle <<< 6 := by
    simp [Nat.shiftLeft_eq]
    omega
  have third : (UInt16.ofNat low).toNat = low := by
    rw [UInt16.toNat_ofNat']
    omega
  have upper :
      high <<< 12 ||| middle <<< 6 = (high * 64 + middle) <<< 6 := by
    rw [← Nat.shiftLeft_add_eq_or_of_lt]
    all_goals omega
  rw [UInt16.toNat_or, UInt16.toNat_or, first, second, third, upper,
    UInt16.toNat_ofNat', ← Nat.shiftLeft_add_eq_or_of_lt lowSmall]
  omega

/-- The bits of two bytes make a unit, as those of three do without the first. -/
theorem join_bits
    {high low : Nat}
    (highSmall : high < 32)
    (lowSmall : low < 64) :
    UInt16.ofNat high <<< 6 ||| UInt16.ofNat low =
      UInt16.ofNat (high * 64 + low) := by
  have joined := @join_more_bits 0 high low (by omega) (by omega) lowSmall
  simpa using joined

/-! ## Units from bytes -/

/-- A byte below 0x80 is a unit by itself. -/
theorem decodeUnits_one
    {lead : UInt8}
    (single : lead &&& 0x80 = 0)
    (rest : Bytes) :
    decodeUnits (lead :: rest) = lead.toUInt16 :: decodeUnits rest := by
  rw [decodeUnits.eq_def]
  simp only [single, if_true]

/-- A lead byte of two carries five bits, and the byte behind it six. -/
theorem decodeUnits_two
    {lead : UInt8}
    (more : lead &&& 0x80 ≠ 0)
    (two : lead &&& 0xE0 = 0xC0)
    (second : UInt8)
    (rest : Bytes) :
    decodeUnits (lead :: second :: rest) =
      ((lead &&& 0x1F).toUInt16 <<< 6 ||| (second &&& 0x3F).toUInt16) ::
        decodeUnits rest := by
  rw [decodeUnits.eq_def]
  simp only [more, two, if_true, if_false]

/-- A lead byte of three carries four bits, and both bytes behind it six. -/
theorem decodeUnits_three
    {lead : UInt8}
    (more : lead &&& 0x80 ≠ 0)
    (notTwo : lead &&& 0xE0 ≠ 0xC0)
    (three : lead &&& 0xF0 = 0xE0)
    (second third : UInt8)
    (rest : Bytes) :
    decodeUnits (lead :: second :: third :: rest) =
      ((lead &&& 0x0F).toUInt16 <<< 12 ||| (second &&& 0x3F).toUInt16 <<< 6 |||
          (third &&& 0x3F).toUInt16) ::
        decodeUnits rest := by
  rw [decodeUnits.eq_def]
  simp only [more, notTwo, three, if_true, if_false]

/-- A unit is read off the front of its bytes. -/
theorem decodeUnits_encodeUnit_append
    (unit : UInt16)
    (rest : Bytes) :
    decodeUnits (encodeUnit unit ++ rest) = unit :: decodeUnits rest := by
  have small := unit.toNat_lt
  have same : UInt16.ofNat unit.toNat = unit := UInt16.ofNat_toNat
  unfold encodeUnit
  dsimp only
  split
  · next isNull =>
      rw [← same, isNull]
      exact decodeUnits_two (by decide) (by decide) 0x80 rest
  split
  · next _ isShort =>
      obtain ⟨single, bits⟩ := single_byte unit.toNat (by omega)
      rw [List.singleton_append, decodeUnits_one single, bits, same]
  split
  · obtain ⟨more, two, bits⟩ := lead_of_two (unit.toNat / 64) (by omega)
    have lowBits := further_byte (unit.toNat % 64) (by omega)
    rw [List.cons_append, List.singleton_append, decodeUnits_two more two, bits,
      lowBits, join_bits (by omega) (by omega), Nat.div_add_mod', same]
  · obtain ⟨more, notTwo, three, bits⟩ :=
      lead_of_three (unit.toNat / 4096) (by omega)
    have middleBits := further_byte (unit.toNat / 64 % 64) (by omega)
    have lowBits := further_byte (unit.toNat % 64) (by omega)
    have whole :
        unit.toNat / 4096 * 4096 + unit.toNat / 64 % 64 * 64 +
            unit.toNat % 64 =
          unit.toNat := by
      omega
    rw [List.cons_append, List.cons_append, List.singleton_append,
      decodeUnits_three more notTwo three, bits, middleBits, lowBits,
      join_more_bits (by omega) (by omega) (by omega), whole, same]

/-- Units are decoded from the bytes they are encoded as. -/
theorem decodeUnits_encodeUnits
    (units : List UInt16) :
    decodeUnits (encodeUnits units) = units := by
  induction units with
  | nil =>
      rfl
  | cons unit units inductionHypothesis =>
      rw [encodeUnits, List.flatMap_cons, decodeUnits_encodeUnit_append]
      exact congrArg _ inductionHypothesis

/-! ## Characters from units -/

/-- The first half of a pair, by its range. -/
def IsHigh (unit : UInt16) : Prop :=
  0xD800 ≤ unit.toNat ∧ unit.toNat ≤ 0xDBFF

/-- The second half of a pair, by its range. -/
def IsLow (unit : UInt16) : Prop :=
  0xDC00 ≤ unit.toNat ∧ unit.toNat ≤ 0xDFFF

/-- The units of a character: itself, or two halves of a pair. -/
def charUnits (c : Char) : List UInt16 :=
  let code := c.toNat
  if code < 0x10000 then
    [UInt16.ofNat code]
  else
    [UInt16.ofNat (0xD800 + (code - 0x10000) / 0x400),
      UInt16.ofNat (0xDC00 + (code - 0x10000) % 0x400)]

/-- The units of a text. -/
def textUnits (text : String) : List UInt16 :=
  text.toList.flatMap charUnits

/--
The characters that units spell, from left to right. A half that has not its
other half beside it stands for the replacement character.
-/
inductive Spell : List UInt16 → List Char → Prop where
  | nil :
      Spell [] []
  | char
      {units : List UInt16}
      {cs : List Char}
      (c : Char) :
      Spell units cs →
      Spell (charUnits c ++ units) (c :: cs)
  | highAlone
      {high : UInt16}
      {units : List UInt16}
      {cs : List Char} :
      IsHigh high →
      (∀ low ∈ units.head?, ¬ IsLow low) →
      Spell units cs →
      Spell (high :: units) (replacement :: cs)
  | lowAlone
      {low : UInt16}
      {units : List UInt16}
      {cs : List Char} :
      IsLow low →
      Spell units cs →
      Spell (low :: units) (replacement :: cs)

/-- The upper six bits of a number are those of its range. -/
theorem and_upper_eq_iff
    {code upper : Nat}
    (small : code < 0x10000) :
    code &&& 0xFC00 = upper * 0x400 ↔ code / 0x400 = upper := by
  have shifted : (code &&& 0xFC00) / 2 ^ 10 = code / 2 ^ 10 % 2 ^ 6 := by
    rw [← Nat.shiftRight_eq_div_pow, Nat.shiftRight_and_distrib,
      ← Nat.and_two_pow_sub_one_eq_mod, Nat.shiftRight_eq_div_pow code]
    rfl
  have below : (code &&& 0xFC00) % 2 ^ 10 = 0 := by
    rw [Nat.and_mod_two_pow]
    exact Nat.and_zero _
  omega

/-- The test for a high surrogate finds the high surrogates. -/
theorem isHighSurrogate_iff
    {unit : UInt16} :
    isHighSurrogate unit = true ↔ IsHigh unit := by
  have small := unit.toNat_lt
  have range := @and_upper_eq_iff unit.toNat 0x36 small
  rw [isHighSurrogate, beq_iff_eq, ← UInt16.toNat_inj, UInt16.toNat_and]
  exact range.trans (by unfold IsHigh; omega)

/-- The test for a low surrogate finds the low surrogates. -/
theorem isLowSurrogate_iff
    {unit : UInt16} :
    isLowSurrogate unit = true ↔ IsLow unit := by
  have small := unit.toNat_lt
  have range := @and_upper_eq_iff unit.toNat 0x37 small
  rw [isLowSurrogate, beq_iff_eq, ← UInt16.toNat_inj, UInt16.toNat_and]
  exact range.trans (by unfold IsLow; omega)

/-- A character with a code that can be one has that code. -/
theorem toNat_ofNat_of_valid
    {code : Nat}
    (valid : code.isValidChar) :
    (Char.ofNat code).toNat = code := by
  rw [Char.ofNat, dif_pos valid]
  rfl

/-- A character in the basic plane is the unit of its number. -/
theorem charUnits_of_toNat
    {c : Char}
    {unit : UInt16}
    (same : c.toNat = unit.toNat) :
    charUnits c = [unit] := by
  have small := unit.toNat_lt
  rw [charUnits, if_pos (by omega), same, UInt16.ofNat_toNat]

/-- A unit that is no surrogate is the character of its number. -/
theorem charUnits_ofNat
    {unit : UInt16}
    (notHigh : ¬ IsHigh unit)
    (notLow : ¬ IsLow unit) :
    charUnits (Char.ofNat unit.toNat) = [unit] := by
  have small := unit.toNat_lt
  refine charUnits_of_toNat (toNat_ofNat_of_valid ?_)
  unfold IsHigh at notHigh
  unfold IsLow at notLow
  unfold Nat.isValidChar
  omega

/-- Two halves of a pair are the units of the character they are joined to. -/
theorem charUnits_joinSurrogates
    {high low : UInt16}
    (isHigh : IsHigh high)
    (isLow : IsLow low) :
    charUnits (joinSurrogates high low) = [high, low] := by
  obtain ⟨highFrom, highTo⟩ := isHigh
  obtain ⟨lowFrom, lowTo⟩ := isLow
  have code :
      (joinSurrogates high low).toNat =
        0x10000 + (high.toNat - 0xD800) * 0x400 + (low.toNat - 0xDC00) :=
    toNat_ofNat_of_valid (by unfold Nat.isValidChar; omega)
  rw [charUnits, if_neg (by omega), code]
  have upper :
      0xD800 + (0x10000 + (high.toNat - 0xD800) * 0x400 +
          (low.toNat - 0xDC00) - 0x10000) / 0x400 =
        high.toNat := by
    omega
  have lower :
      0xDC00 + (0x10000 + (high.toNat - 0xD800) * 0x400 +
          (low.toNat - 0xDC00) - 0x10000) % 0x400 =
        low.toNat := by
    omega
  rw [upper, lower, UInt16.ofNat_toNat, UInt16.ofNat_toNat]

/-- What units are joined to is what they spell. -/
theorem spell_joinUnits
    (units : List UInt16) :
    Spell units (joinUnits units) := by
  fun_induction joinUnits units with
  | case1 =>
      exact .nil
  | case2 high isHigh low rest isLow inductionHypothesis =>
      rw [isHighSurrogate_iff] at isHigh
      rw [isLowSurrogate_iff] at isLow
      have pair := Spell.char (joinSurrogates high low) inductionHypothesis
      rwa [charUnits_joinSurrogates isHigh isLow] at pair
  | case3 high isHigh low rest notLow inductionHypothesis =>
      rw [isHighSurrogate_iff] at isHigh
      rw [isLowSurrogate_iff] at notLow
      exact .highAlone isHigh (by simpa using notLow) inductionHypothesis
  | case4 high isHigh =>
      rw [isHighSurrogate_iff] at isHigh
      exact .highAlone isHigh (by simp) .nil
  | case5 low rest notHigh isLow inductionHypothesis =>
      rw [isLowSurrogate_iff] at isLow
      exact .lowAlone isLow inductionHypothesis
  | case6 unit rest notHigh notLow inductionHypothesis =>
      rw [isHighSurrogate_iff] at notHigh
      rw [isLowSurrogate_iff] at notLow
      have single := Spell.char (Char.ofNat unit.toNat) inductionHypothesis
      rwa [charUnits_ofNat notHigh notLow] at single

/-! One step of joining units, by the ranges that they are in. -/

/-- A high and a low surrogate make one character together. -/
theorem joinUnits_pair
    {high low : UInt16}
    (isHigh : IsHigh high)
    (isLow : IsLow low)
    (units : List UInt16) :
    joinUnits (high :: low :: units) =
      joinSurrogates high low :: joinUnits units := by
  rw [← isHighSurrogate_iff] at isHigh
  rw [← isLowSurrogate_iff] at isLow
  rw [joinUnits.eq_def]
  simp only [isHigh, isLow, if_true]

/-- A high surrogate without a low one behind it is replaced. -/
theorem joinUnits_high
    {high : UInt16}
    {units : List UInt16}
    (isHigh : IsHigh high)
    (alone : ∀ low ∈ units.head?, ¬ IsLow low) :
    joinUnits (high :: units) = replacement :: joinUnits units := by
  rw [← isHighSurrogate_iff] at isHigh
  rw [joinUnits.eq_def]
  cases units with
  | nil =>
      simp only [isHigh, if_true]
      rfl
  | cons low units =>
      have notLow := alone low rfl
      rw [← isLowSurrogate_iff] at notLow
      simp only [isHigh, notLow, if_true, Bool.false_eq_true, if_false]

/-- A low surrogate without a high one before it is replaced. -/
theorem joinUnits_low
    {low : UInt16}
    (isLow : IsLow low)
    (units : List UInt16) :
    joinUnits (low :: units) = replacement :: joinUnits units := by
  have notHigh : ¬ IsHigh low := by
    unfold IsHigh
    unfold IsLow at isLow
    omega
  rw [← isHighSurrogate_iff] at notHigh
  rw [← isLowSurrogate_iff] at isLow
  rw [joinUnits.eq_def]
  simp only [notHigh, isLow, if_true, Bool.false_eq_true, if_false]

/-- A unit that is no surrogate is a character by itself. -/
theorem joinUnits_plain
    {unit : UInt16}
    (notHigh : ¬ IsHigh unit)
    (notLow : ¬ IsLow unit)
    (units : List UInt16) :
    joinUnits (unit :: units) = Char.ofNat unit.toNat :: joinUnits units := by
  rw [← isHighSurrogate_iff] at notHigh
  rw [← isLowSurrogate_iff] at notLow
  rw [joinUnits.eq_def]
  simp only [notHigh, notLow, Bool.false_eq_true, if_false]

/-- The units of a character are joined to it again. -/
theorem joinUnits_charUnits_append
    (c : Char)
    (units : List UInt16) :
    joinUnits (charUnits c ++ units) = c :: joinUnits units := by
  have valid : c.toNat.isValidChar := c.valid
  unfold Nat.isValidChar at valid
  unfold charUnits
  dsimp only
  split
  · next isShort =>
      have code : (UInt16.ofNat c.toNat).toNat = c.toNat := by
        rw [UInt16.toNat_ofNat']
        omega
      have notHigh : ¬ IsHigh (UInt16.ofNat c.toNat) := by
        rw [IsHigh, code]
        omega
      have notLow : ¬ IsLow (UInt16.ofNat c.toNat) := by
        rw [IsLow, code]
        omega
      rw [List.singleton_append, joinUnits_plain notHigh notLow, code,
        Char.ofNat_toNat]
  · next isLong =>
      generalize first : 0xD800 + (c.toNat - 0x10000) / 0x400 = high
      generalize second : 0xDC00 + (c.toNat - 0x10000) % 0x400 = low
      have highCode : (UInt16.ofNat high).toNat = high := by
        rw [UInt16.toNat_ofNat']
        omega
      have lowCode : (UInt16.ofNat low).toNat = low := by
        rw [UInt16.toNat_ofNat']
        omega
      have isHigh : IsHigh (UInt16.ofNat high) := by
        rw [IsHigh, highCode]
        omega
      have isLow : IsLow (UInt16.ofNat low) := by
        rw [IsLow, lowCode]
        omega
      have joined :
          0x10000 + (high - 0xD800) * 0x400 + (low - 0xDC00) = c.toNat := by
        omega
      rw [List.cons_append, List.singleton_append, joinUnits_pair isHigh isLow,
        joinSurrogates, highCode, lowCode, joined, Char.ofNat_toNat]

/-- Units spell one text only, the one they are joined to. -/
theorem Spell.joinUnits_eq
    {units : List UInt16}
    {cs : List Char}
    (spelled : Spell units cs) :
    joinUnits units = cs := by
  induction spelled with
  | nil =>
      rfl
  | char c _ inductionHypothesis =>
      rw [joinUnits_charUnits_append, inductionHypothesis]
  | highAlone isHigh alone _ inductionHypothesis =>
      rw [joinUnits_high isHigh alone, inductionHypothesis]
  | lowAlone isLow _ inductionHypothesis =>
      rw [joinUnits_low isLow, inductionHypothesis]

/-- The spelling of units is what they are joined to. -/
theorem spell_iff
    {units : List UInt16}
    {cs : List Char} :
    Spell units cs ↔ joinUnits units = cs := by
  refine ⟨Spell.joinUnits_eq, ?_⟩
  rintro rfl
  exact spell_joinUnits units

/-- The units of a text spell the text. -/
theorem spell_textUnits
    (text : String) :
    Spell (textUnits text) text.toList := by
  unfold textUnits
  induction text.toList with
  | nil =>
      exact .nil
  | cons c cs inductionHypothesis =>
      rw [List.flatMap_cons]
      exact .char c inductionHypothesis

/-! ## Units that pass for plain UTF-8 -/

/-- The bytes of a unit start with neither a null nor the lead of four bytes. -/
theorem encodeUnit_lead
    (unit : UInt16) :
    ∃ lead more,
      encodeUnit unit = lead :: more ∧ 0 < lead.toNat ∧ lead.toNat < 0xF0 := by
  have small := unit.toNat_lt
  unfold encodeUnit
  dsimp only
  split
  · exact ⟨_, _, rfl, by decide, by decide⟩
  split
  · refine ⟨_, _, rfl, ?_, ?_⟩
    all_goals
      rw [UInt8.toNat_ofNat']
      omega
  split
  · refine ⟨_, _, rfl, ?_, ?_⟩
    all_goals
      rw [UInt8.toNat_ofNat']
      omega
  · refine ⟨_, _, rfl, ?_, ?_⟩
    all_goals
      rw [UInt8.toNat_ofNat']
      omega

/-- A character of one unit, the null apart, has the same bytes in both. -/
theorem utf8EncodeChar_eq_encodeUnit
    {c : Char}
    {unit : UInt16}
    (same : c.toNat = unit.toNat)
    (nonzero : c.toNat ≠ 0) :
    String.utf8EncodeChar c = encodeUnit unit := by
  have small := unit.toNat_lt
  have code : c.val.toNat = unit.toNat := same
  rw [same] at nonzero
  unfold String.utf8EncodeChar encodeUnit
  dsimp only
  rw [code, if_neg nonzero]
  split
  · rfl
  split
  · have upper : unit.toNat / 64 % 32 = unit.toNat / 64 := by omega
    simp only [upper, Nat.add_comm]
  · have upper : unit.toNat / 4096 % 16 = unit.toNat / 4096 := by omega
    rw [if_pos (by omega)]
    simp only [upper, Nat.add_comm]

/-- A character of two units has four bytes, and their lead says so. -/
theorem utf8EncodeChar_lead
    {c : Char}
    (isLong : 0x10000 ≤ c.toNat) :
    ∃ lead more,
      String.utf8EncodeChar c = lead :: more ∧ 0xF0 ≤ lead.toNat := by
  have code : c.val.toNat = c.toNat := rfl
  unfold String.utf8EncodeChar
  dsimp only
  rw [code, if_neg (by omega), if_neg (by omega), if_neg (by omega)]
  refine ⟨_, _, rfl, ?_⟩
  rw [UInt8.toNat_ofNat']
  omega

/-- Where the bytes of a unit start like those of a character, they are those. -/
theorem encodeUnit_append_inj
    {unit : UInt16}
    {c : Char}
    {more rest : Bytes}
    (same : encodeUnit unit ++ more = String.utf8EncodeChar c ++ rest) :
    c.toNat = unit.toNat ∧ more = rest := by
  obtain ⟨lead, tail, bytes, positive, below⟩ := encodeUnit_lead unit
  by_cases isNull : c.toNat = 0
  · obtain rfl : c = Char.ofNat 0 := by rw [← isNull, Char.ofNat_toNat]
    rw [bytes] at same
    rw [(List.cons.inj same).1] at positive
    exact absurd positive (by decide)
  by_cases isLong : 0x10000 ≤ c.toNat
  · obtain ⟨other, _, otherBytes, above⟩ := utf8EncodeChar_lead isLong
    rw [bytes, otherBytes] at same
    rw [(List.cons.inj same).1] at below
    omega
  -- The units of all other characters are told by what is decoded.
  have code : c.toNat = (UInt16.ofNat c.toNat).toNat := by
    rw [UInt16.toNat_ofNat']
    omega
  rw [utf8EncodeChar_eq_encodeUnit code isNull] at same
  have decoded := congrArg decodeUnits same
  rw [decodeUnits_encodeUnit_append, decodeUnits_encodeUnit_append] at decoded
  have units := (List.cons.inj decoded).1
  rw [← units] at same code
  exact ⟨code, List.append_cancel_left same⟩

/-- Units whose bytes are those of a text in plain UTF-8 spell that text. -/
theorem spell_of_encodeUnits_eq
    {units : List UInt16}
    {cs : List Char}
    (same : encodeUnits units = Text.utf8Bytes cs) :
    Spell units cs := by
  induction units generalizing cs with
  | nil =>
      cases cs with
      | nil =>
          exact .nil
      | cons c cs =>
          simp [encodeUnits, Text.utf8Bytes] at same
  | cons unit units inductionHypothesis =>
      cases cs with
      | nil =>
          obtain ⟨_, _, bytes, -⟩ := encodeUnit_lead unit
          simp [encodeUnits, Text.utf8Bytes, bytes] at same
      | cons c cs =>
          rw [encodeUnits, Text.utf8Bytes, List.flatMap_cons,
            List.flatMap_cons] at same
          obtain ⟨code, left⟩ := encodeUnit_append_inj same
          have single := Spell.char c (inductionHypothesis left)
          rwa [charUnits_of_toNat code] at single

/-- Text that is read as plain UTF-8 has those very bytes. -/
theorem eq_utf8Bytes_of_ofUtf8?
    {bytes : Bytes}
    {text : String}
    (read : Text.ofUtf8? bytes = some text) :
    bytes = Text.utf8Bytes text.toList := by
  unfold Text.ofUtf8? String.fromUTF8? at read
  split at read
  · next valid =>
      have whole : text.toByteArray = ⟨bytes.toArray⟩ := by
        rw [← Option.some.inj read]
        rfl
      rw [← String.utf8Encode_toList] at whole
      have same := congrArg (·.data.toList) whole
      simpa [List.utf8Encode, Text.utf8Bytes] using same.symm
  · cases read

/-! ## Both encodings -/

/--
Units are stored and read back as the text that they spell, so a text is read
back from its units, and it is read back from plain UTF-8 as well.
-/
theorem decodeText_reads_back :
    (∀ (units : List UInt16) (text : String),
      decodeText (encodeUnits units) = text ↔ Spell units text.toList) ∧
      (∀ text : String, decodeText (encodeUnits (textUnits text)) = text) ∧
      ∀ text : String, decodeText (Text.utf8Bytes text.toList) = text := by
  have spelled :
      ∀ units : List UInt16,
        Spell units (decodeText (encodeUnits units)).toList := by
    intro units
    unfold decodeText
    split
    · next text read =>
        exact spell_of_encodeUnits_eq (eq_utf8Bytes_of_ofUtf8? read)
    · rw [decodeUnits_encodeUnits, String.toList_ofList]
      exact spell_joinUnits units
  have reads :
      ∀ (units : List UInt16) (text : String),
        decodeText (encodeUnits units) = text ↔ Spell units text.toList := by
    intro units text
    rw [spell_iff, (spelled units).joinUnits_eq, String.toList_inj]
  exact ⟨reads, fun text => (reads _ _).mpr (spell_textUnits text),
    decodeText_encodeText⟩

example :
    encodeUnits (textUnits "a\x00😀") =
      [0x61, 0xC0, 0x80, 0xED, 0xA0, 0xBD, 0xED, 0xB8, 0x80] := by
  decide +kernel

end TypeAtlas.ClassFile
