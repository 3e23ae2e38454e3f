import TypeAtlas.ClassFile.Writer

namespace TypeAtlas.ClassFile

/-!
# Reading back fields

A reader reads a value from bytes if it gives the value and hands on whatever
follows the bytes, untouched. Readers run one after another read from bytes put
one behind the other, so each piece of a class file can be treated on its own.
-/

/-- A reader takes a value off the front of bytes, whatever comes after. -/
def Reads
    (read : Read α)
    (bytes : Bytes)
    (value : α) :
    Prop :=
  ∀ rest, read.run (bytes ++ rest) = .ok (value, rest)

theorem reads_pure
    (value : α) :
    Reads (pure value) [] value :=
  fun _ => rfl

/-- Readers one after another read from bytes one behind the other. -/
theorem Reads.bind
    {read : Read α}
    {next : α → Read β}
    {bytes more : Bytes}
    {first : α}
    {second : β}
    (before : Reads read bytes first)
    (after : Reads (next first) more second) :
    Reads (read >>= next) (bytes ++ more) second := by
  intro rest
  rw [StateT.run_bind, List.append_assoc, before (more ++ rest)]
  exact after rest

/-- A reader that needs no bytes, after one that does. -/
theorem Reads.bindNil
    {read : Read α}
    {next : α → Read β}
    {bytes : Bytes}
    {first : α}
    {second : β}
    (before : Reads read bytes first)
    (after : Reads (next first) [] second) :
    Reads (read >>= next) bytes second := by
  have whole := before.bind after
  rwa [List.append_nil] at whole

/-- What is done to the value that is read takes no bytes. -/
theorem Reads.map
    {read : Read α}
    {bytes : Bytes}
    {value : α}
    (reads : Reads read bytes value)
    (change : α → β) :
    Reads (change <$> read) bytes (change value) := by
  intro rest
  rw [StateT.run_map, reads rest]
  rfl

/-! ## Numbers -/

/-- A byte is read as it stands. -/
theorem reads_u1
    (byte : UInt8) :
    Reads readU1 [byte] byte :=
  fun _ => rfl

/-- The two bytes of a number joined again. -/
theorem join_two
    (value : UInt16) :
    (value >>> 8).toUInt8.toUInt16 <<< 8 ||| value.toUInt8.toUInt16 =
      value := by
  rw [← UInt16.toNat_inj]
  have small := value.toNat_lt
  have high :
      ((value >>> 8).toUInt8.toUInt16 <<< 8).toNat =
        (value.toNat / 256) <<< 8 := by
    simp
    omega
  have low : value.toUInt8.toUInt16.toNat = value.toNat % 256 := by
    simp
  rw [UInt16.toNat_or, high, low, ← Nat.shiftLeft_add_eq_or_of_lt]
  all_goals omega

/-- The four bytes of a number joined again. -/
theorem join_four
    (value : UInt32) :
    (value >>> 24).toUInt8.toUInt32 <<< 24 |||
        (value >>> 16).toUInt8.toUInt32 <<< 16 |||
        (value >>> 8).toUInt8.toUInt32 <<< 8 |||
        value.toUInt8.toUInt32 =
      value := by
  rw [← UInt32.toNat_inj]
  have small := value.toNat_lt
  have first :
      ((value >>> 24).toUInt8.toUInt32 <<< 24).toNat =
        (value.toNat / 16777216) <<< 24 := by
    simp
    omega
  have second :
      ((value >>> 16).toUInt8.toUInt32 <<< 16).toNat =
        (value.toNat / 65536 % 256) <<< 16 := by
    simp
    omega
  have third :
      ((value >>> 8).toUInt8.toUInt32 <<< 8).toNat =
        (value.toNat / 256 % 256) <<< 8 := by
    simp
    omega
  have fourth : value.toUInt8.toUInt32.toNat = value.toNat % 256 := by
    simp
  have upper :
      (value.toNat / 16777216) <<< 24 |||
          (value.toNat / 65536 % 256) <<< 16 =
        (value.toNat / 65536) <<< 16 := by
    rw [← Nat.shiftLeft_add_eq_or_of_lt]
    all_goals omega
  have middle :
      (value.toNat / 65536) <<< 16 ||| (value.toNat / 256 % 256) <<< 8 =
        (value.toNat / 256) <<< 8 := by
    rw [← Nat.shiftLeft_add_eq_or_of_lt]
    all_goals omega
  have lower :
      (value.toNat / 256) <<< 8 ||| value.toNat % 256 = value.toNat := by
    rw [← Nat.shiftLeft_add_eq_or_of_lt]
    all_goals omega
  rw [UInt32.toNat_or, UInt32.toNat_or, UInt32.toNat_or, first, second, third,
    fourth, upper, middle, lower]

/-- The two halves of a number joined again. -/
theorem join_halves
    (value : UInt64) :
    (value >>> 32).toUInt32.toUInt64 <<< 32 ||| value.toUInt32.toUInt64 =
      value := by
  rw [← UInt64.toNat_inj]
  have small := value.toNat_lt
  have high :
      ((value >>> 32).toUInt32.toUInt64 <<< 32).toNat =
        (value.toNat / 4294967296) <<< 32 := by
    simp
    omega
  have low :
      value.toUInt32.toUInt64.toNat = value.toNat % 4294967296 := by
    simp
  rw [UInt64.toNat_or, high, low, ← Nat.shiftLeft_add_eq_or_of_lt]
  all_goals omega

/-- A number in two bytes is read as it was written. -/
theorem reads_u2
    (value : UInt16) :
    Reads readU2 (writeU2 value) value :=
  fun rest => congrArg (fun read => Except.ok (read, rest)) (join_two value)

/-- A number in four bytes is read as it was written. -/
theorem reads_u4
    (value : UInt32) :
    Reads readU4 (writeU4 value) value :=
  fun rest => congrArg (fun read => Except.ok (read, rest)) (join_four value)

/-- A number in eight bytes is read as it was written. -/
theorem reads_u8
    (value : UInt64) :
    Reads readU8 (writeU8 value) value := by
  have halves :
      Reads readU8 (writeU8 value)
        ((value >>> 32).toUInt32.toUInt64 <<< 32 |||
          value.toUInt32.toUInt64) :=
    (reads_u4 _).bind ((reads_u4 _).bindNil (reads_pure _))
  rwa [join_halves] at halves

/-- A short number is written in two bytes. -/
@[simp] theorem length_writeU2
    (value : UInt16) :
    (writeU2 value).length = 2 :=
  rfl

/-! ## Runs of bytes -/

/-- What is split off at its own length is the front. -/
theorem splitBytes?_append
    (front rest : Bytes) :
    splitBytes? front.length (front ++ rest) = some (front, rest) := by
  induction front with
  | nil =>
      rfl
  | cons byte front inductionHypothesis =>
      simp only [List.length_cons, List.cons_append, splitBytes?,
        inductionHypothesis, Option.map_some]

/-- Bytes are read as they stand. -/
theorem reads_bytes
    {bytes : Bytes}
    {count : Nat}
    (whole : bytes.length = count) :
    Reads (readBytes count) bytes bytes := by
  intro rest
  subst whole
  have split := splitBytes?_append bytes rest
  simp only [readBytes, StateT.run, split]

/-- What is read from the front of a byte string is read within it. -/
theorem Reads.within
    {step : Read α}
    {body : Bytes}
    {value : α}
    (reads : Reads step body value) :
    Reads (readWithin body step) [] value := by
  intro rest
  have inside := reads []
  rw [List.append_nil] at inside
  simp only [readWithin, inside]
  rfl

/-! ## Counts -/

/-- A count below 65536 is told in two bytes. -/
theorem toNat_count16
    {items : List α}
    (fits : items.length ≤ 65535) :
    (UInt16.ofNat items.length).toNat = items.length := by
  rw [UInt16.toNat_ofNat']
  omega

/-- A count below 256 is told in one byte. -/
theorem toNat_count8
    {items : List α}
    (fits : items.length ≤ 255) :
    (UInt8.ofNat items.length).toNat = items.length := by
  rw [UInt8.toNat_ofNat']
  omega

/-! ## Texts -/

/-- A text is read back from its bytes. -/
theorem decodeText_encodeText
    (text : String) :
    decodeText (encodeText text) = text := by
  have bytes :
      (⟨(encodeText text).toArray⟩ : ByteArray) = text.toByteArray := by
    rw [← String.utf8Encode_toList]
    ext1
    rw [List.utf8Encode, List.data_toByteArray]
    rfl
  have valid : text.toByteArray.IsValidUTF8 := text.isValidUTF8
  unfold decodeText Text.ofUtf8? String.fromUTF8?
  rewrite [bytes, dif_pos valid]
  rfl

end TypeAtlas.ClassFile
