import TypeAtlas.ClassFile.Bytes
import TypeAtlas.Text.Utf8

namespace TypeAtlas.ClassFile

/-!
# Text in class files

Texts are stored in a variant of UTF-8 that writes the null character on two
bytes and a supplementary character as two surrogate halves of three bytes
each. Bytes that are plain UTF-8 are read as such. All others are read as
sixteen-bit units, where a byte that starts no unit counts as the replacement
unit, and the units are joined to characters, a lone surrogate half becoming
the replacement character.
-/

/-- The character that stands for what cannot be read. -/
def replacement : Char :=
  '\uFFFD'

/-- The sixteen-bit units of a byte string. -/
def decodeUnits : Bytes → List UInt16
  | [] => []
  | lead :: rest =>
      if lead &&& 0x80 = 0 then
        lead.toUInt16 :: decodeUnits rest
      else if lead &&& 0xE0 = 0xC0 then
        match rest with
        | second :: rest' =>
            ((lead &&& 0x1F).toUInt16 <<< 6 ||| (second &&& 0x3F).toUInt16)
              :: decodeUnits rest'
        | [] => [0xFFFD]
      else if lead &&& 0xF0 = 0xE0 then
        match rest with
        | second :: third :: rest' =>
            ((lead &&& 0x0F).toUInt16 <<< 12 |||
                (second &&& 0x3F).toUInt16 <<< 6 |||
                (third &&& 0x3F).toUInt16)
              :: decodeUnits rest'
        | rest' => 0xFFFD :: decodeUnits rest'
      else
        0xFFFD :: decodeUnits rest

/-- The first half of a surrogate pair. -/
def isHighSurrogate (unit : UInt16) : Bool :=
  unit &&& 0xFC00 == 0xD800

/-- The second half of a surrogate pair. -/
def isLowSurrogate (unit : UInt16) : Bool :=
  unit &&& 0xFC00 == 0xDC00

/-- The supplementary character of a surrogate pair. -/
def joinSurrogates (high low : UInt16) : Char :=
  Char.ofNat
    (0x10000 + (high.toNat - 0xD800) * 0x400 + (low.toNat - 0xDC00))

/-- The characters of sixteen-bit units. -/
def joinUnits : List UInt16 → List Char
  | [] => []
  | unit :: rest =>
      if isHighSurrogate unit then
        match rest with
        | low :: rest' =>
            if isLowSurrogate low then
              joinSurrogates unit low :: joinUnits rest'
            else
              replacement :: joinUnits (low :: rest')
        | [] => [replacement]
      else if isLowSurrogate unit then
        replacement :: joinUnits rest
      else
        Char.ofNat unit.toNat :: joinUnits rest

/-- The text of a stored byte string. -/
def decodeText (bytes : Bytes) : String :=
  match Text.ofUtf8? bytes with
  | some text => text
  | none => String.ofList (joinUnits (decodeUnits bytes))

/-- The bytes under which a text is written. -/
def encodeText (text : String) : Bytes :=
  Text.utf8Bytes text.toList

end TypeAtlas.ClassFile
