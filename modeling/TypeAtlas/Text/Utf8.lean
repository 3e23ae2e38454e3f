namespace TypeAtlas.Text

/-!
# Text as UTF-8

Positions in a text are counted in UTF-8 bytes, and a character that a reader
does not expect is shown as its first byte, read as a Latin-1 character.
-/

/-- The UTF-8 bytes of a list of characters. -/
def utf8Bytes (cs : List Char) : List UInt8 :=
  cs.flatMap String.utf8EncodeChar

/-- The number of UTF-8 bytes of a list of characters. -/
def byteCount (cs : List Char) : Nat :=
  (utf8Bytes cs).length

/-- The character whose code point is the first UTF-8 byte of `c`. -/
def leadByte (c : Char) : Char :=
  match String.utf8EncodeChar c with
  | [] => c
  | byte :: _ => Char.ofUInt8 byte

/-- The text of a byte string that is well-formed UTF-8. -/
def ofUtf8? (bytes : List UInt8) : Option String :=
  String.fromUTF8? ⟨bytes.toArray⟩

end TypeAtlas.Text
