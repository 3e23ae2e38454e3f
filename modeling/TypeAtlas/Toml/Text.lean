import TypeAtlas.Toml.Scan

namespace TypeAtlas.Toml

/-!
# Texts and keys

Texts stand between quotation marks, where a backslash starts an escape, or
between apostrophes, where every character stands for itself. Three marks
enclose a text of several lines; its line ends are read as line feeds.
-/

/-! ## Escapes -/

/-- The value of a hexadecimal digit. -/
def hexValue? (c : Char) : Option Nat :=
  if c.isDigit then
    some (c.toNat - '0'.toNat)
  else if 'a' ≤ c ∧ c ≤ 'f' then
    some (c.toNat - 'a'.toNat + 10)
  else if 'A' ≤ c ∧ c ≤ 'F' then
    some (c.toNat - 'A'.toNat + 10)
  else
    none

def isHexDigit (c : Char) : Bool :=
  (hexValue? c).isSome

/-- The number that digits of a radix spell. -/
def numberOf
    (radix : Nat)
    (digits : List Char) :
    Nat :=
  digits.foldl (fun number c => radix * number + (hexValue? c).getD 0) 0

/-- The character that a letter behind a backslash stands for. -/
def simpleEscape? : Char → Option Char
  | 'b' => some '\x08'
  | 't' => some '\t'
  | 'n' => some '\n'
  | 'f' => some '\x0c'
  | 'r' => some '\r'
  | '"' => some '"'
  | '\\' => some '\\'
  | _ => none

/-- The number of digits behind the letter of a code point escape. -/
def escapeWidth? : Char → Option Nat
  | 'u' => some 4
  | 'U' => some 8
  | _ => none

namespace Scan

/-- Read a given number of characters that satisfy a condition. -/
def exactly
    (accepts : Char → Bool) :
    Nat → Scan (List Char)
  | 0 => return []
  | count + 1 => do
      let first ← satisfy accepts
      return first :: (← exactly accepts count)

/-- Read an escape. A code point that is no character is refused. -/
def escape : Scan Char := do
  char '\\'
  let letter ← satisfy fun _ => true
  match simpleEscape? letter, escapeWidth? letter with
  | some c, _ => return c
  | none, some width =>
      let number := numberOf 16 (← exactly isHexDigit width)
      if number.isValidChar then
        return Char.ofNat number
      else
        failure
  | none, none => failure

/-! ## Texts on one line -/

/-- Whether a character stands for itself between quotation marks. -/
def isQuotable (c : Char) : Bool :=
  isPlain c && c != '"' && c != '\\'

/-- Whether a character may stand between apostrophes. -/
def isLiteral (c : Char) : Bool :=
  isPlain c && c != '\''

/-- Read a text between quotation marks. -/
def quoted : Scan String := do
  char '"'
  let content ← many (satisfy isQuotable <|> escape)
  char '"'
  return String.ofList content

/-- Read a text between apostrophes. -/
def literal : Scan String := do
  char '\''
  let content ← run isLiteral
  char '\''
  return String.ofList content

/-! ## Texts of several lines -/

/-- Read a line end that is part of a text. -/
def textLine : Scan (List Char) := do
  newline
  return ['\n']

/-- Read a backslash at the end of a line, and all blanks and lines behind it. -/
def continuation : Scan (List Char) := do
  char '\\'
  blanks
  newline
  let _ ← many (char ' ' <|> char '\t' <|> newline)
  return []

/-- Read one mark that does not close a text of several lines. -/
def loneMark (mark : Char) : Scan (List Char) := do
  if ← sees (String.ofList [mark, mark, mark]) then
    failure
  char mark
  return [mark]

/--
Read the closing marks of a text of several lines. Up to two more marks in
front of them belong to the text.
-/
def closing (mark : Char) : Scan (List Char) := do
  word (String.ofList [mark, mark, mark])
  let first ← maybe (char mark)
  let second ← maybe (char mark)
  return (first.toList ++ second.toList).map fun _ => mark

/-- Read a text of several lines, given its mark and its pieces. -/
def multiline
    (mark : Char)
    (piece : Scan (List Char)) :
    Scan String := do
  word (String.ofList [mark, mark, mark])
  let _ ← maybe newline
  let content ← many (piece <|> textLine <|> loneMark mark)
  let marks ← closing mark
  return String.ofList (content.flatten ++ marks)

/-- Read a text of several lines between quotation marks. -/
def multilineQuoted : Scan String :=
  multiline '"'
    (continuation <|> (do return [← satisfy isQuotable <|> escape]))

/-- Read a text of several lines between apostrophes. -/
def multilineLiteral : Scan String :=
  multiline '\'' (do return [← satisfy isLiteral])

/-- Read a text of any kind. -/
def text : Scan String := do
  if ← sees "\"\"\"" then
    multilineQuoted
  else if ← sees "'''" then
    multilineLiteral
  else
    quoted <|> literal

/-! ## Keys -/

/-- Whether a character may stand in a key without quotes. -/
def isBare (c : Char) : Bool :=
  c.isAlphanum || c == '-' || c == '_'

/-- Read one part of a key. -/
def keyPart : Scan String :=
  quoted <|> literal <|> do
    match ← run isBare with
    | [] => failure
    | cs => return String.ofList cs

/-- The parts a key may have at most. -/
def maxKeyParts : Nat :=
  79

/-- Read a key: parts with dots between them, and blanks around each. -/
def key : Scan (List String) := do
  let parts ← separated (char '.') do
    blanks
    let part ← keyPart
    blanks
    return part
  if parts.length ≤ maxKeyParts then
    return parts
  else
    failure

end Scan

end TypeAtlas.Toml
