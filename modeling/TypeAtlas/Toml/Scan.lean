namespace TypeAtlas.Toml

/-!
# Scanning

A scanner reads from the front of the text that is left and leaves the rest. A
scanner that fails has read nothing: an alternative starts over at the same
place.
-/

/-- A scanner: the text left is its state. -/
abbrev Scan :=
  StateT (List Char) Option

namespace Scan

/-- The text that is left. -/
def rest : Scan (List Char) :=
  get

/-- Read a character that satisfies a condition. -/
def satisfy (accepts : Char → Bool) : Scan Char := do
  match ← get with
  | c :: cs =>
      if accepts c then
        set cs
        return c
      else
        failure
  | [] => failure

/-- Read a given character. -/
def char (expected : Char) : Scan Unit := do
  let _ ← satisfy (· == expected)

/-- Read a given text. -/
def word (expected : String) : Scan Unit :=
  expected.toList.forM char

/-- Read characters as long as they satisfy a condition. -/
def run (accepts : Char → Bool) : Scan (List Char) := do
  let cs ← get
  set (cs.dropWhile accepts)
  return cs.takeWhile accepts

/-- Whether the text left starts with a given one. -/
def sees (expected : String) : Scan Bool := do
  return expected.toList.isPrefixOf (← get)

/-- Read something if it is there. -/
def maybe (item : Scan α) : Scan (Option α) :=
  (some <$> item) <|> pure none

/-- Read items one after another, at most the given number. -/
def upTo (item : Scan α) : Nat → Scan (List α)
  | 0 => return []
  | count + 1 => do
      match ← maybe item with
      | none => return []
      | some first => return first :: (← upTo item count)

/--
Read items one after another until one fails. Every item reads something, so
the number of characters left bounds their number.
-/
def many (item : Scan α) : Scan (List α) := do
  upTo item (← get).length

/-- Read one or more items with a separator between them. -/
def separated (separator : Scan Unit) (item : Scan α) : Scan (List α) := do
  let first ← item
  return first :: (← many (do separator; item))

/-- Succeed at the end of the text. -/
def atEnd : Scan Unit := do
  match ← get with
  | [] => return ()
  | _ => failure

/-- What a scanner reads from a text if it reads all of it. -/
def all? (scan : Scan α) (text : List Char) : Option α :=
  match (do let value ← scan; atEnd; return value : Scan α) text with
  | some (value, _) => some value
  | none => none

/-! ## Blanks, lines and comments -/

def isBlank (c : Char) : Bool :=
  c == ' ' || c == '\t'

/-- Read spaces and tabs. -/
def blanks : Scan Unit := do
  let _ ← run isBlank

/-- Read the end of a line. -/
def newline : Scan Unit :=
  char '\n' <|> word "\r\n"

/-- Whether a character may stand in a comment: anything but control characters. -/
def isPlain (c : Char) : Bool :=
  c == '\t' || (' ' ≤ c && c != '\x7f')

/-- Read a comment up to the end of its line. -/
def comment : Scan Unit := do
  char '#'
  let _ ← run isPlain

/-- Read blanks, ends of lines and comments. -/
def gap : Scan Unit := do
  let _ ← many (char ' ' <|> char '\t' <|> newline <|> comment)

/-- Read what may follow on a line, and its end. -/
def lineEnd : Scan Unit := do
  blanks
  let _ ← maybe comment
  newline <|> atEnd

end Scan

end TypeAtlas.Toml
