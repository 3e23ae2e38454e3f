namespace TypeAtlas.Text

/-!
# Splitting text

A text is split at every occurrence of one character; `n` occurrences give
`n + 1` parts, some of which may be empty.
-/

/-- The parts of a list of characters between separators. -/
def splitChars (separator : Char) : List Char → List (List Char)
  | [] => [[]]
  | c :: cs =>
      if c = separator then
        [] :: splitChars separator cs
      else
        match splitChars separator cs with
        | [] => [[c]]
        | part :: parts => (c :: part) :: parts

/-- The parts of a text between separators. -/
def split
    (separator : Char)
    (text : String) :
    List String :=
  (splitChars separator text.toList).map String.ofList

/-- Characters that count as white space. -/
def isBlank (c : Char) : Bool :=
  let code := c.toNat
  (0x09 ≤ code && code ≤ 0x0D)
    || (0x2000 ≤ code && code ≤ 0x200A)
    || [0x20, 0x85, 0xA0, 0x1680, 0x2028, 0x2029, 0x202F, 0x205F, 0x3000].contains
        code

/-- Whether two texts agree when the case of ASCII letters is ignored. -/
def sameIgnoringCase (a b : String) : Bool :=
  a.toList.map Char.toLower == b.toList.map Char.toLower

end TypeAtlas.Text
