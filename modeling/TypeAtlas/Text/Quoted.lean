import TypeAtlas.Text.Printable

namespace TypeAtlas.Text

/-!
# Quoted text

Text between quotes, with the quote itself, the backslash and all characters
that do not print as themselves escaped.
-/

/-- The escape of a character by its code point. -/
def escapeCode (c : Char) : List Char :=
  "\\u\x7b".toList ++ Nat.toDigits 16 c.toNat ++ "\x7d".toList

/-- A character as it stands between the given quotes. -/
def quoteChar (quote c : Char) : List Char :=
  if c = '\x00' then
    ['\\', '0']
  else if c = '\t' then
    ['\\', 't']
  else if c = '\r' then
    ['\\', 'r']
  else if c = '\n' then
    ['\\', 'n']
  else if c = '\\' ∨ c = quote then
    ['\\', c]
  else if isPrintable c then
    [c]
  else
    escapeCode c

/-- A text between double quotes. -/
def quoted (text : String) : String :=
  String.ofList ('"' :: text.toList.flatMap (quoteChar '"') ++ ['"'])

/-- A character between single quotes. -/
def quotedChar (c : Char) : String :=
  String.ofList ('\'' :: quoteChar '\'' c ++ ['\''])

end TypeAtlas.Text
