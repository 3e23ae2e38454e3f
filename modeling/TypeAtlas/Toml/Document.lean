import TypeAtlas.Toml.Number
import TypeAtlas.Toml.Table

namespace TypeAtlas.Toml

/-!
# Documents

A document is a list of statements, one a line: a key with its value, or the
header of a table or of an element of an array of tables. A text that is no
document has no reading at all.
-/

namespace Scan

/-! ## Values -/

/-- Read a truth value. -/
def boolean : Scan Value :=
  (do word "true"; return .boolean true)
    <|> (do word "false"; return .boolean false)

/-- Read a value that holds no others. -/
def scalar : Scan Value :=
  (.text <$> text) <|> boolean <|> number

/-- Read an array, given how to read its items. -/
def array (item : Scan Value) : Scan Value := do
  char '['
  let items ← maybe do
    let items ← separated (char ',') do
      gap
      let value ← item
      gap
      return value
    let _ ← maybe (char ',')
    return items
  gap
  char ']'
  return .array (items.getD [])

/-- Read a key and its value. -/
def pair (item : Scan Value) : Scan (List String × Value) := do
  let path ← key
  char '='
  blanks
  let value ← item
  return (path, value)

/-- Put pairs into a table. -/
def tableOf (pairs : List (List String × Value)) : Option Table :=
  pairs.foldlM (fun table (path, value) => table.insert path value) Table.empty

/-- Read a table on one line, given how to read its values. -/
def inlineTable (item : Scan Value) : Scan Value := do
  char '\x7b'
  let pairs ← maybe (separated (char ',') (do
    let entry ← pair item
    blanks
    return entry))
  blanks
  char '\x7d'
  match tableOf (pairs.getD []) with
  | some table => return .table table.finish
  | none => failure

/-- Read a value in which arrays and tables are nested to a given depth. -/
def value : Nat → Scan Value
  | 0 => scalar
  | depth + 1 =>
      scalar <|> array (value depth) <|> inlineTable (value depth)

/-- How deep arrays and tables may be nested. -/
def maxDepth : Nat :=
  79

end Scan

/-! ## Statements -/

/-- A line of a document. -/
inductive Statement where
  | blank
  | pair (path : List String) (value : Value)
  | table (path : List String)
  | element (path : List String)

namespace Scan

/-- Read a header between brackets. -/
def header (opening closing : String) : Scan (List String) := do
  word opening
  let path ← key
  word closing
  return path

/-- Read a statement and the end of its line, unless the text has ended. -/
def statement : Scan Statement := do
  if (← rest).isEmpty then
    failure
  blanks
  let result ← (do
      if ← sees "[[" then
        .element <$> header "[[" "]]"
      else if ← sees "[" then
        .table <$> header "[" "]"
      else do
        let (path, value) ← pair (value maxDepth)
        return .pair path value)
    <|> return .blank
  lineEnd
  return result

/-- Read the mark that may stand in front of a text. -/
def byteOrderMark : Scan Unit :=
  char '\ufeff'

/-- Read all statements of a document. -/
def statements : Scan (List Statement) := do
  let _ ← maybe byteOrderMark
  many statement

end Scan

/-! ## Building -/

/-- A document being built: all tables, and the path of the open one. -/
structure Document where
  root : Table := Table.empty
  path : List String := []

namespace Document

/-- Take a statement. -/
def take
    (document : Document) :
    Statement → Option Document
  | .blank => some document
  | .pair path value => do
      let root ← Table.descend false (·.insert path value) document.path document.root
      return { document with root := root }
  | .table path => do
      return ⟨← document.root.openTable path, path⟩
  | .element path => do
      return ⟨← document.root.openElement path, path⟩

end Document

/-- The values of a document, by key. -/
def parse (text : String) : Option (List (String × Value)) := do
  let statements ← Scan.statements.all? text.toList
  let document ← statements.foldlM Document.take {}
  return document.root.finish

end TypeAtlas.Toml
