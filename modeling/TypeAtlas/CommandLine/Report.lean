import TypeAtlas.Describe
import TypeAtlas.Survey

namespace TypeAtlas.Report

/-!
# Reports

The lines that answer a command. Lists of names are sorted and without
repetition.
-/

/-! ## Summaries -/

/-- The categories in the order of their words. -/
def categories : List Category :=
  [.annotationType, .classType, .enumType, .interfaceType]

/-- A line that gives a number. -/
def count (label : String) (number : Nat) : String :=
  label ++ ": " ++ toString number

/-- A line below another one. -/
def indented (line : String) : String :=
  "  " ++ line

/-- The number of entered types, in all and of each category. -/
def typeCounts (store : Store) : List String :=
  count "types" store.typeCount
    :: categories.map fun category =>
      indented (count category.word (store.countOf category))

/-- The names that stayed unresolved. -/
def unresolved (store : Store) : List String :=
  let names := store.unresolvedNames
  count "unresolved" names.length :: names.map indented

/-- The problems met, if there are any. -/
def problems (found : List Problem) : List String :=
  if found.isEmpty then
    []
  else
    count "diagnostics" found.length :: found.map (indented ·.message)

/-- The number of classes that could not be decoded, if there are any. -/
def failures (number : Nat) : List String :=
  if number = 0 then [] else [count "undecodable entries" number]

/-- The summary of a graph. -/
def summary
    (atlas : Atlas)
    (tally : Tally) :
    List String :=
  typeCounts atlas.store
    ++ unresolved atlas.store
    ++ problems atlas.problems
    ++ failures tally.failures

/-! ## Types -/

/-- The superclass, with its arguments if they are known. -/
def parentLines (lineage : Lineage) : List String :=
  let generic := lineage.genericParent.map (·.text)
  let plain := lineage.parent.map (·.name)
  (generic <|> plain).toList.map ("extends " ++ ·)

/-- The interfaces, with their arguments if any are known. -/
def interfaceLines (lineage : Lineage) : List String :=
  let texts :=
    if lineage.genericInterfaces.isEmpty then
      lineage.interfaces.map (·.name)
    else
      lineage.genericInterfaces.map (·.text)
  texts.map ("implements " ++ ·)

/-- A field. An array shows one pair of brackets, whatever its dimensions. -/
def fieldLine (field : Field) : String :=
  let kind := if field.isStatic then "static " else ""
  let brackets := if field.isArray then "[]" else ""
  "field " ++ kind ++ field.type.name ++ brackets ++ " " ++ field.name

/-- A method: what it returns, its name, what it takes. -/
def methodLine (method : Method) : String :=
  let result := (method.result.map (·.text)).getD "void"
  let arguments := ", ".intercalate method.argumentTypes
  "method " ++ result ++ " " ++ method.name ++ "(" ++ arguments ++ ")"

/-- The default of an annotation type's element. -/
def defaultLine
    (store : Store)
    (element : String)
    (value : Value) :
    String :=
  "default " ++ element ++ " = " ++ store.describeValue value

/-- What is known about a type. -/
def typeLines
    (store : Store)
    (name : TypeName)
    (node : Node) :
    List String :=
  let state := if store.isVisited name then "" else " (unresolved)"
  let lineage := node.lineage
  let details :=
    parentLines lineage
      ++ interfaceLines lineage
      ++ node.locations.map ("location " ++ ·)
      ++ node.annotations.map ("@" ++ ·.type.name)
      ++ (lineage.staticFields ++ lineage.fields).map fieldLine
      ++ node.methods.map methodLine
      ++ node.defaults.map (fun (element, value) => defaultLine store element value)
  (node.category.word ++ " " ++ name ++ state) :: details.map indented

/-- Lines as a text, each with its end. -/
def text (lines : List String) : String :=
  String.join (lines.map (· ++ "\n"))

end TypeAtlas.Report
