import TypeAtlas.Query.Members
import TypeAtlas.Text.Decimal
import TypeAtlas.Text.Quoted

namespace TypeAtlas

/-!
# Descriptions

Short texts that describe what is in the graph, for people who look into it.
A description names the kind of thing and its fields; `..` stands for fields
left out.
-/

namespace Describe

/-- A kind, and what it is applied to. -/
def call (kind content : String) : String :=
  kind ++ "(" ++ content ++ ")"

/-- A kind and its fields. -/
def record
    (kind : String)
    (fields : List (String × String)) :
    String :=
  let inner := ", ".intercalate (fields.map fun (key, text) => key ++ ": " ++ text)
  kind ++ " \x7b " ++ inner ++ " \x7d"

/-- A kind and some of its fields. -/
def openRecord
    (kind : String)
    (fields : List (String × String)) :
    String :=
  let inner :=
    String.join (fields.map fun (key, text) => key ++ ": " ++ text ++ ", ")
  kind ++ " \x7b " ++ inner ++ ".. \x7d"

/-- Texts in square brackets. -/
def listed (texts : List String) : String :=
  "[" ++ ", ".intercalate texts ++ "]"

/-- Named texts in braces. -/
def mapped (pairs : List (String × String)) : String :=
  let inner := ", ".intercalate
    (pairs.map fun (key, text) => Text.quoted key ++ ": " ++ text)
  "\x7b" ++ inner ++ "\x7d"

def truth (value : Bool) : String :=
  if value then "true" else "false"

end Describe

open Describe

/-- The word for a category in descriptions. -/
def Category.label : Category → String
  | classType => "Class"
  | interfaceType => "Interface"
  | annotationType => "Annotation"
  | enumType => "Enum"

def Reference.describe (reference : Reference) : String :=
  call "TypeRef" (Text.quoted reference.name)

def Scalar.describe : Scalar → String
  | boolean value => call "Boolean" (truth value)
  | byte value => call "Byte" (toString value.toInt)
  | char value => call "Char" (Text.quotedChar value)
  | short value => call "Short" (toString value.toInt)
  | int value => call "Int" (toString value.toInt)
  | long value => call "Long" (toString value.toInt)
  | float bits => call "Float" (Text.floatText .single bits.toNat)
  | double bits => call "Double" (Text.floatText .double bits.toNat)
  | text value => call "String" (Text.quoted value)

namespace Store

/-- The description of an element. -/
def describeElement
    (store : Store)
    (element : Element) :
    String :=
  call "ElementRef" ((store.elementName? element).getD "<dropped>")

mutual

/-- The description of a value. -/
def describeValue (store : Store) : Value → String
  | .scalar value => value.describe
  | .classLiteral type => call "Class" type.describe
  | .enumConstant type constant =>
      record "Enum"
        [("type_ref", type.describe), ("constant", Text.quoted constant)]
  | .annotated use => call "Annotation" (describeUse store use)
  | .sequence items => call "Sequence" (listed (describeItems store items))

/-- The descriptions of the items of a sequence. -/
def describeItems (store : Store) : List Value → List String
  | [] => []
  | item :: items => describeValue store item :: describeItems store items

/-- The description of an annotation. -/
def describeUse (store : Store) : AnnotationUse → String
  | ⟨type, element, values⟩ =>
      let attached :=
        match element with
        | some element => store.describeElement element
        | none => "<uninit>"
      record "AnnotationModel"
        [("type_ref", type.describe),
          ("element", call "OnceLock" attached),
          ("values", mapped (describePairs store values))]

/-- The descriptions of named values. -/
def describePairs (store : Store) :
    List (String × Value) → List (String × String)
  | [] => []
  | (key, value) :: pairs =>
      (key, describeValue store value) :: describePairs store pairs

end

end Store

def Entry.describe (entry : Entry) : String :=
  let category :=
    match entry.category with
    | some category => call "Some" category.label
    | none => "None"
  openRecord "TypeProxy"
    [("name", Text.quoted entry.name),
      ("category", category),
      ("visited", truth entry.visited)]

def Node.describe
    (name : TypeName)
    (node : Node) :
    String :=
  openRecord "TypeNode"
    [("name", Text.quoted name), ("category", node.category.label)]

def Field.describe (field : Field) : String :=
  openRecord "FieldModel"
    [("name", Text.quoted field.name),
      ("type", field.type.describe),
      ("is_static", truth field.isStatic)]

def Method.describe (method : Method) : String :=
  openRecord "MethodModel"
    [("name", Text.quoted method.name),
      ("signature", Text.quoted method.descriptor)]

def Parameter.describe (parameter : Parameter) : String :=
  openRecord "ParameterModel"
    [("index", toString parameter.index),
      ("type", Text.quoted parameter.sourceType)]

/-- The descriptions of a node and everything it declares. -/
def Store.describeNode
    (store : Store)
    (name : TypeName)
    (node : Node) :
    List String :=
  let lineage := node.lineage
  [node.describe name]
    ++ lineage.parent.toList.map (·.describe)
    ++ lineage.interfaces.map (·.describe)
    ++ lineage.fields.map (·.describe)
    ++ lineage.staticFields.map (·.describe)
    ++ node.methods.flatMap (fun method =>
      method.describe :: method.parameters.map (·.describe))
    ++ node.defaults.map (fun (_, value) => store.describeValue value)

/-- The descriptions of everything kept under a name. -/
def Store.describe?
    (store : Store)
    (name : TypeName) :
    Option (List String) := do
  let entry ← store.find? name
  let node :=
    match entry.node with
    | some node => store.describeNode name node
    | none => []
  return [entry.describe] ++ node
    ++ entry.annotated.map store.describeElement

end TypeAtlas
