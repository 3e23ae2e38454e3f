import TypeAtlas.Graph.AnnotationUse
import TypeAtlas.Graph.Generic

namespace TypeAtlas

/-!
# Nodes

A node is what is known about a declared type. Classes, interfaces and enums
have supertypes, fields and type parameters; annotation types have the defaults
of their elements instead. Lists only ever grow at the end.
-/

/-- A field of a type. -/
structure Field where
  name : String
  type : Reference
  /-- The type variable the field is declared as, if it is one. -/
  formal : Option String
  isStatic : Bool
  isTransient : Bool
  isArray : Bool
  arguments : List Generic
  annotations : List AnnotationUse
  deriving Repr

/-- A parameter of a method. -/
structure Parameter where
  index : Nat
  recordedName : Option String
  type : Reference
  dimensions : Nat
  generic : Generic
  annotations : List AnnotationUse
  deriving Repr

namespace Parameter

/-- The recorded name, or one made up from the index. -/
def name (parameter : Parameter) : String :=
  match parameter.recordedName with
  | some name => name
  | none =>
      let index := parameter.index
      s!"arg{index}"

/-- The type as a declaration writes it, brackets included. -/
def sourceType (parameter : Parameter) : String :=
  Descriptor.bracketed parameter.type.name parameter.dimensions

end Parameter

/-- A method of a type. -/
structure Method where
  name : String
  descriptor : String
  signature : Option String
  isStatic : Bool
  parameters : List Parameter
  resultName : Option String
  result : Option Generic
  thrown : List Generic
  annotations : List AnnotationUse
  deriving Repr

/-- The parameter types as a declaration writes them. -/
def Method.argumentTypes (method : Method) : List String :=
  method.parameters.map (·.sourceType)

/-- What a class, an interface or an enum has beside its methods. -/
structure Lineage where
  parent : Option Reference := none
  genericParent : Option Generic := none
  interfaces : List Reference := []
  genericInterfaces : List Generic := []
  fields : List Field := []
  staticFields : List Field := []
  formals : Formals := []
  deriving Repr

/-- The part of a node that hangs on its category. -/
inductive Body where
  | extensible (lineage : Lineage)
  | annotationType (defaults : Values)
  deriving Repr

/-- A declared type, or the placeholder of a superclass. -/
structure Node where
  category : Category
  locations : List String := []
  isApplication : Bool := false
  annotations : List AnnotationUse := []
  methods : List Method := []
  body : Body
  deriving Repr

namespace Node

/-- A node that nothing is known of but its category. -/
def ofCategory (category : Category) : Node :=
  { category := category
    body :=
      if category.isExtensible then
        .extensible {}
      else
        .annotationType [] }

/-- The supertypes and fields, none for an annotation type. -/
def lineage (node : Node) : Lineage :=
  match node.body with
  | .extensible lineage => lineage
  | .annotationType _ => {}

/-- The defaults of an annotation type's elements. -/
def defaults (node : Node) : Values :=
  match node.body with
  | .extensible _ => []
  | .annotationType defaults => defaults

def isExtensible (node : Node) : Bool :=
  match node.body with
  | .extensible _ => true
  | .annotationType _ => false

/-- Change the supertypes and fields; an annotation type stays as it is. -/
def updateLineage
    (node : Node)
    (change : Lineage → Lineage) :
    Node :=
  match node.body with
  | .extensible lineage => { node with body := .extensible (change lineage) }
  | .annotationType _ => node

/-- Record a place the type was found at, once. -/
def addLocation
    (node : Node)
    (location : String) :
    Node :=
  if node.locations.contains location then
    node
  else
    { node with locations := node.locations ++ [location] }

/-- Whether the type was found at one of the given places. -/
def wasFoundIn
    (node : Node)
    (locations : List String) :
    Bool :=
  node.locations.any locations.contains

/-- Record the default of an element; the first one stays. -/
def addDefault
    (node : Node)
    (element : String)
    (value : Value) :
    Node :=
  match node.body with
  | .extensible _ => node
  | .annotationType defaults =>
      { node with
        body := .annotationType (Values.insertNew defaults element value) }

/-- The fields of one kind. -/
def fieldsOf
    (node : Node)
    (isStatic : Bool) :
    List Field :=
  if isStatic then node.lineage.staticFields else node.lineage.fields

/-- Add a field behind the others of its kind. -/
def addField
    (node : Node)
    (field : Field) :
    Node :=
  node.updateLineage fun lineage =>
    if field.isStatic then
      { lineage with staticFields := lineage.staticFields ++ [field] }
    else
      { lineage with fields := lineage.fields ++ [field] }

/-- Add a method behind the others. -/
def addMethod
    (node : Node)
    (method : Method) :
    Node :=
  { node with methods := node.methods ++ [method] }

/-- Add an annotation behind the others. -/
def addUse
    (node : Node)
    (use : AnnotationUse) :
    Node :=
  { node with annotations := node.annotations ++ [use] }

/-- Set the superclass, unless there is one. -/
def setParent
    (node : Node)
    (parent : Reference) :
    Node :=
  node.updateLineage fun lineage =>
    { lineage with parent := lineage.parent <|> some parent }

/-- Add an interface, once. -/
def addInterface
    (node : Node)
    (interface : Reference) :
    Node :=
  node.updateLineage fun lineage =>
    if lineage.interfaces.any (·.same interface) then
      lineage
    else
      { lineage with interfaces := lineage.interfaces ++ [interface] }

/-- Set the superclass with its arguments, unless there is one. -/
def setGenericParent
    (node : Node)
    (parent : Generic) :
    Node :=
  node.updateLineage fun lineage =>
    { lineage with genericParent := lineage.genericParent <|> some parent }

/-- Add an interface with its arguments, once. -/
def addGenericInterface
    (node : Node)
    (interface : Generic) :
    Node :=
  node.updateLineage fun lineage =>
    if lineage.genericInterfaces.any (·.same interface) then
      lineage
    else
      { lineage with
        genericInterfaces := lineage.genericInterfaces ++ [interface] }

/-- Add type parameters; of one name the first stays. -/
def addFormals
    (node : Node)
    (formals : Formals) :
    Node :=
  node.updateLineage fun lineage =>
    { lineage with
      formals := formals.foldl
        (fun known (name, generic) => Formals.insertNew known name generic)
        lineage.formals }

/-- The first method of a name and of given argument types. -/
def findMethod?
    (node : Node)
    (name : String)
    (arguments : List String) :
    Option Method :=
  node.methods.find? fun method =>
    method.name == name && method.argumentTypes == arguments

/-- The interface of a name, with its arguments. -/
def findGenericInterface?
    (node : Node)
    (name : TypeName) :
    Option Generic :=
  node.lineage.genericInterfaces.find? (·.typeName? == some name)

end Node

end TypeAtlas
