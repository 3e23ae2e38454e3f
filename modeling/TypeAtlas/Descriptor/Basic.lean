import TypeAtlas.Name

namespace TypeAtlas

/-!
# Descriptors

A descriptor is the compact text by which class files name the type of a
field: a tag for a primitive type, `L name ;` for a class, and one `[` for each
array dimension. A method descriptor lists the parameter types between
brackets and ends in the return type, `V` standing for none.
-/

/-- The primitive types. -/
inductive BaseType where
  | byte
  | char
  | double
  | float
  | int
  | long
  | short
  | boolean
  deriving Repr, DecidableEq

namespace BaseType

/-- The character that stands for the type in descriptors. -/
def tag : BaseType → Char
  | byte => 'B'
  | char => 'C'
  | double => 'D'
  | float => 'F'
  | int => 'I'
  | long => 'J'
  | short => 'S'
  | boolean => 'Z'

/-- The keyword that names the type in declarations. -/
def keyword : BaseType → String
  | byte => "byte"
  | char => "char"
  | double => "double"
  | float => "float"
  | int => "int"
  | long => "long"
  | short => "short"
  | boolean => "boolean"

/-- Every primitive type. -/
def all : List BaseType :=
  [byte, char, double, float, int, long, short, boolean]

/-- The primitive type with the given tag. -/
def ofTag? (c : Char) : Option BaseType :=
  all.find? (·.tag == c)

end BaseType

/-- The type of a field. -/
inductive Descriptor where
  | base (type : BaseType)
  | object (name : TypeName)
  | array (element : Descriptor) (dimensions : Nat)
  deriving Repr, DecidableEq

namespace Descriptor

def isArray : Descriptor → Bool
  | array .. => true
  | _ => false

/-- The dimensions of the outermost array, none for any other type. -/
def dimensions : Descriptor → Nat
  | array _ dimensions => dimensions
  | _ => 0

/-- The type under all array dimensions. -/
def element : Descriptor → Descriptor
  | array inner _ => inner.element
  | type => type

/-- The class under all array dimensions, if it is one. -/
def objectName? (type : Descriptor) : Option TypeName :=
  match type.element with
  | object name => some name
  | _ => none

/-- The name of the type under all array dimensions. -/
def elementName : Descriptor → String
  | base type => type.keyword
  | object name => name
  | array inner _ => inner.elementName

/-- Write a name followed by one pair of brackets per dimension. -/
def bracketed
    (name : String)
    (dimensions : Nat) :
    String :=
  name ++ String.join (List.replicate dimensions "[]")

/-- The name as a declaration writes it, brackets included. -/
def sourceName (type : Descriptor) : String :=
  bracketed type.elementName type.dimensions

/-- The descriptor text of the type. -/
def render : Descriptor → String
  | base type => String.singleton type.tag
  | object name => "L" ++ TypeName.toInternal name ++ ";"
  | array inner dimensions =>
      String.ofList (List.replicate dimensions '[') ++ inner.render

end Descriptor

/-- The parameter types and the return type of a method, `none` for no value. -/
structure MethodDescriptor where
  parameters : List Descriptor
  result : Option Descriptor
  deriving Repr, DecidableEq

end TypeAtlas
