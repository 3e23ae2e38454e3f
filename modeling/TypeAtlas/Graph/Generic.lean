import TypeAtlas.Graph.Reference

namespace TypeAtlas

/-!
# Generic types

A use of a type with its arguments, such as a list of texts; or a type
variable, by name and with the type that bounds it.
-/

/-- A type use: the type or bound, the variable's name, arguments, dimensions. -/
structure Generic where
  type : Option Reference
  formal : Option String
  arguments : List Generic
  dimensions : Nat
  deriving Repr

/-- Type parameters in order of declaration. -/
abbrev Formals :=
  List (String × Generic)

namespace Generic

/-- A plain use of a type. -/
def ofReference (type : Reference) : Generic :=
  ⟨some type, none, [], 0⟩

/-- A type variable without a bound. -/
def ofFormal (name : String) : Generic :=
  ⟨none, some name, [], 0⟩

/-- The name of the type or of the bound. -/
def typeName? (generic : Generic) : Option TypeName :=
  generic.type.map (·.name)

/-- The same use as an array of the given dimensions. -/
def withDimensions
    (generic : Generic)
    (dimensions : Nat) :
    Generic :=
  { generic with dimensions := dimensions }

/-- Add an argument behind the others. -/
def addArgument (generic argument : Generic) : Generic :=
  { generic with arguments := generic.arguments ++ [argument] }

/-- Move on to a nested class, which drops the enclosing type's arguments. -/
def rebind
    (generic : Generic)
    (type : Reference) :
    Generic :=
  { generic with type := some type, arguments := [] }

/-- Adopt a bound, unless the variable already has one. -/
def bind (generic bound : Generic) : Generic :=
  match generic.type with
  | some _ => generic
  | none =>
      { generic with
        type := bound.type
        arguments := bound.arguments
        dimensions := bound.dimensions }

/-- A use of a type variable: its name and its bound without arguments. -/
def useSite (generic : Generic) : Generic :=
  ⟨generic.type, generic.formal, [], 0⟩

mutual

/-- Equality, types compared by name. -/
def same : Generic → Generic → Bool
  | ⟨type, formal, arguments, dimensions⟩, other =>
      type.map (·.name) == other.type.map (·.name)
        && formal == other.formal
        && sameAll arguments other.arguments
        && dimensions == other.dimensions

/-- Equality of argument lists. -/
def sameAll : List Generic → List Generic → Bool
  | [], [] => true
  | a :: as, b :: bs => same a b && sameAll as bs
  | _, _ => false

end

mutual

/-- The text of a use: a variable shows its name and nothing else. -/
def text : Generic → String
  | ⟨type, formal, arguments, dimensions⟩ =>
      let name :=
        match formal, type with
        | some name, _ => name
        | none, some type =>
            if arguments.isEmpty then
              type.name
            else
              type.name ++ "<" ++ ", ".intercalate (texts arguments) ++ ">"
        | none, none => "?"
      Descriptor.bracketed name dimensions

/-- The texts of arguments. -/
def texts : List Generic → List String
  | [] => []
  | generic :: generics => text generic :: texts generics

end

end Generic

namespace Formals

/-- The type parameter of a name. -/
def find?
    (formals : Formals)
    (name : String) :
    Option Generic :=
  formals.lookup name

/-- Add a type parameter behind the others, unless the name is taken. -/
def insertNew
    (formals : Formals)
    (name : String)
    (generic : Generic) :
    Formals :=
  if (formals.lookup name).isSome then
    formals
  else
    formals ++ [(name, generic)]

/-- Let a type parameter adopt a bound. -/
def bind
    (formals : Formals)
    (name : String)
    (bound : Generic) :
    Formals :=
  formals.map fun (key, generic) =>
    if key = name then (key, generic.bind bound) else (key, generic)

end Formals

end TypeAtlas
