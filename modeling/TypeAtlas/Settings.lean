import TypeAtlas.Name

namespace TypeAtlas

/-!
# Settings

How much of each declaration is kept. Members without annotations are dropped
unless the settings keep them. When annotations of interest are named, only
types that carry one of them have their members entered.
-/

/-- What to keep of a declaration. -/
structure Settings where
  keepUnannotated : Bool := false
  /-- The annotations of interest, sorted and without repetition. -/
  interest : List TypeName := []
  deriving Repr, DecidableEq

namespace Settings

/-- Insert a name into a sorted list, unless it is there. -/
def insertSorted
    (name : TypeName) :
    List TypeName → List TypeName
  | [] => [name]
  | first :: rest =>
      if name = first then
        first :: rest
      else if name < first then
        name :: first :: rest
      else
        first :: insertSorted name rest

/-- Name one more annotation of interest. -/
def addInterest
    (settings : Settings)
    (name : TypeName) :
    Settings :=
  { settings with interest := insertSorted name settings.interest }

/-- Name more annotations of interest. -/
def addInterests
    (settings : Settings)
    (names : List TypeName) :
    Settings :=
  names.foldl addInterest settings

/-- Whether the members of every type are entered. -/
def alwaysDeep (settings : Settings) : Bool :=
  settings.interest.isEmpty

/-- Whether an annotation is of interest. -/
def isOfInterest
    (settings : Settings)
    (name : TypeName) :
    Bool :=
  settings.interest.contains name

end Settings

end TypeAtlas
