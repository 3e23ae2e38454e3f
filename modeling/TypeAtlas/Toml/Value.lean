namespace TypeAtlas.Toml

/-!
# TOML values

The values of a TOML document. Floating-point numbers and moments are checked
when they are read and kept as they are written.
-/

/-- A value of a TOML document. -/
inductive Value where
  | text (content : String)
  | integer (number : Int)
  | float (written : String)
  | boolean (value : Bool)
  /-- A date, a time of day, or both. -/
  | moment (written : String)
  | array (items : List Value)
  | table (entries : List (String × Value))
  deriving Repr

namespace Value

/-- The truth value, if it is one. -/
def boolean? : Value → Option Bool
  | boolean value => some value
  | _ => none

/-- The text, if it is one. -/
def text? : Value → Option String
  | text content => some content
  | _ => none

/-- The items of an array that holds texts only. -/
def texts? : Value → Option (List String)
  | array items => items.mapM text?
  | _ => none

end Value

end TypeAtlas.Toml
