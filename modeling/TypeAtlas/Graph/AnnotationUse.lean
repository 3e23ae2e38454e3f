import TypeAtlas.Graph.Reference

namespace TypeAtlas

/-!
# Annotations in the graph

An annotation use is one occurrence of an annotation on an element, with its
types resolved to references. The values of its elements are kept in the order
in which their names were first met.
-/

mutual

/-- The value of an annotation element. -/
inductive Value where
  | scalar (value : Scalar)
  | classLiteral (type : Reference)
  | enumConstant (type : Reference) (constant : String)
  | annotated (use : AnnotationUse)
  | sequence (items : List Value)
  deriving Repr

/-- An occurrence of an annotation, and the element it is attached to. -/
structure AnnotationUse where
  type : Reference
  element : Option Element := none
  values : List (String × Value)
  deriving Repr

end

/-- Named values in the order in which the names were first met. -/
abbrev Values :=
  List (String × Value)

namespace Values

/-- Put a value under a name, in the place of an earlier one if there is one. -/
def insert
    (values : Values)
    (key : String)
    (value : Value) :
    Values :=
  if (values.lookup key).isSome then
    values.map fun (k, v) => if k = key then (k, value) else (k, v)
  else
    values ++ [(key, value)]

/-- Put a value under a name that is not taken yet. -/
def insertNew
    (values : Values)
    (key : String)
    (value : Value) :
    Values :=
  if (values.lookup key).isSome then
    values
  else
    values ++ [(key, value)]

end Values

mutual

/--
Equality of values: types by name, floating-point numbers as numbers, the
elements of an annotation in any order.
-/
def Value.same : Value → Value → Bool
  | .scalar a, .scalar b => a.same b
  | .classLiteral a, .classLiteral b => a.same b
  | .enumConstant a c, .enumConstant b d => a.same b && c == d
  | .annotated a, .annotated b => a.same b
  | .sequence items, .sequence items' => Value.sameItems items items'
  | _, _ => false

/-- Equality of sequences. -/
def Value.sameItems : List Value → List Value → Bool
  | [], [] => true
  | a :: as, b :: bs => a.same b && Value.sameItems as bs
  | _, _ => false

/-- Equality of annotation uses, whatever they are attached to. -/
def AnnotationUse.same : AnnotationUse → AnnotationUse → Bool
  | ⟨type, _, values⟩, other =>
      type.same other.type
        && values.length == other.values.length
        && AnnotationUse.agree values other.values

/-- Whether every named value has an equal one under the same name. -/
def AnnotationUse.agree : List (String × Value) → List (String × Value) → Bool
  | [], _ => true
  | (key, value) :: rest, others =>
      (match others.lookup key with
        | some other => value.same other
        | none => false)
        && AnnotationUse.agree rest others

end

mutual

/-- Attach every annotation inside a value to an element. -/
def Value.attach (element : Element) : Value → Value
  | .annotated use => .annotated (AnnotationUse.attach element use)
  | .sequence items => .sequence (Value.attachAll element items)
  | value => value

/-- Attach every annotation inside a sequence to an element. -/
def Value.attachAll (element : Element) : List Value → List Value
  | [] => []
  | value :: values => Value.attach element value :: Value.attachAll element values

/-- Attach an annotation, and every annotation inside it, to an element. -/
def AnnotationUse.attach (element : Element) : AnnotationUse → AnnotationUse
  | ⟨type, _, values⟩ =>
      ⟨type, some element, AnnotationUse.attachPairs element values⟩

/-- Attach every annotation inside named values to an element. -/
def AnnotationUse.attachPairs (element : Element) :
    List (String × Value) → List (String × Value)
  | [] => []
  | (key, value) :: rest =>
      (key, Value.attach element value) :: AnnotationUse.attachPairs element rest

end

/-- The first annotation of a type among those of an element. -/
def findUse?
    (uses : List AnnotationUse)
    (type : TypeName) :
    Option AnnotationUse :=
  uses.find? (·.type.name == type)

end TypeAtlas
