import TypeAtlas.Graph.Store

namespace TypeAtlas

/-!
# Resolving annotations

The elements of an annotation are taken in one after another. A name that is
met again turns its value into a sequence of all values met; an array always
gives a sequence, and takes the place of what stood under its name. The items
of an array are gathered in the same way, as if all of them had one name.
-/

namespace Values

/-- What stands under a name when another value is met for it. -/
def gather : Option Value → Value → Value
  | none, value => value
  | some (.sequence items), value => .sequence (items ++ [value])
  | some first, value => .sequence [first, value]

/-- The items of an array, from what was gathered of them. -/
def itemsOf : Option Value → List Value
  | none => []
  | some (.sequence items) => items
  | some single => [single]

end Values

namespace Filing

/-- Refer to the type of an annotation. -/
def referToUse (descriptor : String) : Filing Reference :=
  match Descriptor.parse descriptor with
  | .ok (.object name) => refer name (some .annotationType)
  | _ => return Reference.untracked descriptor

/-- Refer to the type of an enum constant. -/
def referToEnum (descriptor : String) : Filing Reference :=
  match Descriptor.parse descriptor with
  | .ok (.object name) => refer name (some .enumType)
  | _ => return Reference.untracked descriptor

/-- Refer to a class literal, which may be of any category or of none. -/
def referToLiteral (descriptor : String) : Filing Reference :=
  match Descriptor.parseResult descriptor with
  | .ok (some (.object name)) => refer name none
  | .ok (some type) => return Reference.untracked type.sourceName
  | .ok none => return Reference.untracked "void"
  | .error _ => return Reference.untracked descriptor

mutual

/-- What stands under a name after one more element value is met for it. -/
def takeValue (before : Option Value) : ElementValue → Filing Value
  | .scalar value => return Values.gather before (.scalar value)
  | .enumConstant descriptor constant => do
      let type ← referToEnum descriptor
      return Values.gather before (.enumConstant type constant)
  | .classLiteral descriptor => do
      let type ← referToLiteral descriptor
      return Values.gather before (.classLiteral type)
  | .annotated decl => do
      let use ← takeUse decl
      return Values.gather before (.annotated use)
  | .array items => do
      let gathered ← takeItems none items
      return .sequence (Values.itemsOf gathered)

/-- What is gathered from the items of an array. -/
def takeItems (before : Option Value) :
    List ElementValue → Filing (Option Value)
  | [] => return before
  | item :: items => do
      let value ← takeValue before item
      takeItems (some value) items

/-- An occurrence of an annotation, not attached yet. -/
def takeUse : AnnotationDecl → Filing AnnotationUse
  | ⟨descriptor, _, values⟩ => do
      let type ← referToUse descriptor
      let values ← takePairs [] values
      return { type := type, values := values }

/-- The values of an annotation's elements. -/
def takePairs (values : Values) :
    List (String × ElementValue) → Filing Values
  | [] => return values
  | (key, item) :: rest => do
      let value ← takeValue (values.lookup key) item
      takePairs (Values.insert values key value) rest

end

/-- Occurrences of annotations, one after another. -/
def takeUses : List AnnotationDecl → Filing (List AnnotationUse)
  | [] => return []
  | decl :: decls => do
      let use ← takeUse decl
      let uses ← takeUses decls
      return use :: uses

/-- Occurrences of annotations, one list after another. -/
def takeTable : List (List AnnotationDecl) → Filing (List (List AnnotationUse))
  | [] => return []
  | decls :: table => do
      let uses ← takeUses decls
      let rest ← takeTable table
      return uses :: rest

/-- The default of an annotation element. -/
def takeDefault (value : ElementValue) : Filing Value :=
  takeValue none value

end Filing

/-- Record on the entries of annotation types that an element carries them. -/
def Store.recordUses
    (store : Store)
    (uses : List AnnotationUse)
    (element : Element) :
    Store :=
  uses.foldl
    (fun store use =>
      store.updateReferent use.type (·.addAnnotated element))
    store

end TypeAtlas
