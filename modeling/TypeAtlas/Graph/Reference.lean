import TypeAtlas.Category

namespace TypeAtlas

/-!
# References

A reference names a type. It is *tracked* when an entry of that name is kept
for it, and untracked for primitive types, `void`, malformed descriptors and
the root type, which has no entry. Members and parameters are referred to by
their place in the type that declares them.
-/

/-- A type by name. -/
structure Reference where
  name : TypeName
  tracked : Bool
  deriving Repr, DecidableEq

namespace Reference

/-- A reference to a type that has an entry, unless it is the root type. -/
def toType (name : TypeName) : Reference :=
  ⟨name, name != TypeName.root⟩

/-- A reference to a name that has no entry. -/
def untracked (name : String) : Reference :=
  ⟨name, false⟩

/-- Two references agree when they name the same type. -/
def same (a b : Reference) : Bool :=
  a.name == b.name

end Reference

/-- A field, by its place among the static or the instance fields. -/
structure FieldId where
  owner : TypeName
  isStatic : Bool
  index : Nat
  deriving Repr, DecidableEq

/-- A method, by its place among the methods of a type. -/
structure MethodId where
  owner : TypeName
  index : Nat
  deriving Repr, DecidableEq

/-- Anything that can carry annotations. -/
inductive Element where
  | type (name : TypeName)
  | field (id : FieldId)
  | method (id : MethodId)
  | parameter (method : MethodId) (index : Nat)
  deriving Repr, DecidableEq

namespace Element

/-- The type itself, or the type that declares the member. -/
def owner : Element → TypeName
  | type name => name
  | field id => id.owner
  | method id => id.owner
  | parameter id _ => id.owner

/-- The type, if the element is one. -/
def typeName? : Element → Option TypeName
  | type name => some name
  | _ => none

end Element

end TypeAtlas
