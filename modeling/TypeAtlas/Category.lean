import TypeAtlas.Decl

namespace TypeAtlas

/-!
# Categories and pools

Every declared type has one of four categories, read off its access flags.
Types are filed in three pools: enums share the pool of classes, because a
superclass reference cannot tell the two apart.
-/

/-- What kind of type a declaration introduces. -/
inductive Category where
  | classType
  | interfaceType
  | annotationType
  | enumType
  deriving Repr, DecidableEq

/-- Where a type is filed. -/
inductive Pool where
  | classes
  | interfaces
  | annotations
  deriving Repr, DecidableEq

namespace Category

/-- The category a declaration's flags give; annotation types come first. -/
def ofAccess (access : UInt16) : Category :=
  if Access.has access Access.annotationType then
    .annotationType
  else if Access.has access Access.interfaceType then
    .interfaceType
  else if Access.has access Access.enumType then
    .enumType
  else
    .classType

/-- The pool a category is filed in. -/
def pool : Category → Pool
  | classType => .classes
  | enumType => .classes
  | interfaceType => .interfaces
  | annotationType => .annotations

/-- Whether types of the category have supertypes and fields. -/
def isExtensible : Category → Bool
  | annotationType => false
  | _ => true

/-- The word for a category in messages. -/
def word : Category → String
  | classType => "class"
  | interfaceType => "interface"
  | annotationType => "annotation"
  | enumType => "enum"

end Category

/-- The category of a declaration. -/
def ClassDecl.category (decl : ClassDecl) : Category :=
  Category.ofAccess decl.access

end TypeAtlas
