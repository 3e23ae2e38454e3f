import TypeAtlas.Graph.Reach

namespace TypeAtlas.Store

/-!
# Questions about the hierarchy

Downward questions follow the reverse lists of entries, upward questions follow
the supertypes of nodes. All of them end on cyclic data, and each name is given
once, in the order of a breadth-first search.
-/

/-! ## Downward -/

/-- Direct subclasses, or direct sub-interfaces of an interface. -/
def subTypes
    (store : Store)
    (name : TypeName) :
    List TypeName :=
  ((store.find? name).map (·.subTypes)).getD []

/-- Direct and indirect subtypes, the type itself left out. -/
def allSubTypes
    (store : Store)
    (name : TypeName) :
    List TypeName :=
  (store.closure store.subTypes [name]).drop 1

/-- Types that declare an interface directly. -/
def implementers
    (store : Store)
    (name : TypeName) :
    List TypeName :=
  ((store.find? name).map (·.implementers)).getD []

/-- Types together with all their subtypes. -/
def withSubTypes
    (store : Store)
    (names : List TypeName) :
    List TypeName :=
  (names.flatMap fun name => name :: store.allSubTypes name).eraseDups

/--
Every type that is an instance of an interface: the types that declare it or
one of its sub-interfaces, and the subtypes of those.
-/
def allImplementers
    (store : Store)
    (name : TypeName) :
    List TypeName :=
  store.withSubTypes
    ((name :: store.allSubTypes name).flatMap store.implementers)

/-! ## Upward -/

/-- The superclass, then the interfaces, as far as the type has a node. -/
def supertypes
    (store : Store)
    (name : TypeName) :
    List TypeName :=
  match store.node? name with
  | none => []
  | some node =>
      node.lineage.parent.toList.map (·.name)
        ++ node.lineage.interfaces.map (·.name)

/-- Whether a type is another one or inherits from it. -/
def isInstanceOf
    (store : Store)
    (name target : TypeName) :
    Bool :=
  name == target
    || (store.closure store.supertypes (store.supertypes name)).contains target

/-! ## Annotations -/

/-- Elements that carry an annotation of a type. -/
def annotatedElements
    (store : Store)
    (name : TypeName) :
    List Element :=
  ((store.find? name).map (·.annotated)).getD []

/-- Types that carry an annotation of a type. -/
def annotatedTypes
    (store : Store)
    (name : TypeName) :
    List TypeName :=
  (store.annotatedElements name).filterMap Element.typeName?

def isAnnotationType
    (store : Store)
    (name : TypeName) :
    Bool :=
  (store.node? name).any (!·.isExtensible)

/--
Types that carry an annotation, directly or by way of annotation types that
carry it themselves; the annotation types on the way are left out.
-/
def allAnnotatedTypes
    (store : Store)
    (name : TypeName) :
    List TypeName :=
  let next (carrier : TypeName) : List TypeName :=
    if carrier == name || store.isAnnotationType carrier then
      store.annotatedTypes carrier
    else
      []
  ((store.closure next [name]).drop 1).filter (!store.isAnnotationType ·)

end TypeAtlas.Store
