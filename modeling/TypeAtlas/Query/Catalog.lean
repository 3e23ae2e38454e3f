import TypeAtlas.Query.Hierarchy

namespace TypeAtlas.Store

/-!
# The catalog

Only types whose own declaration was entered are listed. Names that were only
mentioned are unresolved.
-/

/-- Sort names and drop repetitions. -/
def sortedNames (names : List TypeName) : List TypeName :=
  (names.mergeSort fun a b => decide (a ≤ b)).eraseDups

/-- The entered types with their nodes. -/
def types (store : Store) : List (TypeName × Node) :=
  store.entries.filterMap fun entry =>
    entry.visitedNode?.map fun node => (entry.name, node)

/-- The entered types. -/
def typeNames (store : Store) : List TypeName :=
  (store.entries.filter (·.visited)).map (·.name)

/-- The number of entered types. -/
def typeCount (store : Store) : Nat :=
  (store.entries.filter (·.visited)).length

/-- Names that were mentioned but not entered, sorted. -/
def unresolvedNames (store : Store) : List TypeName :=
  sortedNames ((store.entries.filter (!·.visited)).map (·.name))

/-- The node of an entered type of a given category. -/
def visitedNodeAs?
    (store : Store)
    (name : TypeName)
    (category : Category) :
    Option Node :=
  (store.visitedNode? name).filter (·.category == category)

/-- The number of entered types of a category. -/
def countOf
    (store : Store)
    (category : Category) :
    Nat :=
  (store.types.filter (·.2.category == category)).length

/--
Every type that is an instance of an interface. An interface without a node is
answered from the types that declare it.
-/
def implementationsOf
    (store : Store)
    (name : TypeName) :
    List TypeName :=
  match store.node? name with
  | some _ => store.allImplementers name
  | none => store.withSubTypes (store.implementers name)

end TypeAtlas.Store
