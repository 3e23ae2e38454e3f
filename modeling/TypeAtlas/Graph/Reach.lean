import TypeAtlas.Graph.Store

namespace TypeAtlas

/-!
# Reaching

Everything that can be reached by following a step again and again, each thing
once, in the order of a breadth-first search: nearer things first, and things
equally near in the order in which they are met.

The search goes in rounds. A round adds what the things known so far lead to in
one step; the search ends with the first round that adds nothing. Things that
lead nowhere new are never looked at twice, so cycles do no harm.
-/

/-- Add what can be reached in at most the given number of rounds. -/
def reach
    [BEq α]
    (next : α → List α) :
    Nat → List α → List α
  | 0, known => known
  | rounds + 1, known =>
      let new := ((known.flatMap next).filter (!known.contains ·)).eraseDups
      if new.isEmpty then
        known
      else
        reach next rounds (known ++ new)

namespace Store

/--
The names reached from the given ones.

Every name that leads further has an entry, so there are no more rounds that
add something than there are entries, and one for names without an entry.
-/
def closure
    (store : Store)
    (next : TypeName → List TypeName)
    (start : List TypeName) :
    List TypeName :=
  reach next (store.size + 1) start.eraseDups

/-- The superclass of a type, if it has a node. -/
def parentOf
    (store : Store)
    (name : TypeName) :
    List TypeName :=
  match (store.node? name).bind (·.lineage.parent) with
  | some parent =>
      if (store.node? parent.name).isSome then [parent.name] else []
  | none => []

/-- Whether the chain of superclasses that starts at one type meets another. -/
def inheritsFrom
    (store : Store)
    (start name : TypeName) :
    Bool :=
  (store.node? start).isSome
    && (store.closure store.parentOf [start]).contains name

end Store

end TypeAtlas
