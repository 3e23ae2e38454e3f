import TypeAtlas.Graph.Node
import TypeAtlas.Graph.Problem

namespace TypeAtlas

/-!
# The store

The store keeps one entry for every type name that was ever mentioned, in order
of first mention. An entry collects the reverse references to its type from
then on, long before the type is declared, if it ever is. Entries are never
removed; they move between pools as more becomes known about their category.

Every new entry is also put on a worklist of names still to be looked up.
-/

/-- Everything kept under one type name. -/
structure Entry where
  name : TypeName
  /-- The pool the entry is filed in, `none` while its category is unknown. -/
  pool : Option Pool
  category : Option Category
  /-- Whether the type's own declaration has been entered. -/
  visited : Bool := false
  /-- The node, also a placeholder made before the declaration arrived. -/
  node : Option Node := none
  annotated : List Element := []
  fieldUses : List FieldId := []
  subTypes : List TypeName := []
  implementers : List TypeName := []
  deriving Repr

namespace Entry

/-- A fresh entry, filed under what is known of its category. -/
def ofName
    (name : TypeName)
    (category : Option Category) :
    Entry :=
  { name := name
    pool := category.map (·.pool)
    category := category }

/-- File the entry under a category. -/
def fileUnder
    (entry : Entry)
    (category : Category) :
    Entry :=
  { entry with pool := some category.pool, category := some category }

/-- The node of a type whose own declaration has been entered. -/
def visitedNode? (entry : Entry) : Option Node :=
  if entry.visited then entry.node else none

/-- Give the entry a node of the category, unless it has one. -/
def ensureNode
    (entry : Entry)
    (category : Category) :
    Entry :=
  { entry with node := entry.node <|> some (Node.ofCategory category) }

/-- Add a name or an element to a list, once. -/
def addOnce
    [BEq α]
    (items : List α)
    (item : α) :
    List α :=
  if items.contains item then items else items ++ [item]

def addAnnotated
    (entry : Entry)
    (element : Element) :
    Entry :=
  { entry with annotated := addOnce entry.annotated element }

def addFieldUse
    (entry : Entry)
    (id : FieldId) :
    Entry :=
  { entry with fieldUses := addOnce entry.fieldUses id }

def addSubType
    (entry : Entry)
    (name : TypeName) :
    Entry :=
  { entry with subTypes := addOnce entry.subTypes name }

def addImplementer
    (entry : Entry)
    (name : TypeName) :
    Entry :=
  { entry with implementers := addOnce entry.implementers name }

end Entry

/-- All entries in order of creation, and the names still to be looked up. -/
structure Store where
  entries : List Entry := []
  pending : List TypeName := []
  deriving Repr

namespace Store

/-! ## Looking up -/

/-- The entry of a name. -/
def find?
    (store : Store)
    (name : TypeName) :
    Option Entry :=
  store.entries.find? (·.name == name)

/-- The names of all entries. -/
def names (store : Store) : List TypeName :=
  store.entries.map (·.name)

/-- The names filed in a pool. -/
def namesIn
    (store : Store)
    (pool : Option Pool) :
    List TypeName :=
  (store.entries.filter (·.pool == pool)).map (·.name)

def size (store : Store) : Nat :=
  store.entries.length

/-- The node of a name, placeholders included. -/
def node?
    (store : Store)
    (name : TypeName) :
    Option Node :=
  (store.find? name).bind (·.node)

/-- The node of a name whose own declaration has been entered. -/
def visitedNode?
    (store : Store)
    (name : TypeName) :
    Option Node :=
  (store.find? name).bind (·.visitedNode?)

/-- Whether a name's own declaration has been entered. -/
def isVisited
    (store : Store)
    (name : TypeName) :
    Bool :=
  (store.find? name).any (·.visited)

/-! ## Changing -/

/-- Add an entry behind the others, and its name to the worklist. -/
def add
    (store : Store)
    (entry : Entry) :
    Store :=
  { entries := store.entries ++ [entry]
    pending := store.pending ++ [entry.name] }

/-- Change the entry of a name. -/
def update
    (store : Store)
    (name : TypeName)
    (change : Entry → Entry) :
    Store :=
  { store with
    entries := store.entries.map fun entry =>
      if entry.name = name then change entry else entry }

/-- Change the node of a name, if it has one. -/
def updateNode
    (store : Store)
    (name : TypeName)
    (change : Node → Node) :
    Store :=
  store.update name fun entry =>
    { entry with node := entry.node.map change }

/-- Change the entry behind a reference, if it has one. -/
def updateReferent
    (store : Store)
    (reference : Reference)
    (change : Entry → Entry) :
    Store :=
  if reference.tracked then
    store.update reference.name change
  else
    store

/--
Make sure that a mentioned name has an entry.

The hint is the category the name is mentioned as, if that is known. It files
an entry whose category is still unknown; an entry that is already filed stays
where it is. The root type gets no entry.
-/
def mention
    (store : Store)
    (name : TypeName)
    (hint : Option Category) :
    Store :=
  if name = TypeName.root then
    store
  else
    match store.find? name, hint with
    | none, _ => store.add (Entry.ofName name hint)
    | some entry, some category =>
        if entry.pool.isSome then
          store
        else
          store.update name (·.fileUnder category)
    | some _, none => store

/--
File a name under the category its own declaration gives.

A declaration outranks every mention, so an entry whose declaration has not
been entered moves to the category's pool. One that was entered under another
category is a conflict.
-/
def define
    (store : Store)
    (name : TypeName)
    (category : Category) :
    Except Problem Store :=
  if name = TypeName.root then
    .error .implicitRoot
  else
    match store.find? name with
    | none => .ok (store.add (Entry.ofName name (some category)))
    | some entry =>
        match entry.visitedNode? with
        | some node =>
            if node.category = category then
              .ok (store.update name (·.fileUnder category))
            else
              .error (.categoryConflict name node.category category)
        | none => .ok (store.update name (·.fileUnder category))

/-! ## The worklist -/

/-- Take the first name off the worklist. -/
def nextPending? (store : Store) : Option (TypeName × Store) :=
  match store.pending with
  | [] => none
  | name :: rest => some (name, { store with pending := rest })

end Store

/--
Work through names that `next?` takes off a list, which may grow meanwhile.

At most `fuel` names are taken.
-/
def workThrough
    (next? : σ → Option (TypeName × σ))
    (handle : TypeName → σ → σ) :
    Nat → σ → σ
  | 0, state => state
  | fuel + 1, state =>
      match next? state with
      | none => state
      | some (name, state) =>
          workThrough next? handle fuel (handle name state)

/-- A store, and the names handed on so far. -/
structure Drained where
  store : Store
  handed : List TypeName := []
  deriving Repr

namespace Store

/--
Empty the worklist. Every name on it that has not been entered when its turn
comes is handed on, and the names `mentions` gives for it are mentioned before
the next one; the names that this adds have their turn in the same drain.

No more names have their turn than are waiting or can be mentioned, which
bounds the work.
-/
def drain
    (store : Store)
    (mentions : List (TypeName × List TypeName)) :
    Drained :=
  let bound :=
    store.pending.length + (mentions.flatMap (·.2)).length + 1
  workThrough
    (fun state =>
      state.store.nextPending?.map fun (name, rest) =>
        (name, { state with store := rest }))
    (fun name state =>
      if state.store.isVisited name then
        state
      else
        let mentioned := (mentions.lookup name).getD []
        { store := mentioned.foldl (·.mention · none) state.store
          handed := state.handed ++ [name] })
    bound { store := store }

end Store

/-- Steps that may add to a store. -/
abbrev Filing :=
  StateM Store

namespace Filing

/-- Mention a name and refer to it. -/
def refer
    (name : TypeName)
    (hint : Option Category) :
    Filing Reference := do
  modify (·.mention name hint)
  return Reference.toType name

end Filing

end TypeAtlas
