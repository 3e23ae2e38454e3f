import TypeAtlas.Toml.Value

namespace TypeAtlas.Toml

/-!
# Tables under construction

A document builds its tables piece by piece. A table is *implicit* while only
headers or keys of tables inside it have been met, and *dotted* when keys with
dots made it. A table is defined once: a header may open an implicit table that
is not dotted, and dotted keys may add to tables that dotted keys made.
-/

mutual

/-- What stands under a key. -/
inductive Item where
  | value (value : Value)
  | table (table : Table)
  /-- An array of tables, of which the last may still grow. -/
  | tables (earlier : List Table) (last : Table)

/-- A table under construction. -/
structure Table where
  isImplicit : Bool
  isDotted : Bool
  entries : List (String × Item)

end

namespace Table

/-- An empty table that stands for itself. -/
def empty : Table :=
  ⟨false, false, []⟩

/-- What stands under a key. -/
def find?
    (table : Table)
    (key : String) :
    Option Item :=
  table.entries.lookup key

/-- Put an item under a key, in the place of an earlier one if there is one. -/
def put
    (table : Table)
    (key : String)
    (item : Item) :
    Table :=
  let entries :=
    if (table.find? key).isSome then
      table.entries.map fun (k, old) => if k = key then (k, item) else (k, old)
    else
      table.entries ++ [(key, item)]
  { table with entries := entries }

/--
Change the table that a path leads to. Missing tables on the way are made; of
an array of tables the last one is entered. Dotted keys do not lead into a
table that is not implicit.
-/
def descend
    (dotted : Bool)
    (change : Table → Option Table) :
    List String → Table → Option Table
  | [], table => change table
  | key :: path, table =>
      match table.find? key with
      | none => do
          let child ← descend dotted change path ⟨true, dotted, []⟩
          return table.put key (.table child)
      | some (.value _) => none
      | some (.tables earlier last) => do
          let last ← descend dotted change path last
          return table.put key (.tables earlier last)
      | some (.table child) =>
          if dotted && !child.isImplicit then
            none
          else do
            let child ← descend dotted change path child
            return table.put key (.table child)

/-- Split a path into the way to the last part, and that part. -/
def splitPath? (path : List String) : Option (List String × String) :=
  path.getLast?.map fun last => (path.dropLast, last)

/-- Give a new key, which may be dotted, a value. -/
def insert
    (table : Table)
    (path : List String)
    (value : Value) :
    Option Table := do
  let (way, key) ← splitPath? path
  let add (owner : Table) : Option Table :=
    if owner.isDotted = way.isEmpty || (owner.find? key).isSome then
      none
    else
      some (owner.put key (.value value))
  descend true add way table

/-- Open a table for the keys behind its header. -/
def openTable
    (table : Table)
    (path : List String) :
    Option Table := do
  let (way, key) ← splitPath? path
  let start (owner : Table) : Option Table :=
    match owner.find? key with
    | none => some (owner.put key (.table empty))
    | some (.table child) =>
        if child.isImplicit && !child.isDotted then
          some (owner.put key (.table { child with isImplicit := false }))
        else
          none
    | some _ => none
  descend false start way table

/-- Open one more table of an array of tables. -/
def openElement
    (table : Table)
    (path : List String) :
    Option Table := do
  let (way, key) ← splitPath? path
  let start (owner : Table) : Option Table :=
    match owner.find? key with
    | none => some (owner.put key (.tables [] empty))
    | some (.tables earlier last) =>
        some (owner.put key (.tables (earlier ++ [last]) empty))
    | some _ => none
  descend false start way table

end Table

/-! ## Finished tables -/

mutual

/-- The value of an item. -/
def Item.finish : Item → Value
  | .value value => value
  | .table table => .table (Table.finish table)
  | .tables earlier last =>
      .array (Table.finishAll earlier ++ [.table (Table.finish last)])

/-- The values of a table. -/
def Table.finish : Table → List (String × Value)
  | ⟨_, _, entries⟩ => Table.finishEntries entries

/-- The values of entries. -/
def Table.finishEntries : List (String × Item) → List (String × Value)
  | [] => []
  | (key, item) :: entries => (key, item.finish) :: Table.finishEntries entries

/-- The values of tables. -/
def Table.finishAll : List Table → List Value
  | [] => []
  | table :: tables => .table (Table.finish table) :: Table.finishAll tables

end

end TypeAtlas.Toml
