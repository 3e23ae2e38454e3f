import Mathlib.Data.List.Nodup
import TypeAtlas.Query.Hierarchy

namespace TypeAtlas

/-!
# Looking up after a change

Every change of a store either adds an entry behind the others or changes the
entries of one name. The lemmas here say what is found under any name after
such a change, so that nothing later has to look at the list of entries.
-/

namespace Entry

/-- The entry of a name after the name was mentioned, from the one before. -/
def afterMention
    (name : TypeName)
    (hint : Option Category) :
    Option Entry → Entry
  | none =>
      Entry.ofName name hint
  | some entry =>
      match hint with
      | some category =>
          if entry.pool.isSome then entry else entry.fileUnder category
      | none => entry

@[simp] theorem node_afterMention
    (name : TypeName)
    (hint : Option Category)
    (before : Option Entry) :
    (afterMention name hint before).node = before.bind (·.node) := by
  cases before with
  | none =>
      rfl
  | some entry =>
      cases hint with
      | none =>
          rfl
      | some category =>
          simp only [afterMention]
          split <;> rfl

@[simp] theorem visited_afterMention
    (name : TypeName)
    (hint : Option Category)
    (before : Option Entry) :
    (afterMention name hint before).visited = before.any (·.visited) := by
  cases before with
  | none =>
      rfl
  | some entry =>
      cases hint with
      | none =>
          rfl
      | some category =>
          simp only [afterMention]
          split <;> rfl

end Entry

namespace Store

/-! ## What a look-up gives -/

/-- An entry is found under its own name. -/
theorem name_of_find?
    {store : Store}
    {name : TypeName}
    {entry : Entry}
    (found : store.find? name = some entry) :
    entry.name = name := by
  have named := List.find?_some found
  simpa using named

/-- An entry that is found is one of the store's. -/
theorem mem_of_find?
    {store : Store}
    {name : TypeName}
    {entry : Entry}
    (found : store.find? name = some entry) :
    entry ∈ store.entries :=
  List.mem_of_find?_eq_some found

/-- Nothing is found exactly under the names that have no entry. -/
theorem find?_eq_none_iff
    {store : Store}
    {name : TypeName} :
    store.find? name = none ↔ name ∉ store.names := by
  simp only [find?, names, List.find?_eq_none, List.mem_map, beq_iff_eq,
    not_exists, not_and]

/-- Something is found exactly under the names that have an entry. -/
theorem isSome_find?_iff
    {store : Store}
    {name : TypeName} :
    (store.find? name).isSome ↔ name ∈ store.names := by
  rw [← not_iff_not, ← find?_eq_none_iff]
  simp

/-- A name that has an entry is found. -/
theorem exists_of_mem_names
    {store : Store}
    {name : TypeName}
    (member : name ∈ store.names) :
    ∃ entry, store.find? name = some entry :=
  Option.isSome_iff_exists.mp (isSome_find?_iff.mpr member)

/-- A name that has a node has an entry. -/
theorem mem_names_of_node?
    {store : Store}
    {name : TypeName}
    (installed : (store.node? name).isSome) :
    name ∈ store.names := by
  rw [← isSome_find?_iff]
  cases known : store.find? name with
  | none =>
      simp [node?, known] at installed
  | some entry =>
      rfl

/-- Where names are not repeated, every entry is found under its name. -/
theorem find?_of_mem
    {store : Store}
    (noDuplicates : store.names.Nodup)
    {entry : Entry}
    (member : entry ∈ store.entries) :
    store.find? entry.name = some entry := by
  have named : entry.name ∈ store.names := List.mem_map_of_mem member
  obtain ⟨found, lookup⟩ := exists_of_mem_names named
  have same : found = entry :=
    List.inj_on_of_nodup_map noDuplicates (mem_of_find? lookup) member
      (name_of_find? lookup)
  rw [lookup, same]

/-! ## Adding an entry -/

@[simp] theorem names_add
    (store : Store)
    (entry : Entry) :
    (store.add entry).names = store.names ++ [entry.name] := by
  simp [add, names]

theorem find?_add
    (store : Store)
    (entry : Entry)
    (name : TypeName) :
    (store.add entry).find? name =
      (store.find? name).or
        (if entry.name = name then some entry else none) := by
  by_cases same : entry.name = name
  · simp [find?, add, List.find?_append, same]
  · simp [find?, add, List.find?_append, same]

/-! ## Changing the entries of a name -/

/-- A change that keeps names keeps the list of names. -/
theorem names_update
    (store : Store)
    (name : TypeName)
    {change : Entry → Entry}
    (keeps : ∀ entry, (change entry).name = entry.name) :
    (store.update name change).names = store.names := by
  simp only [names, update, List.map_map]
  apply List.map_congr_left
  intro entry _
  simp only [Function.comp_apply]
  split
  · exact keeps entry
  · rfl

theorem find?_update
    (store : Store)
    (name other : TypeName)
    {change : Entry → Entry}
    (keeps : ∀ entry, (change entry).name = entry.name) :
    (store.update name change).find? other =
      (store.find? other).map fun entry =>
        if other = name then change entry else entry := by
  have names : ∀ entry : Entry,
      (if entry.name = name then change entry else entry).name =
        entry.name := by
    intro entry
    split
    · exact keeps entry
    · rfl
  have looked : (store.update name change).find? other =
      (store.find? other).map fun entry =>
        if entry.name = name then change entry else entry := by
    simp only [find?, update, List.find?_map]
    congr 2
    funext entry
    simp [names entry]
  rw [looked]
  cases found : store.find? other with
  | none =>
      rfl
  | some entry =>
      rw [Option.map_some, Option.map_some, name_of_find? found]

/-! ## Mentioning a name -/

theorem find?_mention
    (store : Store)
    (name other : TypeName)
    (hint : Option Category) :
    (store.mention name hint).find? other =
      if other = name ∧ name ≠ TypeName.root then
        some (Entry.afterMention name hint (store.find? name))
      else store.find? other := by
  unfold mention
  by_cases isRoot : name = TypeName.root
  · simp [isRoot]
  · rw [if_neg isRoot]
    simp only [ne_eq, isRoot, not_false_eq_true, and_true]
    cases known : store.find? name with
    | none =>
        simp only [find?_add, Entry.afterMention]
        by_cases same : other = name
        · simp [same, known, Entry.ofName]
        · have different : ¬ (Entry.ofName name hint).name = other :=
            fun equal => same equal.symm
          simp [same, different]
    | some entry =>
        cases hint with
        | none =>
            simp only [Entry.afterMention]
            split
            · next same =>
                rw [same, known]
            · rfl
        | some category =>
            simp only [Entry.afterMention]
            split
            · next filed =>
                split
                · next same =>
                    rw [same, known]
                · rfl
            · next unfiled =>
                rw [find?_update]
                · split
                  · next same =>
                      rw [same, known]
                      rfl
                  · simp
                · exact fun _ => rfl

@[simp] theorem node?_mention
    (store : Store)
    (name other : TypeName)
    (hint : Option Category) :
    (store.mention name hint).node? other = store.node? other := by
  simp only [node?, find?_mention]
  split
  · next here =>
      rw [here.1]
      simp
  · rfl

theorem mem_names_mention
    {store : Store}
    {name other : TypeName}
    {hint : Option Category} :
    other ∈ (store.mention name hint).names ↔
      other ∈ store.names ∨ other = name ∧ name ≠ TypeName.root := by
  rw [← isSome_find?_iff, ← isSome_find?_iff, find?_mention]
  split
  · next here =>
      simp [here]
  · next elsewhere =>
      simp [elsewhere]

/-! ## Changing a node -/

@[simp] theorem node?_updateNode
    (store : Store)
    (name other : TypeName)
    (change : Node → Node) :
    (store.updateNode name change).node? other =
      if other = name then (store.node? other).map change
      else store.node? other := by
  simp only [node?, updateNode]
  rw [find?_update]
  · cases store.find? other <;> by_cases same : other = name <;> simp [same]
  · exact fun _ => rfl

/-- A change that leaves nodes alone leaves every node where it was. -/
theorem node?_update
    (store : Store)
    (name other : TypeName)
    {change : Entry → Entry}
    (keepsName : ∀ entry, (change entry).name = entry.name)
    (keepsNode : ∀ entry, (change entry).node = entry.node) :
    (store.update name change).node? other = store.node? other := by
  simp only [node?, find?_update store name other keepsName]
  cases store.find? other <;> by_cases same : other = name <;>
    simp [same, keepsNode]

end Store

end TypeAtlas
