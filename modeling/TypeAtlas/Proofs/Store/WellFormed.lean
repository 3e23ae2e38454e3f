import TypeAtlas.Proofs.Graph.Node
import TypeAtlas.Proofs.Session

namespace TypeAtlas

/-!
# Well-formed stores

What is known of the category of a type is kept in three places: the pool of
its entry, the category of the entry, and the category and the body of its
node. This module says how they hang together, and that they do so in every
store that a session can lead to. It also says that an entry, once made, stays
in its place and loses none of its reverse references.
-/

/-- The pool, the category and the node of an entry fit together. -/
structure Entry.WellFormed (entry : Entry) : Prop where
  /-- The pool is that of the category, if there is one. -/
  filed : entry.pool = entry.category.map (·.pool)
  /-- A visited type has a node of its category. -/
  visited :
    entry.visited = true →
      ∃ node, entry.node = some node ∧ entry.category = some node.category
  /-- The node of an annotation type, and no other, has the body of one. -/
  body :
    ∀ node, entry.node = some node →
      (node.isExtensible = false ↔ node.category = .annotationType)

/-- Every name has one entry, the root type none, and all entries fit. -/
structure Store.WellFormed (store : Store) : Prop where
  noDuplicates : store.names.Nodup
  rootless : TypeName.root ∉ store.names
  entries : ∀ entry ∈ store.entries, entry.WellFormed

/-! ## Entries -/

/-- Annotation types are the one category without supertypes. -/
theorem Category.isExtensible_eq_false_iff
    {category : Category} :
    category.isExtensible = false ↔ category = .annotationType := by
  cases category <;> simp [isExtensible]

namespace Entry.WellFormed

/-- A new entry has no node, so nothing is asked of it. -/
theorem ofName
    (name : TypeName)
    (category : Option Category) :
    (Entry.ofName name category).WellFormed := by
  refine ⟨rfl, ?_, ?_⟩
  · intro visited
    simp [Entry.ofName] at visited
  · intro node installed
    simp [Entry.ofName] at installed

/-- A type that is in no pool was not visited. -/
theorem unvisited
    {entry : Entry}
    (wellFormed : entry.WellFormed)
    (unfiled : entry.pool.isSome = false) :
    entry.visited = false := by
  by_contra visited
  rw [Bool.not_eq_false] at visited
  obtain ⟨node, -, category⟩ := wellFormed.visited visited
  have filed := wellFormed.filed
  rw [category] at filed
  simp [filed] at unfiled

/-- Filing keeps an entry well-formed if a visited node agrees. -/
theorem fileUnder
    {entry : Entry}
    {category : Category}
    (wellFormed : entry.WellFormed)
    (agrees :
      ∀ node, entry.visitedNode? = some node → node.category = category) :
    (entry.fileUnder category).WellFormed := by
  refine ⟨rfl, ?_, wellFormed.body⟩
  intro visited
  have old : entry.visited = true := visited
  obtain ⟨node, installed, -⟩ := wellFormed.visited old
  refine ⟨node, installed, ?_⟩
  rw [agrees node (by simp [visitedNode?, old, installed])]
  rfl

/-- A placeholder is of the category that its entry is filed under. -/
theorem ensureNode
    {entry : Entry}
    (wellFormed : entry.WellFormed)
    (category : Category) :
    (entry.ensureNode category).WellFormed := by
  cases installed : entry.node with
  | some node =>
      have same : entry.ensureNode category = entry := by
        obtain ⟨_, _, _, _, _, _, _, _, _⟩ := entry
        subst installed
        rfl
      rw [same]
      exact wellFormed
  | none =>
      refine ⟨wellFormed.filed, ?_, ?_⟩
      · intro visited
        obtain ⟨node, present, -⟩ := wellFormed.visited visited
        rw [installed] at present
        exact absurd present (by simp)
      · intro node founded
        have fresh : Node.ofCategory category = node := by
          simpa [Entry.ensureNode, installed] using founded
        rw [← fresh, Node.isExtensible_ofCategory]
        exact Category.isExtensible_eq_false_iff

/-- What keeps the category and the kind of a node keeps an entry well-formed. -/
theorem mapNode
    {entry : Entry}
    {change : Node → Node}
    (wellFormed : entry.WellFormed)
    (category : ∀ node, (change node).category = node.category)
    (kind : ∀ node, (change node).isExtensible = node.isExtensible) :
    { entry with node := entry.node.map change }.WellFormed := by
  refine ⟨wellFormed.filed, ?_, ?_⟩
  · intro visited
    obtain ⟨node, installed, filed⟩ := wellFormed.visited visited
    exact ⟨change node, by simp [installed], by rw [category, ← filed]⟩
  · intro node changed
    simp only [Option.map_eq_some_iff] at changed
    obtain ⟨old, installed, rfl⟩ := changed
    rw [category, kind]
    exact wellFormed.body old installed

end Entry.WellFormed

/-- A change that is allowed keeps the entries of a store well-formed. -/
theorem Change.wellFormed_revise
    {store : Store}
    {change : Change}
    (allowed : change.Allowed store)
    {entry : Entry}
    (found : store.find? entry.name = some entry)
    (wellFormed : entry.WellFormed) :
    (change.revise entry.name entry).WellFormed := by
  cases change with
  | mention target hint =>
      simp only [revise]
      split
      · cases hint with
        | none =>
            exact wellFormed
        | some category =>
            simp only [Entry.afterMention]
            split
            · exact wellFormed
            · next unfiled =>
                have fresh :=
                  wellFormed.unvisited (Bool.not_eq_true _ ▸ unfiled)
                refine wellFormed.fileUnder fun node visited => ?_
                simp [Entry.visitedNode?, fresh] at visited
      · exact wellFormed
  | file target category =>
      simp only [revise]
      split
      · next here =>
          refine wellFormed.fileUnder fun node visited => ?_
          refine allowed.2 node ?_
          rw [Store.visitedNode?, ← here, found]
          exact visited
      · exact wellFormed
  | found target category =>
      simp only [revise]
      split
      · exact wellFormed.ensureNode category
      · exact wellFormed
  | claim target category =>
      simp only [revise]
      split
      · next here =>
          obtain ⟨same, node, lookup, filed, installed, fits⟩ := allowed
          rw [← here, found, Option.some.injEq] at lookup
          rw [← lookup] at filed installed
          refine ⟨wellFormed.filed, ?_, ?_⟩
          · intro _
            exact ⟨_, by rw [installed]; rfl, filed⟩
          · intro claimed changed
            rw [installed, Option.map_some, Option.some.injEq] at changed
            rw [← changed]
            rcases fits with agrees | ⟨-, alike⟩
            · rw [← agrees]
              exact wellFormed.body node installed
            · exact alike ▸ Category.isExtensible_eq_false_iff
      · exact wellFormed
  | link target parent =>
      simp only [revise]
      have founded :
          (if entry.name = parent then
            entry.ensureNode .classType
          else
            entry).WellFormed := by
        split
        · exact wellFormed.ensureNode .classType
        · exact wellFormed
      split
      · exact founded.mapNode (fun node => node.category_setParent _)
          (fun node => node.isExtensible_setParent _)
      · exact founded
  | mark target added =>
      simp only [revise]
      split
      · exact ⟨by simpa using wellFormed.filed,
          by simpa using wellFormed.visited, by simpa using wellFormed.body⟩
      · exact wellFormed
  | amend target amendment =>
      simp only [revise]
      split
      · exact wellFormed.mapNode
          (fun node => (amendment.alike_apply node).category)
          (fun node => (amendment.alike_apply node).isExtensible)
      · exact wellFormed
  | take =>
      exact wellFormed

/-! ## Stores -/

/-- Names are only ever added, behind the others and once. -/
theorem Change.names_apply
    (store : Store)
    (change : Change) :
    (change.apply store).names =
      store.names ++ change.introduces.filter (· ∉ store.names) := by
  cases change with
  | mention target hint =>
      simp only [apply, introduces, Store.mention]
      by_cases isRoot : target = TypeName.root
      · simp [isRoot]
      · simp only [isRoot, ↓reduceIte]
        cases known : store.find? target with
        | none =>
            have absent := Store.find?_eq_none_iff.mp known
            simp [absent, Entry.ofName]
        | some entry =>
            have present : target ∈ store.names :=
              Store.isSome_find?_iff.mp (by simp [known])
            cases hint with
            | none =>
                simp [present]
            | some category =>
                dsimp only
                split
                · simp [present]
                · rw [Store.names_update]
                  · simp [present]
                  · exact fun _ => rfl
  | file target category =>
      simp only [apply, introduces]
      cases known : store.find? target with
      | none =>
          have absent := Store.find?_eq_none_iff.mp known
          simp [absent, Entry.ofName]
      | some entry =>
          have present : target ∈ store.names :=
            Store.isSome_find?_iff.mp (by simp [known])
          dsimp only
          rw [Store.names_update]
          · simp [present]
          · exact fun _ => rfl
  | link target parent =>
      simp only [apply, introduces, Store.updateNode]
      rw [Store.names_update, Store.names_update]
      · simp
      all_goals exact fun _ => rfl
  | mark target added =>
      simp only [apply, introduces]
      rw [Store.names_update]
      · simp
      · exact fun entry => entry.name_addMark added
  | found target _ | claim target _ | amend target _ =>
      simp only [apply, introduces, Store.updateNode]
      rw [Store.names_update]
      · simp
      · exact fun _ => rfl
  | take =>
      simp [apply, introduces, Store.names]

/-- No change introduces a name twice. -/
theorem Change.nodup_introduces
    (change : Change) :
    change.introduces.Nodup := by
  cases change with
  | mention target hint =>
      simp only [introduces]
      split <;> simp
  | file _ _ | found _ _ | claim _ _ | link _ _ | mark _ _ | amend _ _
  | take =>
      simp [introduces]

/-- No change introduces the root type. -/
theorem Change.root_notMem_introduces
    {store : Store}
    {change : Change}
    (allowed : change.Allowed store) :
    TypeName.root ∉ change.introduces := by
  cases change with
  | mention target hint =>
      simp only [introduces]
      split
      · simp
      · next tracked =>
          simp [Ne.symm tracked]
  | file target category =>
      simp [introduces, Ne.symm allowed.1]
  | found _ _ | claim _ _ | link _ _ | mark _ _ | amend _ _ | take =>
      simp [introduces]

/-- An allowed change keeps a store well-formed. -/
theorem Store.WellFormed.apply
    {store : Store}
    {change : Change}
    (wellFormed : store.WellFormed)
    (allowed : change.Allowed store) :
    (change.apply store).WellFormed := by
  have noDuplicates : (change.apply store).names.Nodup := by
    rw [Change.names_apply]
    refine List.Nodup.append wellFormed.noDuplicates
      (change.nodup_introduces.filter _) ?_
    intro name old new
    simp only [List.mem_filter, decide_eq_true_eq] at new
    exact new.2 old
  refine ⟨noDuplicates, ?_, ?_⟩
  · rw [Change.names_apply]
    simp [wellFormed.rootless, Change.root_notMem_introduces allowed]
  · intro entry member
    have found := find?_of_mem noDuplicates member
    rw [Change.find?_apply] at found
    cases known : store.find? entry.name with
    | some old =>
        rw [known, Option.some.injEq] at found
        have named := name_of_find? known
        rw [← found, ← named]
        exact Change.wellFormed_revise allowed (named.symm ▸ known)
          (wellFormed.entries old (mem_of_find? known))
    | none =>
        rw [known] at found
        obtain ⟨hint, created⟩ := Change.create_blank found
        rw [created]
        exact .ofName _ hint

/-- In the empty store nothing is out of place. -/
theorem Store.wellFormed_empty :
    ({} : Store).WellFormed := by
  refine ⟨?_, ?_, ?_⟩ <;> simp [names]

/-- Changes that are allowed keep a store well formed. -/
theorem Store.Evolves.wellFormed
    {first last : Store}
    (evolves : Evolves first last)
    (start : first.WellFormed) :
    last.WellFormed :=
  evolves.keeps (fun before allowed => before.apply allowed) start

/-- Whatever is done in a session, its store is well-formed. -/
theorem Session.store_wellFormed
    (acts : List Act) :
    (Session.run {} acts).atlas.store.WellFormed :=
  (Session.run_evolves {} acts).wellFormed Store.wellFormed_empty

/-- The root type has no entry. -/
theorem Store.WellFormed.ne_root
    {store : Store}
    (wellFormed : store.WellFormed)
    {name : TypeName}
    (known : name ∈ store.names) :
    name ≠ TypeName.root := by
  rintro rfl
  exact wellFormed.rootless known

/-- The names in a pool are those whose entries have a category of the pool. -/
theorem Store.WellFormed.mem_namesIn_iff
    {store : Store}
    (wellFormed : store.WellFormed)
    {name : TypeName}
    {pool : Option Pool} :
    name ∈ store.namesIn pool ↔
      ∃ entry,
        store.find? name = some entry ∧
          entry.name = name ∧
          entry.category.map (·.pool) = pool := by
  simp only [namesIn, List.mem_map, List.mem_filter, beq_iff_eq]
  constructor
  · rintro ⟨entry, ⟨member, filed⟩, rfl⟩
    refine ⟨entry, find?_of_mem wellFormed.noDuplicates member, rfl, ?_⟩
    rw [← (wellFormed.entries entry member).filed, filed]
  · rintro ⟨entry, found, named, filed⟩
    have member := mem_of_find? found
    exact ⟨entry, ⟨member, (wellFormed.entries entry member).filed.trans filed⟩,
      named⟩

/-! ## Entries stay -/

/-- An entry and a later state of it: nothing that was collected is lost. -/
structure Entry.Grows
    (entry later : Entry) :
    Prop where
  name : later.name = entry.name
  visited : entry.visited = true → later.visited = true
  node : entry.node.isSome → later.node.isSome
  annotated : entry.annotated <+: later.annotated
  fieldUses : entry.fieldUses <+: later.fieldUses
  subTypes : entry.subTypes <+: later.subTypes
  implementers : entry.implementers <+: later.implementers

namespace Entry

theorem Grows.refl
    (entry : Entry) :
    entry.Grows entry :=
  ⟨rfl, id, id, List.prefix_rfl, List.prefix_rfl, List.prefix_rfl,
    List.prefix_rfl⟩

theorem Grows.trans
    {first second third : Entry}
    (earlier : first.Grows second)
    (later : second.Grows third) :
    first.Grows third where
  name := later.name.trans earlier.name
  visited := later.visited ∘ earlier.visited
  node := later.node ∘ earlier.node
  annotated := earlier.annotated.trans later.annotated
  fieldUses := earlier.fieldUses.trans later.fieldUses
  subTypes := earlier.subTypes.trans later.subTypes
  implementers := earlier.implementers.trans later.implementers

/-- A change of the node alone that does not remove it. -/
theorem grows_withNode
    (entry : Entry)
    {node : Option Node}
    (kept : entry.node.isSome → node.isSome) :
    entry.Grows { entry with node := node } :=
  { Grows.refl entry with node := kept }

/-- An item that is added once goes behind the others. -/
theorem prefix_addOnce
    [BEq α]
    (items : List α)
    (item : α) :
    items <+: addOnce items item := by
  unfold addOnce
  split
  · exact List.prefix_rfl
  · exact List.prefix_append _ _

/-- A mark goes behind the other marks of its kind. -/
theorem grows_addMark
    (entry : Entry)
    (mark : Mark) :
    entry.Grows (entry.addMark mark) := by
  cases mark with
  | annotated element =>
      exact { Grows.refl entry with annotated := prefix_addOnce _ _ }
  | fieldUse id =>
      exact { Grows.refl entry with fieldUses := prefix_addOnce _ _ }
  | subType name =>
      exact { Grows.refl entry with subTypes := prefix_addOnce _ _ }
  | implementer name =>
      exact { Grows.refl entry with implementers := prefix_addOnce _ _ }

/-- Installing a placeholder keeps the marks. -/
theorem grows_ensureNode
    (entry : Entry)
    (category : Category) :
    entry.Grows (entry.ensureNode category) := by
  refine entry.grows_withNode fun installed => ?_
  cases present : entry.node <;> simp

end Entry

/-- No change takes anything away from an entry. -/
theorem Change.grows_revise
    (change : Change)
    (name : TypeName)
    (entry : Entry) :
    entry.Grows (change.revise name entry) := by
  cases change with
  | mention target hint =>
      simp only [revise]
      split
      · cases hint with
        | none =>
            exact .refl entry
        | some category =>
            simp only [Entry.afterMention]
            split
            · exact .refl entry
            · exact { Entry.Grows.refl entry with }
      · exact .refl entry
  | file target category =>
      simp only [revise]
      split
      · exact { Entry.Grows.refl entry with }
      · exact .refl entry
  | found target category =>
      simp only [revise]
      split
      · exact entry.grows_ensureNode category
      · exact .refl entry
  | claim target category =>
      simp only [revise]
      split
      · exact { Entry.Grows.refl entry with
          visited := fun _ => rfl
          node := by simp }
      · exact .refl entry
  | link target parent =>
      simp only [revise]
      have founded :
          entry.Grows
            (if name = parent then
              entry.ensureNode .classType
            else
              entry) := by
        split
        · exact entry.grows_ensureNode .classType
        · exact .refl entry
      split
      · exact founded.trans (Entry.grows_withNode _ (by simp))
      · exact founded
  | mark target added =>
      simp only [revise]
      split
      · exact entry.grows_addMark added
      · exact .refl entry
  | amend target amendment =>
      simp only [revise]
      split
      · exact entry.grows_withNode (by simp)
      · exact .refl entry
  | take =>
      exact .refl entry

/-- A change leaves every entry in its place. -/
theorem Store.WellFormed.entry_apply
    {store : Store}
    {change : Change}
    (wellFormed : store.WellFormed)
    (allowed : change.Allowed store)
    {place : Nat}
    {entry : Entry}
    (here : store.entries[place]? = some entry) :
    (change.apply store).entries[place]? =
      some (change.revise entry.name entry) := by
  have named : (change.apply store).names[place]? = some entry.name := by
    rw [Change.names_apply]
    have old : store.names[place]? = some entry.name := by
      simp [names, here]
    rw [List.getElem?_append_left (List.getElem?_eq_some_iff.mp old).1, old]
  simp only [names, List.getElem?_map, Option.map_eq_some_iff] at named
  obtain ⟨kept, there, same⟩ := named
  have after := wellFormed.apply allowed
  have found := find?_of_mem after.noDuplicates (List.mem_of_getElem? there)
  rw [same, Change.find?_apply,
    find?_of_mem wellFormed.noDuplicates (List.mem_of_getElem? here)] at found
  rw [there]
  exact found.symm

/-- An entry of a store, as it is now in its old place and under its name. -/
def Store.StillHolds
    (store : Store)
    (place : Nat)
    (entry : Entry) :
    Prop :=
  ∃ kept,
    store.entries[place]? = some kept ∧
      store.find? entry.name = some kept ∧
      entry.Grows kept

/-- Whatever happens to a store, its entries stay and lose nothing. -/
theorem Store.Evolves.stillHolds
    {first last : Store}
    (evolves : Evolves first last)
    (wellFormed : first.WellFormed)
    {place : Nat}
    {entry : Entry}
    (here : first.entries[place]? = some entry) :
    last.StillHolds place entry := by
  induction evolves generalizing entry with
  | refl =>
      exact ⟨entry, here,
        find?_of_mem wellFormed.noDuplicates (List.mem_of_getElem? here),
        .refl entry⟩
  | step change allowed _ inductionHypothesis =>
      have grows := change.grows_revise entry.name entry
      obtain ⟨kept, there, found, grown⟩ :=
        inductionHypothesis (wellFormed.apply allowed)
          (wellFormed.entry_apply allowed here)
      rw [grows.name] at found
      exact ⟨kept, there, found, grows.trans grown⟩

/--
Whatever is done in a session, the store is well-formed, and the pools divide
its names by their categories. An entry stays what it is: whatever is done
later, also mentioning or filing the name again, leads to the entry in its old
place, with all reverse references collected so far.
-/
theorem Session.store_wellFormed_and_entries_stay
    (acts : List Act) :
    let store := (Session.run {} acts).atlas.store
    store.WellFormed ∧
      (∀ name pool,
        name ∈ store.namesIn pool ↔
          ∃ entry,
            store.find? name = some entry ∧
              entry.name = name ∧
              entry.category.map (·.pool) = pool) ∧
      ∀ place entry, store.entries[place]? = some entry →
        ∀ more,
          let later := (Session.run {} (acts ++ more)).atlas.store
          later.StillHolds place entry ∧
            (∀ hint,
              (later.mention entry.name hint).StillHolds place entry) ∧
            ∀ category defined,
              later.define entry.name category = .ok defined →
                defined.StillHolds place entry := by
  intro store
  have wellFormed : store.WellFormed :=
    (Session.run_evolves {} acts).wellFormed Store.wellFormed_empty
  refine ⟨wellFormed, fun name pool => wellFormed.mem_namesIn_iff, ?_⟩
  intro place entry here more later
  have evolves : Store.Evolves store later := by
    have onward := Session.run_evolves (Session.run {} acts) more
    rwa [← Session.run_append] at onward
  refine ⟨evolves.stillHolds wellFormed here, fun hint => ?_, ?_⟩
  · exact (evolves.trans (.single (.mention entry.name hint)
      trivial)).stillHolds wellFormed here
  · intro category defined filed
    obtain ⟨allowed, rfl⟩ := Store.define_eq_ok_iff.mp filed
    exact (evolves.trans (.single _ allowed)).stillHolds wellFormed here

end TypeAtlas
