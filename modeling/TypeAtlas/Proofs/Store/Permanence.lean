import TypeAtlas.Proofs.Graph.Heading
import TypeAtlas.Proofs.Store.WellFormed

namespace TypeAtlas

/-!
# What stays in a store

A store only grows. Entries stay in their places and under their names, visited
types stay visited, and a node stays the node of its type. What was once said
about a type is never taken back: a visited type keeps its category, the first
superclass and the first binding of a name stay, and every list of an entry or
of a node goes on from what it was.

This is said of one change first, where it needs the conditions under which the
change is made, and then of every store that comes out of another.
-/

/-! ## Lists and bindings -/

/-- Items that are new are added at the end. -/
theorem prefix_addNew
    (same : α → α → Bool)
    (known items : List α) :
    known <+: addNew same known items := by
  induction items generalizing known with
  | nil =>
      exact List.prefix_rfl
  | cons item items inductionHypothesis =>
      simp only [addNew, List.foldl_cons]
      split
      · exact inductionHypothesis known
      · exact (List.prefix_append known [item]).trans
          (inductionHypothesis (known ++ [item]))

/-- A value under a new key is added at the end. -/
theorem Values.prefix_insertNew
    (values : Values)
    (key : String)
    (value : Value) :
    values <+: values.insertNew key value := by
  unfold insertNew
  split
  · exact List.prefix_rfl
  · exact List.prefix_append _ _

/-- What is bound in a list of bindings is bound where the list goes on. -/
theorem lookup_of_prefix
    [BEq κ]
    {early late : List (κ × α)}
    (goesOn : early <+: late)
    {key : κ}
    {value : α}
    (bound : early.lookup key = some value) :
    late.lookup key = some value := by
  obtain ⟨more, rfl⟩ := goesOn
  rw [List.lookup_append, bound]
  rfl

/-- What is chosen first stays chosen. -/
theorem orElse_of_eq_some
    {first second : Option α}
    {value : α}
    (chosen : first = some value) :
    (first <|> second) = some value := by
  rw [chosen]
  rfl

/-! ## Nodes -/

/-- Supertypes and fields, and a later state of them. -/
structure Lineage.Grows
    (lineage later : Lineage) :
    Prop where
  parent :
    ∀ reference, lineage.parent = some reference →
      later.parent = some reference
  genericParent :
    ∀ generic, lineage.genericParent = some generic →
      later.genericParent = some generic
  interfaces : lineage.interfaces <+: later.interfaces
  genericInterfaces : lineage.genericInterfaces <+: later.genericInterfaces
  fields : lineage.fields <+: later.fields
  staticFields : lineage.staticFields <+: later.staticFields
  formals : lineage.formals <+: later.formals

/-- A node, and a later state of it. Its category is another matter. -/
structure Node.Grows
    (node later : Node) :
    Prop where
  isExtensible : later.isExtensible = node.isExtensible
  isApplication : node.isApplication = true → later.isApplication = true
  locations : node.locations <+: later.locations
  annotations : node.annotations <+: later.annotations
  methods : node.methods <+: later.methods
  defaults : node.defaults <+: later.defaults
  lineage : node.lineage.Grows later.lineage

theorem Lineage.Grows.refl
    (lineage : Lineage) :
    lineage.Grows lineage :=
  ⟨fun _ => id, fun _ => id, List.prefix_rfl, List.prefix_rfl, List.prefix_rfl,
    List.prefix_rfl, List.prefix_rfl⟩

theorem Lineage.Grows.trans
    {first second third : Lineage}
    (earlier : first.Grows second)
    (later : second.Grows third) :
    first.Grows third where
  parent _ set := later.parent _ (earlier.parent _ set)
  genericParent _ set :=
    later.genericParent _ (earlier.genericParent _ set)
  interfaces := earlier.interfaces.trans later.interfaces
  genericInterfaces := earlier.genericInterfaces.trans later.genericInterfaces
  fields := earlier.fields.trans later.fields
  staticFields := earlier.staticFields.trans later.staticFields
  formals := earlier.formals.trans later.formals

namespace Node

theorem Grows.refl
    (node : Node) :
    node.Grows node :=
  ⟨rfl, id, List.prefix_rfl, List.prefix_rfl, List.prefix_rfl,
    List.prefix_rfl, .refl _⟩

theorem Grows.trans
    {first second third : Node}
    (earlier : first.Grows second)
    (later : second.Grows third) :
    first.Grows third where
  isExtensible := later.isExtensible.trans earlier.isExtensible
  isApplication := later.isApplication ∘ earlier.isApplication
  locations := earlier.locations.trans later.locations
  annotations := earlier.annotations.trans later.annotations
  methods := earlier.methods.trans later.methods
  defaults := earlier.defaults.trans later.defaults
  lineage := earlier.lineage.trans later.lineage

/-- A node grows as its supertypes and fields do. -/
theorem grows_updateLineage
    (node : Node)
    {change : Lineage → Lineage}
    (grows : ∀ lineage : Lineage, lineage.Grows (change lineage)) :
    node.Grows (node.updateLineage change) := by
  obtain ⟨_, _, _, _, _, body⟩ := node
  cases body with
  | extensible lineage =>
      exact { Grows.refl _ with lineage := grows lineage }
  | annotationType defaults =>
      exact .refl _

/-- A superclass is set over none, or over the same. -/
theorem grows_setParent
    (node : Node)
    (parent : Reference) :
    node.Grows (node.setParent parent) :=
  node.grows_updateLineage fun lineage =>
    { Lineage.Grows.refl lineage with
      parent := fun _ => orElse_of_eq_some }

/-- A field is added behind those already there. -/
theorem grows_addField
    (node : Node)
    (field : Field) :
    node.Grows (node.addField field) := by
  refine node.grows_updateLineage fun lineage => ?_
  split
  · exact { Lineage.Grows.refl lineage with
      staticFields := List.prefix_append _ _ }
  · exact { Lineage.Grows.refl lineage with
      fields := List.prefix_append _ _ }

/-- An interface is added behind those already there. -/
theorem grows_addInterface
    (node : Node)
    (interface : Reference) :
    node.Grows (node.addInterface interface) := by
  refine node.grows_updateLineage fun lineage => ?_
  split
  · exact .refl lineage
  · exact { Lineage.Grows.refl lineage with
      interfaces := List.prefix_append _ _ }

end Node

/-- What a signature says is added where nothing was said yet. -/
theorem Lineage.grows_addGenerics
    (superclass : Option Generic)
    (interfaces : List Generic)
    (formals : Formals)
    (lineage : Lineage) :
    lineage.Grows (lineage.addGenerics superclass interfaces formals) :=
  { Lineage.Grows.refl lineage with
    genericParent := fun _ => orElse_of_eq_some
    genericInterfaces := prefix_addNew _ _ _
    formals := prefix_addNew _ _ _ }

/-- Whatever is added to a node, the node goes on from what it was. -/
theorem Amendment.grows_apply
    (amendment : Amendment)
    (node : Node) :
    node.Grows (amendment.apply node) := by
  cases amendment with
  | origin visit =>
      rw [apply, Visit.noteOrigin_eq]
      exact { Node.Grows.refl node with
        isApplication := fun marked => by simp [marked]
        locations := prefix_addNew _ _ _ }
  | interface name =>
      exact node.grows_addInterface _
  | generics said =>
      rw [generics_apply]
      exact node.grows_updateLineage fun lineage =>
        lineage.grows_addGenerics _ _ _
  | use added =>
      exact { Node.Grows.refl node with
        annotations := List.prefix_append _ _ }
  | field added =>
      exact node.grows_addField added
  | method added =>
      exact { Node.Grows.refl node with methods := List.prefix_append _ _ }
  | default element value =>
      obtain ⟨_, _, _, _, _, body⟩ := node
      cases body with
      | extensible lineage =>
          exact .refl _
      | annotationType defaults =>
          exact { Node.Grows.refl _ with
            defaults := Values.prefix_insertNew _ _ _ }

/-! ## Entries -/

/--
An entry and a later state of it. Its node, once there, goes on from what it
was, and neither the entry nor the node of a visited type changes its category.
-/
structure Entry.Persists
    (entry later : Entry) : Prop
    extends Entry.Grows entry later where
  /-- An entry that is filed stays filed, if in another pool. -/
  filed : entry.pool.isSome → later.pool.isSome
  category : entry.visited = true → later.category = entry.category
  installed :
    ∀ node, entry.node = some node →
      ∃ grown,
        later.node = some grown ∧
          node.Grows grown ∧
          (entry.visited = true → grown.category = node.category)

namespace Entry

theorem Persists.trans
    {first second third : Entry}
    (earlier : first.Persists second)
    (later : second.Persists third) :
    first.Persists third where
  toGrows := earlier.toGrows.trans later.toGrows
  filed := later.filed ∘ earlier.filed
  category visited :=
    (later.category (earlier.visited visited)).trans (earlier.category visited)
  installed node here := by
    obtain ⟨middle, there, grows, same⟩ := earlier.installed node here
    obtain ⟨grown, last, growsOn, still⟩ := later.installed middle there
    exact ⟨grown, last, grows.trans growsOn, fun visited =>
      (still (earlier.visited visited)).trans (same visited)⟩

/-- No mark is lost. -/
theorem Grows.bears
    {entry later : Entry}
    (grows : entry.Grows later)
    {mark : Mark}
    (bears : entry.Bears mark) :
    later.Bears mark := by
  cases mark with
  | annotated element =>
      exact grows.annotated.subset bears
  | fieldUse id =>
      exact grows.fieldUses.subset bears
  | subType name =>
      exact grows.subTypes.subset bears
  | implementer name =>
      exact grows.implementers.subset bears

/-- An entry whose node and category are left alone. -/
theorem Grows.persists
    {entry later : Entry}
    (grows : entry.Grows later)
    (filed : entry.pool.isSome → later.pool.isSome)
    (node : later.node = entry.node)
    (category : entry.visited = true → later.category = entry.category) :
    entry.Persists later where
  toGrows := grows
  filed := filed
  category := category
  installed present here :=
    ⟨present, node.trans here, .refl present, fun _ => rfl⟩

theorem Persists.refl
    (entry : Entry) :
    entry.Persists entry :=
  (Grows.refl entry).persists id rfl fun _ => rfl

/-- An entry whose node goes on from what it was, under its category. -/
theorem persists_mapNode
    (entry : Entry)
    {change : Node → Node}
    (grows : ∀ node : Node, node.Grows (change node))
    (category : ∀ node : Node, (change node).category = node.category) :
    entry.Persists { entry with node := entry.node.map change } where
  toGrows := entry.grows_withNode (by simp)
  filed := id
  category _ := rfl
  installed node here :=
    ⟨change node, by rw [here, Option.map_some], grows node,
      fun _ => category node⟩

/-- A placeholder is installed where there was no node. -/
theorem persists_ensureNode
    (entry : Entry)
    (category : Category) :
    entry.Persists (entry.ensureNode category) where
  toGrows := entry.grows_ensureNode category
  filed := id
  category _ := rfl
  installed node here :=
    ⟨node, orElse_of_eq_some here, .refl node, fun _ => rfl⟩

end Entry

/-- A change that is allowed takes nothing back that an entry says. -/
theorem Change.persists_revise
    {store : Store}
    {change : Change}
    (allowed : change.Allowed store)
    {entry : Entry}
    (found : store.find? entry.name = some entry)
    (wellFormed : entry.WellFormed) :
    entry.Persists (change.revise entry.name entry) := by
  have grows := change.grows_revise entry.name entry
  cases change with
  | mention target hint =>
      refine grows.persists (fun filed => ?_) ?_ fun visited => ?_
      · simp only [revise]
        split
        · cases hint <;> simp [Entry.afterMention, filed]
        · exact filed
      · simp only [revise]
        split <;> simp
      · simp only [revise]
        split
        · cases hint with
          | none =>
              rfl
          | some category =>
              simp only [Entry.afterMention]
              split
              · rfl
              · next unfiled =>
                  have fresh :=
                    wellFormed.unvisited (Bool.not_eq_true _ ▸ unfiled)
                  rw [fresh] at visited
                  exact absurd visited (by simp)
        · rfl
  | file target category =>
      refine grows.persists (fun filed => ?_) ?_ fun visited => ?_
      · simp only [revise]
        split
        · rfl
        · exact filed
      · simp only [revise]
        split <;> rfl
      · simp only [revise]
        split
        · next here =>
            -- A visited type is only filed under the category it has.
            obtain ⟨node, installed, filed⟩ := wellFormed.visited visited
            have agrees : node.category = category := by
              refine allowed.2 node ?_
              rw [Store.visitedNode?, ← here, found]
              simp [Entry.visitedNode?, visited, installed]
            rw [filed, agrees]
            rfl
        · rfl
  | found target category =>
      simp only [revise]
      split
      · exact entry.persists_ensureNode category
      · exact .refl entry
  | claim target category =>
      simp only [revise] at grows ⊢
      split at grows
      · next here =>
          rw [if_pos here]
          obtain ⟨same, claimed, lookup, -, installed, fits⟩ := allowed
          rw [← here, found, Option.some.injEq] at lookup
          rw [← lookup] at installed fits
          refine ⟨grows, id, fun _ => rfl, fun node present => ?_⟩
          rw [installed, Option.some.injEq] at present
          refine ⟨{ node with category := category }, ?_,
            { Node.Grows.refl node with }, fun visited => ?_⟩
          · rw [installed, present, Option.map_some]
          · rw [← present]
            rcases fits with agrees | ⟨fresh, -⟩
            · exact agrees.symm
            · rw [fresh] at visited
              exact absurd visited (by simp)
      · next elsewhere =>
          rw [if_neg elsewhere]
          exact .refl entry
  | link target parent =>
      simp only [revise]
      have founded :
          entry.Persists
            (if entry.name = parent then
              entry.ensureNode .classType
            else
              entry) := by
        split
        · exact entry.persists_ensureNode .classType
        · exact .refl entry
      split
      · exact founded.trans (Entry.persists_mapNode _
          (fun node => node.grows_setParent _)
          fun node => node.category_setParent _)
      · exact founded
  | mark target added =>
      refine grows.persists (fun filed => ?_) ?_ fun _ => ?_ <;>
        · simp only [revise]
          split <;> simp [*]
  | amend target amendment =>
      simp only [revise]
      split
      · exact entry.persists_mapNode amendment.grows_apply
          fun node => (amendment.alike_apply node).category
      · exact .refl entry
  | take =>
      exact .refl entry

/-! ## Stores -/

/-- Every entry of a store is there later, in its place and under its name. -/
def Store.Persists (before after : Store) : Prop :=
  ∀ (place : Nat) (entry : Entry), before.entries[place]? = some entry →
    ∃ later,
      after.entries[place]? = some later ∧
        after.find? entry.name = some later ∧
        entry.Persists later

/-- Whatever happens to a store, what is in it stays. -/
theorem Store.Evolves.persists
    {first last : Store}
    (evolves : Evolves first last)
    (wellFormed : first.WellFormed) :
    first.Persists last := by
  induction evolves with
  | refl =>
      intro place entry here
      exact ⟨entry, here,
        find?_of_mem wellFormed.noDuplicates (List.mem_of_getElem? here),
        .refl entry⟩
  | step change allowed _ inductionHypothesis =>
      intro place entry here
      have member := List.mem_of_getElem? here
      have persists := Change.persists_revise allowed
        (find?_of_mem wellFormed.noDuplicates member)
        (wellFormed.entries entry member)
      obtain ⟨later, there, found, onward⟩ :=
        inductionHypothesis (wellFormed.apply allowed) place _
          (wellFormed.entry_apply allowed here)
      rw [persists.name] at found
      exact ⟨later, there, found, persists.trans onward⟩

namespace Store.Persists

variable {before after : Store}

/-- An entry is found again in a later state. -/
theorem find?
    (persists : before.Persists after)
    {name : TypeName}
    {entry : Entry}
    (found : before.find? name = some entry) :
    ∃ later, after.find? name = some later ∧ entry.Persists later := by
  obtain ⟨place, here⟩ := List.getElem?_of_mem (mem_of_find? found)
  obtain ⟨later, -, there, grown⟩ := persists place entry here
  rw [name_of_find? found] at there
  exact ⟨later, there, grown⟩

/-- A node is found again, grown but never replaced. -/
theorem node?
    (persists : before.Persists after)
    {name : TypeName}
    {node : Node}
    (here : before.node? name = some node) :
    ∃ grown,
      after.node? name = some grown ∧
        node.Grows grown ∧
        (before.isVisited name = true → grown.category = node.category) := by
  obtain ⟨entry, found, installed⟩ := Option.bind_eq_some_iff.mp here
  obtain ⟨later, there, grown⟩ := persists.find? found
  obtain ⟨after, last, grows, same⟩ := grown.installed node installed
  refine ⟨after, by simp [Store.node?, there, last], grows, fun visited => ?_⟩
  exact same (by simpa [isVisited, found] using visited)

/-- A node that is installed stays installed. -/
theorem isSome_node?
    (persists : before.Persists after)
    {name : TypeName}
    (installed : (before.node? name).isSome = true) :
    (after.node? name).isSome = true := by
  obtain ⟨node, here⟩ := Option.isSome_iff_exists.mp installed
  obtain ⟨grown, there, -⟩ := persists.node? here
  rw [there, Option.isSome_some]

/-- A reverse reference stays. -/
theorem bears
    (persists : before.Persists after)
    {name : TypeName}
    {mark : Mark}
    (marked : before.Bears name mark) :
    after.Bears name mark := by
  obtain ⟨entry, found, bears⟩ := marked
  obtain ⟨later, there, kept⟩ := persists.find? found
  exact ⟨later, there, kept.toGrows.bears bears⟩

end Store.Persists

/--
Whatever is done in a session, what is in the store stays: entries with their
reverse references, nodes with all that was said about them, and the categories
of visited types. Type parameters and defaults keep their first bindings.
-/
theorem Session.store_persists
    (acts more : List Act) :
    let before := (Session.run {} acts).atlas.store
    let after := (Session.run {} (acts ++ more)).atlas.store
    before.Persists after ∧
      ∀ name node, before.node? name = some node →
        ∃ grown,
          after.node? name = some grown ∧
            (∀ formal generic,
              node.lineage.formals.find? formal = some generic →
                grown.lineage.formals.find? formal = some generic) ∧
            ∀ element value,
              node.defaults.lookup element = some value →
                grown.defaults.lookup element = some value := by
  intro before after
  have evolves : Store.Evolves before after := by
    have onward := Session.run_evolves (Session.run {} acts) more
    rwa [← Session.run_append] at onward
  have persists := evolves.persists (Session.store_wellFormed acts)
  refine ⟨persists, fun name node here => ?_⟩
  obtain ⟨grown, there, grows, -⟩ := persists.node? here
  exact ⟨grown, there,
    fun _ _ => lookup_of_prefix grows.lineage.formals,
    fun _ _ => lookup_of_prefix grows.defaults⟩

end TypeAtlas
