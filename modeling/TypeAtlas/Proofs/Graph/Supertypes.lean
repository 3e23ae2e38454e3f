import TypeAtlas.Proofs.Graph.Links

namespace TypeAtlas

/-!
# Subtypes and implementers

The lists of subtypes and implementers under a name follow from the supertypes
of nodes, and the other way round. No list holds a type twice. Both hold
whatever is done in a session and in whichever order, since every session
builds on its store.
-/

/-! ## Each reference is kept once -/

/-- No reverse reference is kept twice on an entry. -/
structure Entry.Once (entry : Entry) : Prop where
  annotated : entry.annotated.Nodup
  fieldUses : entry.fieldUses.Nodup
  subTypes : entry.subTypes.Nodup
  implementers : entry.implementers.Nodup

namespace Entry

/-- An item that is not added again is not there twice. -/
theorem nodup_addOnce
    [BEq α]
    [LawfulBEq α]
    {items : List α}
    (once : items.Nodup)
    (item : α) :
    (addOnce items item).Nodup := by
  unfold addOnce
  split
  · exact once
  · next absent =>
      rw [List.contains_iff_mem] at absent
      refine List.nodup_append.mpr ⟨once, by simp, ?_⟩
      intro other member added present same
      rw [List.mem_singleton.mp present] at same
      exact absent (same ▸ member)

/-- A mark is not made twice on an entry. -/
theorem Once.addMark
    {entry : Entry}
    (once : entry.Once)
    (mark : Mark) :
    (entry.addMark mark).Once := by
  cases mark with
  | annotated element =>
      exact { once with annotated := nodup_addOnce once.annotated element }
  | fieldUse id =>
      exact { once with fieldUses := nodup_addOnce once.fieldUses id }
  | subType name =>
      exact { once with subTypes := nodup_addOnce once.subTypes name }
  | implementer name =>
      exact
        { once with implementers := nodup_addOnce once.implementers name }

end Entry

/-- No change makes a mark twice. -/
theorem Change.once_revise
    (change : Change)
    (name : TypeName)
    {entry : Entry}
    (once : entry.Once) :
    (change.revise name entry).Once := by
  cases change with
  | mention target hint =>
      simp only [revise]
      split
      · cases hint with
        | none =>
            exact once
        | some category =>
            simp only [Entry.afterMention]
            split
            · exact once
            · exact { once with }
      · exact once
  | mark target added =>
      simp only [revise]
      split
      · exact once.addMark added
      · exact once
  | link target parent =>
      simp only [revise]
      split <;> split <;> exact { once with }
  | file target _ | found target _ | claim target _ | amend target _ =>
      simp only [revise]
      split
      · exact { once with }
      · exact once
  | take =>
      exact once

namespace Store

/-- No run of changes makes a mark twice. -/
theorem Evolves.once
    {first last : Store}
    (evolves : Evolves first last)
    (start :
      ∀ name entry, first.find? name = some entry → entry.Once) :
    ∀ name entry, last.find? name = some entry → entry.Once := by
  induction evolves with
  | refl =>
      exact start
  | @step first _ change _ _ inductionHypothesis =>
      refine inductionHypothesis fun name entry found => ?_
      rw [Change.find?_apply] at found
      cases known : first.find? name with
      | none =>
          rw [known] at found
          obtain ⟨hint, rfl⟩ := Change.create_blank found
          constructor <;> simp [Entry.ofName]
      | some old =>
          rw [known, Option.some.injEq] at found
          rw [← found]
          exact change.once_revise name (start name old known)

/-- A name with a mark has an entry. -/
theorem Bears.mem_names
    {store : Store}
    {upper : TypeName}
    {mark : Mark}
    (bears : store.Bears upper mark) :
    upper ∈ store.names := by
  obtain ⟨entry, found, -⟩ := bears
  exact isSome_find?_iff.mp (by simp [found])

/-- The subtypes of a name are those it has marks of. -/
theorem mem_subTypes_iff
    {store : Store}
    {name upper : TypeName} :
    name ∈ store.subTypes upper ↔ store.Bears upper (.subType name) := by
  cases known : store.find? upper <;>
    simp [subTypes, Bears, Entry.Bears, known]

/-- The implementers of a name are those it has marks of. -/
theorem mem_implementers_iff
    {store : Store}
    {name upper : TypeName} :
    name ∈ store.implementers upper ↔
      store.Bears upper (.implementer name) := by
  cases known : store.find? upper <;>
    simp [implementers, Bears, Entry.Bears, known]

/-- No subtype is listed twice. -/
theorem nodup_subTypes
    {store : Store}
    (once : ∀ name entry, store.find? name = some entry → entry.Once)
    (name : TypeName) :
    (store.subTypes name).Nodup := by
  cases known : store.find? name with
  | none =>
      simp [subTypes, known]
  | some entry =>
      simpa [subTypes, known] using (once name entry known).subTypes

/-- No implementer is listed twice. -/
theorem nodup_implementers
    {store : Store}
    (once : ∀ name entry, store.find? name = some entry → entry.Once)
    (name : TypeName) :
    (store.implementers name).Nodup := by
  cases known : store.find? name with
  | none =>
      simp [implementers, known]
  | some entry =>
      simpa [implementers, known] using (once name entry known).implementers

/-- A type with interfaces is of a category that has any. -/
theorem WellFormed.category_of_interface
    {store : Store}
    (wellFormed : store.WellFormed)
    {name interface : TypeName}
    {node : Node}
    (installed : store.node? name = some node)
    (member : interface ∈ node.lineage.interfaces.map (·.name)) :
    node.category ≠ .annotationType := by
  intro annotates
  have kind := wellFormed.isExtensible_node installed
  rw [annotates] at kind
  obtain ⟨_, _, _, _, _, body⟩ := node
  cases body with
  | extensible lineage =>
      simp [Node.isExtensible, Category.isExtensible] at kind
  | annotationType defaults =>
      simp [Node.lineage] at member

namespace Mirrored

variable {decls : List ClassDecl} {store : Store} {name upper : TypeName}

/-- Only types with a node are kept as references. -/
theorem bears_iff
    (mirrored : Mirrored decls store)
    {mark : Mark}
    (about : mark = .subType name ∨ mark = .implementer name) :
    store.Bears upper mark ↔ (upper, mark) ∈ store.linksOf name := by
  have isLink : mark.IsLink := by
    rcases about with rfl | rfl <;> trivial
  rw [mirrored.marks upper mark isLink]
  constructor
  · rintro ⟨child, member⟩
    have same : child = name := by
      rcases eq_of_mem_linkMarks member with rfl | rfl <;>
        simpa using about.symm
    exact same ▸ member
  · exact fun member => ⟨name, member⟩

/-- A type is listed under a name exactly when its node calls for that. -/
theorem listed_iff
    (mirrored : Mirrored decls store) :
    name ∈ store.subTypes upper ∨ name ∈ store.implementers upper ↔
      ∃ mark, (upper, mark) ∈ store.linksOf name := by
  rw [mem_subTypes_iff, mem_implementers_iff,
    mirrored.bears_iff (Or.inl rfl), mirrored.bears_iff (Or.inr rfl)]
  constructor
  · rintro (member | member)
    · exact ⟨_, member⟩
    · exact ⟨_, member⟩
  · rintro ⟨mark, member⟩
    rcases eq_of_mem_linkMarks member with rfl | rfl
    · exact Or.inl member
    · exact Or.inr member

/-- A type that is listed under another has a node. -/
theorem isSome_node?
    (mirrored : Mirrored decls store)
    (listed :
      name ∈ store.subTypes upper ∨ name ∈ store.implementers upper) :
    (store.node? name).isSome := by
  obtain ⟨mark, member⟩ := mirrored.listed_iff.mp listed
  cases known : store.node? name with
  | none =>
      simp [linksOf, known, linkMarks] at member
  | some node =>
      rfl

variable {node : Node}

/--
The subtypes are those that name it as superclass, and interfaces extending it.
-/
theorem mem_subTypes
    (mirrored : Mirrored decls store)
    (tracked : upper ≠ TypeName.root)
    (installed : store.node? name = some node) :
    name ∈ store.subTypes upper ↔
      node.lineage.parent.map (·.name) = some upper ∨
        node.category = .interfaceType ∧
          upper ∈ node.lineage.interfaces.map (·.name) := by
  rw [mem_subTypes_iff, mirrored.bears_iff (Or.inl rfl), linksOf, installed,
    mem_linkMarks_iff]
  by_cases interface : node.category = .interfaceType <;>
    simp [parentNamed?, interfaceMark, interface, tracked]

/-- The implementers are the classes and enums that name it as interface. -/
theorem mem_implementers
    (mirrored : Mirrored decls store)
    (wellFormed : store.WellFormed)
    (tracked : upper ≠ TypeName.root)
    (installed : store.node? name = some node) :
    name ∈ store.implementers upper ↔
      (node.category = .classType ∨ node.category = .enumType) ∧
        upper ∈ node.lineage.interfaces.map (·.name) := by
  rw [mem_implementers_iff, mirrored.bears_iff (Or.inr rfl), linksOf,
    installed, mem_linkMarks_iff]
  have extensible :
      upper ∈ node.lineage.interfaces.map (·.name) →
        node.category ≠ .annotationType :=
    wellFormed.category_of_interface installed
  cases category : node.category <;>
    simp_all [interfaceMark]

end Mirrored

end Store

namespace Session

/-- In every session marks and supertypes are in step. -/
theorem store_mirrored
    (acts : List Act) :
    Store.Mirrored (acts.filterMap Act.decl?)
      (Session.run {} acts).atlas.store :=
  (Session.run_builds {} acts).mirrored Store.wellFormed_empty
    (Store.mirrored_empty _)

/--
Whatever is done in a session, a type is kept as a subtype of a tracked name
exactly when the name is its superclass, or the type is an interface and the
name is one of its interfaces; and it is kept as an implementer exactly when it
is a class or an enum and the name is one of its interfaces. No reference is
kept twice, and none to a type without a node.
-/
theorem supertypes_mirrored
    (acts : List Act) :
    let store := (Session.run {} acts).atlas.store
    ∀ upper ∈ store.names,
      (∀ name node, store.node? name = some node →
        (name ∈ store.subTypes upper ↔
          node.lineage.parent.map (·.name) = some upper ∨
            node.category = .interfaceType ∧
              upper ∈ node.lineage.interfaces.map (·.name)) ∧
        (name ∈ store.implementers upper ↔
          (node.category = .classType ∨ node.category = .enumType) ∧
            upper ∈ node.lineage.interfaces.map (·.name))) ∧
        (store.subTypes upper).Nodup ∧
        (store.implementers upper).Nodup ∧
        ∀ name,
          name ∈ store.subTypes upper ∨ name ∈ store.implementers upper →
            (store.node? name).isSome := by
  intro store upper known
  have wellFormed : store.WellFormed := store_wellFormed acts
  have mirrored := store_mirrored acts
  have once :
      ∀ name entry, store.find? name = some entry → entry.Once :=
    (Session.run_evolves {} acts).once (by simp [Store.find?])
  have tracked := wellFormed.ne_root known
  refine ⟨fun name node installed => ⟨?_, ?_⟩, ?_, ?_, fun name listed => ?_⟩
  · exact mirrored.mem_subTypes tracked installed
  · exact mirrored.mem_implementers wellFormed tracked installed
  · exact Store.nodup_subTypes once upper
  · exact Store.nodup_implementers once upper
  · exact mirrored.isSome_node? listed

/-- A class whose second declaration has another superclass and interface. -/
def redeclaredClass : List Act :=
  [.visit none true,
    .accept 0
      { access := 0x1
        name := "c.Child"
        superName := some "c.Base"
        interfaces := ["c.One"] },
    .accept 0
      { access := 0x1
        name := "c.Child"
        superName := some "c.Other"
        interfaces := ["c.Two"] }]

/-- The interface of the second declaration is added, its superclass is not. -/
theorem supertypes_mirrored_redeclaredClass :
    let store := (Session.run {} redeclaredClass).atlas.store
    "c.Other" ∈ store.names ∧
      store.subTypes "c.Other" = [] ∧
      store.implementers "c.Two" = ["c.Child"] ∧
      ∀ name node, store.node? name = some node →
        (name ∈ store.subTypes "c.Other" ↔
          node.lineage.parent.map (·.name) = some "c.Other" ∨
            node.category = .interfaceType ∧
              "c.Other" ∈ node.lineage.interfaces.map (·.name)) := by
  have known :
      "c.Other" ∈ (Session.run {} redeclaredClass).atlas.store.names := by
    decide
  refine ⟨known, by decide, by decide, fun name node installed => ?_⟩
  exact ((supertypes_mirrored redeclaredClass "c.Other" known).1 name node
    installed).1

end Session

end TypeAtlas
