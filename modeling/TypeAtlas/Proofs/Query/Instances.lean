import TypeAtlas.Proofs.Query.Hierarchy

namespace TypeAtlas

/-!
# Instances of interfaces

Looking down from an interface and looking up from a type give the same
answer, although one follows the lists of subtypes and implementers and the
other the supertypes of nodes. Looking down passes from interfaces to
interfaces, then once from an interface to a type that declares it, then from
subclass to subclass. A chain of supertypes has the same shape read upward,
as long as no declaration names a supertype of the wrong kind.
-/

namespace Store

/-! ## Kinds of types -/

/-- A type was entered under a category. -/
def EnteredAs
    (store : Store)
    (name : TypeName)
    (category : Category) :
    Prop :=
  (store.visitedNodeAs? name category).isSome = true

instance
    (store : Store)
    (name : TypeName)
    (category : Category) :
    Decidable (store.EnteredAs name category) :=
  inferInstanceAs (Decidable (_ = true))

/-- A type was entered as a class or an enum. -/
def IsClass
    (store : Store)
    (name : TypeName) :
    Prop :=
  store.EnteredAs name .classType ∨ store.EnteredAs name .enumType

instance
    (store : Store)
    (name : TypeName) :
    Decidable (store.IsClass name) :=
  inferInstanceAs (Decidable (_ ∨ _))

variable {store : Store} {name lower upper : TypeName}

theorem enteredAs_iff
    {category : Category} :
    store.EnteredAs name category ↔
      ∃ node,
        store.visitedNode? name = some node ∧ node.category = category := by
  cases installed : store.visitedNode? name <;>
    simp [EnteredAs, visitedNodeAs?, installed]

theorem EnteredAs.unique
    {one other : Category}
    (first : store.EnteredAs name one)
    (second : store.EnteredAs name other) :
    one = other := by
  obtain ⟨node, installed, rfl⟩ := enteredAs_iff.mp first
  obtain ⟨same, again, rfl⟩ := enteredAs_iff.mp second
  rw [installed, Option.some.injEq] at again
  rw [again]

theorem EnteredAs.mem_names
    {category : Category}
    (entered : store.EnteredAs name category) :
    name ∈ store.names := by
  obtain ⟨node, installed, -⟩ := enteredAs_iff.mp entered
  rw [← isSome_find?_iff]
  cases known : store.find? name with
  | none =>
      simp [visitedNode?, known] at installed
  | some entry =>
      rfl

/-- A class is no interface. -/
theorem IsClass.not_interface
    (isClass : store.IsClass name) :
    ¬ store.EnteredAs name .interfaceType := by
  intro interface
  rcases isClass with isClass | isEnum
  · exact absurd (interface.unique isClass) (by decide)
  · exact absurd (interface.unique isEnum) (by decide)

theorem IsClass.mem_names
    (isClass : store.IsClass name) :
    name ∈ store.names := by
  rcases isClass with isClass | isEnum
  · exact isClass.mem_names
  · exact isEnum.mem_names

theorem Entered.enteredAs
    {decl : ClassDecl}
    (entered : store.Entered decl) :
    store.EnteredAs decl.name decl.category := by
  obtain ⟨node, visited, installed, category⟩ := entered
  refine enteredAs_iff.mpr ⟨node, ?_, category⟩
  obtain ⟨entry, found, here⟩ := Option.bind_eq_some_iff.mp installed
  simp only [isVisited, found, Option.any_some] at visited
  simp [visitedNode?, Entry.visitedNode?, found, visited, here]

/-! ## Steps in both directions -/

variable {decls : List ClassDecl}

/-- The supertypes with an entry are those under which a type is listed. -/
theorem Mirrored.mem_supertypes_iff
    (mirrored : Mirrored decls store)
    (tracked : upper ≠ TypeName.root) :
    upper ∈ store.supertypes lower ↔
      lower ∈ store.subTypes upper ∨ lower ∈ store.implementers upper := by
  rw [mirrored.listed_iff, linksOf]
  cases installed : store.node? lower with
  | none =>
      simp [supertypes, installed, linkMarks]
  | some node =>
      simp [supertypes, installed, mem_linkMarks_iff, parentNamed?, exists_or,
        tracked]

end Store

namespace ClassDecl

variable {decl : ClassDecl} {lower upper : TypeName}

/-- What a declaration names as its superclass, or as an interface's interface. -/
theorem names_of_subType
    (called : (upper, Mark.subType lower) ∈ decl.links) :
    decl.superName = some upper ∨
      upper ∈ decl.interfaces ∧ decl.category = .interfaceType := by
  simp only [links, List.mem_append, List.mem_map, Option.mem_toList,
    Prod.mk.injEq] at called
  rcases called with ⟨parent, named, rfl, -⟩ | ⟨interface, named, rfl, marked⟩
  · exact Or.inl named
  · refine Or.inr ⟨named, ?_⟩
    by_contra other
    simp [interfaceMark, other] at marked

theorem names_of_implementer
    (called : (upper, Mark.implementer lower) ∈ decl.links) :
    upper ∈ decl.interfaces ∧ decl.category ≠ .interfaceType := by
  simp only [links, List.mem_append, List.mem_map, Option.mem_toList,
    Prod.mk.injEq, reduceCtorEq, and_false, exists_false, false_or] at called
  obtain ⟨interface, named, rfl, marked⟩ := called
  refine ⟨named, fun category => ?_⟩
  simp [interfaceMark, category] at marked

end ClassDecl

namespace Store

/--
No declaration names a supertype of the wrong kind: interfaces have no
superclass but the root type, no superclass was entered as an interface, and no
interface was entered as a class or an enum.
-/
structure Coherent
    (decls : List ClassDecl)
    (store : Store) :
    Prop where
  rooted :
    ∀ decl ∈ decls, decl.category = .interfaceType →
      decl.superName = none ∨ decl.superName = some TypeName.root
  superclasses :
    ∀ decl ∈ decls, ∀ parent ∈ decl.superName,
      ¬ store.EnteredAs parent .interfaceType
  interfaces :
    ∀ decl ∈ decls, ∀ interface ∈ decl.interfaces,
      ¬ store.IsClass interface

variable {decls : List ClassDecl} {store : Store}
  {name lower upper interface : TypeName}

/-- Whatever is listed under an interface as a subtype is an interface. -/
theorem Coherent.interface_of_subType
    (coherent : Coherent decls store)
    (mirrored : Mirrored decls store)
    (isInterface : store.EnteredAs upper .interfaceType)
    (listed : lower ∈ store.subTypes upper) :
    store.EnteredAs lower .interfaceType := by
  rw [mem_subTypes_iff, mirrored.bears_iff (Or.inl rfl)] at listed
  obtain ⟨decl, handed, rfl, -, entered, called⟩ :=
    mirrored.declared _ _ listed
  rcases ClassDecl.names_of_subType called with parent | ⟨-, category⟩
  · exact absurd isInterface (coherent.superclasses decl handed upper parent)
  · exact category ▸ entered.enteredAs

/-- Whatever is listed as an implementer is a class, of no class. -/
theorem Coherent.class_of_implementer
    (coherent : Coherent decls store)
    (mirrored : Mirrored decls store)
    (listed : lower ∈ store.implementers upper) :
    store.IsClass lower ∧ ¬ store.IsClass upper := by
  rw [mem_implementers_iff, mirrored.bears_iff (Or.inr rfl)] at listed
  obtain ⟨decl, handed, rfl, extensible, entered, called⟩ :=
    mirrored.declared _ _ listed
  obtain ⟨named, noInterface⟩ := ClassDecl.names_of_implementer called
  refine ⟨?_, coherent.interfaces decl handed upper named⟩
  have kind := entered.enteredAs
  cases category : decl.category with
  | classType =>
      exact Or.inl (category ▸ kind)
  | enumType =>
      exact Or.inr (category ▸ kind)
  | interfaceType =>
      exact absurd category noInterface
  | annotationType =>
      simp [category, Category.isExtensible] at extensible

/-- Whatever is listed under a class as a subtype is a class. -/
theorem Coherent.class_of_subType
    (coherent : Coherent decls store)
    (mirrored : Mirrored decls store)
    (wellFormed : store.WellFormed)
    (isClass : store.IsClass upper)
    (listed : lower ∈ store.subTypes upper) :
    store.IsClass lower := by
  rw [mem_subTypes_iff, mirrored.bears_iff (Or.inl rfl)] at listed
  obtain ⟨decl, handed, rfl, extensible, entered, called⟩ :=
    mirrored.declared _ _ listed
  have kind := entered.enteredAs
  cases category : decl.category with
  | classType =>
      exact Or.inl (category ▸ kind)
  | enumType =>
      exact Or.inr (category ▸ kind)
  | annotationType =>
      simp [category, Category.isExtensible] at extensible
  | interfaceType =>
      rcases ClassDecl.names_of_subType called with parent | ⟨named, -⟩
      · rcases coherent.rooted decl handed category with nothing | root
        · simp [nothing] at parent
        · rw [root, Option.some.injEq] at parent
          exact absurd (parent ▸ isClass.mem_names) wellFormed.rootless
      · exact absurd isClass (coherent.interfaces decl handed upper named)

/-! ## Chains -/

theorem Coherent.class_of_below
    (coherent : Coherent decls store)
    (mirrored : Mirrored decls store)
    (wellFormed : store.WellFormed)
    (isClass : store.IsClass upper)
    (below : store.Below lower upper) :
    store.IsClass lower := by
  induction below with
  | refl =>
      exact isClass
  | tail _ listed inductionHypothesis =>
      exact coherent.class_of_subType mirrored wellFormed inductionHypothesis
        listed

/-- Looking up from what is below leads back. -/
theorem Mirrored.ascends_of_below
    (mirrored : Mirrored decls store)
    (wellFormed : store.WellFormed)
    (below : store.Below lower upper) :
    Relation.ReflTransGen (Leads store.supertypes) lower upper := by
  induction below with
  | refl =>
      exact .refl
  | tail _ listed inductionHypothesis =>
      have tracked := wellFormed.ne_root (mem_subTypes_iff.mp listed).mem_names
      exact .head ((mirrored.mem_supertypes_iff tracked).mpr (Or.inl listed))
        inductionHypothesis

theorem Mirrored.ascends_of_implements
    (mirrored : Mirrored decls store)
    (wellFormed : store.WellFormed)
    (implements : store.Implements name interface) :
    Relation.ReflTransGen (Leads store.supertypes) name interface := by
  obtain ⟨lower, below, implementer, listed, inherits⟩ := implements
  have tracked := wellFormed.ne_root (mem_implementers_iff.mp listed).mem_names
  have declares : lower ∈ store.supertypes implementer :=
    (mirrored.mem_supertypes_iff tracked).mpr (Or.inr listed)
  exact (mirrored.ascends_of_below wellFormed inherits).trans
    (.head declares (mirrored.ascends_of_below wellFormed below))

/--
A chain of supertypes that ends at an interface passes interfaces only, or
classes and then interfaces.
-/
theorem Coherent.shape_of_chain
    (coherent : Coherent decls store)
    (mirrored : Mirrored decls store)
    (wellFormed : store.WellFormed)
    (isInterface : store.EnteredAs interface .interfaceType)
    (chain : Relation.ReflTransGen (Leads store.supertypes) name interface) :
    store.EnteredAs name .interfaceType ∧ store.Below name interface ∨
      store.IsClass name ∧ store.Implements name interface := by
  -- From the interface down: the kind of a supertype decides that of the type.
  induction chain using Relation.ReflTransGen.head_induction_on with
  | refl =>
      exact Or.inl ⟨isInterface, .refl _⟩
  | @head lower upper step _ inductionHypothesis =>
      rcases inductionHypothesis with ⟨kind, below⟩ | ⟨kind, implements⟩
      · have tracked := wellFormed.ne_root kind.mem_names
        rcases (mirrored.mem_supertypes_iff tracked).mp step with listed | listed
        · exact Or.inl
            ⟨coherent.interface_of_subType mirrored kind listed,
              (Below.single listed).trans below⟩
        · exact Or.inr
            ⟨(coherent.class_of_implementer mirrored listed).1,
              upper, below, lower, listed, .refl _⟩
      · have tracked := wellFormed.ne_root kind.mem_names
        rcases (mirrored.mem_supertypes_iff tracked).mp step with listed | listed
        · obtain ⟨middle, below, implementer, declares, inherits⟩ := implements
          exact Or.inr
            ⟨coherent.class_of_subType mirrored wellFormed kind listed,
              middle, below, implementer, declares,
              (Below.single listed).trans inherits⟩
        · exact absurd kind (coherent.class_of_implementer mirrored listed).2

/-- Below an interface, the classes found are the instances. -/
theorem Coherent.implements_iff
    (coherent : Coherent decls store)
    (mirrored : Mirrored decls store)
    (wellFormed : store.WellFormed)
    (isInterface : store.EnteredAs interface .interfaceType) :
    store.Implements name interface ↔
      store.IsClass name ∧ store.isInstanceOf name interface = true := by
  rw [isInstanceOf_iff]
  constructor
  · intro implements
    refine ⟨?_, mirrored.ascends_of_implements wellFormed implements⟩
    obtain ⟨lower, -, implementer, listed, inherits⟩ := implements
    exact coherent.class_of_below mirrored wellFormed
      (coherent.class_of_implementer mirrored listed).1 inherits
  · rintro ⟨isClass, chain⟩
    rcases coherent.shape_of_chain mirrored wellFormed isInterface chain with
      ⟨kind, -⟩ | ⟨-, implements⟩
    · exact absurd kind isClass.not_interface
    · exact implements

end Store

namespace Session

/--
Whatever was done before, looking down from an interface that was entered finds
exactly the classes and enums that were entered and are instances of it, each
once, unless a declaration names a supertype of the wrong kind.
-/
theorem allImplementers_are_instances
    (acts : List Act)
    (coherent :
      Store.Coherent (acts.filterMap Act.decl?)
        (Session.run {} acts).atlas.store) :
    let store := (Session.run {} acts).atlas.store
    ∀ interface, store.EnteredAs interface .interfaceType →
      (store.allImplementers interface).Nodup ∧
        ∀ name,
          name ∈ store.allImplementers interface ↔
            store.IsClass name ∧
              store.isInstanceOf name interface = true := by
  intro store interface isInterface
  refine ⟨store.nodup_withSubTypes _, fun name => ?_⟩
  rw [Store.mem_allImplementers_iff]
  exact coherent.implements_iff (store_mirrored acts) (store_wellFormed acts)
    isInterface

/-- Two interfaces that extend each other, a class and its subclass. -/
def mutualInterfaces : List Act :=
  [.visit none true,
    .accept 0
      { access := 0x601
        name := "c.One"
        superName := some TypeName.root
        interfaces := ["c.Other"] },
    .accept 0
      { access := 0x601
        name := "c.Other"
        superName := some TypeName.root
        interfaces := ["c.One"] },
    .accept 0
      { access := 0x1
        name := "c.Child"
        superName := some "c.Base" },
    .accept 0
      { access := 0x1
        name := "c.Base"
        superName := some TypeName.root
        interfaces := ["c.Other"] }]

theorem coherent_mutualInterfaces :
    Store.Coherent (mutualInterfaces.filterMap Act.decl?)
      (Session.run {} mutualInterfaces).atlas.store := by
  refine ⟨?_, ?_, ?_⟩ <;> decide

theorem allImplementers_are_instances_mutualInterfaces :
    let store := (Session.run {} mutualInterfaces).atlas.store
    store.EnteredAs "c.One" .interfaceType ∧
      store.allImplementers "c.One" = ["c.Base", "c.Child"] ∧
      ∀ name,
        name ∈ store.allImplementers "c.One" ↔
          store.IsClass name ∧ store.isInstanceOf name "c.One" = true := by
  have entered :
      (Session.run {} mutualInterfaces).atlas.store.EnteredAs "c.One"
        .interfaceType := by
    decide
  exact ⟨entered, by decide,
    (allImplementers_are_instances mutualInterfaces coherent_mutualInterfaces
      "c.One" entered).2⟩

end Session

end TypeAtlas
