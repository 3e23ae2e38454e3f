import TypeAtlas.Proofs.Entering.FirstVisits
import TypeAtlas.Proofs.Graph.Supertypes
import TypeAtlas.Query.Catalog

namespace TypeAtlas

/-!
# Questions about the hierarchy, as relations

The downward questions find what the reverse lists lead to, the upward question
finds what the supertypes of nodes lead to. The searches behind them end with
nothing left to find, so that each answer is described by a chain of steps.

The types that are instances of an interface are found through its
sub-interfaces, but only where the interface has a node. Without one they are
found through the types that declare it directly, so that the answer can become
longer once the interface is declared.
-/

namespace Store

/-- A type is another one, or comes below it in the lists of subtypes. -/
def Below
    (store : Store)
    (lower upper : TypeName) :
    Prop :=
  Relation.ReflTransGen (Leads store.subTypes) upper lower

/-- A type declares an interface or one below it, or is below such a type. -/
def Implements
    (store : Store)
    (name interface : TypeName) :
    Prop :=
  ∃ lower, store.Below lower interface ∧
    ∃ implementer ∈ store.implementers lower, store.Below name implementer

namespace Below

variable {store : Store} {lower middle upper : TypeName}

theorem refl
    (name : TypeName) :
    store.Below name name :=
  Relation.ReflTransGen.refl

theorem single
    (listed : lower ∈ store.subTypes upper) :
    store.Below lower upper :=
  Relation.ReflTransGen.single listed

theorem trans
    (first : store.Below lower middle)
    (second : store.Below middle upper) :
    store.Below lower upper :=
  Relation.ReflTransGen.trans second first

end Below

/-! ## Downward -/

/-- A type and its subtypes of all levels are what is reached from the type. -/
theorem cons_allSubTypes
    (store : Store)
    (name : TypeName) :
    name :: store.allSubTypes name = store.closure store.subTypes [name] := by
  have single : [name].eraseDups = [name] := by
    simp [List.eraseDups_cons]
  obtain ⟨rest, reached⟩ :=
    prefix_reach store.subTypes (store.size + 1) [name]
  simp only [allSubTypes, closure, single]
  rw [← reached]
  rfl

/-- A type and all its subtypes are the types below it. -/
theorem mem_cons_allSubTypes_iff
    {store : Store}
    {name other : TypeName} :
    other ∈ name :: store.allSubTypes name ↔ store.Below other name := by
  rw [cons_allSubTypes,
    mem_closure_iff fun _ _ listed => (mem_subTypes_iff.mp listed).mem_names]
  simp [Below]

/-- The types with their subtypes are those below one of them. -/
theorem mem_withSubTypes_iff
    {store : Store}
    {names : List TypeName}
    {other : TypeName} :
    other ∈ store.withSubTypes names ↔
      ∃ name ∈ names, store.Below other name := by
  simp only [withSubTypes, List.mem_eraseDups, List.mem_flatMap,
    mem_cons_allSubTypes_iff]

theorem nodup_withSubTypes
    (store : Store)
    (names : List TypeName) :
    (store.withSubTypes names).Nodup :=
  nodup_eraseDups _

/-- Instances are found through the sub-interfaces and their implementers. -/
theorem mem_allImplementers_iff
    {store : Store}
    {interface other : TypeName} :
    other ∈ store.allImplementers interface ↔
      store.Implements other interface := by
  rw [allImplementers, mem_withSubTypes_iff]
  simp only [List.mem_flatMap, mem_cons_allSubTypes_iff, Implements]
  constructor
  · rintro ⟨implementer, ⟨lower, below, declares⟩, inherits⟩
    exact ⟨lower, below, implementer, declares, inherits⟩
  · rintro ⟨lower, below, implementer, declares, inherits⟩
    exact ⟨implementer, ⟨lower, below, declares⟩, inherits⟩

/-! ## Upward -/

/-- A type with supertypes has an entry. -/
theorem mem_names_of_mem_supertypes
    {store : Store}
    {lower upper : TypeName}
    (named : upper ∈ store.supertypes lower) :
    lower ∈ store.names := by
  apply mem_names_of_node?
  cases installed : store.node? lower with
  | none =>
      simp [supertypes, installed] at named
  | some node =>
      rfl

/-- A type is an instance of what its supertypes lead to. -/
theorem isInstanceOf_iff
    {store : Store}
    {name target : TypeName} :
    store.isInstanceOf name target = true ↔
      Relation.ReflTransGen (Leads store.supertypes) name target := by
  rw [isInstanceOf, Bool.or_eq_true, beq_iff_eq, List.contains_iff_mem,
    mem_closure_iff fun _ _ named => mem_names_of_mem_supertypes named,
    Relation.ReflTransGen.cases_head_iff]
  rfl

/-! ## Interfaces that are declared later -/

/--
Without a node the implementers themselves and the types below them are found.
-/
theorem mem_implementationsOf_iff_of_nodeless
    {store : Store}
    {interface other : TypeName}
    (nodeless : store.node? interface = none) :
    other ∈ store.implementationsOf interface ↔
      ∃ implementer ∈ store.implementers interface,
        store.Below other implementer := by
  rw [implementationsOf, nodeless, mem_withSubTypes_iff]

/-- With a node all implementers are found. -/
theorem implementationsOf_of_isSome
    {store : Store}
    {interface : TypeName}
    (installed : (store.node? interface).isSome) :
    store.implementationsOf interface = store.allImplementers interface := by
  obtain ⟨node, here⟩ := Option.isSome_iff_exists.mp installed
  rw [implementationsOf, here]

/-- The same lists of subtypes, in any order, put the same types below. -/
theorem below_congr
    {one other : Store}
    (listed :
      ∀ upper lower, lower ∈ one.subTypes upper ↔ lower ∈ other.subTypes upper)
    {lower upper : TypeName} :
    one.Below lower upper ↔ other.Below lower upper := by
  have same : Leads one.subTypes = Leads other.subTypes := by
    funext upper lower
    exact propext (listed upper lower)
  rw [Below, Below, same]

end Store

/-- A declaration has no supertypes, the root type apart. -/
structure ClassDecl.StandsAlone (decl : ClassDecl) : Prop where
  superclass : decl.superName = none ∨ decl.superName = some TypeName.root
  interfaces : decl.interfaces = []

/-- What is built without supertypes leaves all references back as they are. -/
theorem Store.Builds.bears_link_iff
    {decls : List ClassDecl}
    (alone : ∀ decl ∈ decls, decl.StandsAlone)
    {first last : Store}
    (builds : Store.Builds decls first last)
    {upper : TypeName}
    {mark : Mark}
    (isLink : mark.IsLink) :
    last.Bears upper mark ↔ first.Bears upper mark := by
  induction builds with
  | refl =>
      rfl
  | change change free _ _ inductionHypothesis =>
      exact inductionHypothesis.trans
        (bears_apply_of_linksNothing free _ isLink)
  | superclass handed named tracked _ _ _ _ _ =>
      rcases (alone _ handed).superclass with nothing | root
      · simp [nothing] at named
      · rw [root, Option.some.injEq] at named
        exact absurd named.symm tracked
  | interface handed named _ _ _ _ =>
      simp [(alone _ handed).interfaces] at named

/-- A type without a node can be entered by a declaration without supertypes. -/
theorem ClassDecl.StandsAlone.awaited
    {decl : ClassDecl}
    (alone : decl.StandsAlone)
    {store : Store}
    (wellFormed : store.WellFormed)
    (known : decl.name ∈ store.names)
    (nodeless : store.node? decl.name = none) :
    store.Awaits decl := by
  have tracked := wellFormed.ne_root known
  obtain ⟨entry, found⟩ := Store.exists_of_mem_names known
  refine ⟨tracked, ?_, by simp [nodeless], fun parent named => ?_⟩
  · cases visited : entry.visited with
    | false =>
        simp [Store.isVisited, found, visited]
    | true =>
        obtain ⟨node, installed, -⟩ :=
          (wellFormed.entries entry (Store.mem_of_find? found)).visited visited
        simp [Store.node?, found, installed] at nodeless
  · have isRoot : parent = TypeName.root := by
      rcases alone.superclass with nothing | root
      · simp [nothing] at named
      · simpa [root] using named.symm
    subst isRoot
    refine ⟨tracked.symm, fun path => ?_⟩
    rcases path.cases_head with same | ⟨next, up, -⟩
    · exact tracked same.symm
    · have absent : store.node? TypeName.root = none := by
        simp [Store.node?, Store.find?_eq_none_iff.mpr wellFormed.rootless]
      simp [Store.Extends, Store.parentName?, Store.parentNamed?, absent] at up

/-- A declaration that is filed and claimed stays entered to the end. -/
theorem Visit.accept_entered
    {visit : Visit}
    (fresh : visit.progress = .start)
    {atlas : Atlas}
    {decl : ClassDecl}
    (awaits : atlas.store.Awaits decl) :
    (visit.accept atlas decl).2.store.Entered decl := by
  rw [accept_eq, if_neg awaits.tracked,
    header_of_claimed fresh awaits.file_allowed awaits.claim_allowed]
  dsimp only
  have opened := entered_opening visit awaits.claim_allowed
  refine Store.Entered.evolves ?_ (enterBody_builds decl _).evolves
  exact opened.evolves (linkHeader_builds opened).evolves

namespace Session

/--
Whatever was done before, the types given for an interface without a node are
those that declare it, and the types below them. Once a declaration without
supertypes gives the interface a node, the types that declare an interface
below it count as well. The two answers are the same exactly when these are
below types that declare the interface directly.
-/
theorem implementationsOf_before_and_after_visit
    (acts : List Act)
    {visit : Visit}
    (fresh : visit.progress = .start)
    {decl : ClassDecl}
    (alone : decl.StandsAlone)
    (known : decl.name ∈ (Session.run {} acts).atlas.store.names)
    (nodeless : (Session.run {} acts).atlas.store.node? decl.name = none) :
    let atlas := (Session.run {} acts).atlas
    let before := atlas.store
    let after := (visit.accept atlas decl).2.store
    (∀ name,
      name ∈ before.implementationsOf decl.name ↔
        ∃ implementer ∈ before.implementers decl.name,
          before.Below name implementer) ∧
      (∀ name,
        name ∈ after.implementationsOf decl.name ↔
          before.Implements name decl.name) ∧
      ((∀ name,
        name ∈ before.implementationsOf decl.name ↔
          name ∈ after.implementationsOf decl.name) ↔
        ∀ lower, before.Below lower decl.name →
          ∀ implementer ∈ before.implementers lower,
            ∃ direct ∈ before.implementers decl.name,
              before.Below implementer direct) := by
  intro atlas before after
  have builds : Store.Builds [decl] before after :=
    visit.accept_builds atlas decl
  have links {upper : TypeName} {mark : Mark} (isLink : mark.IsLink) :
      after.Bears upper mark ↔ before.Bears upper mark :=
    builds.bears_link_iff (by simpa using alone) isLink
  have below {lower upper : TypeName} :
      after.Below lower upper ↔ before.Below lower upper :=
    Store.below_congr fun upper lower => by
      simp only [Store.mem_subTypes_iff]
      exact links trivial
  have declares {name upper : TypeName} :
      name ∈ after.implementers upper ↔ name ∈ before.implementers upper := by
    simp only [Store.mem_implementers_iff]
    exact links trivial
  have installed : (after.node? decl.name).isSome := by
    have awaits := alone.awaited (store_wellFormed acts) known nodeless
    obtain ⟨node, -, here, -⟩ := Visit.accept_entered fresh awaits
    simp [after, atlas, here]
  have earlier :
      ∀ name,
        name ∈ before.implementationsOf decl.name ↔
          ∃ implementer ∈ before.implementers decl.name,
            before.Below name implementer :=
    fun name => Store.mem_implementationsOf_iff_of_nodeless nodeless
  have later :
      ∀ name,
        name ∈ after.implementationsOf decl.name ↔
          before.Implements name decl.name := by
    intro name
    rw [Store.implementationsOf_of_isSome installed,
      Store.mem_allImplementers_iff]
    simp only [Store.Implements, below, declares]
  refine ⟨earlier, later, ?_⟩
  simp only [earlier, later]
  constructor
  · intro same lower beneath implementer declared
    exact (same implementer).mpr
      ⟨lower, beneath, implementer, declared, .refl _⟩
  · intro covered name
    constructor
    · rintro ⟨implementer, declared, inherits⟩
      exact ⟨decl.name, .refl _, implementer, declared, inherits⟩
    · rintro ⟨lower, beneath, implementer, declared, inherits⟩
      obtain ⟨direct, listed, further⟩ :=
        covered lower beneath implementer declared
      exact ⟨direct, listed, inherits.trans further⟩

/-- An interface is extended and implemented before it is declared. -/
def extendedInterface : List Act :=
  [.visit none true,
    .accept 0
      { access := 0x601
        name := "c.Sub"
        interfaces := ["c.Super"] },
    .accept 0
      { access := 0x1
        name := "c.Impl"
        interfaces := ["c.Sub"] }]

/-- The interface itself. -/
def superInterface : ClassDecl :=
  { access := 0x601
    name := "c.Super"
    superName := some TypeName.root }

theorem implementationsOf_before_and_after_superInterface :
    let before := (Session.run {} extendedInterface).atlas.store
    "c.Super" ∈ before.names ∧
      before.node? "c.Super" = none ∧
      ∀ name,
        name ∈
            (Visit.accept {} (Session.run {} extendedInterface).atlas
              superInterface).2.store.implementationsOf "c.Super" ↔
          before.Implements name "c.Super" := by
  have known :
      superInterface.name ∈
        (Session.run {} extendedInterface).atlas.store.names := by
    decide
  have nodeless :
      (Session.run {} extendedInterface).atlas.store.node?
        superInterface.name = none :=
    rfl
  exact ⟨known, nodeless,
    (implementationsOf_before_and_after_visit extendedInterface rfl
      ⟨Or.inr rfl, rfl⟩ known nodeless).2.1⟩

/-- A declaration without supertypes can make more types instances. -/
theorem implementationsOf_superInterface_differs :
    let atlas := (Session.run {} extendedInterface).atlas
    let after := (Visit.accept {} atlas superInterface).2
    superInterface.category = .interfaceType ∧
      "c.Super" ∈ atlas.store.names ∧
      (atlas.store.node? "c.Super").isNone ∧
      atlas.store.implementationsOf "c.Super" = [] ∧
      after.store.implementationsOf "c.Super" = ["c.Impl"] := by
  refine ⟨?_, ?_, ?_, ?_, ?_⟩ <;> decide

end Session

end TypeAtlas
