import TypeAtlas.Proofs.Query.Hierarchy
import TypeAtlas.Proofs.Query.Members

namespace TypeAtlas

/-!
# Traversals are closures

Three questions are answered by a search through the graph: for the subtypes of
a type, for its supertypes, and for the types that carry an annotation by way of
annotation types. The main result describes each answer by the edges that it
follows, for every store of a session and whatever cycles there are in it.
Nothing that the edges lead to is left out, and nothing is given twice.
-/

/-! ## No repetitions -/

/-- A round adds things that are new and different from one another. -/
theorem nodup_append_round
    [BEq α]
    [LawfulBEq α]
    (next : α → List α)
    {known : List α}
    (distinct : known.Nodup) :
    (known ++
      ((known.flatMap next).filter (!known.contains ·)).eraseDups).Nodup := by
  refine List.nodup_append.mpr ⟨distinct, nodup_eraseDups _, ?_⟩
  rintro old present new added rfl
  exact (mem_round_iff.mp added).2 present

/-- A search that starts from different things gives nothing twice. -/
theorem nodup_reach
    [BEq α]
    [LawfulBEq α]
    (next : α → List α)
    (rounds : Nat)
    {known : List α}
    (distinct : known.Nodup) :
    (reach next rounds known).Nodup := by
  induction rounds generalizing known with
  | zero =>
      exact distinct
  | succ rounds inductionHypothesis =>
      simp only [reach]
      split
      · exact distinct
      · exact inductionHypothesis (nodup_append_round next distinct)

namespace Store

/-- What is reached from one name is that name, then others. -/
theorem closure_singleton
    (store : Store)
    (next : TypeName → List TypeName)
    (name : TypeName) :
    ∃ others,
      store.closure next [name] = name :: others ∧
        (name :: others).Nodup := by
  have single : [name].eraseDups = [name] := by
    simp [List.eraseDups_cons]
  obtain ⟨others, reached⟩ := prefix_reach next (store.size + 1) [name]
  have whole : store.closure next [name] = name :: others := by
    simp only [closure, single, ← reached, List.singleton_append]
  refine ⟨others, whole, ?_⟩
  rw [← whole]
  exact nodup_reach next _ (nodup_eraseDups _)

/-- No name is reached twice. -/
theorem nodup_drop_closure
    (store : Store)
    (next : TypeName → List TypeName)
    (name : TypeName) :
    ((store.closure next [name]).drop 1).Nodup := by
  obtain ⟨others, whole, distinct⟩ := store.closure_singleton next name
  rw [whole]
  exact distinct.of_cons

/-- Behind the name itself stands what one or more steps lead to. -/
theorem mem_drop_closure_iff
    {store : Store}
    {next : TypeName → List TypeName}
    (leads : ∀ a b, b ∈ next a → a ∈ store.names)
    {name other : TypeName} :
    other ∈ (store.closure next [name]).drop 1 ↔
      other ≠ name ∧ Relation.TransGen (Leads next) name other := by
  obtain ⟨others, whole, distinct⟩ := store.closure_singleton next name
  have reached :
      other = name ∨ other ∈ others ↔
        other = name ∨ Relation.TransGen (Leads next) name other := by
    rw [← List.mem_cons, ← whole, mem_closure_iff leads,
      ← Relation.reflTransGen_iff_eq_or_transGen]
    simp
  rw [whole, List.drop_one, List.tail_cons]
  have absent : name ∉ others := (List.nodup_cons.mp distinct).1
  constructor
  · intro member
    have different : other ≠ name := fun same => absent (same ▸ member)
    rcases reached.mp (Or.inr member) with same | path
    · exact absurd same different
    · exact ⟨different, path⟩
  · rintro ⟨different, path⟩
    exact (reached.mpr (Or.inr path)).resolve_left different

/-! ## Subtypes -/

/-- The subtypes of all levels are reached by steps from the type. -/
theorem mem_allSubTypes_iff
    {store : Store}
    {name other : TypeName} :
    other ∈ store.allSubTypes name ↔
      other ≠ name ∧ Relation.TransGen (Leads store.subTypes) name other :=
  mem_drop_closure_iff fun _ _ listed =>
    (mem_subTypes_iff.mp listed).mem_names

/-- Only types with a node are found below another one. -/
theorem Mirrored.isSome_node?_of_transGen
    {decls : List ClassDecl}
    {store : Store}
    (mirrored : Mirrored decls store)
    {name other : TypeName}
    (path : Relation.TransGen (Leads store.subTypes) name other) :
    (store.node? other).isSome := by
  rcases path with listed | ⟨-, listed⟩
  · exact mirrored.isSome_node? (Or.inl listed)
  · exact mirrored.isSome_node? (Or.inl listed)

/-! ## Supertypes -/

/--
The node of a type, which may be a placeholder, names another type as its
superclass or as one of its interfaces.
-/
def NamesSupertype
    (store : Store)
    (lower upper : TypeName) :
    Prop :=
  ∃ node,
    store.node? lower = some node ∧
      ∃ reference : Reference,
        (node.lineage.parent = some reference ∨
          reference ∈ node.lineage.interfaces) ∧
          reference.name = upper

/-- The supertypes of a type are those that its node names. -/
theorem mem_supertypes_iff
    {store : Store}
    {lower upper : TypeName} :
    upper ∈ store.supertypes lower ↔ store.NamesSupertype lower upper := by
  cases installed : store.node? lower with
  | none =>
      simp [supertypes, NamesSupertype, installed]
  | some node =>
      simp [supertypes, NamesSupertype, installed, or_and_right, exists_or]

/-- A type is an instance of itself and of all that its supertypes lead up to. -/
theorem isInstanceOf_iff_namesSupertype
    {store : Store}
    {name target : TypeName} :
    store.isInstanceOf name target = true ↔
      Relation.ReflTransGen store.NamesSupertype name target := by
  have same : Leads store.supertypes = store.NamesSupertype := by
    funext lower upper
    exact propext mem_supertypes_iff
  rw [isInstanceOf_iff, same]

/-! ## Annotations -/

/-- A type carries an annotation of a type. -/
def Carries
    (store : Store)
    (carrier type : TypeName) :
    Prop :=
  ∃ use ∈ store.elementUses (.type carrier), use.type = ⟨type, true⟩

/--
A type carries an annotation, or an annotation type that carries it in one of
these two ways.
-/
inductive CarriesThrough
    (store : Store)
    (type : TypeName) :
    TypeName → Prop where
  | directly
      {carrier : TypeName}
      (carries : store.Carries carrier type) :
      CarriesThrough store type carrier
  | through
      {carrier middle : TypeName}
      (onward : CarriesThrough store type middle)
      (isAnnotationType : store.isAnnotationType middle = true)
      (carries : store.Carries carrier middle) :
      CarriesThrough store type carrier

/-- The annotated types of an annotation are those that carry it. -/
theorem Indexed.mem_annotatedTypes_iff
    {store : Store}
    (indexed : store.Indexed)
    {carrier type : TypeName} :
    carrier ∈ store.annotatedTypes type ↔ store.Carries carrier type := by
  have listed :
      carrier ∈ store.annotatedTypes type ↔
        Element.type carrier ∈ store.annotatedElements type := by
    simp only [annotatedTypes, List.mem_filterMap]
    constructor
    · rintro ⟨element, member, named⟩
      cases element with
      | type name =>
          obtain rfl : name = carrier := by
            simpa [Element.typeName?] using named
          exact member
      | field | method | parameter =>
          simp [Element.typeName?] at named
    · intro member
      exact ⟨_, member, rfl⟩
  rw [listed, mem_annotatedElements_iff, indexed.annotated]
  rfl

theorem mem_names_of_mem_annotatedTypes
    {store : Store}
    {carrier type : TypeName}
    (member : carrier ∈ store.annotatedTypes type) :
    type ∈ store.names := by
  obtain ⟨element, listed, -⟩ := List.mem_filterMap.mp member
  exact (mem_annotatedElements_iff.mp listed).mem_names

/-- The steps of the search for the carriers of a type. -/
def carriersFrom
    (store : Store)
    (type carrier : TypeName) :
    List TypeName :=
  if carrier == type || store.isAnnotationType carrier then
    store.annotatedTypes carrier
  else
    []

/--
A search goes on from an annotation to its carriers, and from annotation types.
-/
theorem Indexed.mem_carriersFrom_iff
    {store : Store}
    (indexed : store.Indexed)
    {type middle carrier : TypeName} :
    carrier ∈ store.carriersFrom type middle ↔
      (middle = type ∨ store.isAnnotationType middle = true) ∧
        store.Carries carrier middle := by
  simp only [carriersFrom, Bool.or_eq_true, beq_iff_eq]
  split
  · next leads =>
      rw [indexed.mem_annotatedTypes_iff]
      exact (and_iff_right leads).symm
  · next ends =>
      simp [ends]

/-- One or more steps of the search lead to the types that carry the type. -/
theorem Indexed.transGen_carriersFrom_iff
    {store : Store}
    (indexed : store.Indexed)
    {type carrier : TypeName} :
    Relation.TransGen (Leads (store.carriersFrom type)) type carrier ↔
      store.CarriesThrough type carrier := by
  constructor
  · intro path
    induction path with
    | single step =>
        exact .directly (indexed.mem_carriersFrom_iff.mp step).2
    | tail _ step inductionHypothesis =>
        -- A path that comes back to the type may as well begin there.
        obtain ⟨rfl | isAnnotationType, carries⟩ :=
          indexed.mem_carriersFrom_iff.mp step
        · exact .directly carries
        · exact .through inductionHypothesis isAnnotationType carries
  · intro through
    induction through with
    | directly carries =>
        exact .single
          (indexed.mem_carriersFrom_iff.mpr ⟨Or.inl rfl, carries⟩)
    | through _ isAnnotationType carries inductionHypothesis =>
        exact .tail inductionHypothesis
          (indexed.mem_carriersFrom_iff.mpr ⟨Or.inr isAnnotationType, carries⟩)

/-- The types given for an annotation, itself and annotation types left out. -/
theorem Indexed.mem_allAnnotatedTypes_iff
    {store : Store}
    (indexed : store.Indexed)
    {type carrier : TypeName} :
    carrier ∈ store.allAnnotatedTypes type ↔
      carrier ≠ type ∧
        store.isAnnotationType carrier = false ∧
        store.CarriesThrough type carrier := by
  have leads :
      ∀ a b, b ∈ store.carriersFrom type a → a ∈ store.names := by
    intro middle other step
    simp only [carriersFrom] at step
    split at step
    · exact mem_names_of_mem_annotatedTypes step
    · simp at step
  let reached := (store.closure (store.carriersFrom type) [type]).drop 1
  have found :
      carrier ∈ reached ↔
        carrier ≠ type ∧ store.CarriesThrough type carrier := by
    rw [← indexed.transGen_carriersFrom_iff]
    exact mem_drop_closure_iff leads
  have filtered :
      carrier ∈ store.allAnnotatedTypes type ↔
        carrier ∈ reached ∧ store.isAnnotationType carrier = false := by
    rw [← Bool.not_eq_true']
    exact List.mem_filter
  rw [filtered, found, and_assoc, and_comm (b := _ = false)]

/-- No annotated type is listed twice. -/
theorem nodup_allAnnotatedTypes
    (store : Store)
    (type : TypeName) :
    (store.allAnnotatedTypes type).Nodup :=
  (store.nodup_drop_closure _ type).filter _

end Store

namespace Session

/--
Whatever was done before, a search gives exactly what the edges lead to. Below
a type stand the other types with nodes that one or more steps through the
lists of subtypes lead to, each once. A type is an instance of itself and of
every name that the supertypes of nodes lead to, placeholders included, whether
the last name has a node or not. For an annotation type the types that are not
annotation types are given, each once, that carry it, or carry an annotation
type that carries it, and so on.
-/
theorem traversals_exact
    (acts : List Act) :
    let store := (Session.run {} acts).atlas.store
    (∀ name,
      (store.allSubTypes name).Nodup ∧
        ∀ other,
          (other ∈ store.allSubTypes name ↔
            other ≠ name ∧
              Relation.TransGen (Leads store.subTypes) name other) ∧
            (other ∈ store.allSubTypes name →
              (store.node? other).isSome)) ∧
      (∀ name target,
        store.isInstanceOf name target = true ↔
          Relation.ReflTransGen store.NamesSupertype name target) ∧
      ∀ type, store.isAnnotationType type = true →
        (store.allAnnotatedTypes type).Nodup ∧
          ∀ carrier,
            carrier ∈ store.allAnnotatedTypes type ↔
              store.isAnnotationType carrier = false ∧
                store.CarriesThrough type carrier := by
  intro store
  have indexed : store.Indexed := store_indexed acts
  have mirrored := store_mirrored acts
  refine ⟨fun name => ⟨store.nodup_drop_closure _ name, fun other => ?_⟩,
    fun name target => Store.isInstanceOf_iff_namesSupertype,
    fun type isAnnotationType => ⟨store.nodup_allAnnotatedTypes type,
      fun carrier => ?_⟩⟩
  · refine ⟨Store.mem_allSubTypes_iff, fun member => ?_⟩
    exact mirrored.isSome_node?_of_transGen (Store.mem_allSubTypes_iff.mp member).2
  · rw [indexed.mem_allAnnotatedTypes_iff]
    constructor
    · exact And.right
    · rintro ⟨plain, through⟩
      refine ⟨?_, plain, through⟩
      rintro rfl
      simp [isAnnotationType] at plain

/--
Two interfaces that extend each other, two annotation types that carry each
other, and a class that carries one of them and implements one of the others.
-/
def mutualTypes : List Act :=
  [.visit none true,
    .accept 0
      { access := 0x601
        name := "c.One"
        interfaces := ["c.Other"] },
    .accept 0
      { access := 0x601
        name := "c.Other"
        interfaces := ["c.One"] },
    .accept 0
      { access := 0x2601
        name := "c.Mark"
        annotations := [{ descriptor := "Lc/Meta;" }] },
    .accept 0
      { access := 0x2601
        name := "c.Meta"
        annotations := [{ descriptor := "Lc/Mark;" }] },
    .accept 0
      { access := 0x1
        name := "c.Impl"
        interfaces := ["c.One"]
        annotations := [{ descriptor := "Lc/Mark;" }] }]

theorem traversals_exact_mutualTypes :
    let store := (Session.run {} mutualTypes).atlas.store
    store.isAnnotationType "c.Meta" = true ∧
      store.allAnnotatedTypes "c.Meta" = ["c.Impl"] ∧
      store.CarriesThrough "c.Meta" "c.Impl" ∧
      store.allSubTypes "c.One" = ["c.Other"] ∧
      Relation.TransGen (Leads store.subTypes) "c.One" "c.Other" ∧
      Relation.ReflTransGen store.NamesSupertype "c.Impl" "c.Other" := by
  intro store
  obtain ⟨below, instances, annotated⟩ := traversals_exact mutualTypes
  have isAnnotationType : store.isAnnotationType "c.Meta" = true := by
    decide +kernel
  have carriers : store.allAnnotatedTypes "c.Meta" = ["c.Impl"] := by
    decide +kernel
  have subTypes : store.allSubTypes "c.One" = ["c.Other"] := by
    decide +kernel
  have inherits : store.isInstanceOf "c.Impl" "c.Other" = true := by
    decide +kernel
  have listed : "c.Impl" ∈ store.allAnnotatedTypes "c.Meta" := by
    simp [carriers]
  have found : "c.Other" ∈ store.allSubTypes "c.One" := by
    simp [subTypes]
  exact ⟨isAnnotationType, carriers,
    (((annotated "c.Meta" isAnnotationType).2 "c.Impl").mp listed).2,
    subTypes, (((below "c.One").2 "c.Other").1.mp found).2,
    (instances "c.Impl" "c.Other").mp inherits⟩

end Session

end TypeAtlas
