import TypeAtlas.Proofs.Entering.Merging
import TypeAtlas.Proofs.Query.Catalog
import TypeAtlas.Proofs.Query.Traversal

namespace TypeAtlas

/-!
# What the command for annotated types prints

Asked for the types that carry an annotation by way of others too, a run prints
them only if the annotation type itself was entered. Otherwise it prints the
types that carry the annotation directly, annotation types among them. The two
are the same exactly if no annotation type carries it. Declaring the annotation
type with nothing in it brings the full answer about.
-/

/-! ## Sorted names -/

theorem sublist_eraseDups
    [BEq α]
    [LawfulBEq α]
    (items : List α) :
    items.eraseDups.Sublist items := by
  cases items with
  | nil =>
      exact .slnil
  | cons item items =>
      rw [List.eraseDups_cons]
      exact ((sublist_eraseDups _).trans List.filter_sublist).cons_cons item
termination_by items.length
decreasing_by
  exact Nat.lt_succ_of_le (List.length_filter_le _ _)

namespace Store

theorem mem_sortedNames_iff
    {names : List TypeName}
    {name : TypeName} :
    name ∈ sortedNames names ↔ name ∈ names := by
  rw [sortedNames, List.mem_eraseDups]
  exact (List.mergeSort_perm names _).mem_iff

/-- Names are sorted, and each is given once. -/
theorem pairwise_sortedNames
    (names : List TypeName) :
    (sortedNames names).Pairwise (· < ·) := by
  let before : TypeName → TypeName → Bool := fun a b => decide (a ≤ b)
  have sorted :
      (names.mergeSort before).Pairwise (fun a b => before a b = true) := by
    refine List.pairwise_mergeSort ?_ ?_ names
    · intro a b c first second
      simp only [before, decide_eq_true_eq] at first second ⊢
      exact String.le_trans first second
    · intro a b
      simpa [before] using String.le_total a b
  have ordered := sorted.sublist (sublist_eraseDups _)
  refine (ordered.and (nodup_eraseDups _)).imp fun {a b} both => ?_
  have below : a ≤ b := by
    simpa [before] using both.1
  by_contra above
  exact both.2 (String.le_antisymm below (String.not_lt.mp above))

/-! ## Types to be given -/

/--
A type that is no annotation type carries an annotation, directly or through
annotation types.
-/
def Marked
    (store : Store)
    (type carrier : TypeName) :
    Prop :=
  store.isAnnotationType carrier = false ∧ store.CarriesThrough type carrier

theorem Indexed.isVisited_of_carries
    {store : Store}
    (indexed : store.Indexed)
    {carrier type : TypeName}
    (carries : store.Carries carrier type) :
    store.isVisited carrier = true := by
  obtain ⟨use, carried, -⟩ := carries
  exact indexed.visited carrier use carried

theorem Indexed.isVisited_of_carriesThrough
    {store : Store}
    (indexed : store.Indexed)
    {carrier type : TypeName}
    (through : store.CarriesThrough type carrier) :
    store.isVisited carrier = true := by
  cases through with
  | directly carries =>
      exact indexed.isVisited_of_carries carries
  | through _ _ carries =>
      exact indexed.isVisited_of_carries carries

/-- Direct carriers are all there is if no annotation type is among them. -/
theorem marked_iff_carries
    {store : Store}
    {type : TypeName} :
    (∀ carrier, store.Carries carrier type ↔ store.Marked type carrier) ↔
      ∀ carrier, store.Carries carrier type →
        store.isAnnotationType carrier = false := by
  constructor
  · intro same carrier carries
    exact ((same carrier).mp carries).1
  · intro plain carrier
    constructor
    · intro carries
      exact ⟨plain carrier carries, .directly carries⟩
    · rintro ⟨-, through⟩
      -- No way leads through an annotation type, since none carries the type.
      induction through with
      | directly carries =>
          exact carries
      | through _ isAnnotationType _ inductionHypothesis =>
          have none := plain _ inductionHypothesis
          rw [isAnnotationType] at none
          simp at none

end Store

/-! ## Declaring the annotation type -/

/-- An annotation type that carries nothing and has no members. -/
structure ClassDecl.IsBareAnnotation (decl : ClassDecl) : Prop where
  category : decl.category = .annotationType
  annotations : decl.annotations = []
  fields : decl.fields = []
  methods : decl.methods = []

namespace Visit

/-- All that the entering of a bare annotation type does is to open it. -/
theorem accept_bareAnnotation
    {visit : Visit}
    {atlas : Atlas}
    {decl : ClassDecl}
    (bare : decl.IsBareAnnotation)
    (accepted : (visit.accept atlas decl).1.isSome) :
    (visit.accept atlas decl).2.store =
        atlas.store.replay (visit.opening decl) ∧
      (atlas.store.replay (visit.opening decl)).Entered decl := by
  have tracked : decl.name ≠ TypeName.root := by
    intro isRoot
    simp [accept, isRoot] at accepted
  rw [accept_eq, if_neg tracked] at accepted ⊢
  rcases header_cases visit atlas decl with
    ⟨problem, refused⟩ | ⟨-, -, problem, refused⟩ | ⟨-, claimed, opened⟩
  · simp [refused] at accepted
  · simp [refused] at accepted
  · refine ⟨?_, entered_opening visit claimed⟩
    simp [opened, enterBody, bare.annotations, bare.fields, bare.methods,
      settleAll, settle, finish, headed, openMembers?, linkHeader,
      bare.category, Category.isExtensible]

/-- The opening of a visit changes no annotations. -/
theorem carries_opening
    (visit : Visit)
    (decl : ClassDecl)
    (store : Store)
    {carrier type : TypeName} :
    (store.replay (visit.opening decl)).Carries carrier type ↔
      store.Carries carrier type := by
  have same :
      (store.replay (visit.opening decl)).elementUses (.type carrier) =
        store.elementUses (.type carrier) := by
    by_cases own : carrier = decl.name
    · rw [own, Store.elementUses, node?_opening, noteOrigin_eq]
      cases known : store.node? decl.name with
      | none =>
          simp [Store.elementUses, known, Node.ofCategory]
      | some node =>
          simp [Store.elementUses, known]
    · have other :
          (store.replay (visit.opening decl)).node? carrier =
            store.node? carrier := by
        rw [Store.node?_replay (by simp) (grounded_opening visit decl)]
        exact nodeAfter_opening_other visit own _
      simp only [Store.elementUses, other]
  unfold Store.Carries
  rw [same]

end Visit

namespace Store

/-- A bare annotation type is one afterwards, and all others are as before. -/
theorem isAnnotationType_opening
    (visit : Visit)
    {decl : ClassDecl}
    (bare : decl.IsBareAnnotation)
    {store : Store}
    (entered : (store.replay (visit.opening decl)).Entered decl)
    (wellFormed : (store.replay (visit.opening decl)).WellFormed)
    (name : TypeName) :
    (store.replay (visit.opening decl)).isAnnotationType name =
      (name == decl.name || store.isAnnotationType name) := by
  by_cases own : name = decl.name
  · obtain ⟨node, -, installed, category⟩ := entered
    have body := wellFormed.isExtensible_node installed
    rw [category, bare.category] at body
    simp [own, isAnnotationType, installed, body, Category.isExtensible]
  · have other :
        (store.replay (visit.opening decl)).node? name = store.node? name := by
      rw [node?_replay (by simp) (Visit.grounded_opening visit decl)]
      exact Visit.nodeAfter_opening_other visit own _
    simp [isAnnotationType, other, own]

/-- Declaring the annotation type itself marks no other types than before. -/
theorem marked_opening
    (visit : Visit)
    {decl : ClassDecl}
    (bare : decl.IsBareAnnotation)
    {store : Store}
    (indexed : store.Indexed)
    (unvisited : store.isVisited decl.name = false)
    (entered : (store.replay (visit.opening decl)).Entered decl)
    (wellFormed : (store.replay (visit.opening decl)).WellFormed)
    {carrier : TypeName} :
    (store.replay (visit.opening decl)).Marked decl.name carrier ↔
      store.Marked decl.name carrier := by
  have kind := isAnnotationType_opening visit bare entered wellFormed
  have carries {carrier type : TypeName} :
      (store.replay (visit.opening decl)).Carries carrier type ↔
        store.Carries carrier type :=
    visit.carries_opening decl store
  constructor
  · rintro ⟨plain, through⟩
    rw [kind, Bool.or_eq_false_iff] at plain
    refine ⟨plain.2, ?_⟩
    clear plain
    induction through with
    | directly direct =>
        exact .directly (carries.mp direct)
    | @through carrier middle _ isAnnotationType direct inductionHypothesis =>
        -- A way through the type itself may as well begin there.
        by_cases own : middle = decl.name
        · subst own
          exact .directly (carries.mp direct)
        · refine .through inductionHypothesis ?_ (carries.mp direct)
          simpa [kind, own] using isAnnotationType
  · rintro ⟨plain, through⟩
    have other : carrier ≠ decl.name := by
      rintro rfl
      simp [indexed.isVisited_of_carriesThrough through] at unvisited
    refine ⟨by simp [kind, other, plain], ?_⟩
    clear plain other
    induction through with
    | directly direct =>
        exact .directly (carries.mpr direct)
    | through _ isAnnotationType direct inductionHypothesis =>
        exact .through inductionHypothesis (by simp [kind, isAnnotationType])
          (carries.mpr direct)

end Store

/-! ## Runs -/

namespace CommandLine

/-- The names that the command gives, which depend on what was entered. -/
def carriersGiven
    (store : Store)
    (type : TypeName) :
    List TypeName :=
  Store.sortedNames
    (if store.isVisited type then
      store.allAnnotatedTypes type
    else
      store.annotatedTypes type)

/-- The command is always answered. -/
theorem answer_annotated
    {atlas : Atlas}
    (wellFormed : atlas.store.WellFormed)
    (tally : Tally)
    (type : TypeName) :
    Command.answer atlas tally (.annotated type true) =
      .ok (carriersGiven atlas.store type) := by
  have known :
      (atlas.store.visitedNode? type).isSome =
        atlas.store.isVisited type := by
    rw [Bool.eq_iff_iff, wellFormed.isVisited_iff, Option.isSome_iff_exists]
  simp only [Command.answer, known, Bool.true_and, nameLines, carriersGiven]
  split <;> rfl

theorem mem_carriersGiven_of_visited
    {store : Store}
    (indexed : store.Indexed)
    {type carrier : TypeName}
    (visited : store.isVisited type = true) :
    carrier ∈ carriersGiven store type ↔
      carrier ≠ type ∧ store.Marked type carrier := by
  rw [carriersGiven, Store.mem_sortedNames_iff, if_pos visited,
    indexed.mem_allAnnotatedTypes_iff]
  rfl

theorem mem_carriersGiven_of_unvisited
    {store : Store}
    (indexed : store.Indexed)
    {type carrier : TypeName}
    (unvisited : store.isVisited type = false) :
    carrier ∈ carriersGiven store type ↔ store.Carries carrier type := by
  rw [carriersGiven, Store.mem_sortedNames_iff, if_neg (by simp [unvisited]),
    indexed.mem_annotatedTypes_iff]

/-- Once the annotation type is declared, the marked types are given. -/
theorem mem_carriersGiven_opening
    (visit : Visit)
    {decl : ClassDecl}
    (bare : decl.IsBareAnnotation)
    {store : Store}
    (indexed : store.Indexed)
    (unvisited : store.isVisited decl.name = false)
    (entered : (store.replay (visit.opening decl)).Entered decl)
    (wellFormed : (store.replay (visit.opening decl)).WellFormed)
    (laterIndexed : (store.replay (visit.opening decl)).Indexed)
    {carrier : TypeName} :
    carrier ∈ carriersGiven (store.replay (visit.opening decl)) decl.name ↔
      store.Marked decl.name carrier := by
  have marked :
      (store.replay (visit.opening decl)).Marked decl.name carrier ↔
        store.Marked decl.name carrier :=
    Store.marked_opening visit bare indexed unvisited entered wellFormed
  obtain ⟨node, visited, -⟩ := entered
  rw [mem_carriersGiven_of_visited laterIndexed visited, marked]
  constructor
  · exact And.right
  · intro given
    refine ⟨?_, given⟩
    rintro rfl
    simp [indexed.isVisited_of_carriesThrough given.2] at unvisited

/--
A run that is asked for the types with an annotation, directly or not, prints
names in order and each once. If the annotation type was entered, these are the
types that carry it in one way or the other and are no annotation types. If it
was not, they are the types that carry it directly, whatever they are, and
these are the right ones exactly if no annotation type is among them. The same
command is answered with the right ones once a bare declaration of the
annotation type is entered on top.
-/
theorem Invocation.annotated_printed
    {invocation : Invocation}
    {tree : FileTree}
    {type : TypeName}
    (asked : invocation.command = .annotated type true)
    {atlas : Atlas}
    {tally : Tally}
    (gathered : invocation.gather tree = .ok (atlas, tally)) :
    ∃ lines,
      invocation.run tree = .ok (Report.text lines) ∧
        lines.Pairwise (· < ·) ∧
        (atlas.store.isVisited type = true →
          ∀ carrier,
            carrier ∈ lines ↔
              carrier ≠ type ∧ atlas.store.Marked type carrier) ∧
        (atlas.store.isVisited type = false →
          (∀ carrier,
            carrier ∈ lines ↔ atlas.store.Carries carrier type) ∧
          ((∀ carrier,
            carrier ∈ lines ↔ atlas.store.Marked type carrier) ↔
              ∀ carrier, atlas.store.Carries carrier type →
                atlas.store.isAnnotationType carrier = false) ∧
          ∀ decl location isApplication,
            decl.IsBareAnnotation → decl.name = type →
            (atlas.enter decl location isApplication).1.isSome →
            ∃ later,
              invocation.command.answer
                  (atlas.enter decl location isApplication).2 tally =
                .ok later ∧
              later.Pairwise (· < ·) ∧
              ∀ carrier,
                carrier ∈ later ↔ atlas.store.Marked type carrier) := by
  obtain ⟨acts, rfl⟩ := exists_acts_of_gather gathered
  have indexed := Session.store_indexed acts
  have answered :=
    answer_annotated (Session.store_wellFormed acts) tally type
  refine ⟨carriersGiven (Session.run {} acts).atlas.store type, ?_,
    Store.pairwise_sortedNames _,
    fun visited carrier => mem_carriersGiven_of_visited indexed visited,
    fun unvisited => ⟨?_, ?_, ?_⟩⟩
  · rw [run_eq, gathered, asked]
    simp only [Except.bind, answered, Except.map]
  · exact fun carrier => mem_carriersGiven_of_unvisited indexed unvisited
  · simp only [mem_carriersGiven_of_unvisited indexed unvisited]
    exact Store.marked_iff_carries
  · rintro decl location isApplication bare rfl accepted
    -- The atlas with the declaration on top comes out of a session as well.
    obtain ⟨further, reached⟩ :=
      Atlas.leadsTo_enter (Session.run {} acts).atlas decl location
        isApplication (Session.run {} acts).visits
    have whole :
        (Session.run {} (acts ++ further)).atlas =
          ((Session.run {} acts).atlas.enter decl location
            isApplication).2 := by
      rw [Session.run_append]
      exact reached
    have laterFormed := Session.store_wellFormed (acts ++ further)
    have laterIndexed := Session.store_indexed (acts ++ further)
    rw [whole] at laterFormed laterIndexed
    obtain ⟨same, entered⟩ := Visit.accept_bareAnnotation bare accepted
    have later := answer_annotated laterFormed tally decl.name
    rw [← asked] at later
    refine ⟨_, later, Store.pairwise_sortedNames _, fun carrier => ?_⟩
    rw [Atlas.enter, same] at laterFormed laterIndexed ⊢
    exact mem_carriersGiven_opening _ bare indexed unvisited entered
      laterFormed laterIndexed

namespace Invocation

/-- A class that carries an annotation type, which carries another one. -/
def carryingFiles : List (List String × FileContent) :=
  [(["in", "c", "Mark.class"],
      .bytes (ClassFile.encode
        { access := 0x2601
          name := "c.Mark"
          annotations := [{ descriptor := "Lc/Meta;" }] })),
    (["in", "c", "Impl.class"],
      .bytes (ClassFile.encode
        { access := 0x1
          name := "c.Impl"
          annotations := [{ descriptor := "Lc/Mark;" }] }))]

/-- The declaration of the other annotation type. -/
def metaFile : List String × FileContent :=
  (["in", "c", "Meta.class"],
    .bytes (ClassFile.encode { access := 0x2601, name := "c.Meta" }))

/-- The question for all types that carry the other annotation type. -/
def askingForMeta : Invocation :=
  { options := {}
    paths := ["/in"]
    command := .annotated "c.Meta" true }

/-- The annotation type is printed in the place of the class that carries it. -/
theorem annotated_printed_askingForMeta :
    ∃ atlas tally lines,
      askingForMeta.gather { files := carryingFiles } = .ok (atlas, tally) ∧
        atlas.store.isVisited "c.Meta" = false ∧
        askingForMeta.run { files := carryingFiles } =
          .ok (Report.text lines) ∧
        Report.text lines = "c.Mark\n" ∧
        ∀ carrier,
          carrier ∈ lines ↔ atlas.store.Carries carrier "c.Meta" := by
  have printed :
      askingForMeta.run { files := carryingFiles } = .ok "c.Mark\n" := by
    decide +kernel
  have absent :
      (askingForMeta.gather { files := carryingFiles }).toOption.map
          (·.1.store.isVisited "c.Meta") =
        some false := by
    decide +kernel
  obtain ⟨atlas, tally, -, gathered, -⟩ := gather_of_run_eq_ok printed
  have unvisited : atlas.store.isVisited "c.Meta" = false := by
    simpa [gathered, Except.toOption] using absent
  obtain ⟨lines, ran, -, -, direct⟩ := annotated_printed rfl gathered
  have same : Report.text lines = "c.Mark\n" := by
    simpa [printed, eq_comm] using ran
  exact ⟨atlas, tally, lines, gathered, unvisited, ran, same,
    (direct unvisited).1⟩

/-- The answer is another one once the annotation type is declared. -/
theorem annotated_askingForMeta_differs :
    askingForMeta.run { files := carryingFiles } = .ok "c.Mark\n" ∧
      askingForMeta.run { files := metaFile :: carryingFiles } =
        .ok "c.Impl\n" := by
  constructor <;> decide +kernel

end Invocation

end CommandLine

end TypeAtlas
