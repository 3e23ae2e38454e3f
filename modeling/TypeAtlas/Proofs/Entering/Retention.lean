import Mathlib.Data.List.Forall2
import TypeAtlas.Proofs.Entering.AnnotationValues
import TypeAtlas.Proofs.Entering.MemberModels
import TypeAtlas.Proofs.Entering.Populating
import TypeAtlas.Proofs.Entering.SettingsEffect

namespace TypeAtlas

/-!
# Which members are kept

The first declaration of a type that is accepted gives it its members. They are
the members of the declaration that are kept, in order, if the settings look
into the type at all. An annotation type has no fields, but the defaults of its
elements, and these do not hang on the settings.
-/

/-! ## What a declaration retains -/

namespace Settings

/-- Whether an annotation on a type opens the way to its members. -/
def looksAt
    (settings : Settings)
    (decl : AnnotationDecl) :
    Bool :=
  settings.isOfInterest
    (Origin.annotationType decl.descriptor).reference.name

/--
Whether the members of a declared type are entered: always, or if one of its
annotations is of interest.
-/
def looksInto
    (settings : Settings)
    (decl : ClassDecl) :
    Bool :=
  settings.alwaysDeep || decl.annotations.any settings.looksAt

end Settings

namespace ClassDecl

def retainedFields
    (settings : Settings)
    (decl : ClassDecl) :
    List FieldDecl :=
  decl.fields.filter fun field =>
    settings.looksInto decl && field.isRetained settings

def retainedMethods
    (settings : Settings)
    (decl : ClassDecl) :
    List MethodDecl :=
  decl.methods.filter fun method =>
    settings.looksInto decl && method.isRetained settings

end ClassDecl

/-- The default of an element, under its name. -/
def MethodDecl.namedDefault (decl : MethodDecl) : Values :=
  if decl.isSynthetic || decl.isInitializer then
    []
  else
    (decl.default.map fun value => (decl.name, value.alone)).toList

/-- The defaults of all elements in order, also of those of one name. -/
def ClassDecl.namedDefaults (decl : ClassDecl) : Values :=
  decl.methods.flatMap (·.namedDefault)

/-- The members of a node are those that its declaration retains. -/
structure Node.Retains
    (settings : Settings)
    (decl : ClassDecl)
    (node : Node) :
    Prop where
  category : node.category = decl.category
  fields :
    decl.category ≠ .annotationType →
      ∀ isStatic,
        List.Forall₂ (Field.Models node.lineage.formals)
          ((decl.retainedFields settings).filter (·.isStatic == isStatic))
          (node.fieldsOf isStatic)
  methods :
    List.Forall₂ (Method.Models node.lineage.formals)
      (decl.retainedMethods settings) node.methods
  fieldless :
    decl.category = .annotationType → ∀ isStatic, node.fieldsOf isStatic = []
  /-- Of several defaults of one name, the first one counts. -/
  defaults :
    decl.category = .annotationType →
      ∀ name, node.defaults.lookup name = decl.namedDefaults.lookup name
  defaultNames :
    decl.category = .annotationType →
      node.defaults.map Prod.fst =
        (decl.namedDefaults.map Prod.fst).eraseDups

/-! ## Adopting members -/

/-- Values of one name. -/
def sameName (one other : String × Value) : Bool :=
  one.1 == other.1

namespace Values

/-- The first value of a name is the one that is inserted. -/
theorem insertNew_eq
    (values : Values)
    (key : String)
    (value : Value) :
    values.insertNew key value = addNew sameName values [(key, value)] := by
  have known :
      (values.lookup key).isSome = values.any (sameName (key, value)) := by
    induction values with
    | nil =>
        rfl
    | cons pair values inductionHypothesis =>
        obtain ⟨name, other⟩ := pair
        rw [List.lookup_cons, List.any_cons, ← inductionHypothesis, sameName]
        cases key == name <;> rfl
  rw [insertNew, known]
  rfl

/-- What is under a name already stays, and of what is added the first. -/
theorem lookup_addNew
    (values added : Values)
    (name : String) :
    (addNew sameName values added).lookup name =
      (values.lookup name).or (added.lookup name) := by
  induction added generalizing values with
  | nil =>
      simp [addNew]
  | cons pair added inductionHypothesis =>
      obtain ⟨key, value⟩ := pair
      have first : addNew sameName values ((key, value) :: added) =
          addNew sameName (values.insertNew key value) added := by
        rw [insertNew_eq]
        rfl
      rw [first, inductionHypothesis, insertNew, List.lookup_cons]
      by_cases here : name = key
      · subst here
        cases found : values.lookup name <;> simp [found, List.lookup_append]
      · have skipped : (name == key) = false := by simpa using here
        split
        · simp [skipped]
        · simp [List.lookup_append, List.lookup_cons, skipped]

end Values

/--
A node adopts members: those drafts, wherever they have their places, and
defaults under names that are not taken yet.
-/
structure Node.Adopts
    (fields : List Field)
    (methods : List Method)
    (defaults : Values)
    (node after : Node) :
    Prop where
  category : after.category = node.category
  kind : after.isExtensible = node.isExtensible
  formals : after.lineage.formals = node.lineage.formals
  fields :
    ∀ isStatic element,
      (after.fieldsOf isStatic).map (Field.onto element) =
        (node.fieldsOf isStatic ++
          fields.filter (·.isStatic == isStatic)).map (Field.onto element)
  methods :
    ∀ element,
      after.methods.map (Method.onto element) =
        (node.methods ++ methods).map (Method.onto element)
  defaults : after.defaults = addNew sameName node.defaults defaults

namespace Node.Adopts

theorem refl
    (node : Node) :
    Adopts [] [] [] node node :=
  ⟨rfl, rfl, rfl, by simp, by simp, rfl⟩

theorem trans
    {fields moreFields : List Field}
    {methods moreMethods : List Method}
    {defaults moreDefaults : Values}
    {node middle after : Node}
    (earlier : Adopts fields methods defaults node middle)
    (later : Adopts moreFields moreMethods moreDefaults middle after) :
    Adopts (fields ++ moreFields) (methods ++ moreMethods)
      (defaults ++ moreDefaults) node after := by
  refine ⟨later.category.trans earlier.category,
    later.kind.trans earlier.kind, later.formals.trans earlier.formals,
    fun isStatic element => ?_, fun element => ?_, ?_⟩
  · rw [later.fields, List.map_append, earlier.fields]
    simp
  · rw [later.methods, List.map_append, earlier.methods]
    simp
  · rw [later.defaults, earlier.defaults, addNew, addNew, addNew,
      List.foldl_append]

/-- The places of members do not count. -/
theorem of_fields
    {fields drafts : List Field}
    {methods : List Method}
    {defaults : Values}
    {node after : Node}
    (adopts : Adopts fields methods defaults node after)
    (same :
      ∀ element,
        fields.map (Field.onto element) = drafts.map (Field.onto element)) :
    Adopts drafts methods defaults node after := by
  refine { adopts with fields := fun isStatic element => ?_ }
  have placeless :
      ∀ members : List Field,
        (members.filter (·.isStatic == isStatic)).map (Field.onto element) =
          (members.map (Field.onto element)).filter
            (·.isStatic == isStatic) := by
    intro members
    rw [List.filter_map]
    rfl
  rw [adopts.fields, List.map_append, List.map_append, placeless, placeless,
    same]

/-- Drafts are adopted wherever the methods have their places. -/
theorem of_methods
    {fields : List Field}
    {methods drafts : List Method}
    {defaults : Values}
    {node after : Node}
    (adopts : Adopts fields methods defaults node after)
    (same :
      ∀ element,
        methods.map (Method.onto element) =
          drafts.map (Method.onto element)) :
    Adopts fields drafts defaults node after := by
  refine { adopts with methods := fun element => ?_ }
  rw [adopts.methods, List.map_append, List.map_append, same]

/-- An annotation is no member. -/
theorem addUse
    (node : Node)
    (use : AnnotationUse) :
    Adopts [] [] [] node (node.addUse use) :=
  { refl node with }

/-- Methods are adopted behind those there were. -/
theorem addMethods
    (node : Node)
    (added : List Method) :
    Adopts [] added [] node (added.foldl Node.addMethod node) := by
  induction added generalizing node with
  | nil =>
      exact refl node
  | cons method added inductionHypothesis =>
      have first : Adopts [] [method] [] node (node.addMethod method) :=
        { refl node with methods := fun _ => rfl }
      exact first.trans (inductionHypothesis (node.addMethod method))

/-- A class or an interface adopts a field. -/
theorem addField
    {node : Node}
    (extensible : node.isExtensible = true)
    (field : Field) :
    Adopts [field] [] [] node (node.addField field) := by
  have fields := node.fieldsOf_addField field
  obtain ⟨_, _, _, _, _, body⟩ := node
  cases body with
  | annotationType defaults =>
      simp [Node.isExtensible] at extensible
  | extensible lineage =>
      refine ⟨rfl, rfl, ?_, fun isStatic element => ?_, by simp [Node.addField,
        Node.updateLineage], rfl⟩
      · simp only [Node.addField, Node.updateLineage, Node.lineage]
        split <;> rfl
      · rw [fields isStatic, extensible]
        simp [List.filter_cons]

/-- A class or an interface adopts fields in a row. -/
theorem addFields
    {node : Node}
    (extensible : node.isExtensible = true)
    (added : List Field) :
    Adopts added [] [] node (added.foldl Node.addField node) := by
  induction added generalizing node with
  | nil =>
      exact refl node
  | cons field added inductionHypothesis =>
      have first := addField extensible field
      exact first.trans
        (inductionHypothesis (first.kind.trans extensible))

/-- Of an annotation type's defaults the first of a name stays. -/
theorem addDefault
    {node : Node}
    (annotates : node.isExtensible = false)
    (name : String)
    (value : Value) :
    Adopts [] [] [(name, value)] node (node.addDefault name value) := by
  obtain ⟨_, _, _, _, _, body⟩ := node
  cases body with
  | annotationType defaults =>
      refine ⟨rfl, rfl, rfl, ?_, ?_, Values.insertNew_eq defaults name value⟩
      · simp [Node.addDefault, Node.fieldsOf, Node.lineage]
      · simp [Node.addDefault]
  | extensible lineage =>
      simp [Node.isExtensible] at annotates

end Node.Adopts

/-! ## Steps of a first visit -/

/-- A type that receives members has them one after another. -/
theorem Store.Receives.installed
    {owner : TypeName}
    {addition : α → Amendment}
    {added : List α}
    {before after : Store}
    (receives : Receives owner (added.map addition) before after)
    {node : Node}
    (here : before.node? owner = some node) :
    after.node? owner =
      some (added.foldl (fun node member => (addition member).apply node)
        node) := by
  rw [receives.node?_eq, if_pos rfl, here, Option.map_some, List.foldl_map]

namespace Visit

/-- A first visit that may enter members, and the node it has come to. -/
structure Opens
    (settings : Settings)
    (formals : Formals)
    (current : Current)
    (node : Node)
    (state : Visit × Atlas) :
    Prop where
  opened : state.1.openMembers? = some current
  ruled : state.2.settings = settings
  installed : state.2.store.node? current.name = some node
  first : current.merging = false
  formals : node.lineage.formals = formals
  kind : node.isExtensible = current.category.isExtensible

namespace Opens

variable
  {settings : Settings} {formals : Formals} {current : Current} {node : Node}

/-- A settled call leaves members open as the call did. -/
theorem settle
    {outcome : Outcome α}
    (opens :
      Opens settings formals current node (outcome.visit, outcome.atlas)) :
    Opens settings formals current node (Visit.settle outcome) := by
  unfold Visit.settle
  split <;> exact { opens with }

/-- The formals in scope are those the visit began with. -/
theorem formalsOf
    {state : Visit × Atlas}
    (opens : Opens settings formals current node state) :
    state.2.store.formalsOf current.name = formals := by
  rw [Store.formalsOf, opens.installed]
  exact opens.formals

/-- What is adopted does not change what is open. -/
theorem adopt
    {state later : Visit × Atlas}
    {fields : List Field}
    {methods : List Method}
    {defaults : Values}
    {after : Node}
    (opens : Opens settings formals current node state)
    (adopts : Node.Adopts fields methods defaults node after)
    (opened : later.1.openMembers? = some current)
    (ruled : later.2.settings = settings)
    (installed : later.2.store.node? current.name = some after) :
    Opens settings formals current after later :=
  ⟨opened, ruled, installed, opens.first, adopts.formals.trans opens.formals,
    adopts.kind.trans opens.kind⟩

end Opens

section Steps

variable
  {settings : Settings} {formals : Formals} {current : Current} {node : Node}
  {visit : Visit} {atlas : Atlas}

/-- The call that brings a field adds the drafts of it. -/
theorem field_adopts
    (opens : Opens settings formals current node (visit, atlas))
    (decl : FieldDecl) :
    ∃ after,
      Opens settings formals current after
          (settle (visit.field atlas decl)) ∧
        Node.Adopts (fieldDrafts settings formals current decl) [] []
          node after := by
  obtain ⟨moved, kept, added, same, receives⟩ :=
    field_obtains opens.opened atlas decl
  have ruled : atlas.settings = settings := opens.ruled
  have formalsHere := opens.formalsOf
  have installed := receives.installed opens.installed
  dsimp only at formalsHere
  rw [formalsHere, ruled] at same
  have adopts :
      Node.Adopts (fieldDrafts settings formals current decl) [] [] node
        (added.foldl Node.addField node) := by
    by_cases extensible : node.isExtensible = true
    · exact (Node.Adopts.addFields extensible added).of_fields same
    · -- An annotation type has no fields, so nothing was added.
      have drafts : fieldDrafts settings formals current decl = [] := by
        have annotates : current.category = .annotationType := by
          rw [← Category.isExtensible_eq_false_iff, ← opens.kind]
          simpa using extensible
        simp [fieldDrafts, annotates]
      rw [drafts] at same ⊢
      have nothing : added = [] := by simpa using same (.type "")
      rw [nothing]
      exact .refl node
  refine ⟨_, (opens.adopt adopts ?_ (kept.trans ruled) installed).settle,
    adopts⟩
  simp only [openMembers?, moved]

/-- The default that a step for a method records. -/
def defaultDrafts
    (current : Current)
    (decl : MethodDecl) :
    Values :=
  if current.category = .annotationType then decl.namedDefault else []

/-- The default of an element is recorded first. -/
theorem enterDefault_adopts
    (opens : Opens settings formals current node (visit, atlas))
    {decl : MethodDecl}
    (written : (decl.isSynthetic || decl.isInitializer) = false)
    (annotates : current.category = .annotationType) :
    ∃ middle,
      Opens settings formals current middle
          (visit, (atlas.file (Filing.enterDefault current.name decl)).2) ∧
        Node.Adopts [] [] decl.namedDefault node middle := by
  have kind : node.isExtensible = false := by
    rw [opens.kind, annotates]
    rfl
  unfold Filing.enterDefault MethodDecl.namedDefault
  rw [written]
  cases decl.default with
  | none =>
      exact ⟨node, opens, .refl node⟩
  | some value =>
      have noted := (Filing.takeValue_hinting none value).notes
      have adopts :=
        Node.Adopts.addDefault kind decl.name value.alone
      refine ⟨_, opens.adopt adopts opens.opened opens.ruled ?_, adopts⟩
      have here : atlas.store.node? current.name = some node :=
        opens.installed
      simp only [Atlas.file, StateT.run_bind, Filing.takeDefault,
        noted atlas.store]
      refine (Store.node?_updateNode _ _ _ _).trans ?_
      rw [if_pos rfl, Store.node?_replay_mentions, here]
      rfl

/-- Then the method is entered, if members are. -/
theorem keepMethod_adopts
    (opens : Opens settings formals current node (visit, atlas))
    {decl : MethodDecl}
    (written : (decl.isSynthetic || decl.isInitializer) = false) :
    ∃ after,
      Opens settings formals current after
          (settle (visit.keepMethod current.name current.deep decl atlas)) ∧
        Node.Adopts [] (methodDrafts settings formals current decl) []
          node after := by
  have entered :
      (current.merging || decl.isSynthetic || decl.isInitializer) =
        false := by
    rw [Bool.or_assoc, written, opens.first]
    rfl
  obtain ⟨moved, kept, added, same, receives⟩ :=
    keepMethod_obtains visit current atlas entered
  have ruled : atlas.settings = settings := opens.ruled
  have formalsHere := opens.formalsOf
  have installed := receives.installed opens.installed
  dsimp only at formalsHere
  rw [formalsHere, ruled] at same
  have adopts := (Node.Adopts.addMethods node added).of_methods same
  refine ⟨_, (opens.adopt adopts ?_ (kept.trans ruled) installed).settle,
    adopts⟩
  rw [moved]
  exact opens.opened

/-- The call that brings a method adds the drafts of it, and its default. -/
theorem method_adopts
    (opens : Opens settings formals current node (visit, atlas))
    (decl : MethodDecl) :
    ∃ after,
      Opens settings formals current after
          (settle (visit.method atlas decl)) ∧
        Node.Adopts [] (methodDrafts settings formals current decl)
          (defaultDrafts current decl) node after := by
  have first := opens.first
  have opened : visit.openMembers? = some current := opens.opened
  have moved :
      Opens settings formals current node
        ({ visit with progress := .members current }, atlas) :=
    { opens with opened := rfl }
  cases written : decl.isSynthetic || decl.isInitializer with
  | true =>
      refine ⟨node, ?_, ?_⟩
      · simp only [method, opened, Bool.or_assoc, written, Bool.or_true,
          ↓reduceIte]
        exact moved.settle
      · simp only [methodDrafts, defaultDrafts, MethodDecl.namedDefault,
          written, Bool.or_assoc, Bool.or_true, Bool.true_or, ↓reduceIte,
          ite_self]
        exact .refl node
  | false =>
      by_cases annotates : current.category = .annotationType
      · obtain ⟨middle, opensMiddle, recorded⟩ :=
          enterDefault_adopts moved written annotates
        obtain ⟨after, opensAfter, adopts⟩ :=
          keepMethod_adopts opensMiddle written
        refine ⟨after, ?_, ?_⟩
        · simp only [method, opened, first, written, annotates,
            Bool.false_eq_true, ↓reduceIte, Bool.false_or]
          exact opensAfter
        · rw [defaultDrafts, if_pos annotates]
          simpa using recorded.trans adopts
      · obtain ⟨after, opensAfter, adopts⟩ :=
          keepMethod_adopts moved written
        refine ⟨after, ?_, ?_⟩
        · simp only [method, opened, first, written, annotates,
            Bool.false_eq_true, ↓reduceIte, Bool.false_or]
          exact opensAfter
        · rw [defaultDrafts, if_neg annotates]
          exact adopts

/-- Recording an annotation adds it to the node of its owner. -/
theorem node?_useScript
    (store : Store)
    (owner : TypeName)
    (use : AnnotationUse)
    (hints : List Hint) :
    (store.replay (useScript owner use hints)).node? owner =
      (store.node? owner).map (·.addUse (use.attach (.type owner))) := by
  have marks :
      ∀ change ∈ useMarks [use] (.type owner),
        ∃ name mark, change = .mark name mark := by
    intro change member
    obtain ⟨_, -, rfl⟩ := List.mem_map.mp member
    exact ⟨_, _, rfl⟩
  rw [useScript, Store.replay_append, Store.replay_append]
  refine (Store.node?_updateNode _ _ _ _).trans ?_
  rw [if_pos rfl, Store.node?_replay_marks marks, Store.node?_replay_mentions]
  rfl

/-- An annotation adds no member, and may open the way to them. -/
theorem annotate_adopts
    (opens : Opens settings formals current node (visit, atlas))
    (reached : visit.progress = .header current)
    (decl : AnnotationDecl) :
    let state := settle (visit.annotate atlas decl)
    let later :=
      { current with deep := current.deep || settings.looksAt decl }
    ∃ after,
      state.1.progress = .header later ∧
        Opens settings formals later after state ∧
        Node.Adopts [] [] [] node after := by
  have noted := (Filing.takeUse_hinting decl).notes
  have ruled : atlas.settings = settings := opens.ruled
  have type :
      (Filing.answerOf (Filing.takeUse decl)).type =
        (Origin.annotationType decl.descriptor).reference := by
    rw [← AnnotationDecl.use, decl.use_eq]
  have entered := annotate_eq reached opens.first rfl atlas noted
  rw [type, ruled] at entered
  dsimp only
  rw [entered]
  let use := (Filing.answerOf (Filing.takeUse decl)).attach (.type current.name)
  refine ⟨node.addUse use, rfl, ?_, .addUse node use⟩
  have here : atlas.store.node? current.name = some node := opens.installed
  refine ⟨rfl, rfl, ?_, opens.first, opens.formals, opens.kind⟩
  refine (node?_useScript atlas.store current.name _ _).trans ?_
  rw [here, Option.map_some]

/-- Annotations open the way to members, if one of them does. -/
theorem settleAll_annotate_adopts
    {state : Visit × Atlas}
    (opens : Opens settings formals current node state)
    (reached : state.1.progress = .header current)
    (decls : List AnnotationDecl) :
    ∃ after,
      Opens settings formals
          { current with
            deep := current.deep || decls.any settings.looksAt }
          after (settleAll annotate decls state) ∧
        Node.Adopts [] [] [] node after := by
  induction decls generalizing current node state with
  | nil =>
      refine ⟨node, ?_, .refl node⟩
      simpa [settleAll] using opens
  | cons decl decls inductionHypothesis =>
      obtain ⟨middle, reachedMiddle, opensMiddle, nothing⟩ :=
        annotate_adopts opens reached decl
      obtain ⟨after, opensAfter, adopts⟩ :=
        inductionHypothesis opensMiddle reachedMiddle
      refine ⟨after, ?_, nothing.trans adopts⟩
      rw [List.any_cons, ← Bool.or_assoc]
      exact opensAfter

/-- What one step adopts, a run of steps adopts in order. -/
theorem settleAll_adopts
    {step : Visit → Atlas → δ → Outcome α}
    {fields : δ → List Field}
    {methods : δ → List Method}
    {defaults : δ → Values}
    (adopts :
      ∀ {node : Node} {visit : Visit} {atlas : Atlas},
        Opens settings formals current node (visit, atlas) →
          ∀ decl,
            ∃ after,
              Opens settings formals current after
                  (settle (step visit atlas decl)) ∧
                Node.Adopts (fields decl) (methods decl) (defaults decl)
                  node after)
    {state : Visit × Atlas}
    (opens : Opens settings formals current node state)
    (decls : List δ) :
    ∃ after,
      Opens settings formals current after (settleAll step decls state) ∧
        Node.Adopts (decls.flatMap fields) (decls.flatMap methods)
          (decls.flatMap defaults) node after := by
  induction decls generalizing node state with
  | nil =>
      exact ⟨node, opens, .refl node⟩
  | cons decl decls inductionHypothesis =>
      obtain ⟨middle, opensMiddle, first⟩ := adopts opens decl
      obtain ⟨after, opensAfter, rest⟩ := inductionHypothesis opensMiddle
      exact ⟨after, opensAfter, first.trans rest⟩

end Steps

end Visit

/-! ## From drafts to members -/

/-- What has one draft each if it is kept, and none otherwise, is kept. -/
theorem forall₂_flatMap
    {keep : δ → Bool}
    {drafts : δ → List α}
    {Models : δ → α → Prop}
    (each :
      ∀ decl,
        if keep decl then
          ∃ draft, drafts decl = [draft] ∧ Models decl draft
        else
          drafts decl = [])
    (decls : List δ) :
    List.Forall₂ Models (decls.filter keep) (decls.flatMap drafts) := by
  induction decls with
  | nil =>
      exact .nil
  | cons decl decls inductionHypothesis =>
      have first := each decl
      rw [List.filter_cons, List.flatMap_cons]
      split at first
      · next kept =>
          obtain ⟨draft, drafted, models⟩ := first
          rw [if_pos kept, drafted]
          exact .cons models inductionHypothesis
      · next dropped =>
          rw [if_neg dropped, first]
          exact inductionHypothesis

/-- Members in their places model what their drafts model. -/
theorem forall₂_of_onto
    {onto : Element → α → α}
    {Models : δ → α → Prop}
    (placeless :
      ∀ {decl draft member}, Models decl draft →
        (∀ element, onto element member = onto element draft) →
          Models decl member)
    {decls : List δ}
    {drafts members : List α}
    (models : List.Forall₂ Models decls drafts)
    (same :
      ∀ element,
        members.map (onto element) = drafts.map (onto element)) :
    List.Forall₂ Models decls members := by
  induction models generalizing members with
  | nil =>
      have none := same (.type "")
      rw [List.map_nil, List.map_eq_nil_iff] at none
      rw [none]
      exact .nil
  | cons first _ inductionHypothesis =>
      cases members with
      | nil =>
          exact absurd (same (.type "")) (by simp)
      | cons member members =>
          simp only [List.map_cons, List.cons.injEq] at same
          exact .cons (placeless first fun element => (same element).1)
            (inductionHypothesis fun element => (same element).2)

/-- A field models its declaration wherever it has its place. -/
theorem Field.Models.placeless
    {formals : Formals}
    {decl : FieldDecl}
    {draft field : Field}
    (models : draft.Models formals decl)
    (same : ∀ element, field.onto element = draft.onto element) :
    field.Models formals decl := by
  obtain ⟨type, parsed, made⟩ := models
  exact ⟨type, parsed, fun element => (same element).trans (made element)⟩

/-- A method models its declaration wherever it has its place. -/
theorem Method.Models.placeless
    {formals : Formals}
    {decl : MethodDecl}
    {draft method : Method}
    (models : draft.Models formals decl)
    (same : ∀ element, method.onto element = draft.onto element) :
    method.Models formals decl := by
  obtain ⟨type, parsed, made⟩ := models
  exact ⟨type, parsed, fun element => (same element).trans (made element)⟩

/-- A field is of the kind that its declaration says. -/
theorem Field.Models.isStatic
    {formals : Formals}
    {decl : FieldDecl}
    {field : Field}
    (models : field.Models formals decl) :
    field.isStatic = decl.isStatic := by
  obtain ⟨type, -, made⟩ := models
  exact congrArg Field.isStatic (made (.type ""))

namespace Visit

variable
  {settings : Settings} {current : Current}

/-- A field has a draft if members are entered and it is kept. -/
theorem fieldDrafts_models
    (settings : Settings)
    (formals : Formals)
    (first : current.merging = false)
    (extensible : current.category ≠ .annotationType)
    (decl : FieldDecl) :
    if current.deep && decl.isRetained settings then
      ∃ draft,
        fieldDrafts settings formals current decl = [draft] ∧
          draft.Models formals decl
    else
      fieldDrafts settings formals current decl = [] := by
  unfold fieldDrafts
  cases written : decl.isSynthetic with
  | true =>
      simp [FieldDecl.isRetained, written]
  | false =>
      have drafts := decl.drafts_models formals settings written
      cases current.deep with
      | true =>
          simpa [first, extensible] using drafts
      | false =>
          simp

/-- A method has a draft if members are entered and it is kept. -/
theorem methodDrafts_models
    (settings : Settings)
    (formals : Formals)
    (first : current.merging = false)
    (decl : MethodDecl) :
    if current.deep && decl.isRetained settings then
      ∃ draft,
        methodDrafts settings formals current decl = [draft] ∧
          draft.Models formals decl
    else
      methodDrafts settings formals current decl = [] := by
  unfold methodDrafts
  cases written : decl.isSynthetic || decl.isInitializer with
  | true =>
      rcases Bool.or_eq_true_iff.mp written with synthetic | initializer
      · simp [MethodDecl.isRetained, synthetic]
      · simp [MethodDecl.isRetained, initializer]
  | false =>
      have drafts := decl.drafts_models formals settings written
      rw [Bool.or_eq_false_iff] at written
      cases current.deep with
      | true =>
          simpa [first, written] using drafts
      | false =>
          simp

/-- The body of a declaration adds its members to the node. -/
theorem enterBody_adopts
    {formals : Formals}
    {node : Node}
    {state : Visit × Atlas}
    (opens : Opens settings formals current node state)
    (reached : state.1.progress = .header current)
    (decl : ClassDecl) :
    let later :=
      { current with
        deep := current.deep || decl.annotations.any settings.looksAt }
    ∃ after,
      (enterBody decl state).2.store.node? current.name = some after ∧
        Node.Adopts
          (decl.fields.flatMap (fieldDrafts settings formals later))
          (decl.methods.flatMap (methodDrafts settings formals later))
          (decl.methods.flatMap (defaultDrafts later))
          node after := by
  obtain ⟨annotated, opensFields, nothing⟩ :=
    settleAll_annotate_adopts opens reached decl.annotations
  obtain ⟨furnished, opensMethods, fields⟩ := settleAll_adopts
    (fun opens decl => field_adopts opens decl) opensFields decl.fields
  obtain ⟨after, opensEnd, methods⟩ := settleAll_adopts
    (fun opens decl => method_adopts opens decl) opensMethods decl.methods
  refine ⟨after, ?_, ?_⟩
  · have installed := opensEnd.installed
    simp only [enterBody, finish, opensEnd.opened]
    exact installed
  · simpa [List.flatMap_eq_nil_iff.mpr] using
      (nothing.trans fields).trans methods

end Visit

/-- A node without members retains what it adopts of a declaration. -/
theorem Node.Adopts.retains
    {settings : Settings}
    {decl : ClassDecl}
    {current : Current}
    {node after : Node}
    (blank : node.SameElements (Node.ofCategory .classType))
    (claimed : node.category = decl.category)
    (category : current.category = decl.category)
    (first : current.merging = false)
    (deep : current.deep = settings.looksInto decl)
    (adopts :
      Adopts
        (decl.fields.flatMap
          (Visit.fieldDrafts settings node.lineage.formals current))
        (decl.methods.flatMap
          (Visit.methodDrafts settings node.lineage.formals current))
        (decl.methods.flatMap (Visit.defaultDrafts current))
        node after) :
    after.Retains settings decl := by
  have noFields : ∀ isStatic, node.fieldsOf isStatic = [] :=
    fun isStatic => by rw [blank.fields]; cases isStatic <;> rfl
  have noMethods : node.methods = [] := blank.methods
  have noDefaults : node.defaults = [] := blank.defaults
  have fields := adopts.fields
  have methods := adopts.methods
  have defaults := adopts.defaults
  simp only [noFields, noMethods, noDefaults, List.nil_append]
    at fields methods defaults
  have named :
      decl.category = .annotationType →
        decl.methods.flatMap (Visit.defaultDrafts current) =
          decl.namedDefaults := by
    intro annotates
    have each : Visit.defaultDrafts current = MethodDecl.namedDefault := by
      funext method
      rw [Visit.defaultDrafts, if_pos (category.trans annotates)]
    rw [each, ClassDecl.namedDefaults]
  refine ⟨adopts.category.trans claimed, fun extensible isStatic => ?_, ?_,
    fun annotates isStatic => ?_, fun annotates name => ?_, fun annotates => ?_⟩
  · have models := forall₂_flatMap (Visit.fieldDrafts_models settings
      node.lineage.formals first (category ▸ extensible)) decl.fields
    rw [adopts.formals, ClassDecl.retainedFields, ← deep]
    refine forall₂_of_onto (fun models same => models.placeless same) ?_
      (fields isStatic)
    refine List.rel_filter (fun decl field models => ?_) models
    dsimp only
    rw [models.isStatic]
  · have models := forall₂_flatMap (Visit.methodDrafts_models settings
      node.lineage.formals first) decl.methods
    rw [adopts.formals, ClassDecl.retainedMethods, ← deep]
    exact forall₂_of_onto (fun models same => models.placeless same) models
      methods
  · have none :
        decl.fields.flatMap
          (Visit.fieldDrafts settings node.lineage.formals current) = [] :=
      List.flatMap_eq_nil_iff.mpr fun field _ => by
        simp [Visit.fieldDrafts, category, annotates]
    simpa [none] using fields isStatic (.type "")
  · rw [defaults, named annotates, Values.lookup_addNew]
    rfl
  · have erased := eraseDupsBy_append (· == ·) []
      (decl.namedDefaults.map Prod.fst)
    rw [defaults, named annotates]
    exact (map_addNew (fun _ _ => rfl) [] decl.namedDefaults).trans
      erased.symm

/-! ## First visits -/

namespace Acceptance

/-- A type without members has none after the header either. -/
theorem sameElements_headed
    {acceptance : Acceptance}
    (blank :
      (acceptance.before.store.nodeOrBlank
        acceptance.decl.name).SameElements (Node.ofCategory .classType)) :
    ((acceptance.source.visit.noteOrigin acceptance.claimed).updateLineage
      (·.extend acceptance.superclass? acceptance.decl)).SameElements
        (Node.ofCategory .classType) := by
  have members := Node.sameMembers_header acceptance.source.visit
    acceptance.superclass? acceptance.decl acceptance.claimed
  have none :
      acceptance.claimed.SameElements (Node.ofCategory .classType) := by
    unfold Store.nodeOrBlank at blank
    cases installed :
        acceptance.before.store.node? acceptance.decl.name with
    | none =>
        simp only [claimed, installed, Option.getD_none]
        exact Node.SameElements.ofCategory acceptance.decl.category
    | some node =>
        rw [installed, Option.getD_some] at blank
        simp only [claimed, installed, Option.getD_some]
        exact ⟨blank.annotations, blank.fields, blank.methods,
          blank.defaults⟩
  refine Node.SameElements.trans ⟨members.annotations, fun isStatic => ?_,
    members.methods, members.defaults⟩ none
  simp only [Node.fieldsOf, members.fields, members.staticFields]

/-- The first visit of a type gives it the members its declaration retains. -/
theorem retains
    (acceptance : Acceptance)
    {name : TypeName}
    (wellFormed : acceptance.before.store.WellFormed)
    (accepted : acceptance.outcome.1 = some name)
    (unvisited : acceptance.before.store.isVisited name = false)
    (blank :
      (acceptance.before.store.nodeOrBlank name).SameElements
        (Node.ofCategory .classType)) :
    ∃ node,
      acceptance.outcome.2.store.visitedNode? name = some node ∧
        node.Retains acceptance.before.settings acceptance.decl := by
  have visited :=
    (acceptance.isVisited_outcome name).mpr (Or.inr accepted)
  have headed := node?_headed wellFormed accepted
  have kind := isExtensible_claimed wellFormed accepted
  obtain ⟨rfl, -, entered⟩ := outcome_eq accepted
  have empty := sameElements_headed blank
  have category := Node.category_header acceptance.source.visit
    acceptance.superclass? acceptance.decl acceptance.claimed
  have opens :
      Visit.Opens acceptance.before.settings _
        { name := acceptance.decl.name
          category := acceptance.decl.category
          deep := acceptance.before.settings.alwaysDeep
          merging := false } _
        (acceptance.source.visit.headed acceptance.before acceptance.decl,
          acceptance.headed) :=
    { opened := by simp [Visit.headed, Visit.openMembers?, unvisited]
      ruled := rfl
      installed := headed
      first := rfl
      formals := rfl
      kind := by
        rw [Node.isExtensible_updateLineage]
        exact (Amendment.alike_apply (.origin acceptance.source.visit)
          acceptance.claimed).isExtensible.trans kind }
  obtain ⟨node, installed, adopts⟩ := Visit.enterBody_adopts opens
    (by simp [Visit.headed, unvisited]) acceptance.decl
  refine ⟨node, ?_, adopts.retains empty category rfl rfl rfl⟩
  rw [Store.visitedNode?_of_visited visited, entered]
  exact installed

end Acceptance

/-- A type that is unvisited in the end has got no members on the way. -/
theorem Store.Populates.sameElements
    {origins : List Origin}
    {first last : Store}
    (populates : Populates origins first last)
    {name : TypeName}
    (unvisited : last.isVisited name = false) :
    (last.nodeOrBlank name).SameElements (first.nodeOrBlank name) := by
  induction populates with
  | refl =>
      exact .refl _
  | change change plain _ _ inductionHypothesis =>
      exact (inductionHypothesis unvisited).trans
        (sameElements_apply plain _ name)
  | @furnish first last decl amendment suits later inductionHypothesis =>
      refine (inductionHypothesis unvisited).trans ?_
      have elsewhere : name ≠ decl.name := by
        rintro rfl
        obtain ⟨node, visited, -⟩ := suits.entered
        have fresh := ((evolves_furnish first decl.name amendment).trans
          later.evolves).unvisited unvisited
        rw [visited] at fresh
        exact absurd fresh (by simp)
      simp only [nodeOrBlank, node?_furnish, if_neg elsewhere]
      exact .refl _

/--
The declaration of an unvisited type is accepted, unless the type is the root
type or a placeholder of another kind is in its place.
-/
theorem Atlas.enter_accepts_iff
    {atlas : Atlas}
    (wellFormed : atlas.store.WellFormed)
    {decl : ClassDecl}
    (unvisited : atlas.store.isVisited decl.name = false)
    (location : Option String)
    (isApplication : Bool) :
    (atlas.enter decl location isApplication).1 = some decl.name ↔
      decl.name ≠ TypeName.root ∧
        ∀ node, atlas.store.node? decl.name = some node →
          node.isExtensible = decl.category.isExtensible := by
  constructor
  · intro accepted
    have taken :
        (Acceptance.mk ⟨decl, location, isApplication⟩ atlas).outcome.1 =
          some decl.name :=
      accepted
    have kind := Acceptance.isExtensible_claimed wellFormed taken
    refine ⟨fun isRoot => ?_, fun node installed => ?_⟩
    · rw [enter, Visit.accept_eq, if_pos isRoot] at accepted
      exact absurd accepted (by simp)
    · simp only [Acceptance.claimed, Acceptance.decl, installed,
        Option.getD_some] at kind
      exact kind
  · rintro ⟨tracked, kind⟩
    have filed :
        (Change.file decl.name decl.category).Allowed atlas.store := by
      refine ⟨tracked, fun node visited => ?_⟩
      obtain ⟨entry, found, old, -⟩ := Store.exists_of_visitedNode? visited
      simp [Store.isVisited, found, old] at unvisited
    have claimed :
        (Change.claim decl.name decl.category).Allowed
          (atlas.store.replay (Visit.founding decl)) := by
      refine Visit.claim_allowed_iff.mpr ?_
      cases installed : atlas.store.node? decl.name with
      | none =>
          exact Or.inl rfl
      | some node =>
          exact Or.inr ⟨unvisited, kind node installed⟩
    rw [enter, Visit.accept_eq, if_neg tracked,
      Visit.header_of_claimed rfl filed claimed]

namespace Session

/--
A declaration that is entered while its type is unvisited is accepted, unless
it is of the root type or a placeholder of another kind is in its place. The
type then has exactly the members that the declaration retains.
-/
theorem first_visit_retains
    (acts : List Act)
    {decl : ClassDecl}
    (unvisited : (run {} acts).atlas.store.isVisited decl.name = false)
    (location : Option String)
    (isApplication : Bool) :
    let atlas := (run {} acts).atlas
    let outcome := atlas.enter decl location isApplication
    (outcome.1 = some decl.name ↔
      decl.name ≠ TypeName.root ∧
        ∀ node, atlas.store.node? decl.name = some node →
          node.isExtensible = decl.category.isExtensible) ∧
      (outcome.1 = some decl.name →
        ∃ node,
          outcome.2.store.visitedNode? decl.name = some node ∧
            node.Retains atlas.settings decl) := by
  have wellFormed : (run {} acts).atlas.store.WellFormed :=
    (run_evolves {} acts).wellFormed Store.wellFormed_empty
  have blank := (run_populates acts).sameElements unvisited
  refine ⟨Atlas.enter_accepts_iff wellFormed unvisited location isApplication,
    fun accepted => ?_⟩
  exact Acceptance.retains ⟨⟨decl, location, isApplication⟩, _⟩ wellFormed
    accepted unvisited blank

/--
A class of interest with a member for every reason to drop one. The tables of
parameter annotations are too long for `overlong` and too short for `inner`, and
only the latter has a slot with an annotation that belongs to a parameter.
-/
def sieved : ClassDecl :=
  let marks : List AnnotationDecl := [⟨"Lc/Mark;", true, []⟩]
  { access := 0x21
    name := "c.Sieved"
    annotations := marks
    fields :=
      [⟨0x2, "kept", "I", none, marks⟩,
        ⟨0x8, "shared", "[Lc/Part;", none, marks⟩,
        ⟨0x2, "plain", "I", none, []⟩, ⟨0x1002, "made", "I", none, marks⟩,
        ⟨0x2, "broken", "?", none, marks⟩]
    methods :=
      [⟨0x8, "<clinit>", "()V", none, marks, [], [], none⟩,
        ⟨0x41, "bridge", "()V", none, marks, [], [], none⟩,
        ⟨0x1, "overlong", "(II)V", none, [], [marks, [], []], [], none⟩,
        ⟨0x1, "inner", "(II)V", none, [], [marks], [], none⟩] }

/-- What was done before the class is met: its name was mentioned. -/
def beforeSieved : List Act :=
  [.configure { interest := ["c.Mark"] }, .mention "c.Sieved" none]

theorem first_visit_retains_sieved :
    let atlas := (run {} beforeSieved).atlas
    let outcome := atlas.enter sieved none true
    atlas.store.isVisited sieved.name = false ∧
      (sieved.retainedFields atlas.settings).map (·.name) =
        ["kept", "shared"] ∧
      (sieved.retainedMethods atlas.settings).map (·.name) = ["inner"] ∧
      outcome.1 = some sieved.name ∧
      ∃ node,
        outcome.2.store.visitedNode? sieved.name = some node ∧
          node.Retains atlas.settings sieved := by
  have unvisited :
      (run {} beforeSieved).atlas.store.isVisited sieved.name = false := by
    decide
  have absent :
      (run {} beforeSieved).atlas.store.node? sieved.name = none :=
    rfl
  obtain ⟨accepts, retains⟩ :=
    first_visit_retains beforeSieved unvisited none true
  have accepted := accepts.mpr ⟨by decide, by simp [absent]⟩
  exact ⟨unvisited, by decide, by decide +kernel, accepted, retains accepted⟩

end Session

end TypeAtlas
