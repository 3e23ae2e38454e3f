import TypeAtlas.Proofs.Entering.MemberScripts
import TypeAtlas.Proofs.Entering.Origins
import TypeAtlas.Proofs.Graph.References
import TypeAtlas.Proofs.Store.Building
import TypeAtlas.Query.Members

namespace TypeAtlas

/-!
# Populating nodes

Annotations, fields and methods are added to the node of a type together with
the marks that lead back to them: a mark on the entry of every annotation that
the new elements carry, and one on the entry of a field's type. An addition with
its marks is one act, and no such mark is made in any other way.

A store is *populated* by such acts and by changes that leave annotations,
fields, methods and the marks that lead to them alone.
-/

/-! ## Elements -/

/-- Two nodes with the same annotations, fields, methods and defaults. -/
structure Node.SameElements
    (node other : Node) :
    Prop where
  annotations : node.annotations = other.annotations
  fields : ∀ isStatic, node.fieldsOf isStatic = other.fieldsOf isStatic
  methods : node.methods = other.methods
  defaults : node.defaults = other.defaults

theorem Node.SameElements.refl
    (node : Node) :
    node.SameElements node :=
  ⟨rfl, fun _ => rfl, rfl, rfl⟩

namespace Store

/-- The node of a name, a blank one where there is none. -/
def nodeOrBlank
    (store : Store)
    (name : TypeName) :
    Node :=
  (store.node? name).getD (Node.ofCategory .classType)

/-- A field is found in the node of its owner, by its place. -/
theorem field?_eq
    (store : Store)
    (id : FieldId) :
    store.field? id =
      ((store.nodeOrBlank id.owner).fieldsOf id.isStatic)[id.index]? := by
  unfold field? nodeOrBlank
  cases store.node? id.owner with
  | none =>
      simp [Node.fieldsOf]
  | some node =>
      rfl

/-- A method is found in the node of its owner, by its place. -/
theorem method?_eq
    (store : Store)
    (id : MethodId) :
    store.method? id = (store.nodeOrBlank id.owner).methods[id.index]? := by
  unfold method? nodeOrBlank
  cases store.node? id.owner <;> rfl

/-- The annotations of a type are those of its node. -/
theorem elementUses_type
    (store : Store)
    (name : TypeName) :
    store.elementUses (.type name) = (store.nodeOrBlank name).annotations := by
  simp only [elementUses, nodeOrBlank]
  cases store.node? name <;> rfl

/-- The next field of a type comes behind those of its node. -/
theorem nextField_eq
    (store : Store)
    (owner : TypeName)
    (isStatic : Bool) :
    store.nextField owner isStatic =
      ⟨owner, isStatic,
        ((store.nodeOrBlank owner).fieldsOf isStatic).length⟩ := by
  unfold nextField nodeOrBlank
  cases store.node? owner with
  | none =>
      simp [Node.fieldsOf]
  | some node =>
      rfl

/-- The next method of a type comes behind those of its node. -/
theorem nextMethod_eq
    (store : Store)
    (owner : TypeName) :
    store.nextMethod owner =
      ⟨owner, (store.nodeOrBlank owner).methods.length⟩ := by
  unfold nextMethod nodeOrBlank
  cases store.node? owner <;> rfl

/-- Two stores with the same elements under every name. -/
def SameElements (store other : Store) : Prop :=
  ∀ name, (store.nodeOrBlank name).SameElements (other.nodeOrBlank name)

namespace SameElements

variable {store other : Store}

/-- Stores with the same elements have the same fields. -/
theorem field?
    (same : store.SameElements other)
    (id : FieldId) :
    store.field? id = other.field? id := by
  rw [field?_eq, field?_eq, (same id.owner).fields]

/-- Stores with the same elements have the same methods. -/
theorem method?
    (same : store.SameElements other)
    (id : MethodId) :
    store.method? id = other.method? id := by
  rw [method?_eq, method?_eq, (same id.owner).methods]

/-- Stores with the same elements have the same annotations on each of them. -/
theorem elementUses
    (same : store.SameElements other)
    (element : Element) :
    store.elementUses element = other.elementUses element := by
  cases element with
  | type name =>
      rw [elementUses_type, elementUses_type, (same name).annotations]
  | field id =>
      simp only [Store.elementUses, same.field? id]
  | method id =>
      simp only [Store.elementUses, same.method? id]
  | parameter id index =>
      simp only [Store.elementUses, parameter?, same.method? id]

end SameElements

end Store

/-! ## Additions -/

namespace Amendment

/-- What is referred to by what is added. -/
def references : Amendment → List Reference
  | origin _ => []
  | interface name => [Reference.toType name]
  | generics said =>
      said.superclass.toList.flatMap (·.references)
        ++ said.interfaces.flatMap (·.references)
        ++ said.formals.references
  | use added => added.references
  | field added => added.references
  | method added => added.references
  | default _ value => value.references

end Amendment

namespace Store

/-- The elements that an addition is about, with the annotations it brings. -/
def carried
    (store : Store)
    (owner : TypeName) :
    Amendment → List (Element × List AnnotationUse)
  | .use added => [(.type owner, [added])]
  | .field added =>
      [(.field (store.nextField owner added.isStatic), added.annotations)]
  | .method added =>
      let id := store.nextMethod owner
      (.method id, added.annotations) ::
        (added.parameters.map (·.annotations)).zipIdx.map
          fun (uses, index) => (.parameter id index, uses)
  | _ => []

/-- The marks that lead back to an addition. -/
def marksOf
    (store : Store)
    (owner : TypeName)
    (amendment : Amendment) :
    List Change :=
  (store.carried owner amendment).flatMap
      (fun (element, uses) => useMarks uses element)
    ++ match amendment with
      | .field added =>
          Filing.fieldUseMarks added.type
            (store.nextField owner added.isStatic)
      | _ => []

/-- Add to the node of a type, with all marks. -/
def furnish
    (store : Store)
    (owner : TypeName)
    (amendment : Amendment) :
    Store :=
  store.replay (store.marksOf owner amendment ++ [.amend owner amendment])

/-- The marks of annotations are on their types, those that are tracked. -/
theorem mem_useMarks_iff
    {uses : List AnnotationUse}
    {element : Element}
    {change : Change} :
    change ∈ useMarks uses element ↔
      ∃ use ∈ uses,
        use.type.tracked = true ∧
          change = .mark use.type.name (.annotated element) := by
  simp only [useMarks, List.mem_map, List.mem_filter]
  constructor
  · rintro ⟨use, ⟨member, tracked⟩, rfl⟩
    exact ⟨use, member, tracked, rfl⟩
  · rintro ⟨use, member, tracked, rfl⟩
    exact ⟨use, ⟨member, tracked⟩, rfl⟩

/-- An addition marks an element on the types of the annotations it brings. -/
theorem mark_annotated_mem_marksOf_iff
    {store : Store}
    {owner name : TypeName}
    {amendment : Amendment}
    {element : Element} :
    .mark name (.annotated element) ∈ store.marksOf owner amendment ↔
      ∃ uses, (element, uses) ∈ store.carried owner amendment ∧
        ∃ use ∈ uses, use.type = ⟨name, true⟩ := by
  have fieldless :
      Change.mark name (.annotated element) ∉
        (match amendment with
          | .field added =>
              Filing.fieldUseMarks added.type
                (store.nextField owner added.isStatic)
          | _ => []) := by
    split
    · unfold Filing.fieldUseMarks
      split <;> simp
    · simp
  simp only [marksOf, List.mem_append, fieldless, or_false, List.mem_flatMap,
    mem_useMarks_iff, Change.mark.injEq, Mark.annotated.injEq]
  constructor
  · rintro ⟨⟨_, uses⟩, member, use, used, tracked, rfl, rfl⟩
    exact ⟨uses, member, use, used, by rw [← tracked]⟩
  · rintro ⟨uses, member, use, used, type⟩
    exact ⟨(element, uses), member, use, used, by simp [type]⟩

/-- An addition marks a field on the field's type. -/
theorem mark_fieldUse_mem_marksOf_iff
    {store : Store}
    {owner name : TypeName}
    {amendment : Amendment}
    {id : FieldId} :
    .mark name (.fieldUse id) ∈ store.marksOf owner amendment ↔
      ∃ added,
        amendment = .field added ∧
          id = store.nextField owner added.isStatic ∧
          added.type = ⟨name, true⟩ := by
  have useless :
      Change.mark name (.fieldUse id) ∉
        (store.carried owner amendment).flatMap
          (fun (element, uses) => useMarks uses element) := by
    simp [List.mem_flatMap, mem_useMarks_iff]
  simp only [marksOf, List.mem_append, useless, false_or]
  cases amendment with
  | field added =>
      cases typed : added.type with
      | mk type tracked =>
          cases tracked <;>
            simp [Filing.fieldUseMarks, typed, eq_comm, and_comm]
  | origin _ | interface _ | generics _ | use _ | method _ | default _ _ =>
      simp

/-- An addition makes marks, and adds to one node. -/
theorem eq_mark_of_mem_marksOf
    {store : Store}
    {owner : TypeName}
    {amendment : Amendment}
    {change : Change}
    (member : change ∈ store.marksOf owner amendment) :
    ∃ name mark, change = .mark name mark := by
  rcases List.mem_append.mp member with used | typed
  · obtain ⟨⟨element, uses⟩, -, marked⟩ := List.mem_flatMap.mp used
    obtain ⟨use, -, -, rfl⟩ := mem_useMarks_iff.mp marked
    exact ⟨_, _, rfl⟩
  · split at typed
    · unfold Filing.fieldUseMarks at typed
      split at typed
      · exact ⟨_, _, List.mem_singleton.mp typed⟩
      · simp at typed
    · simp at typed

/-- Marks leave nodes alone. -/
theorem node?_replay_marks
    {script : List Change}
    (marks : ∀ change ∈ script, ∃ name mark, change = .mark name mark)
    (store : Store)
    (name : TypeName) :
    (store.replay script).node? name = store.node? name := by
  induction script generalizing store with
  | nil =>
      rfl
  | cons change script inductionHypothesis =>
      obtain ⟨target, mark, rfl⟩ := marks change (by simp)
      rw [replay_cons, inductionHypothesis fun other member =>
        marks other (List.mem_cons_of_mem _ member)]
      exact node?_update _ _ _ (fun entry => entry.name_addMark mark)
        fun entry => entry.node_addMark mark

/-- An addition is found in the node of its type, and nowhere else. -/
theorem node?_furnish
    (store : Store)
    (owner : TypeName)
    (amendment : Amendment)
    (name : TypeName) :
    (store.furnish owner amendment).node? name =
      if name = owner then
        (store.node? name).map amendment.apply
      else
        store.node? name := by
  rw [furnish, replay_append, replay_cons, replay_nil, Change.apply,
    node?_updateNode,
    node?_replay_marks (fun _ member => eq_mark_of_mem_marksOf member)]

/-- An addition is a run of changes that are allowed. -/
theorem evolves_furnish
    (store : Store)
    (owner : TypeName)
    (amendment : Amendment) :
    Evolves store (store.furnish owner amendment) := by
  refine evolves_replay (fun change member store => ?_) store
  rcases List.mem_append.mp member with marked | amended
  · obtain ⟨name, mark, rfl⟩ := eq_mark_of_mem_marksOf marked
    trivial
  · rw [List.mem_singleton.mp amended]
    trivial

/-- The reverse references after an addition are those before and its marks. -/
theorem bears_furnish
    {store : Store}
    {owner : TypeName}
    {amendment : Amendment}
    (ownerKnown : owner ∈ store.names)
    (marksKnown :
      ∀ name mark, .mark name mark ∈ store.marksOf owner amendment →
        name ∈ store.names)
    {name : TypeName}
    {mark : Mark} :
    (store.furnish owner amendment).Bears name mark ↔
      store.Bears name mark ∨
        .mark name mark ∈ store.marksOf owner amendment := by
  have grounded :
      Grounded store.names
        (store.marksOf owner amendment ++ [.amend owner amendment]) := by
    refine (grounded_of_marks fun change member => ?_).append ?_
    · obtain ⟨target, added, rfl⟩ := eq_mark_of_mem_marksOf member
      exact ⟨target, added, rfl, marksKnown target added member⟩
    · simp [Grounded, Change.expects, ownerKnown]
  rw [furnish, bears_replay (fun _ member => member) grounded]
  simp

end Store

/-! ## Populating -/

/-- The marks that lead back to annotated elements and to fields. -/
def Mark.LeadsToElement : Mark → Prop
  | .annotated _ => True
  | .fieldUse _ => True
  | _ => False

/--
The changes that add to no node and mark no element. A superclass is linked
only if it comes from an origin.
-/
def Change.Plain (origins : List Origin) : Change → Prop
  | .link _ parent => .supertype parent ∈ origins
  | .mark _ added => ¬ added.LeadsToElement
  | .amend _ _ => False
  | _ => True

/-- An annotation is attached to an element, with all annotations in it. -/
structure AnnotationUse.StandsOn
    (element : Element)
    (use : AnnotationUse) :
    Prop where
  attached : use.element = some element
  nested : ∀ inner ∈ use.nested, inner.element = some element
  type : use.type.OfUse

namespace Store

/--
What is added suits a store: the type was entered and has fields if it gets
one, annotations are attached to their elements and those of defaults to none,
and everything that is referred to comes from an origin.
-/
structure Suits
    (origins : List Origin)
    (store : Store)
    (decl : ClassDecl)
    (amendment : Amendment) :
    Prop where
  entered : store.Entered decl
  extensible :
    ∀ added, amendment = .field added → decl.category.isExtensible = true
  attached :
    ∀ element uses, (element, uses) ∈ store.carried decl.name amendment →
      ∀ use ∈ uses, use.StandsOn element
  unattached :
    ∀ key value, amendment = .default key value →
      ∀ use ∈ value.uses, use.element = none
  admitted :
    ∀ reference ∈ amendment.references, store.Admits origins reference

/--
One store becomes another by changes that leave elements alone, and by additions
with their marks.
-/
inductive Populates (origins : List Origin) : Store → Store → Prop where
  | refl (store : Store) :
      Populates origins store store
  | change
      {first last : Store}
      (change : Change) :
      change.Plain origins →
      change.Allowed first →
      Populates origins (change.apply first) last →
      Populates origins first last
  | furnish
      {first last : Store}
      (decl : ClassDecl)
      (amendment : Amendment) :
      first.Suits origins decl amendment →
      Populates origins (first.furnish decl.name amendment) last →
      Populates origins first last

namespace Populates

variable {origins : List Origin} {first middle last : Store}

theorem trans
    (earlier : Populates origins first middle)
    (later : Populates origins middle last) :
    Populates origins first last := by
  induction earlier with
  | refl =>
      exact later
  | change change plain allowed _ inductionHypothesis =>
      exact .change change plain allowed (inductionHypothesis later)
  | furnish decl amendment suits _ inductionHypothesis =>
      exact .furnish decl amendment suits (inductionHypothesis later)

/-- A single change that leaves elements alone. -/
theorem single
    (change : Change)
    (plain : change.Plain origins)
    (allowed : change.Allowed first) :
    Populates origins first (change.apply first) :=
  .change change plain allowed (.refl _)

/-- A single addition. -/
theorem addition
    {decl : ClassDecl}
    {amendment : Amendment}
    (suits : first.Suits origins decl amendment) :
    Populates origins first (first.furnish decl.name amendment) :=
  .furnish decl amendment suits (.refl _)

/-- What is no member is added without marks. -/
theorem heading
    {decl : ClassDecl}
    (entered : first.Entered decl)
    (amendment : Amendment)
    (memberless : ¬ amendment.AddsMember)
    (admitted :
      ∀ reference ∈ amendment.references, first.Admits origins reference) :
    Populates origins first
      (first.updateNode decl.name amendment.apply) := by
  cases amendment with
  | origin _ | interface _ | generics _ =>
      have suits : first.Suits origins decl _ :=
        ⟨entered, by simp, by simp [carried], by simp, admitted⟩
      exact addition suits
  | use _ | field _ | method _ | default _ _ =>
      exact absurd trivial memberless

/-- A script of changes that are always allowed and leave elements alone. -/
theorem replay
    {script : List Change}
    (plain :
      ∀ change ∈ script,
        change.Plain origins ∧ ∀ store, change.Allowed store)
    (store : Store) :
    Populates origins store (store.replay script) := by
  induction script generalizing store with
  | nil =>
      exact .refl store
  | cons change script inductionHypothesis =>
      obtain ⟨first, allowed⟩ := plain change (by simp)
      exact .change change first (allowed store) (inductionHypothesis
        (fun other member => plain other (List.mem_cons_of_mem _ member)) _)

/-- Mentioning names populates a store. -/
theorem mentions
    (hints : List Hint)
    (store : Store) :
    Populates origins store (store.replay (TypeAtlas.mentions hints)) := by
  refine replay (fun change member => ?_) store
  obtain ⟨name, hint, rfl⟩ := eq_mention_of_mem_mentions member
  exact ⟨trivial, fun _ => trivial⟩

/-- A store is populated by changes that are allowed. -/
theorem evolves
    (populates : Populates origins first last) :
    Evolves first last := by
  induction populates with
  | refl =>
      exact .refl _
  | change change _ allowed _ inductionHypothesis =>
      exact .step change allowed inductionHypothesis
  | furnish decl amendment _ _ inductionHypothesis =>
      exact (evolves_furnish _ decl.name amendment).trans inductionHypothesis

end Populates

end Store

end TypeAtlas
