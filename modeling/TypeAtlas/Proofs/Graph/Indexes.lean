import TypeAtlas.Proofs.Graph.Heading
import TypeAtlas.Proofs.Graph.Links
import TypeAtlas.Proofs.Store.Populating

namespace TypeAtlas

/-!
# Annotated elements and field uses

An entry keeps the elements that carry an annotation of its type, and the fields
of its type. Whatever populates a store keeps these references in step with the
elements: an addition makes exactly the marks that its own elements call for,
and all other changes leave elements and marks alone.
-/

/-! ## Changes that leave elements alone -/

namespace Node.SameElements

theorem trans
    {first second third : Node}
    (earlier : first.SameElements second)
    (later : second.SameElements third) :
    first.SameElements third :=
  ⟨earlier.annotations.trans later.annotations,
    fun isStatic => (earlier.fields isStatic).trans (later.fields isStatic),
    earlier.methods.trans later.methods,
    earlier.defaults.trans later.defaults⟩

/-- Supertypes are no elements. -/
theorem updateLineage
    (node : Node)
    {change : Lineage → Lineage}
    (keeps :
      ∀ lineage,
        (change lineage).fields = lineage.fields ∧
          (change lineage).staticFields = lineage.staticFields) :
    (node.updateLineage change).SameElements node := by
  obtain ⟨category, locations, isApplication, annotations, methods, body⟩ :=
    node
  cases body with
  | extensible lineage =>
      obtain ⟨fields, staticFields⟩ := keeps lineage
      refine ⟨rfl, fun isStatic => ?_, rfl, rfl⟩
      simp only [Node.updateLineage, Node.fieldsOf, Node.lineage, fields,
        staticFields]
  | annotationType defaults =>
      exact .refl _

/-- Nodes that nothing is known of have no elements. -/
theorem ofCategory
    (category : Category) :
    (Node.ofCategory category).SameElements (Node.ofCategory .classType) := by
  cases category <;> exact ⟨rfl, fun _ => rfl, rfl, rfl⟩

end Node.SameElements

/-- A change that adds to no node leaves the elements of a node alone. -/
theorem Change.sameElements_nodeAt
    {change : Change}
    (adds : ∀ target amendment, change ≠ .amend target amendment)
    (name : TypeName)
    (node : Option Node) :
    ((change.nodeAt name node).getD (Node.ofCategory .classType)).SameElements
      (node.getD (Node.ofCategory .classType)) := by
  have founded :
      ∀ category,
        ((node <|> some (Node.ofCategory category)).getD
            (Node.ofCategory .classType)).SameElements
          (node.getD (Node.ofCategory .classType)) := by
    intro category
    cases node with
    | none =>
        exact .ofCategory category
    | some node =>
        exact .refl node
  cases change with
  | mention _ _ | file _ _ | mark _ _ | take =>
      exact .refl _
  | found target category =>
      simp only [nodeAt]
      split
      · exact founded category
      · exact .refl _
  | claim target category =>
      simp only [nodeAt]
      split
      · cases node with
        | none =>
            exact .refl _
        | some node =>
            exact ⟨rfl, fun _ => rfl, rfl, rfl⟩
      · exact .refl _
  | link target parent =>
      have middle :
          ((if name = parent then
              node <|> some (Node.ofCategory .classType)
            else
              node).getD (Node.ofCategory .classType)).SameElements
            (node.getD (Node.ofCategory .classType)) := by
        split
        · exact founded .classType
        · exact .refl _
      simp only [nodeAt]
      split
      · refine Node.SameElements.trans ?_ middle
        generalize (if name = parent then _ else node) = between
        cases between with
        | none =>
            exact .refl _
        | some between =>
            exact .updateLineage between fun _ => ⟨rfl, rfl⟩
      · exact middle
  | amend target amendment =>
      exact absurd rfl (adds target amendment)

namespace Store

/-- A plain change leaves the elements of every node as they are. -/
theorem sameElements_apply
    {origins : List Origin}
    {change : Change}
    (plain : change.Plain origins)
    (store : Store) :
    (change.apply store).SameElements store := by
  have adds : ∀ target amendment, change ≠ .amend target amendment := by
    rintro target amendment rfl
    exact plain
  intro name
  unfold nodeOrBlank
  by_cases known : name ∈ store.names
  · rw [Change.node?_apply_of_mem known]
    exact Change.sameElements_nodeAt adds name _
  · have absent : store.node? name = none := by
      simp [node?, find?_eq_none_iff.mpr known]
    rw [Change.node?_apply_of_notMem known, absent]
    exact .refl _

/-- A plain change makes no marks on behalf of elements. -/
theorem bears_apply_of_plain
    {origins : List Origin}
    {change : Change}
    (plain : change.Plain origins)
    (store : Store)
    (name : TypeName)
    {mark : Mark}
    (leads : mark.LeadsToElement) :
    (change.apply store).Bears name mark ↔ store.Bears name mark := by
  have unmarked : change ≠ .mark name mark := by
    rintro rfl
    exact plain leads
  exact Change.bears_apply_of_ne unmarked store

end Store

/-! ## What an addition adds -/

namespace Amendment

/-- The annotations added to the type itself. -/
def uses : Amendment → List AnnotationUse
  | use added => [added]
  | _ => []

/-- The fields of one kind that are added. -/
def fieldsOf (isStatic : Bool) : Amendment → List Field
  | field added => if added.isStatic = isStatic then [added] else []
  | _ => []

/-- The methods that are added. -/
def methods : Amendment → List Method
  | method added => [added]
  | _ => []

/--
A node after an addition has all that it had before, and behind that what was
added. Nothing but a default is added to the defaults.
-/
structure Adds
    (amendment : Amendment)
    (before after : Node) :
    Prop where
  annotations : after.annotations = before.annotations ++ amendment.uses
  fields :
    ∀ isStatic,
      after.fieldsOf isStatic =
        before.fieldsOf isStatic ++ amendment.fieldsOf isStatic
  methods : after.methods = before.methods ++ amendment.methods
  defaults :
    ∀ entry ∈ after.defaults,
      entry ∈ before.defaults ∨ amendment = .default entry.1 entry.2

/-- An amendment that brings nothing adds nothing. -/
theorem Adds.of_sameElements
    {amendment : Amendment}
    {before after : Node}
    (nothing :
      amendment.uses = [] ∧
        (∀ isStatic, amendment.fieldsOf isStatic = []) ∧
        amendment.methods = [])
    (same : after.SameElements before) :
    amendment.Adds before after := by
  obtain ⟨uses, fields, methods⟩ := nothing
  refine ⟨?_, fun isStatic => ?_, ?_, fun entry member => ?_⟩
  · rw [uses, List.append_nil, same.annotations]
  · rw [fields, List.append_nil, same.fields]
  · rw [methods, List.append_nil, same.methods]
  · rw [same.defaults] at member
    exact Or.inl member

/-- An addition adds what it stands for; a field needs a node with fields. -/
theorem adds_apply
    {amendment : Amendment}
    {node : Node}
    (fits : ∀ added, amendment = .field added → node.isExtensible = true) :
    amendment.Adds node (amendment.apply node) := by
  cases amendment with
  | origin visit =>
      rw [apply, Visit.noteOrigin_eq]
      exact .of_sameElements ⟨rfl, fun _ => rfl, rfl⟩
        ⟨rfl, fun _ => rfl, rfl, rfl⟩
  | interface name =>
      refine .of_sameElements ⟨rfl, fun _ => rfl, rfl⟩
        (.updateLineage node fun lineage => ?_)
      split <;> exact ⟨rfl, rfl⟩
  | generics said =>
      rw [generics_apply]
      exact .of_sameElements ⟨rfl, fun _ => rfl, rfl⟩
        (.updateLineage node fun lineage => ⟨rfl, rfl⟩)
  | use added =>
      exact ⟨rfl, fun _ => (List.append_nil _).symm,
        (List.append_nil _).symm, fun _ => Or.inl⟩
  | field added =>
      have extensible := fits added rfl
      obtain ⟨category, locations, isApplication, annotations, methods, body⟩ :=
        node
      cases body with
      | annotationType defaults =>
          simp [Node.isExtensible] at extensible
      | extensible lineage =>
          refine ⟨(List.append_nil _).symm, fun isStatic => ?_,
            (List.append_nil _).symm, fun _ => Or.inl⟩
          cases kind : added.isStatic <;> cases isStatic <;>
            simp [apply, Node.addField, Node.updateLineage, Node.fieldsOf,
              Node.lineage, fieldsOf, kind]
  | method added =>
      exact ⟨(List.append_nil _).symm, fun _ => (List.append_nil _).symm,
        rfl, fun _ => Or.inl⟩
  | default key value =>
      obtain ⟨category, locations, isApplication, annotations, methods, body⟩ :=
        node
      cases body with
      | extensible lineage =>
          exact .of_sameElements ⟨rfl, fun _ => rfl, rfl⟩ (.refl _)
      | annotationType defaults =>
          refine ⟨(List.append_nil _).symm, fun _ => (List.append_nil _).symm,
            (List.append_nil _).symm, fun entry member => ?_⟩
          simp only [apply, Node.addDefault, Node.defaults,
            Values.insertNew] at member ⊢
          split at member
          · exact Or.inl member
          · rcases List.mem_append.mp member with old | new
            · exact Or.inl old
            · rw [List.mem_singleton.mp new]
              exact Or.inr rfl

end Amendment

/-- An item behind a list is found at the list's length. -/
theorem getElem?_concat_eq_some_iff
    {items : List α}
    {item other : α}
    {index : Nat} :
    (items ++ [item])[index]? = some other ↔
      items[index]? = some other ∨ index = items.length ∧ item = other := by
  rcases Nat.lt_trichotomy index items.length with before | rfl | behind
  · rw [List.getElem?_append_left before]
    simp [Nat.ne_of_lt before]
  · simp
  · rw [List.getElem?_eq_none (by simp; omega),
      List.getElem?_eq_none (Nat.le_of_lt behind)]
    simp [Nat.ne_of_gt behind]

namespace Store

section Furnishing

variable
  {origins : List Origin}
  {store : Store}
  {decl : ClassDecl}
  {amendment : Amendment}

/-- An addition to one type is not seen under another name. -/
theorem nodeOrBlank_furnish_of_ne
    {name : TypeName}
    (elsewhere : name ≠ decl.name) :
    (store.furnish decl.name amendment).nodeOrBlank name =
      store.nodeOrBlank name := by
  simp only [nodeOrBlank, node?_furnish, elsewhere, ↓reduceIte]

/-- An addition is seen under the name of its type. -/
theorem adds_furnish
    (wellFormed : store.WellFormed)
    (suits : store.Suits origins decl amendment) :
    amendment.Adds (store.nodeOrBlank decl.name)
      ((store.furnish decl.name amendment).nodeOrBlank decl.name) := by
  obtain ⟨node, -, installed, category⟩ := suits.entered
  simp only [nodeOrBlank, node?_furnish, installed, ↓reduceIte,
    Option.map_some, Option.getD_some]
  refine Amendment.adds_apply fun added isField => ?_
  rw [wellFormed.isExtensible_node installed, category]
  exact suits.extensible added isField

/-- A field is added behind the others of its kind, and nothing else. -/
theorem field?_furnish
    (wellFormed : store.WellFormed)
    (suits : store.Suits origins decl amendment)
    {id : FieldId}
    {field : Field} :
    (store.furnish decl.name amendment).field? id = some field ↔
      store.field? id = some field ∨
        amendment = .field field ∧
          id = store.nextField decl.name field.isStatic := by
  obtain ⟨owner, isStatic, index⟩ := id
  rw [field?_eq, field?_eq, nextField_eq]
  by_cases here : owner = decl.name
  · subst here
    rw [(adds_furnish wellFormed suits).fields]
    cases amendment with
    | field added =>
        by_cases kind : added.isStatic = isStatic
        · simp only [Amendment.fieldsOf, kind, ↓reduceIte,
            getElem?_concat_eq_some_iff, Amendment.field.injEq]
          constructor
          · rintro (old | ⟨rfl, rfl⟩)
            · exact Or.inl old
            · exact Or.inr ⟨rfl, by rw [kind]⟩
          · rintro (old | ⟨rfl, same⟩)
            · exact Or.inl old
            · exact Or.inr ⟨by simpa [kind] using same, rfl⟩
        · simp only [Amendment.fieldsOf, kind, ↓reduceIte, List.append_nil,
            Amendment.field.injEq, FieldId.mk.injEq]
          constructor
          · exact Or.inl
          · rintro (old | ⟨rfl, -, same, -⟩)
            · exact old
            · exact absurd same.symm kind
    | origin _ | interface _ | generics _ | use _ | method _ | default _ _ =>
        simp [Amendment.fieldsOf]
  · rw [nodeOrBlank_furnish_of_ne here]
    simp [here]

/--
The methods after an addition are those from before and the one it brings.
-/
theorem method?_furnish
    (wellFormed : store.WellFormed)
    (suits : store.Suits origins decl amendment)
    {id : MethodId}
    {method : Method} :
    (store.furnish decl.name amendment).method? id = some method ↔
      store.method? id = some method ∨
        amendment = .method method ∧ id = store.nextMethod decl.name := by
  obtain ⟨owner, index⟩ := id
  rw [method?_eq, method?_eq, nextMethod_eq]
  by_cases here : owner = decl.name
  · subst here
    rw [(adds_furnish wellFormed suits).methods]
    cases amendment with
    | method added =>
        simp [Amendment.methods, getElem?_concat_eq_some_iff, and_comm]
    | origin _ | interface _ | generics _ | use _ | field _ | default _ _ =>
        simp [Amendment.methods]
  · rw [nodeOrBlank_furnish_of_ne here]
    simp [here]

/-- The annotations of a field are those it was entered with. -/
theorem mem_elementUses_field_iff
    {id : FieldId}
    {use : AnnotationUse} :
    use ∈ store.elementUses (.field id) ↔
      ∃ field, store.field? id = some field ∧ use ∈ field.annotations := by
  cases known : store.field? id <;> simp [elementUses, known]

/-- The annotations of a method are those it was entered with. -/
theorem mem_elementUses_method_iff
    {id : MethodId}
    {use : AnnotationUse} :
    use ∈ store.elementUses (.method id) ↔
      ∃ method, store.method? id = some method ∧ use ∈ method.annotations := by
  cases known : store.method? id <;> simp [elementUses, known]

/-- The annotations of a parameter are found in the method it belongs to. -/
theorem mem_elementUses_parameter_iff
    {id : MethodId}
    {index : Nat}
    {use : AnnotationUse} :
    use ∈ store.elementUses (.parameter id index) ↔
      ∃ method, store.method? id = some method ∧
        ∃ uses,
          (method.parameters.map (·.annotations))[index]? = some uses ∧
            use ∈ uses := by
  cases known : store.method? id with
  | none =>
      simp [elementUses, parameter?, known]
  | some method =>
      cases here : method.parameters[index]? <;>
        simp [elementUses, parameter?, known, here]

/-- An addition annotates no type but its own. -/
theorem eq_of_type_mem_carried
    {owner name : TypeName}
    {uses : List AnnotationUse}
    (member : (.type name, uses) ∈ store.carried owner amendment) :
    name = owner := by
  cases amendment <;> simp_all [carried]

/-- An addition annotates a field only if it brings the field. -/
theorem field_mem_carried_iff
    {owner : TypeName}
    {id : FieldId}
    {uses : List AnnotationUse} :
    (.field id, uses) ∈ store.carried owner amendment ↔
      ∃ field,
        (amendment = .field field ∧
          id = store.nextField owner field.isStatic) ∧
          uses = field.annotations := by
  cases amendment <;> simp [carried]

/-- An addition annotates a method only if it brings the method. -/
theorem method_mem_carried_iff
    {owner : TypeName}
    {id : MethodId}
    {uses : List AnnotationUse} :
    (.method id, uses) ∈ store.carried owner amendment ↔
      ∃ method,
        (amendment = .method method ∧ id = store.nextMethod owner) ∧
          uses = method.annotations := by
  cases amendment <;> simp [carried]

/-- An addition annotates a parameter only if it brings the method. -/
theorem parameter_mem_carried_iff
    {owner : TypeName}
    {id : MethodId}
    {index : Nat}
    {uses : List AnnotationUse} :
    (.parameter id index, uses) ∈ store.carried owner amendment ↔
      ∃ method,
        (amendment = .method method ∧ id = store.nextMethod owner) ∧
          (method.parameters.map (·.annotations))[index]? = some uses := by
  cases amendment with
  | method added =>
      simp only [carried, List.mem_cons, Prod.mk.injEq, reduceCtorEq,
        false_and, false_or, List.mem_map, Prod.exists,
        List.mem_zipIdx_iff_getElem?]
      constructor
      · rintro ⟨_, _, here, same, rfl⟩
        obtain ⟨rfl, rfl⟩ := Element.parameter.inj same
        exact ⟨added, ⟨rfl, rfl⟩, here⟩
      · rintro ⟨method, ⟨same, rfl⟩, here⟩
        obtain rfl := Amendment.method.inj same
        exact ⟨uses, index, here, rfl, rfl⟩
  | origin _ | interface _ | generics _ | use _ | field _ | default _ _ =>
      simp [carried]

/-- The annotations on an element are those it had and those it is given. -/
theorem mem_elementUses_furnish
    (wellFormed : store.WellFormed)
    (suits : store.Suits origins decl amendment)
    {element : Element}
    {use : AnnotationUse} :
    use ∈ (store.furnish decl.name amendment).elementUses element ↔
      use ∈ store.elementUses element ∨
        ∃ uses, (element, uses) ∈ store.carried decl.name amendment ∧
          use ∈ uses := by
  cases element with
  | type name =>
      rw [elementUses_type, elementUses_type]
      by_cases here : name = decl.name
      · subst here
        rw [(adds_furnish wellFormed suits).annotations, List.mem_append]
        cases amendment <;> simp [Amendment.uses, carried]
      · rw [nodeOrBlank_furnish_of_ne here]
        cases amendment <;> simp [carried, here]
  | field id =>
      simp only [mem_elementUses_field_iff, field?_furnish wellFormed suits,
        field_mem_carried_iff, or_and_right, exists_or]
      refine or_congr_right ⟨?_, ?_⟩
      · rintro ⟨field, added, member⟩
        exact ⟨_, ⟨field, added, rfl⟩, member⟩
      · rintro ⟨_, ⟨field, added, rfl⟩, member⟩
        exact ⟨field, added, member⟩
  | method id =>
      simp only [mem_elementUses_method_iff, method?_furnish wellFormed suits,
        method_mem_carried_iff, or_and_right, exists_or]
      refine or_congr_right ⟨?_, ?_⟩
      · rintro ⟨method, added, member⟩
        exact ⟨_, ⟨method, added, rfl⟩, member⟩
      · rintro ⟨_, ⟨method, added, rfl⟩, member⟩
        exact ⟨method, added, member⟩
  | parameter id index =>
      simp only [mem_elementUses_parameter_iff,
        method?_furnish wellFormed suits, parameter_mem_carried_iff,
        or_and_right, exists_or]
      refine or_congr_right ⟨?_, ?_⟩
      · rintro ⟨method, added, uses, here, member⟩
        exact ⟨uses, ⟨method, added, here⟩, member⟩
      · rintro ⟨uses, ⟨method, added, here⟩, member⟩
        exact ⟨method, added, uses, here, member⟩

end Furnishing

/-! ## Marks and elements in step -/

/--
The marks on entries are those that elements call for, annotations are attached
to the elements that carry them and those of defaults to none, and only visited
types are annotated.
-/
structure Indexed (store : Store) : Prop where
  fieldUses :
    ∀ name id,
      store.Bears name (.fieldUse id) ↔
        ∃ field, store.field? id = some field ∧ field.type = ⟨name, true⟩
  annotated :
    ∀ name element,
      store.Bears name (.annotated element) ↔
        ∃ use ∈ store.elementUses element, use.type = ⟨name, true⟩
  attached :
    ∀ element, ∀ use ∈ store.elementUses element, use.StandsOn element
  visited :
    ∀ name, ∀ use ∈ store.elementUses (.type name),
      store.isVisited name = true
  defaults :
    ∀ name, ∀ entry ∈ (store.nodeOrBlank name).defaults,
      ∀ use ∈ entry.2.uses, use.element = none

namespace Indexed

/-- Nothing is marked and nothing annotated at the start. -/
theorem empty :
    Indexed {} := by
  have blank : ∀ name, nodeOrBlank {} name = Node.ofCategory .classType :=
    fun _ => rfl
  have fieldless : ∀ id, field? {} id = none := fun _ => rfl
  have useless : ∀ element, elementUses {} element = [] := by
    intro element
    cases element <;> rfl
  refine ⟨fun name id => ?_, fun name element => ?_, fun element => ?_,
    fun name => ?_, fun name => ?_⟩
  · simp [Bears, find?, fieldless]
  · simp [Bears, find?, useless]
  · simp [useless]
  · simp [useless]
  · simp [blank, Node.ofCategory, Node.defaults, Category.isExtensible]

/-- A plain change keeps marks and annotations in step. -/
theorem apply
    {origins : List Origin}
    {store : Store}
    {change : Change}
    (indexed : store.Indexed)
    (plain : change.Plain origins) :
    (change.apply store).Indexed := by
  have same := sameElements_apply plain store
  refine ⟨fun name id => ?_, fun name element => ?_, fun element => ?_,
    fun name => ?_, fun name => ?_⟩
  · have marks := bears_apply_of_plain plain store name
      (show (Mark.fieldUse id).LeadsToElement from trivial)
    rw [marks, same.field?]
    exact indexed.fieldUses name id
  · have marks := bears_apply_of_plain plain store name
      (show (Mark.annotated element).LeadsToElement from trivial)
    rw [marks, same.elementUses]
    exact indexed.annotated name element
  · rw [same.elementUses]
    exact indexed.attached element
  · rw [same.elementUses]
    intro use member
    exact isVisited_apply_of_isVisited (indexed.visited name use member) change
  · rw [(same name).defaults]
    exact indexed.defaults name

end Indexed

/-- An annotation that an addition brings is among what it refers to. -/
theorem type_mem_references
    {store : Store}
    {owner : TypeName}
    {amendment : Amendment}
    {element : Element}
    {uses : List AnnotationUse}
    {use : AnnotationUse}
    (carried : (element, uses) ∈ store.carried owner amendment)
    (used : use ∈ uses) :
    use.type ∈ amendment.references := by
  have own := use.type_mem_references
  cases element with
  | type name =>
      cases amendment <;> simp_all [Store.carried, Amendment.references]
  | field id =>
      obtain ⟨field, ⟨rfl, -⟩, rfl⟩ := field_mem_carried_iff.mp carried
      simp only [Amendment.references, Field.references, List.mem_cons,
        List.mem_append, List.mem_flatMap]
      exact Or.inr (Or.inr ⟨use, used, own⟩)
  | method id =>
      obtain ⟨method, ⟨rfl, -⟩, rfl⟩ := method_mem_carried_iff.mp carried
      simp only [Amendment.references, Method.references, List.mem_append,
        List.mem_flatMap]
      exact Or.inr ⟨use, used, own⟩
  | parameter id index =>
      obtain ⟨method, ⟨rfl, -⟩, here⟩ := parameter_mem_carried_iff.mp carried
      rw [List.getElem?_map, Option.map_eq_some_iff] at here
      obtain ⟨parameter, here, rfl⟩ := here
      have member : parameter ∈ method.parameters := List.mem_of_getElem? here
      have inside : use.type ∈ parameter.references := by
        simp only [Parameter.references, List.mem_cons, List.mem_append,
          List.mem_flatMap]
        exact Or.inr (Or.inr ⟨use, used, own⟩)
      simp only [Amendment.references, Method.references, List.mem_append,
        List.mem_flatMap]
      exact Or.inl (Or.inl (Or.inl ⟨parameter, member, inside⟩))

/-- The marks of an addition are made on entries that exist. -/
theorem Suits.marks_known
    {origins : List Origin}
    {store : Store}
    {decl : ClassDecl}
    {amendment : Amendment}
    (suits : store.Suits origins decl amendment)
    {name : TypeName}
    {mark : Mark}
    (member : .mark name mark ∈ store.marksOf decl.name amendment) :
    name ∈ store.names := by
  rcases List.mem_append.mp member with marked | typed
  · obtain ⟨⟨element, uses⟩, carried, marked⟩ := List.mem_flatMap.mp marked
    obtain ⟨use, used, tracked, same⟩ := mem_useMarks_iff.mp marked
    obtain ⟨rfl, -⟩ := Change.mark.inj same
    exact (suits.admitted _ (type_mem_references carried used)).1 tracked
  · split at typed
    · next added =>
        unfold Filing.fieldUseMarks at typed
        split at typed
        · next tracked =>
            obtain ⟨rfl, -⟩ := Change.mark.inj (List.mem_singleton.mp typed)
            exact (suits.admitted _ List.mem_cons_self).1 tracked
        · simp at typed
    · simp at typed

namespace Indexed

/-- An addition keeps marks and annotations in step. -/
theorem furnish
    {origins : List Origin}
    {store : Store}
    {decl : ClassDecl}
    {amendment : Amendment}
    (indexed : store.Indexed)
    (wellFormed : store.WellFormed)
    (suits : store.Suits origins decl amendment) :
    (store.furnish decl.name amendment).Indexed := by
  have bears :
      ∀ {name mark},
        (store.furnish decl.name amendment).Bears name mark ↔
          store.Bears name mark ∨
            .mark name mark ∈ store.marksOf decl.name amendment :=
    bears_furnish suits.entered.mem_names fun _ _ => suits.marks_known
  refine ⟨fun name id => ?_, fun name element => ?_,
    fun element use member => ?_, fun name use member => ?_,
    fun name entry member => ?_⟩
  · rw [bears, indexed.fieldUses, mark_fieldUse_mem_marksOf_iff]
    simp only [field?_furnish wellFormed suits, or_and_right, exists_or,
      and_assoc]
  · rw [bears, indexed.annotated, mark_annotated_mem_marksOf_iff]
    simp only [mem_elementUses_furnish wellFormed suits, or_and_right,
      exists_or]
    refine or_congr_right ⟨?_, ?_⟩
    · rintro ⟨given, carried, use, used, type⟩
      exact ⟨use, ⟨given, carried, used⟩, type⟩
    · rintro ⟨use, ⟨given, carried, used⟩, type⟩
      exact ⟨given, carried, use, used, type⟩
  · rcases (mem_elementUses_furnish wellFormed suits).mp member with
      old | ⟨given, carried, used⟩
    · exact indexed.attached element use old
    · exact suits.attached element given carried use used
  · have before : store.isVisited name = true := by
      rcases (mem_elementUses_furnish wellFormed suits).mp member with
        old | ⟨given, carried, -⟩
      · exact indexed.visited name use old
      · obtain ⟨-, visited, -⟩ := suits.entered
        rwa [eq_of_type_mem_carried carried]
    exact (evolves_furnish store decl.name amendment).isVisited before
  · by_cases here : name = decl.name
    · subst here
      rcases (adds_furnish wellFormed suits).defaults entry member with
        old | rfl
      · exact indexed.defaults _ entry old
      · exact suits.unattached _ _ rfl
    · rw [nodeOrBlank_furnish_of_ne here] at member
      exact indexed.defaults name entry member

end Indexed

/-- Whatever populates a store keeps its marks in step with its elements. -/
theorem Populates.indexed
    {origins : List Origin}
    {first last : Store}
    (populates : Populates origins first last)
    (wellFormed : first.WellFormed)
    (indexed : first.Indexed) :
    last.Indexed := by
  induction populates with
  | refl =>
      exact indexed
  | change change plain allowed _ inductionHypothesis =>
      exact inductionHypothesis (wellFormed.apply allowed)
        (indexed.apply plain)
  | furnish decl amendment suits _ inductionHypothesis =>
      exact inductionHypothesis
        ((evolves_furnish _ _ _).wellFormed wellFormed)
        (indexed.furnish wellFormed suits)

end Store

end TypeAtlas
