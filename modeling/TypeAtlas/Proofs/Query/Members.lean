import TypeAtlas.Proofs.Entering.Populating
import TypeAtlas.Proofs.Graph.Indexes
import TypeAtlas.Proofs.Graph.Supertypes

namespace TypeAtlas

/-!
# Members and annotations by type

From the entry of a type one can ask for the fields of that type and for the
elements that carry an annotation of it. In every store of a session the answers
are exact: nothing that is in the graph is left out, and nothing is listed that
is not there.
-/

namespace Store

/-- An element of the graph: an entered type, or a member that was kept. -/
def Contains (store : Store) : Element → Prop
  | .type name => store.isVisited name = true
  | .field id => (store.field? id).isSome
  | .method id => (store.method? id).isSome
  | .parameter id index => (store.parameter? id index).isSome

/-- What carries an annotation is an element of the graph. -/
theorem Indexed.contains
    {store : Store}
    (indexed : store.Indexed)
    {element : Element}
    {use : AnnotationUse}
    (carried : use ∈ store.elementUses element) :
    store.Contains element := by
  cases element with
  | type name =>
      exact indexed.visited name use carried
  | field id =>
      cases known : store.field? id <;>
        simp_all [Contains, elementUses]
  | method id =>
      cases known : store.method? id <;>
        simp_all [Contains, elementUses]
  | parameter id index =>
      cases known : store.parameter? id index <;>
        simp_all [Contains, elementUses]

theorem mem_annotatedElements_iff
    {store : Store}
    {name : TypeName}
    {element : Element} :
    element ∈ store.annotatedElements name ↔
      store.Bears name (.annotated element) := by
  cases known : store.find? name <;>
    simp [annotatedElements, Bears, Entry.Bears, known]

end Store

namespace Session

theorem store_indexed
    (acts : List Act) :
    (Session.run {} acts).atlas.store.Indexed :=
  (run_populates acts).indexed Store.wellFormed_empty .empty

/--
Whatever is done in a session, the entry of a type lists a field exactly when
the field is there and its type is a tracked reference to that name, and it
lists an element exactly when the element is there and carries an annotation of
that type itself, both at most once. An annotation on an element is of a class,
or of no type at all if its descriptor is that of no class; it is attached to
the element with all annotations in it. Annotations in defaults are attached to
none.
-/
theorem members_indexed
    (acts : List Act) :
    let store := (Session.run {} acts).atlas.store
    (∀ name id,
      (∃ entry, store.find? name = some entry ∧ id ∈ entry.fieldUses) ↔
        ∃ field,
          store.field? id = some field ∧
            field.type.tracked = true ∧
            field.type.name = name) ∧
      (∀ name element, name ≠ TypeName.root →
        (element ∈ store.annotatedElements name ↔
          store.Contains element ∧
            ∃ use ∈ store.elementUses element,
              use.type = Reference.toType name)) ∧
      (∀ name entry, store.find? name = some entry →
        entry.fieldUses.Nodup ∧ entry.annotated.Nodup) ∧
      (∀ element, ∀ use ∈ store.elementUses element,
        (use.type = Reference.toType use.type.name ∨
          use.type = Reference.untracked use.type.name ∧
            ∀ name, Descriptor.parse use.type.name ≠ .ok (.object name)) ∧
          use.element = some element ∧
          ∀ inner ∈ use.nested, inner.element = some element) ∧
      ∀ name node, store.node? name = some node →
        ∀ default ∈ node.defaults, ∀ use ∈ default.2.uses,
          use.element = none := by
  intro store
  have indexed : store.Indexed := store_indexed acts
  have once :
      ∀ name entry, store.find? name = some entry → entry.Once :=
    (Session.run_evolves {} acts).once (by simp [Store.find?])
  refine ⟨fun name id => ?_, fun name element tracked => ?_,
    fun name entry found => ?_, fun element use carried => ?_,
    fun name node installed => ?_⟩
  · refine (indexed.fieldUses name id).trans (exists_congr fun field => ?_)
    refine and_congr_right fun _ => ?_
    obtain ⟨type, isTracked⟩ := field.type
    simp [and_comm]
  · have type : Reference.toType name = ⟨name, true⟩ := by
      simp [Reference.toType, tracked]
    rw [Store.mem_annotatedElements_iff, indexed.annotated, type]
    constructor
    · rintro ⟨use, carried, typed⟩
      exact ⟨indexed.contains carried, use, carried, typed⟩
    · exact And.right
  · exact ⟨(once name entry found).fieldUses, (once name entry found).annotated⟩
  · have stands := indexed.attached element use carried
    exact ⟨stands.type.eq_or, stands.attached, stands.nested⟩
  · have blank := indexed.defaults name
    rwa [Store.nodeOrBlank, installed] at blank

/-- A field whose annotation has another one in a sequence. -/
def annotatedField : List Act :=
  [.visit none true,
    .accept 0
      { access := 0x1
        name := "c.Owner"
        fields :=
          [{ access := 0x2
             name := "item"
             descriptor := "Lc/Item;"
             annotations :=
               [{ descriptor := "Lc/Mark;"
                  values :=
                    [("parts",
                      .array [.annotated { descriptor := "Lc/Part;" }])] }] }] }]

/-- The field is listed under its annotation, and not under the inner one. -/
theorem members_indexed_annotatedField :
    let store := (Session.run {} annotatedField).atlas.store
    let element := Element.field ⟨"c.Owner", false, 0⟩
    "c.Mark" ≠ TypeName.root ∧
      store.annotatedElements "c.Mark" = [element] ∧
      store.annotatedElements "c.Part" = [] ∧
      ∃ use ∈ store.elementUses element,
        use.type = Reference.toType "c.Mark" ∧
          use.element = some element ∧
          ∀ inner ∈ use.nested, inner.element = some element := by
  intro store element
  have tracked : "c.Mark" ≠ TypeName.root := by decide
  have listed : store.annotatedElements "c.Mark" = [element] := by
    decide +kernel
  obtain ⟨-, annotated, -, attached, -⟩ := members_indexed annotatedField
  have member : element ∈ store.annotatedElements "c.Mark" := by
    rw [listed]
    exact List.mem_cons_self
  obtain ⟨-, use, carried, type⟩ :=
    (annotated "c.Mark" element tracked).mp member
  obtain ⟨-, outer, inner⟩ := attached element use carried
  exact ⟨tracked, listed, by decide +kernel, use, carried, type, outer, inner⟩

end Session

end TypeAtlas
