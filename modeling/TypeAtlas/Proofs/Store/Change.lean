import TypeAtlas.Entering.Visit
import TypeAtlas.Proofs.Store.Lookup

namespace TypeAtlas

/-!
# Changes of a store

Whatever is done to a store is done by changes of a few kinds, one after
another. A list of changes is a *script*. This module names the kinds, says
under which conditions each of them is made, and what each of them does to the
names, the nodes, the marks and the visited flags of a store. Everything that
holds of every store in the making is proved for one change and carried over
to scripts.
-/

/-! ## Marks -/

/-- A reverse reference, kept on the entry of the type it leads to. -/
inductive Mark where
  | annotated (element : Element)
  | fieldUse (id : FieldId)
  | subType (name : TypeName)
  | implementer (name : TypeName)
  deriving Repr, DecidableEq

namespace Entry

/-- Keep a mark, once. -/
def addMark (entry : Entry) : Mark → Entry
  | .annotated element => entry.addAnnotated element
  | .fieldUse id => entry.addFieldUse id
  | .subType name => entry.addSubType name
  | .implementer name => entry.addImplementer name

/-- The marks an entry keeps. -/
def Bears (entry : Entry) : Mark → Prop
  | .annotated element => element ∈ entry.annotated
  | .fieldUse id => id ∈ entry.fieldUses
  | .subType name => name ∈ entry.subTypes
  | .implementer name => name ∈ entry.implementers

/--
An item is there after it was added, next to those that were there before.
-/
theorem mem_addOnce
    [BEq α]
    [LawfulBEq α]
    {items : List α}
    {item other : α} :
    other ∈ addOnce items item ↔ other ∈ items ∨ other = item := by
  unfold addOnce
  split
  · next present =>
      have member : item ∈ items := List.contains_iff_mem.mp present
      constructor
      · exact Or.inl
      · rintro (old | rfl)
        · exact old
        · exact member
  · simp

/-- An entry bears the mark it is given, and those it bore before. -/
theorem bears_addMark
    {entry : Entry}
    {mark other : Mark} :
    (entry.addMark mark).Bears other ↔ entry.Bears other ∨ other = mark := by
  cases mark <;> cases other <;>
    simp [addMark, Bears, addAnnotated, addFieldUse, addSubType,
      addImplementer, mem_addOnce]

/-- A mark does not rename its entry. -/
@[simp] theorem name_addMark
    (entry : Entry)
    (mark : Mark) :
    (entry.addMark mark).name = entry.name := by
  cases mark <;> rfl

/-- A mark does not change the node of its entry. -/
@[simp] theorem node_addMark
    (entry : Entry)
    (mark : Mark) :
    (entry.addMark mark).node = entry.node := by
  cases mark <;> rfl

/-- A mark is not a visit. -/
@[simp] theorem visited_addMark
    (entry : Entry)
    (mark : Mark) :
    (entry.addMark mark).visited = entry.visited := by
  cases mark <;> rfl

/-- A mark does not file its entry under another category. -/
@[simp] theorem category_addMark
    (entry : Entry)
    (mark : Mark) :
    (entry.addMark mark).category = entry.category := by
  cases mark <;> rfl

/-- A mark leaves its entry in the pool it stands in. -/
@[simp] theorem pool_addMark
    (entry : Entry)
    (mark : Mark) :
    (entry.addMark mark).pool = entry.pool := by
  cases mark <;> rfl

end Entry

namespace Store

/-- Whether the entry of a name bears a mark. -/
def Bears
    (store : Store)
    (name : TypeName)
    (mark : Mark) :
    Prop :=
  ∃ entry, store.find? name = some entry ∧ entry.Bears mark

end Store

/-! ## Amendments -/

/-- What is added to the node of a type, its superclass apart. -/
inductive Amendment where
  | origin (visit : Visit)
  | interface (name : TypeName)
  | generics (said : ClassGenerics)
  | use (added : AnnotationUse)
  | field (added : Field)
  | method (added : Method)
  | default (element : String) (value : Value)

namespace Amendment

/-- Add to a node. -/
def apply : Amendment → Node → Node
  | .origin visit, node => visit.noteOrigin node
  | .interface name, node => node.addInterface (Reference.toType name)
  | .generics said, node =>
      let node :=
        match said.superclass with
        | some parent => node.setGenericParent parent
        | none => node
      let node := said.interfaces.foldl Node.addGenericInterface node
      node.addFormals said.formals
  | .use added, node => node.addUse added
  | .field added, node => node.addField added
  | .method added, node => node.addMethod added
  | .default element value, node => node.addDefault element value

end Amendment

/-! ## Changes -/

/-- One change of a store. -/
inductive Change where
  /-- Mention a name. -/
  | mention (name : TypeName) (hint : Option Category)
  /-- File a name under the category of its declaration. -/
  | file (name : TypeName) (category : Category)
  /-- Give a name a node. -/
  | found (name : TypeName) (category : Category)
  /-- Mark a name as visited under a category. -/
  | claim (name : TypeName) (category : Category)
  /-- Give a name a superclass, and the superclass a node. -/
  | link (name parent : TypeName)
  | mark (name : TypeName) (added : Mark)
  | amend (name : TypeName) (amendment : Amendment)
  /-- Take the first name off the worklist. -/
  | take

namespace Change

/-- The store after a change. -/
def apply (store : Store) : Change → Store
  | mention name hint => store.mention name hint
  | file name category =>
      match store.find? name with
      | none => store.add (Entry.ofName name (some category))
      | some _ => store.update name (·.fileUnder category)
  | found name category => store.update name (·.ensureNode category)
  | claim name category =>
      store.update name fun entry =>
        { entry with
          visited := true
          node := entry.node.map fun node =>
            { node with category := category } }
  | link name parent =>
      (store.update parent (·.ensureNode .classType)).updateNode name
        (·.setParent (Reference.toType parent))
  | mark name added => store.update name (·.addMark added)
  | amend name amendment => store.updateNode name amendment.apply
  | take => { store with pending := store.pending.drop 1 }

/--
When a change is made. Filing asks for a name that was not visited under
another category, claiming for a node that can take on the category it was
filed under, and linking for a superclass that does not inherit from the type.
-/
def Allowed (store : Store) : Change → Prop
  | file name category =>
      name ≠ TypeName.root ∧
        ∀ node, store.visitedNode? name = some node →
          node.category = category
  | claim name category =>
      ∃ entry node,
        store.find? name = some entry ∧
          entry.category = some category ∧
          entry.node = some node ∧
          (node.category = category ∨
            entry.visited = false ∧
              node.isExtensible = category.isExtensible)
  | link name parent =>
      parent ∈ store.names ∧
        parent ≠ name ∧
        store.inheritsFrom parent name = false
  | _ => True

end Change

namespace Store

/-- Make the changes of a script one after another. -/
def replay
    (store : Store)
    (script : List Change) :
    Store :=
  script.foldl Change.apply store

@[simp] theorem replay_nil
    (store : Store) :
    store.replay [] = store :=
  rfl

@[simp] theorem replay_cons
    (store : Store)
    (change : Change)
    (script : List Change) :
    store.replay (change :: script) = (change.apply store).replay script :=
  rfl

/-- Scripts are replayed one after the other. -/
theorem replay_append
    (store : Store)
    (first second : List Change) :
    store.replay (first ++ second) = (store.replay first).replay second := by
  simp [replay]

/-- One store becomes another by changes that are allowed when they are made. -/
inductive Evolves : Store → Store → Prop where
  | refl (store : Store) :
      Evolves store store
  | step
      {first last : Store}
      (change : Change) :
      change.Allowed first →
      Evolves (change.apply first) last →
      Evolves first last

namespace Evolves

theorem trans
    {first middle last : Store}
    (earlier : Evolves first middle)
    (later : Evolves middle last) :
    Evolves first last := by
  induction earlier with
  | refl =>
      exact later
  | step change allowed _ inductionHypothesis =>
      exact .step change allowed (inductionHypothesis later)

/-- A single allowed change. -/
theorem single
    {store : Store}
    (change : Change)
    (allowed : change.Allowed store) :
    Evolves store (change.apply store) :=
  .step change allowed (.refl _)

/-- A property that every allowed change keeps holds at the end. -/
theorem keeps
    {Holds : Store → Prop}
    (step :
      ∀ {store : Store} {change : Change},
        Holds store → change.Allowed store → Holds (change.apply store))
    {first last : Store}
    (evolves : Evolves first last)
    (start : Holds first) :
    Holds last := by
  induction evolves with
  | refl =>
      exact start
  | step _ allowed _ inductionHypothesis =>
      exact inductionHypothesis (step start allowed)

end Evolves

end Store

end TypeAtlas
