import TypeAtlas.Entering.Members
import TypeAtlas.Graph.Reach

namespace TypeAtlas

/-!
# Entering declarations

A declaration is entered in a fixed order of steps: its header, the annotations
on the type, its fields and methods in any order, and the end. A step out of
turn changes nothing. A type that was entered before takes on the supertypes
and the location of a further declaration, and nothing else of it.
-/

/-- A graph in the making: settings, the store, the problems met so far. -/
structure Atlas where
  settings : Settings := {}
  store : Store := {}
  problems : List Problem := []
  deriving Repr

namespace Atlas

/-- Keep a problem. -/
def report
    (atlas : Atlas)
    (problem : Problem) :
    Atlas :=
  { atlas with problems := atlas.problems ++ [problem] }

/-- Run a step on the store. -/
def file
    (atlas : Atlas)
    (step : Filing α) :
    α × Atlas :=
  let (result, store) := step.run atlas.store
  (result, { atlas with store := store })

end Atlas

/-! ## Supertypes -/

namespace Store

/--
Make a name the superclass of a type.

The name is mentioned as a class. If the type is among its own ancestors then,
nothing more happens. Otherwise the superclass gets at least a placeholder, and
becomes the superclass unless the type has another one already.
-/
def linkParent
    (store : Store)
    (name parent : TypeName) :
    Store × Option Problem :=
  if parent = TypeName.root then
    (store, none)
  else
    let store := store.mention parent (some .classType)
    if parent = name ∨ store.inheritsFrom parent name then
      (store, some (.cyclicInheritance name parent))
    else
      let store := store.update parent (·.ensureNode .classType)
      let store :=
        store.updateNode name (·.setParent (Reference.toType parent))
      let chosen :=
        ((store.node? name).bind (·.lineage.parent)).map (·.name)
      if chosen = some parent then
        (store.update parent (·.addSubType name), none)
      else
        (store, none)

/-- Make a name an interface of a type of the given category. -/
def linkInterface
    (store : Store)
    (name : TypeName)
    (category : Category)
    (interface : TypeName) :
    Store :=
  let reference := Reference.toType interface
  let store := store.mention interface (some .interfaceType)
  let store := store.updateReferent reference fun entry =>
    if category = .interfaceType then
      entry.addSubType name
    else
      entry.addImplementer name
  store.updateNode name (·.addInterface reference)

/-- Take over what a class signature says about a type. -/
def linkSignature
    (store : Store)
    (name : TypeName)
    (signature : String) :
    Store :=
  let (resolved, store) := (Filing.resolveClass signature).run store
  match resolved with
  | none => store
  | some generics =>
      store.updateNode name fun node =>
        let node :=
          match generics.superclass with
          | some parent => node.setGenericParent parent
          | none => node
        let node := generics.interfaces.foldl Node.addGenericInterface node
        node.addFormals generics.formals

/-- Give a type its superclass and interfaces. -/
def linkSupertypes
    (store : Store)
    (category : Category)
    (decl : ClassDecl) :
    Store × Option Problem :=
  let (store, problem) :=
    match decl.superName with
    | some parent => store.linkParent decl.name parent
    | none => (store, none)
  let store := decl.interfaces.foldl
    (·.linkInterface decl.name category ·) store
  let store :=
    match decl.signature with
    | some signature => store.linkSignature decl.name signature
    | none => store
  (store, problem)

/--
Mark a type as entered under a category.

A placeholder may still change its category, but not between annotation types
and the others. Gives whether the type was entered for the first time.
-/
def claim
    (store : Store)
    (name : TypeName)
    (category : Category) :
    Except Problem (Bool × Store) :=
  match store.find? name with
  | none => .error .implicitRoot
  | some entry =>
      let existing := (entry.node.map (·.category)).getD category
      let extensible := (entry.node.map (·.isExtensible)).getD true
      if existing ≠ category
          ∧ (entry.visited ∨ extensible ≠ category.isExtensible) then
        .error (.categoryConflict name existing category)
      else
        .ok (!entry.visited, store.update name fun entry =>
          { entry with
            visited := true
            node := entry.node.map fun node =>
              { node with category := category } })

end Store

/-! ## Visits -/

/-- The type whose declaration is being entered. -/
structure Current where
  name : TypeName
  category : Category
  /-- Whether members are entered. -/
  deep : Bool
  /-- Whether the type had been entered before. -/
  merging : Bool
  deriving Repr, DecidableEq

/-- How far a visit has come. -/
inductive Progress where
  | start
  | header (current : Current)
  | members (current : Current)
  | ended
  deriving Repr, DecidableEq

/-- The stage of a visit. -/
def Progress.stage : Progress → Stage
  | start => .start
  | header _ => .header
  | members _ => .members
  | ended => .ended

/-- The entering of one declaration, found at a location. -/
structure Visit where
  location : Option String := none
  isApplication : Bool := true
  progress : Progress := .start
  deriving Repr, DecidableEq

/-- What a step of a visit leaves behind, and its answer. -/
structure Outcome (α : Type) where
  visit : Visit
  atlas : Atlas
  answer : Except Problem α

namespace Visit

/-- Refuse a step that is out of turn. -/
def refuse
    (visit : Visit)
    (atlas : Atlas)
    (operation : Operation) :
    Outcome α :=
  ⟨visit, atlas, .error (.outOfTurn operation visit.progress.stage)⟩

/-- Note where a type was found. -/
def noteOrigin
    (visit : Visit)
    (node : Node) :
    Node :=
  let node :=
    match visit.location with
    | some location => node.addLocation location
    | none => node
  { node with isApplication := node.isApplication || visit.isApplication }

/-- Enter the header of a declaration; the answer is the type's name. -/
def header
    (visit : Visit)
    (atlas : Atlas)
    (decl : ClassDecl) :
    Outcome TypeName :=
  match visit.progress with
  | .start =>
      let category := decl.category
      match atlas.store.define decl.name category with
      | .error problem => ⟨visit, atlas, .error problem⟩
      | .ok store =>
          let store := store.update decl.name (·.ensureNode category)
          match store.claim decl.name category with
          | .error problem =>
              ⟨visit, { atlas with store := store }, .error problem⟩
          | .ok (first, store) =>
              let store := store.updateNode decl.name visit.noteOrigin
              let (store, problem) :=
                if category.isExtensible then
                  store.linkSupertypes category decl
                else
                  (store, none)
              let atlas : Atlas :=
                { atlas with
                  store := store
                  problems := atlas.problems ++ problem.toList }
              let current : Current :=
                { name := decl.name
                  category := category
                  deep := atlas.settings.alwaysDeep
                  merging := !first }
              ⟨{ visit with progress := .header current }, atlas,
                .ok decl.name⟩
  | _ => visit.refuse atlas .header

/--
Enter an annotation on the type itself. One that is of interest opens the way
to the members.
-/
def annotate
    (visit : Visit)
    (atlas : Atlas)
    (decl : AnnotationDecl) :
    Outcome Unit :=
  match visit.progress with
  | .header current =>
      if current.merging then
        ⟨visit, atlas, .ok ()⟩
      else
        let (use, atlas) := atlas.file (Filing.takeUse decl)
        let element := Element.type current.name
        let store := atlas.store.recordUses [use] element
        let store := store.updateNode current.name
          (·.addUse (use.attach element))
        let deep :=
          current.deep || atlas.settings.isOfInterest use.type.name
        ⟨{ visit with progress := .header { current with deep := deep } },
          { atlas with store := store }, .ok ()⟩
  | _ => visit.refuse atlas .annotate

/-- The type whose members may be entered now. -/
def openMembers? (visit : Visit) : Option Current :=
  match visit.progress with
  | .header current => some current
  | .members current => some current
  | _ => none

/-- Enter a field; the answer is the field, if it was kept. -/
def field
    (visit : Visit)
    (atlas : Atlas)
    (decl : FieldDecl) :
    Outcome (Option FieldId) :=
  match visit.openMembers? with
  | none => visit.refuse atlas .field
  | some current =>
      let visit := { visit with progress := .members current }
      if current.merging || !current.deep || decl.isSynthetic then
        ⟨visit, atlas, .ok none⟩
      else if current.category = .annotationType then
        if decl.isStatic then
          ⟨visit, atlas, .ok none⟩
        else
          ⟨visit, atlas, .error (.unsupportedMember current.name decl.name)⟩
      else
        let (answer, atlas) :=
          atlas.file (Filing.enterField atlas.settings current.name decl)
        ⟨visit, atlas, answer⟩

/--
Enter a method; the answer is the method, if it was kept. The default of an
annotation type's element is recorded even if the method is not.
-/
def method
    (visit : Visit)
    (atlas : Atlas)
    (decl : MethodDecl) :
    Outcome (Option MethodId) :=
  match visit.openMembers? with
  | none => visit.refuse atlas .method
  | some current =>
      let visit := { visit with progress := .members current }
      if current.merging || decl.isSynthetic || decl.isInitializer then
        ⟨visit, atlas, .ok none⟩
      else
        let atlas :=
          if current.category = .annotationType then
            (atlas.file (Filing.enterDefault current.name decl)).2
          else
            atlas
        if current.deep then
          let (answer, atlas) :=
            atlas.file (Filing.enterMethod atlas.settings current.name decl)
          ⟨visit, atlas, answer⟩
        else
          ⟨visit, atlas, .ok none⟩

/-- End the visit; the answer is the type's name. -/
def finish
    (visit : Visit)
    (atlas : Atlas) :
    Outcome TypeName :=
  match visit.openMembers? with
  | none => visit.refuse atlas .finish
  | some current =>
      ⟨{ visit with progress := .ended }, atlas, .ok current.name⟩

/-- Keep the problem of a step, if it had one. -/
def settle (outcome : Outcome α) : Visit × Atlas :=
  match outcome.answer with
  | .ok _ => (outcome.visit, outcome.atlas)
  | .error problem => (outcome.visit, outcome.atlas.report problem)

/-- Take steps one after another, keeping their problems. -/
def settleAll
    (step : Visit → Atlas → δ → Outcome α)
    (decls : List δ)
    (start : Visit × Atlas) :
    Visit × Atlas :=
  decls.foldl (fun (visit, atlas) decl => settle (step visit atlas decl)) start

/--
Enter a whole declaration, keeping all problems. The answer is the type's name,
or `none` if the declaration was passed over.
-/
def accept
    (visit : Visit)
    (atlas : Atlas)
    (decl : ClassDecl) :
    Option TypeName × Atlas :=
  if decl.name = TypeName.root then
    (none, atlas)
  else
    let opened := visit.header atlas decl
    match opened.answer with
    | .error problem => (none, opened.atlas.report problem)
    | .ok name =>
        let state := (opened.visit, opened.atlas)
        let state := settleAll annotate decl.annotations state
        let state := settleAll field decl.fields state
        let state := settleAll method decl.methods state
        let (_, atlas) := settle (finish state.1 state.2)
        (some name, atlas)

end Visit

namespace Atlas

/-- Enter a whole declaration that was found at a location. -/
def enter
    (atlas : Atlas)
    (decl : ClassDecl)
    (location : Option String)
    (isApplication : Bool) :
    Option TypeName × Atlas :=
  Visit.accept { location := location, isApplication := isApplication }
    atlas decl

end Atlas

end TypeAtlas
