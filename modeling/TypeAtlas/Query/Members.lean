import TypeAtlas.Query.Hierarchy

namespace TypeAtlas.Store

/-!
# Looking up members

Members are looked up by their place in the type that declares them.
-/

/-- The entry behind a reference, if it has one. -/
def referent?
    (store : Store)
    (reference : Reference) :
    Option Entry :=
  if reference.tracked then store.find? reference.name else none

/-- The node behind a reference, placeholders included. -/
def referentNode?
    (store : Store)
    (reference : Reference) :
    Option Node :=
  (store.referent? reference).bind (·.node)

/-- Whether the type behind a reference has been entered. -/
def isResolved
    (store : Store)
    (reference : Reference) :
    Bool :=
  ((store.referent? reference).bind (·.visitedNode?)).isSome

/-- The field at a place. -/
def field?
    (store : Store)
    (id : FieldId) :
    Option Field :=
  (store.node? id.owner).bind fun node => (node.fieldsOf id.isStatic)[id.index]?

/-- The method at a place. -/
def method?
    (store : Store)
    (id : MethodId) :
    Option Method :=
  (store.node? id.owner).bind fun node => node.methods[id.index]?

/-- The parameter at a place. -/
def parameter?
    (store : Store)
    (id : MethodId)
    (index : Nat) :
    Option Parameter :=
  (store.method? id).bind fun method => method.parameters[index]?

/-- The name of an element. -/
def elementName?
    (store : Store) :
    Element → Option String
  | .type name => some name
  | .field id => (store.field? id).map (·.name)
  | .method id => (store.method? id).map (·.name)
  | .parameter id index => (store.parameter? id index).map (·.name)

/-- The annotations of an element. -/
def elementUses
    (store : Store) :
    Element → List AnnotationUse
  | .type name => ((store.node? name).map (·.annotations)).getD []
  | .field id => ((store.field? id).map (·.annotations)).getD []
  | .method id => ((store.method? id).map (·.annotations)).getD []
  | .parameter id index =>
      ((store.parameter? id index).map (·.annotations)).getD []

/-- The places of the fields of one kind. -/
def fieldIds
    (store : Store)
    (owner : TypeName)
    (isStatic : Bool) :
    List FieldId :=
  let count := ((store.node? owner).map (·.fieldsOf isStatic |>.length)).getD 0
  (List.range count).map fun index => ⟨owner, isStatic, index⟩

/-- The places of the methods. -/
def methodIds
    (store : Store)
    (owner : TypeName) :
    List MethodId :=
  let count := ((store.node? owner).map (·.methods.length)).getD 0
  (List.range count).map fun index => ⟨owner, index⟩

/-- The first field of a name, instance fields before static ones. -/
def findField?
    (store : Store)
    (owner : TypeName)
    (name : String) :
    Option FieldId :=
  (store.fieldIds owner false ++ store.fieldIds owner true).find? fun id =>
    (store.field? id).any (·.name == name)

end TypeAtlas.Store
