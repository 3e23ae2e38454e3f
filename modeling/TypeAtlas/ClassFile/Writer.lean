import TypeAtlas.ClassFile.Reader

namespace TypeAtlas.ClassFile

/-!
# Writing class files

The bytes of a declaration: the constant table, then the header, the fields,
the methods and the attributes. Constants are requested in the order in which
they are met, the name of an attribute after its content, so the table is known
only when everything after it has been written. Code is never written.
-/

/-- The bytes of steps run one after another. -/
def writeEach
    (write : α → Write Bytes) :
    List α → Write Bytes
  | [] => return []
  | item :: items => do
      let first ← write item
      let rest ← writeEach write items
      return first ++ rest

/-- A two-byte field that holds an index. -/
def writeIndex (request : Write UInt16) : Write Bytes := do
  return writeU2 (← request)

/-! ## Annotations -/

/-- A tag followed by the index of a constant. -/
def writeTagged
    (tag : Char)
    (request : Write UInt16) :
    Write Bytes := do
  return tag.toUInt8 :: writeU2 (← request)

/-- The bytes of a plain value. -/
def writeScalar : Scalar → Write Bytes
  | .byte value => writeTagged 'B' (intern (.integer value.toInt32))
  | .char value => writeTagged 'C' (intern (.integer value.val.toInt32))
  | .short value => writeTagged 'S' (intern (.integer value.toInt32))
  | .boolean value =>
      writeTagged 'Z' (intern (.integer (if value then 1 else 0)))
  | .int value => writeTagged 'I' (intern (.integer value))
  | .long value => writeTagged 'J' (intern (.long value))
  | .float bits => writeTagged 'F' (intern (.float bits))
  | .double bits => writeTagged 'D' (intern (.double bits))
  | .text value => writeTagged 's' (internText value)

mutual

/-- The bytes of an element value. -/
def writeValue : ElementValue → Write Bytes
  | .scalar value => writeScalar value
  | .enumConstant descriptor constant => do
      let type ← writeIndex (internText descriptor)
      let name ← writeIndex (internText constant)
      return 'e'.toUInt8 :: type ++ name
  | .classLiteral descriptor => writeTagged 'c' (internText descriptor)
  | .annotated decl => do
      return '@'.toUInt8 :: (← writeAnnotationDecl decl)
  | .array items => do
      return '['.toUInt8 :: count16 items ++ (← writeItems items)

/-- The bytes of the items of an array. -/
def writeItems : List ElementValue → Write Bytes
  | [] => return []
  | item :: items => do
      let first ← writeValue item
      let rest ← writeItems items
      return first ++ rest

/-- The bytes of an annotation. -/
def writeAnnotationDecl : AnnotationDecl → Write Bytes
  | ⟨descriptor, _, values⟩ => do
      let type ← writeIndex (internText descriptor)
      return type ++ count16 values ++ (← writePairs values)

/-- The bytes of named element values. -/
def writePairs : List (String × ElementValue) → Write Bytes
  | [] => return []
  | (key, value) :: pairs => do
      let name ← writeIndex (internText key)
      let first ← writeValue value
      let rest ← writePairs pairs
      return name ++ first ++ rest

end

/-- A counted list of annotations. -/
def writeAnnotations (annotations : List AnnotationDecl) : Write Bytes := do
  return count16 annotations ++ (← writeEach writeAnnotationDecl annotations)

/-! ## Attributes -/

/-- An attribute by name, with its content. -/
abbrev Attribute :=
  String × Bytes

/-- The attribute that holds a signature, if there is one. -/
def signatureAttributes : Option String → Write (List Attribute)
  | none => return []
  | some signature => do
      return [("Signature", ← writeIndex (internText signature))]

/-- The annotations of one visibility. -/
def ofVisibility
    (visible : Bool)
    (annotations : List AnnotationDecl) :
    List AnnotationDecl :=
  annotations.filter (·.visible == visible)

/-- The attribute that holds the annotations of one visibility. -/
def annotationAttribute
    (name : String)
    (visible : Bool)
    (annotations : List AnnotationDecl) :
    Write (List Attribute) := do
  let selected := ofVisibility visible annotations
  if selected.isEmpty then
    return []
  else
    return [(name, ← writeAnnotations selected)]

/-- The attributes that hold annotations, visible ones first. -/
def annotationAttributes
    (annotations : List AnnotationDecl) :
    Write (List Attribute) := do
  let visible ← annotationAttribute
    "RuntimeVisibleAnnotations" true annotations
  let invisible ← annotationAttribute
    "RuntimeInvisibleAnnotations" false annotations
  return visible ++ invisible

/-- The attribute that holds the parameter annotations of one visibility. -/
def parameterAttribute
    (name : String)
    (visible : Bool)
    (table : List (List AnnotationDecl)) :
    Write (List Attribute) := do
  let selected := table.map (ofVisibility visible)
  if selected.all (·.isEmpty) then
    return []
  else
    let slots ← writeEach writeAnnotations selected
    return [(name, count8 table ++ slots)]

/-- The attributes that hold parameter annotations, visible ones first. -/
def parameterAttributes
    (table : List (List AnnotationDecl)) :
    Write (List Attribute) := do
  let visible ← parameterAttribute
    "RuntimeVisibleParameterAnnotations" true table
  let invisible ← parameterAttribute
    "RuntimeInvisibleParameterAnnotations" false table
  return visible ++ invisible

/-- The attribute that holds the default of an annotation element. -/
def defaultAttributes : Option ElementValue → Write (List Attribute)
  | none => return []
  | some value => do
      return [("AnnotationDefault", ← writeValue value)]

/-- The two fields of a parameter name. -/
def writeParameterName : Option String → Write Bytes
  | none => return writeU2 0 ++ writeU2 0
  | some name => do
      return writeU2 (← internText name) ++ writeU2 0

/-- The attribute that holds parameter names. -/
def nameAttributes (names : List (Option String)) : Write (List Attribute) := do
  if names.isEmpty then
    return []
  else
    let entries ← writeEach writeParameterName names
    return [("MethodParameters", count8 names ++ entries)]

/-- One attribute. -/
def writeAttribute : Attribute → Write Bytes
  | (name, content) => do
      let index ← writeIndex (internText name)
      return index ++ writeU4 (UInt32.ofNat content.length) ++ content

/-- A counted list of attributes. -/
def writeAttributes (attributes : List Attribute) : Write Bytes := do
  return count16 attributes ++ (← writeEach writeAttribute attributes)

/-! ## Members and classes -/

/-- The bytes of a field. -/
def writeField (field : FieldDecl) : Write Bytes := do
  let name ← writeIndex (internText field.name)
  let descriptor ← writeIndex (internText field.descriptor)
  let signature ← signatureAttributes field.signature
  let annotations ← annotationAttributes field.annotations
  let attributes ← writeAttributes (signature ++ annotations)
  return writeU2 field.access ++ name ++ descriptor ++ attributes

/-- The bytes of a method. -/
def writeMethod (method : MethodDecl) : Write Bytes := do
  let name ← writeIndex (internText method.name)
  let descriptor ← writeIndex (internText method.descriptor)
  let signature ← signatureAttributes method.signature
  let annotations ← annotationAttributes method.annotations
  let parameters ← parameterAttributes method.parameterAnnotations
  let default ← defaultAttributes method.default
  let names ← nameAttributes method.parameterNames
  let attributes ← writeAttributes
    (signature ++ annotations ++ parameters ++ default ++ names)
  return writeU2 method.access ++ name ++ descriptor ++ attributes

/-- The index of a superclass, zero standing for none. -/
def writeSuper : Option TypeName → Write Bytes
  | none => return writeU2 0
  | some name => writeIndex (internClass name)

/-- The bytes of a class after the constant table. -/
def writeBody (decl : ClassDecl) : Write Bytes := do
  let thisClass ← writeIndex (internClass decl.name)
  let superClass ← writeSuper decl.superName
  let interfaces ← writeEach (writeIndex <| internClass ·) decl.interfaces
  let fields ← writeEach writeField decl.fields
  let methods ← writeEach writeMethod decl.methods
  let signature ← signatureAttributes decl.signature
  let annotations ← annotationAttributes decl.annotations
  let attributes ← writeAttributes (signature ++ annotations)
  return writeU2 decl.access ++ thisClass ++ superClass
    ++ count16 decl.interfaces ++ interfaces
    ++ count16 decl.fields ++ fields
    ++ count16 decl.methods ++ methods
    ++ attributes

/-- The bytes of a class. -/
def encode (decl : ClassDecl) : Bytes :=
  let (body, draft) := (writeBody decl).run []
  writeU4 magic ++ writeU2 0 ++ writeU2 decl.majorVersion
    ++ draft.bytes ++ body

end TypeAtlas.ClassFile
