import TypeAtlas.ClassFile.Writer

namespace TypeAtlas

/-!
# Canonical declarations

A class file says less than a declaration can. Names are read with dots. The
annotations of one visibility are kept together, visible ones first, and the
annotations inside an annotation have no visibility of their own. A table of
parameter annotations without any annotation is not written at all. What is
left of a declaration when these distinctions are dropped is its canonical
form.

The module also says which declarations fit the format: texts, lists, tables
and contents of attributes are counted on one, two or four bytes.
-/

/-! ## Visibility -/

mutual

/-- The value with all annotations inside it of one visibility. -/
def ElementValue.withVisibility
    (visible : Bool) :
    ElementValue → ElementValue
  | .scalar value => .scalar value
  | .enumConstant descriptor constant => .enumConstant descriptor constant
  | .classLiteral descriptor => .classLiteral descriptor
  | .annotated decl => .annotated (decl.withVisibility visible)
  | .array items => .array (ElementValue.itemsWithVisibility visible items)

/-- Values with all annotations inside them of one visibility. -/
def ElementValue.itemsWithVisibility
    (visible : Bool) :
    List ElementValue → List ElementValue
  | [] => []
  | item :: items =>
      item.withVisibility visible ::
        ElementValue.itemsWithVisibility visible items

/-- The annotation with itself and all inside it of one visibility. -/
def AnnotationDecl.withVisibility
    (visible : Bool) :
    AnnotationDecl → AnnotationDecl
  | ⟨descriptor, _, values⟩ =>
      ⟨descriptor, visible, AnnotationDecl.pairsWithVisibility visible values⟩

/-- Named values with all annotations inside them of one visibility. -/
def AnnotationDecl.pairsWithVisibility
    (visible : Bool) :
    List (String × ElementValue) → List (String × ElementValue)
  | [] => []
  | (key, value) :: pairs =>
      (key, value.withVisibility visible) ::
        AnnotationDecl.pairsWithVisibility visible pairs

end

/-! ## Canonical forms -/

/-- Visible annotations before the others, each of one visibility throughout. -/
def canonicalAnnotations
    (annotations : List AnnotationDecl) :
    List AnnotationDecl :=
  (annotations.filter (·.visible) ++ annotations.filter (!·.visible)).map
    fun annotation => annotation.withVisibility annotation.visible

/-- A table with canonical slots, empty if it holds no annotation. -/
def canonicalTable
    (table : List (List AnnotationDecl)) :
    List (List AnnotationDecl) :=
  if table.all (·.isEmpty) then [] else table.map canonicalAnnotations

def FieldDecl.canonical (field : FieldDecl) : FieldDecl :=
  { field with annotations := canonicalAnnotations field.annotations }

def MethodDecl.canonical (method : MethodDecl) : MethodDecl :=
  { method with
    annotations := canonicalAnnotations method.annotations
    parameterAnnotations := canonicalTable method.parameterAnnotations
    default := method.default.map (·.withVisibility true) }

/-- What a class file keeps of a declaration. -/
def ClassDecl.canonical (decl : ClassDecl) : ClassDecl :=
  { decl with
    name := TypeName.ofInternal decl.name
    superName := decl.superName.map TypeName.ofInternal
    interfaces := decl.interfaces.map TypeName.ofInternal
    annotations := canonicalAnnotations decl.annotations
    fields := decl.fields.map (·.canonical)
    methods := decl.methods.map (·.canonical) }

/-! ## Sizes -/

mutual

/-- The number of bytes an element value is written on. -/
def ElementValue.byteSize : ElementValue → Nat
  | .scalar _ => 3
  | .enumConstant _ _ => 5
  | .classLiteral _ => 3
  | .annotated decl => 1 + decl.byteSize
  | .array items => 3 + ElementValue.byteSizeOfItems items

/-- The number of bytes values are written on. -/
def ElementValue.byteSizeOfItems : List ElementValue → Nat
  | [] => 0
  | item :: items => item.byteSize + ElementValue.byteSizeOfItems items

/-- The number of bytes an annotation is written on. -/
def AnnotationDecl.byteSize : AnnotationDecl → Nat
  | ⟨_, _, values⟩ => 4 + AnnotationDecl.byteSizeOfPairs values

/-- The number of bytes named values are written on. -/
def AnnotationDecl.byteSizeOfPairs : List (String × ElementValue) → Nat
  | [] => 0
  | (_, value) :: pairs =>
      2 + value.byteSize + AnnotationDecl.byteSizeOfPairs pairs

end

namespace ClassFile

/-- The number of bytes items are written on, one behind the other. -/
def totalSize (size : α → Nat) : List α → Nat
  | [] => 0
  | item :: items => size item + totalSize size items

/-- The number of bytes a counted list of annotations is written on. -/
def annotationsSize (annotations : List AnnotationDecl) : Nat :=
  2 + totalSize (·.byteSize) annotations

/-! ## Limits -/

/-- A text of at most 65535 bytes. -/
def Short (text : String) : Prop :=
  (encodeText text).length ≤ 65535

instance (text : String) : Decidable (Short text) :=
  inferInstanceAs (Decidable (_ ≤ _))

end ClassFile

open ClassFile

mutual

/-- The texts and lists of an element value fit the format. -/
def ElementValue.Fits : ElementValue → Prop
  | .scalar (.text value) => Short value
  | .scalar _ => True
  | .enumConstant descriptor constant => Short descriptor ∧ Short constant
  | .classLiteral descriptor => Short descriptor
  | .annotated decl => decl.Fits
  | .array items => items.length ≤ 65535 ∧ ElementValue.FitItems items

def ElementValue.FitItems : List ElementValue → Prop
  | [] => True
  | item :: items => item.Fits ∧ ElementValue.FitItems items

/-- The texts and lists of an annotation fit the format. -/
def AnnotationDecl.Fits : AnnotationDecl → Prop
  | ⟨descriptor, _, values⟩ =>
      Short descriptor ∧ values.length ≤ 65535 ∧
        AnnotationDecl.FitPairs values

def AnnotationDecl.FitPairs : List (String × ElementValue) → Prop
  | [] => True
  | (key, value) :: pairs =>
      Short key ∧ value.Fits ∧ AnnotationDecl.FitPairs pairs

end

namespace ClassFile

/-- Annotations fit the format, those of each visibility in a list. -/
structure AnnotationsFit (annotations : List AnnotationDecl) : Prop where
  each : ∀ annotation ∈ annotations, annotation.Fits
  count : ∀ visible, (ofVisibility visible annotations).length ≤ 65535

/-- The attributes of annotations fit the format. -/
structure AttributesFit (annotations : List AnnotationDecl) : Prop where
  lists : AnnotationsFit annotations
  content :
    ∀ visible,
      annotationsSize (ofVisibility visible annotations) < UInt32.size

/-- The attributes of parameter annotations fit the format. -/
structure TableFits (table : List (List AnnotationDecl)) : Prop where
  count : table.length ≤ 255
  slots : ∀ slot ∈ table, AnnotationsFit slot
  content :
    ∀ visible,
      1 + totalSize (annotationsSize <| ofVisibility visible ·) table <
        UInt32.size

end ClassFile

/-- A field fits the format. -/
structure FieldDecl.Fits (field : FieldDecl) : Prop where
  name : Short field.name
  descriptor : Short field.descriptor
  signature : ∀ signature ∈ field.signature, Short signature
  annotations : AttributesFit field.annotations

/-- A method fits the format. -/
structure MethodDecl.Fits (method : MethodDecl) : Prop where
  name : Short method.name
  descriptor : Short method.descriptor
  signature : ∀ signature ∈ method.signature, Short signature
  annotations : AttributesFit method.annotations
  parameterAnnotations : TableFits method.parameterAnnotations
  parameterCount : method.parameterNames.length ≤ 255
  parameterNames :
    ∀ recorded ∈ method.parameterNames, ∀ name ∈ recorded, Short name
  default :
    ∀ value ∈ method.default, value.Fits ∧ value.byteSize < UInt32.size

/-- A declaration fits the format, with all the constants it asks for. -/
structure ClassDecl.Fits (decl : ClassDecl) : Prop where
  name : Short decl.name
  superName : ∀ name ∈ decl.superName, Short name
  interfaceCount : decl.interfaces.length ≤ 65535
  interfaces : ∀ name ∈ decl.interfaces, Short name
  fieldCount : decl.fields.length ≤ 65535
  fields : ∀ field ∈ decl.fields, field.Fits
  methodCount : decl.methods.length ≤ 65535
  methods : ∀ method ∈ decl.methods, method.Fits
  signature : ∀ signature ∈ decl.signature, Short signature
  annotations : AttributesFit decl.annotations
  /-- Long and double constants count twice. -/
  constants :
    (((writeBody decl).run []).2.flatMap Constant.slots).length ≤ 65534

end TypeAtlas
