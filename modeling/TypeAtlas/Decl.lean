import TypeAtlas.Descriptor.Parser
import TypeAtlas.Scalar

namespace TypeAtlas

/-!
# Declarations

What one compiled class says about itself: its name and flags, its supertypes,
its generic signature as text, its annotations, and its fields and methods with
the same about each of them. Nothing here is resolved; types are named by
descriptors and signatures are kept as they were read.
-/

/-! ## Access flags -/

namespace Access

def static : UInt16 := 0x0008
def bridge : UInt16 := 0x0040
def transient : UInt16 := 0x0080
def interfaceType : UInt16 := 0x0200
def synthetic : UInt16 := 0x1000
def annotationType : UInt16 := 0x2000
def enumType : UInt16 := 0x4000

/-- Whether some bit of `flags` is set. -/
def has (access flags : UInt16) : Bool :=
  access &&& flags != 0

end Access

/-! ## Annotations -/

mutual

/-- The value of an annotation element. -/
inductive ElementValue where
  | scalar (value : Scalar)
  | enumConstant (descriptor constant : String)
  | classLiteral (descriptor : String)
  | annotated (decl : AnnotationDecl)
  | array (items : List ElementValue)
  deriving Repr

/-- An annotation on a class, a member or a parameter. -/
structure AnnotationDecl where
  descriptor : String
  visible : Bool := true
  values : List (String × ElementValue) := []
  deriving Repr

end

mutual

/-- Equality of element values, floating-point numbers as numbers. -/
def ElementValue.same : ElementValue → ElementValue → Bool
  | .scalar a, .scalar b => a.same b
  | .enumConstant d c, .enumConstant d' c' => d == d' && c == c'
  | .classLiteral d, .classLiteral d' => d == d'
  | .annotated a, .annotated b => a.same b
  | .array items, .array items' => ElementValue.sameItems items items'
  | _, _ => false

/-- Equality of lists of element values. -/
def ElementValue.sameItems :
    List ElementValue → List ElementValue → Bool
  | [], [] => true
  | a :: as, b :: bs => a.same b && ElementValue.sameItems as bs
  | _, _ => false

/-- Equality of annotations, element by element in order. -/
def AnnotationDecl.same : AnnotationDecl → AnnotationDecl → Bool
  | ⟨descriptor, visible, values⟩, other =>
      descriptor == other.descriptor
        && visible == other.visible
        && AnnotationDecl.samePairs values other.values

/-- Equality of lists of named element values. -/
def AnnotationDecl.samePairs :
    List (String × ElementValue) → List (String × ElementValue) → Bool
  | [], [] => true
  | (key, a) :: as, (key', b) :: bs =>
      key == key' && a.same b && AnnotationDecl.samePairs as bs
  | _, _ => false

end

namespace AnnotationDecl

/-- The annotation type, if the descriptor names a class. -/
def typeName? (decl : AnnotationDecl) : Option TypeName :=
  match Descriptor.parse decl.descriptor with
  | .ok (.object name) => some name
  | _ => none

end AnnotationDecl

/-- Compare two lists position by position. -/
def sameLists
    (same : α → α → Bool) :
    List α → List α → Bool
  | [], [] => true
  | a :: as, b :: bs => same a b && sameLists same as bs
  | _, _ => false

/-! ## Members -/

/-- A declared field. -/
structure FieldDecl where
  access : UInt16
  name : String
  descriptor : String
  signature : Option String := none
  annotations : List AnnotationDecl := []
  deriving Repr

namespace FieldDecl

def isStatic (field : FieldDecl) : Bool :=
  Access.has field.access Access.static

def isTransient (field : FieldDecl) : Bool :=
  Access.has field.access Access.transient

def isSynthetic (field : FieldDecl) : Bool :=
  Access.has field.access Access.synthetic

/-- Equality, floating-point numbers as numbers. -/
def same (a b : FieldDecl) : Bool :=
  a.access == b.access
    && a.name == b.name
    && a.descriptor == b.descriptor
    && a.signature == b.signature
    && sameLists AnnotationDecl.same a.annotations b.annotations

end FieldDecl

/-- A declared method. -/
structure MethodDecl where
  access : UInt16
  name : String
  descriptor : String
  signature : Option String := none
  annotations : List AnnotationDecl := []
  /-- One list per parameter; the table may be shorter than the descriptor. -/
  parameterAnnotations : List (List AnnotationDecl) := []
  parameterNames : List (Option String) := []
  /-- The default of an annotation element. -/
  default : Option ElementValue := none
  deriving Repr

namespace MethodDecl

def isStatic (method : MethodDecl) : Bool :=
  Access.has method.access Access.static

/-- Made by a compiler, bridges included. -/
def isSynthetic (method : MethodDecl) : Bool :=
  Access.has method.access (Access.synthetic ||| Access.bridge)

/-- The initializer of the class itself. -/
def isInitializer (method : MethodDecl) : Bool :=
  method.name == "<clinit>"

/-- The recorded name of a parameter. -/
def parameterName?
    (method : MethodDecl)
    (index : Nat) :
    Option String :=
  (method.parameterNames[index]?).join

/-- Equality, floating-point numbers as numbers. -/
def same (a b : MethodDecl) : Bool :=
  a.access == b.access
    && a.name == b.name
    && a.descriptor == b.descriptor
    && a.signature == b.signature
    && sameLists AnnotationDecl.same a.annotations b.annotations
    && sameLists (sameLists AnnotationDecl.same)
        a.parameterAnnotations b.parameterAnnotations
    && a.parameterNames == b.parameterNames
    && match a.default, b.default with
      | none, none => true
      | some v, some w => v.same w
      | _, _ => false

end MethodDecl

/-! ## Classes -/

/-- A declared class, interface, enum or annotation type. -/
structure ClassDecl where
  majorVersion : UInt16 := 52
  access : UInt16
  name : TypeName
  superName : Option TypeName := none
  interfaces : List TypeName := []
  signature : Option String := none
  annotations : List AnnotationDecl := []
  fields : List FieldDecl := []
  methods : List MethodDecl := []
  deriving Repr

namespace ClassDecl

def isInterface (decl : ClassDecl) : Bool :=
  Access.has decl.access Access.interfaceType

def isAnnotationType (decl : ClassDecl) : Bool :=
  Access.has decl.access Access.annotationType

def isEnum (decl : ClassDecl) : Bool :=
  Access.has decl.access Access.enumType

def isSynthetic (decl : ClassDecl) : Bool :=
  Access.has decl.access Access.synthetic

/-- Equality, floating-point numbers as numbers. -/
def same (a b : ClassDecl) : Bool :=
  a.majorVersion == b.majorVersion
    && a.access == b.access
    && a.name == b.name
    && a.superName == b.superName
    && a.interfaces == b.interfaces
    && a.signature == b.signature
    && sameLists AnnotationDecl.same a.annotations b.annotations
    && sameLists FieldDecl.same a.fields b.fields
    && sameLists MethodDecl.same a.methods b.methods

end ClassDecl

end TypeAtlas
