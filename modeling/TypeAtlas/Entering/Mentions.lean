import TypeAtlas.Decl
import TypeAtlas.Signature.Scanner

namespace TypeAtlas

/-!
# Mentioned names

The names a declaration can put into a store when it is entered: its own, those
of its supertypes, and those that its annotations, descriptors and signatures
name. A name may be listed more than once.
-/

/-! ## Signatures -/

/--
The names that the events of a signature mention, given the names of the class
types still open. A nested class has the name of the class around it, a dollar
sign and its own.
-/
def Signature.mentions
    (stack : List TypeName) :
    List Signature.Event → List TypeName
  | [] => []
  | .classType name :: events => name :: mentions (name :: stack) events
  | .nested name :: events =>
      match stack with
      | outer :: rest =>
          let inner := outer ++ "$" ++ name
          inner :: mentions (inner :: rest) events
      | [] => mentions [] events
  | .close :: events => mentions (stack.drop 1) events
  | _ :: events => mentions stack events

/-- The names an optional signature mentions. -/
def Signature.mentioned
    (trace : String → Signature.Trace)
    (signature : Option String) :
    List TypeName :=
  match signature with
  | some text => Signature.mentions [] (trace text).events
  | none => []

/-! ## Descriptors and annotations -/

namespace Descriptor

/-- The class a type descriptor names. -/
def mentions (text : String) : List TypeName :=
  match parse text with
  | .ok type => type.objectName?.toList
  | .error _ => []

end Descriptor

/-- The classes a method descriptor names. -/
def MethodDescriptor.mentions (text : String) : List TypeName :=
  match parse text with
  | .ok type => (type.parameters ++ type.result.toList).filterMap (·.objectName?)
  | .error _ => []

mutual

/-- The names an element value mentions. -/
def ElementValue.mentions : ElementValue → List TypeName
  | .scalar _ => []
  | .enumConstant descriptor _ => Descriptor.mentions descriptor
  | .classLiteral descriptor => Descriptor.mentions descriptor
  | .annotated decl => decl.mentions
  | .array items => ElementValue.mentionsOfItems items

/-- The names the items of an array mention. -/
def ElementValue.mentionsOfItems : List ElementValue → List TypeName
  | [] => []
  | item :: items => item.mentions ++ ElementValue.mentionsOfItems items

/-- The names an annotation mentions. -/
def AnnotationDecl.mentions : AnnotationDecl → List TypeName
  | ⟨descriptor, _, values⟩ =>
      Descriptor.mentions descriptor ++ AnnotationDecl.mentionsOfPairs values

/-- The names the elements of an annotation mention. -/
def AnnotationDecl.mentionsOfPairs :
    List (String × ElementValue) → List TypeName
  | [] => []
  | (_, value) :: pairs =>
      value.mentions ++ AnnotationDecl.mentionsOfPairs pairs

end

/-! ## Members and classes -/

/-- The names a field mentions. -/
def FieldDecl.mentions (field : FieldDecl) : List TypeName :=
  field.annotations.flatMap (·.mentions)
    ++ Descriptor.mentions field.descriptor
    ++ Signature.mentioned Signature.traceField field.signature

/-- The names a method mentions. -/
def MethodDecl.mentions (method : MethodDecl) : List TypeName :=
  (method.default.map (·.mentions)).getD []
    ++ method.annotations.flatMap (·.mentions)
    ++ method.parameterAnnotations.flatten.flatMap (·.mentions)
    ++ MethodDescriptor.mentions method.descriptor
    ++ Signature.mentioned Signature.traceMethod method.signature

/-- The names a declaration mentions. -/
def ClassDecl.mentions (decl : ClassDecl) : List TypeName :=
  decl.name :: decl.superName.toList
    ++ decl.interfaces
    ++ Signature.mentioned Signature.traceClass decl.signature
    ++ decl.annotations.flatMap (·.mentions)
    ++ decl.fields.flatMap (·.mentions)
    ++ decl.methods.flatMap (·.mentions)

end TypeAtlas
