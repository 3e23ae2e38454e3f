import TypeAtlas.ClassFile.Constant
import TypeAtlas.Decl

namespace TypeAtlas.ClassFile

/-!
# Reading class files

A class file is read in one pass: the constant table, the header, the fields,
the methods and the attributes of the class. Of the attributes only those that
describe structure are looked into; all others are stepped over by their
length. An attribute's content is a byte string of its own, so whatever an
attribute leaves unread is dropped with it.
-/

/-- The four bytes every class file starts with. -/
def magic : UInt32 :=
  0xCAFEBABE

/-! ## Annotations -/

/-- The character with a code, or the replacement character. -/
def charOfCode (code : UInt32) : Char :=
  if valid : code.isValidChar then ⟨code, valid⟩ else replacement

/-- Read an annotation whose element values are read by `value`. -/
def readAnnotationWith
    (pool : ConstantPool)
    (visible : Bool)
    (value : Read ElementValue) :
    Read AnnotationDecl := do
  let descriptor ← pool.text (← readU2)
  let pairs ← readU2
  let values ← readMany (do
      let name ← pool.text (← readU2)
      return (name, ← value))
    pairs.toNat
  return ⟨descriptor, visible, values⟩

/--
Read an element value with at most `depth` values inside one another.

Every value starts with a byte of its own, so a depth of the number of bytes
left is never exceeded before the bytes run out.
-/
def readValueWithin
    (pool : ConstantPool)
    (visible : Bool) :
    Nat → Read ElementValue
  | 0 => throw .unexpectedEnd
  | depth + 1 => do
      let tag ← readU1
      match Char.ofUInt8 tag with
      | 'B' =>
          let value ← pool.integer (← readU2)
          return .scalar (.byte value.toInt8)
      | 'C' =>
          let value ← pool.integer (← readU2)
          return .scalar (.char (charOfCode value.toUInt32))
      | 'S' =>
          let value ← pool.integer (← readU2)
          return .scalar (.short value.toInt16)
      | 'Z' =>
          let value ← pool.integer (← readU2)
          return .scalar (.boolean (value != 0))
      | 'I' => return .scalar (.int (← pool.integer (← readU2)))
      | 'J' => return .scalar (.long (← pool.long (← readU2)))
      | 'F' => return .scalar (.float (← pool.float (← readU2)))
      | 'D' => return .scalar (.double (← pool.double (← readU2)))
      | 's' => return .scalar (.text (← pool.text (← readU2)))
      | 'e' =>
          let descriptor ← pool.text (← readU2)
          let constant ← pool.text (← readU2)
          return .enumConstant descriptor constant
      | 'c' => return .classLiteral (← pool.text (← readU2))
      | '@' =>
          let decl ← readAnnotationWith pool visible
            (readValueWithin pool visible depth)
          return .annotated decl
      | '[' =>
          let count ← readU2
          let items ← readMany (readValueWithin pool visible depth)
            count.toNat
          return .array items
      | _ => throw (.unknownValueTag tag)

/-- Read an element value. -/
def readValue
    (pool : ConstantPool)
    (visible : Bool) :
    Read ElementValue := do
  readValueWithin pool visible (← get).length

/-- Read an annotation. -/
def readAnnotationDecl
    (pool : ConstantPool)
    (visible : Bool) :
    Read AnnotationDecl :=
  readAnnotationWith pool visible (readValue pool visible)

/-- Read a counted list of annotations. -/
def readAnnotations
    (pool : ConstantPool)
    (visible : Bool) :
    Read (List AnnotationDecl) := do
  let count ← readU2
  readMany (readAnnotationDecl pool visible) count.toNat

/-- Read a counted list of annotation lists, one per parameter. -/
def readParameterAnnotations
    (pool : ConstantPool)
    (visible : Bool) :
    Read (List (List AnnotationDecl)) := do
  let count ← readU1
  readMany (readAnnotations pool visible) count.toNat

/-- Append two tables slot by slot, counted from the first. -/
def mergeTables : List (List α) → List (List α) → List (List α)
  | [], incoming => incoming
  | table, [] => table
  | slot :: table, more :: incoming =>
      (slot ++ more) :: mergeTables table incoming

/-- Read a parameter name, index zero standing for none. -/
def readParameterName (pool : ConstantPool) : Read (Option String) := do
  let index ← readU2
  let _flags ← readU2
  if index = 0 then
    return none
  else
    return some (← pool.text index)

/-- Read a counted list of parameter names. -/
def readParameterNames (pool : ConstantPool) : Read (List (Option String)) := do
  let count ← readU1
  readMany (readParameterName pool) count.toNat

/-! ## Attributes -/

/-- Read an attribute, which is handed on by name and content. -/
def readAttribute
    (pool : ConstantPool)
    (handle : σ → String → Read σ)
    (state : σ) :
    Read σ := do
  let nameIndex ← readU2
  let length ← readU4
  let body ← readBytes length.toNat
  let name ← pool.text nameIndex
  readWithin body (handle state name)

/-- Read a counted list of attributes. -/
def readAttributes
    (pool : ConstantPool)
    (handle : σ → String → Read σ)
    (start : σ) :
    Read σ := do
  let count ← readU2
  readFold (readAttribute pool handle) count.toNat start

/-- Take in an attribute of a field. -/
def readFieldAttribute
    (pool : ConstantPool)
    (field : FieldDecl) :
    String → Read FieldDecl
  | "Signature" =>
      return { field with signature := some (← pool.text (← readU2)) }
  | "RuntimeVisibleAnnotations" => do
      let annotations ← readAnnotations pool true
      return { field with annotations := field.annotations ++ annotations }
  | "RuntimeInvisibleAnnotations" => do
      let annotations ← readAnnotations pool false
      return { field with annotations := field.annotations ++ annotations }
  | _ => return field

/-- Take in an attribute of a method. -/
def readMethodAttribute
    (pool : ConstantPool)
    (method : MethodDecl) :
    String → Read MethodDecl
  | "Signature" =>
      return { method with signature := some (← pool.text (← readU2)) }
  | "RuntimeVisibleAnnotations" => do
      let annotations ← readAnnotations pool true
      return { method with annotations := method.annotations ++ annotations }
  | "RuntimeInvisibleAnnotations" => do
      let annotations ← readAnnotations pool false
      return { method with annotations := method.annotations ++ annotations }
  | "RuntimeVisibleParameterAnnotations" => do
      let table ← readParameterAnnotations pool true
      return { method with
        parameterAnnotations := mergeTables method.parameterAnnotations table }
  | "RuntimeInvisibleParameterAnnotations" => do
      let table ← readParameterAnnotations pool false
      return { method with
        parameterAnnotations := mergeTables method.parameterAnnotations table }
  | "AnnotationDefault" =>
      return { method with default := some (← readValue pool true) }
  | "MethodParameters" => do
      let names ← readParameterNames pool
      return { method with parameterNames := method.parameterNames ++ names }
  | _ => return method

/-- Take in an attribute of the class itself. -/
def readClassAttribute
    (pool : ConstantPool)
    (decl : ClassDecl) :
    String → Read ClassDecl
  | "Signature" =>
      return { decl with signature := some (← pool.text (← readU2)) }
  | "RuntimeVisibleAnnotations" => do
      let annotations ← readAnnotations pool true
      return { decl with annotations := decl.annotations ++ annotations }
  | "RuntimeInvisibleAnnotations" => do
      let annotations ← readAnnotations pool false
      return { decl with annotations := decl.annotations ++ annotations }
  | _ => return decl

/-! ## Members and classes -/

/-- Read a field with its attributes. -/
def readField (pool : ConstantPool) : Read FieldDecl := do
  let access ← readU2
  let name ← pool.text (← readU2)
  let descriptor ← pool.text (← readU2)
  let field : FieldDecl :=
    { access := access, name := name, descriptor := descriptor }
  readAttributes pool (readFieldAttribute pool) field

/-- Read a method with its attributes. -/
def readMethod (pool : ConstantPool) : Read MethodDecl := do
  let access ← readU2
  let name ← pool.text (← readU2)
  let descriptor ← pool.text (← readU2)
  let method : MethodDecl :=
    { access := access, name := name, descriptor := descriptor }
  readAttributes pool (readMethodAttribute pool) method

/-- Read what follows the constant table. -/
def readBody
    (majorVersion : UInt16)
    (pool : ConstantPool) :
    Read ClassDecl := do
  let access ← readU2
  let thisClass ← readU2
  let superClass ← readU2
  let name ← pool.className thisClass
  let superName ← pool.superName superClass
  let interfaceCount ← readU2
  let interfaces ← readMany (do pool.className (← readU2)) interfaceCount.toNat
  let fieldCount ← readU2
  let fields ← readMany (readField pool) fieldCount.toNat
  let methodCount ← readU2
  let methods ← readMany (readMethod pool) methodCount.toNat
  readAttributes pool (readClassAttribute pool)
    { majorVersion := majorVersion
      access := access
      name := name
      superName := superName
      interfaces := interfaces
      fields := fields
      methods := methods }

/-- Read a whole class. -/
def readClass : Read ClassDecl := do
  unless (← readU4) = magic do
    throw .invalidMagic
  let _minorVersion ← readU2
  let majorVersion ← readU2
  readBody majorVersion (← ConstantPool.read)

/-- The class a byte string starts with; bytes after it do not matter. -/
def decode (bytes : Bytes) : Except Fault ClassDecl :=
  (readClass.run bytes).map Prod.fst

end TypeAtlas.ClassFile
