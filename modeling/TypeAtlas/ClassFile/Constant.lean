import TypeAtlas.ClassFile.Text
import TypeAtlas.Name

namespace TypeAtlas.ClassFile

/-!
# Constants

A class file begins with a table of constants that everything after it refers
to by index. Indexes count slots from one; a constant of eight bytes takes two
slots, the second of which is unusable.
-/

/-- An entry of the constant table. -/
inductive Constant where
  | text (value : String)
  | integer (value : Int32)
  | float (bits : UInt32)
  | long (value : Int64)
  | double (bits : UInt64)
  /-- A class, by the index of its name. -/
  | classRef (nameIndex : UInt16)
  /-- An entry whose content does not matter here. -/
  | other
  /-- No entry: slot zero, or the second slot of an eight-byte constant. -/
  | unusable
  deriving Repr, DecidableEq

namespace Constant

/-- The slots a constant fills, itself in the first. -/
def slots : Constant → List Constant
  | c@(long _) => [c, unusable]
  | c@(double _) => [c, unusable]
  | c => [c]

/-- The number of slots a constant fills. -/
def width (constant : Constant) : Nat :=
  constant.slots.length

end Constant

/-! ## Reading -/

/-- Read one constant. -/
def readConstant : Read Constant := do
  match ← readU1 with
  | 1 => do
      let length ← readU2
      return .text (decodeText (← readBytes length.toNat))
  | 3 => return .integer (← readU4).toInt32
  | 4 => return .float (← readU4)
  | 5 => return .long (← readU8).toInt64
  | 6 => return .double (← readU8)
  | 7 => return .classRef (← readU2)
  | 8 | 16 | 19 | 20 => do
      skip 2
      return .other
  | 9 | 10 | 11 | 12 | 17 | 18 => do
      skip 4
      return .other
  | 15 => do
      skip 3
      return .other
  | tag => throw (.unsupportedConstant tag)

/-- Read constants until the given number of slots is filled. -/
def readSlots (missing : Nat) : Read (List Constant) :=
  match missing with
  | 0 => return []
  | missing + 1 => do
      let constant ← readConstant
      let rest ← readSlots (missing - (constant.width - 1))
      return constant.slots ++ rest

/-- The constant table, slot zero included. -/
structure ConstantPool where
  slots : List Constant
  deriving Repr, DecidableEq

namespace ConstantPool

/-- Read a table that is preceded by the number of its slots. -/
def read : Read ConstantPool := do
  let count ← readU2
  return ⟨.unusable :: (← readSlots (count.toNat - 1))⟩

/-- The constant at an index, as far as `select` takes it. -/
def get
    (pool : ConstantPool)
    (select : Constant → Option α)
    (index : UInt16) :
    Read α :=
  match pool.slots[index.toNat]?.bind select with
  | some value => return value
  | none => throw (.invalidIndex index)

def text (pool : ConstantPool) : UInt16 → Read String :=
  pool.get fun
    | .text value => some value
    | _ => none

def integer (pool : ConstantPool) : UInt16 → Read Int32 :=
  pool.get fun
    | .integer value => some value
    | _ => none

def float (pool : ConstantPool) : UInt16 → Read UInt32 :=
  pool.get fun
    | .float bits => some bits
    | _ => none

def long (pool : ConstantPool) : UInt16 → Read Int64 :=
  pool.get fun
    | .long value => some value
    | _ => none

def double (pool : ConstantPool) : UInt16 → Read UInt64 :=
  pool.get fun
    | .double bits => some bits
    | _ => none

/-- The binary name of a class entry. -/
def className
    (pool : ConstantPool)
    (index : UInt16) :
    Read TypeName := do
  let nameIndex ← pool.get
    (fun
      | .classRef nameIndex => some nameIndex
      | _ => none)
    index
  return TypeName.ofInternal (← pool.text nameIndex)

/-- The binary name of a superclass, index zero standing for none. -/
def superName
    (pool : ConstantPool)
    (index : UInt16) :
    Read (Option TypeName) :=
  if index = 0 then
    return none
  else
    some <$> pool.className index

end ConstantPool

/-! ## Writing -/

/-- The bytes of a constant. Entries without content are never written. -/
def Constant.bytes : Constant → Bytes
  | text value =>
      let content := encodeText value
      1 :: count16 content ++ content
  | integer value => 3 :: writeU4 value.toUInt32
  | float bits => 4 :: writeU4 bits
  | long value => 5 :: writeU8 value.toUInt64
  | double bits => 6 :: writeU8 bits
  | classRef nameIndex => 7 :: writeU2 nameIndex
  | other => []
  | unusable => []

/-- The constants requested so far, each once, in order of first request. -/
abbrev Draft :=
  List Constant

namespace Draft

/-- The index of the next new constant. -/
def nextIndex (draft : Draft) : Nat :=
  1 + (draft.flatMap Constant.slots).length

/-- The index of a constant that was requested before. -/
def index? (constant : Constant) : Draft → Option Nat
  | [] => none
  | first :: rest =>
      if first = constant then
        some 1
      else
        (index? constant rest).map (· + first.width)

/-- The table as bytes, preceded by the number of its slots. -/
def bytes (draft : Draft) : Bytes :=
  writeU2 (UInt16.ofNat draft.nextIndex) ++ draft.flatMap Constant.bytes

end Draft

/-- A step of writing, which may request constants. -/
abbrev Write :=
  StateM Draft

/-- The index of a constant, which is added unless it was requested before. -/
def intern (constant : Constant) : Write UInt16 := do
  let draft ← get
  match draft.index? constant with
  | some index => return UInt16.ofNat index
  | none =>
      set (draft ++ [constant])
      return UInt16.ofNat draft.nextIndex

def internText (value : String) : Write UInt16 :=
  intern (.text value)

/-- The index of a class entry, its name being requested first. -/
def internClass (name : TypeName) : Write UInt16 := do
  let nameIndex ← internText (TypeName.toInternal name)
  intern (.classRef nameIndex)

end TypeAtlas.ClassFile
