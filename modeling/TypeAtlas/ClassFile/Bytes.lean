namespace TypeAtlas.ClassFile

/-!
# Big-endian fields

Class files are sequences of big-endian fields of one, two, four and eight
bytes. `Read` consumes fields from the front of a byte string and hands on the
rest; the writers give the bytes of one field.
-/

/-- A byte string. -/
abbrev Bytes :=
  List UInt8

/-- Why bytes are not a class file. -/
inductive Fault where
  | unexpectedEnd
  | invalidMagic
  | unsupportedConstant (tag : UInt8)
  | invalidIndex (index : UInt16)
  | unknownValueTag (tag : UInt8)
  deriving Repr, DecidableEq

/-- The wording of a fault. -/
def Fault.message : Fault → String
  | unexpectedEnd => "unexpected end of class file"
  | invalidMagic => "invalid class file magic header"
  | unsupportedConstant tag => s!"unsupported constant pool tag {tag}"
  | invalidIndex index => s!"invalid constant pool index {index}"
  | unknownValueTag tag =>
      let shown := Char.ofUInt8 tag
      s!"malformed element_value attribute: unknown element value tag '{shown}'"

/-- A step that consumes bytes from the front. -/
abbrev Read :=
  StateT Bytes (Except Fault)

/-! ## Reading fields -/

/-- One byte. -/
def readU1 : Read UInt8 := fun bytes =>
  match bytes with
  | a :: rest => .ok (a, rest)
  | _ => .error .unexpectedEnd

/-- Two bytes, the high one first. -/
def readU2 : Read UInt16 := fun bytes =>
  match bytes with
  | a :: b :: rest => .ok (a.toUInt16 <<< 8 ||| b.toUInt16, rest)
  | _ => .error .unexpectedEnd

/-- Four bytes, the high one first. -/
def readU4 : Read UInt32 := fun bytes =>
  match bytes with
  | a :: b :: c :: d :: rest =>
      .ok
        (a.toUInt32 <<< 24 ||| b.toUInt32 <<< 16 |||
            c.toUInt32 <<< 8 ||| d.toUInt32,
          rest)
  | _ => .error .unexpectedEnd

/-- Eight bytes, the high half first. -/
def readU8 : Read UInt64 := do
  let high ← readU4
  let low ← readU4
  return high.toUInt64 <<< 32 ||| low.toUInt64

/-- The first `count` bytes and the rest, if there are that many. -/
def splitBytes? : Nat → Bytes → Option (Bytes × Bytes)
  | 0, rest => some ([], rest)
  | _ + 1, [] => none
  | count + 1, byte :: bytes =>
      (splitBytes? count bytes).map fun (front, rest) => (byte :: front, rest)

/-- A run of bytes. -/
def readBytes (count : Nat) : Read Bytes := fun bytes =>
  match splitBytes? count bytes with
  | some split => .ok split
  | none => .error .unexpectedEnd

/-- Step over bytes. -/
def skip (count : Nat) : Read Unit := do
  let _ ← readBytes count

/-- The same step a number of times. -/
def readMany
    (step : Read α) :
    Nat → Read (List α)
  | 0 => return []
  | count + 1 => do
      let first ← step
      let rest ← readMany step count
      return first :: rest

/-- A step that carries a value along, a number of times. -/
def readFold
    (step : σ → Read σ) :
    Nat → σ → Read σ
  | 0, state => return state
  | count + 1, state => do
      let next ← step state
      readFold step count next

/-- Read a byte string of its own; what it leaves over is dropped. -/
def readWithin
    (body : Bytes)
    (step : Read α) :
    Read α := do
  match step.run body with
  | .ok (value, _) => return value
  | .error fault => throw fault

/-! ## Writing fields -/

def writeU2 (value : UInt16) : Bytes :=
  [(value >>> 8).toUInt8, value.toUInt8]

def writeU4 (value : UInt32) : Bytes :=
  [(value >>> 24).toUInt8, (value >>> 16).toUInt8,
    (value >>> 8).toUInt8, value.toUInt8]

def writeU8 (value : UInt64) : Bytes :=
  writeU4 (value >>> 32).toUInt32 ++ writeU4 value.toUInt32

/-- The length of a list as a two-byte count. -/
def count16 (items : List α) : Bytes :=
  writeU2 (UInt16.ofNat items.length)

/-- The length of a list as a one-byte count. -/
def count8 (items : List α) : Bytes :=
  [UInt8.ofNat items.length]

end TypeAtlas.ClassFile
