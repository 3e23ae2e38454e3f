namespace TypeAtlas

/-!
# Scalars

The plain values an annotation element can take. Floating-point numbers are
kept as their bit patterns; `same` compares them as numbers, so that a
not-a-number value differs from itself and the two zeros agree.
-/

namespace Float32Bits

/-- Exponent bits all set and some fraction bit set. -/
def isNaN (bits : UInt32) : Bool :=
  bits &&& 0x7FFFFFFF > 0x7F800000

def isZero (bits : UInt32) : Bool :=
  bits &&& 0x7FFFFFFF == 0

/-- Equality as numbers. -/
def same (a b : UInt32) : Bool :=
  !isNaN a && !isNaN b && (a == b || isZero a && isZero b)

end Float32Bits

namespace Float64Bits

/-- Exponent bits all set and some fraction bit set. -/
def isNaN (bits : UInt64) : Bool :=
  bits &&& 0x7FFFFFFFFFFFFFFF > 0x7FF0000000000000

def isZero (bits : UInt64) : Bool :=
  bits &&& 0x7FFFFFFFFFFFFFFF == 0

/-- Equality as numbers. -/
def same (a b : UInt64) : Bool :=
  !isNaN a && !isNaN b && (a == b || isZero a && isZero b)

end Float64Bits

/-- A plain value: a primitive or a text. -/
inductive Scalar where
  | boolean (value : Bool)
  | byte (value : Int8)
  | char (value : Char)
  | short (value : Int16)
  | int (value : Int32)
  | long (value : Int64)
  | float (bits : UInt32)
  | double (bits : UInt64)
  | text (value : String)
  deriving Repr, DecidableEq

/-- Equality of values, floating-point numbers compared as numbers. -/
def Scalar.same : Scalar → Scalar → Bool
  | float a, float b => Float32Bits.same a b
  | double a, double b => Float64Bits.same a b
  | a, b => a == b

end TypeAtlas
