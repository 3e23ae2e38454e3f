namespace TypeAtlas.Text

/-!
# Floating-point numbers as decimals

A number is written with the fewest decimal digits that are nearer to it than
to any other number of its format. A binary number is `significand * 2 ^ power`;
the decimals that read back as it lie between the midpoints to its neighbours,
the midpoints included when the significand is even.

Among decimal grids from coarse to fine, the first one that has a point in this
interval gives the digits. Of the two grid points next to the number the nearer
one is taken, and the larger one of two equally near.
-/

/-- A positive binary number, and whether its lower neighbour is half as far. -/
structure Binary where
  significand : Nat
  power : Int
  narrowBelow : Bool
  deriving Repr, DecidableEq

/-- The decimal number `digits * 10 ^ power`. -/
structure Decimal where
  digits : Nat
  power : Int
  deriving Repr, DecidableEq

namespace Binary

/-- The number and its interval, all four as multiples of `1 / denominator`. -/
structure Scaled where
  low : Nat
  value : Nat
  high : Nat
  denominator : Nat
  deriving Repr, DecidableEq

/-- Write the number and the ends of its interval over one denominator. -/
def scaled (number : Binary) : Scaled :=
  let quarter := number.power - 2
  let up := Nat.pow 2 quarter.toNat
  let value := 4 * number.significand
  let below := if number.narrowBelow then 1 else 2
  { low := (value - below) * up
    value := value * up
    high := (value + 2) * up
    denominator := Nat.pow 2 (-quarter).toNat }

/--
The point of the grid `10 ^ power` that stands for the number, if the grid has
one in the interval.
-/
def gridPoint?
    (number : Binary)
    (power : Int) :
    Option Nat :=
  let frame := number.scaled
  let unit := Nat.pow 10 power.toNat * frame.denominator
  let up := Nat.pow 10 (-power).toNat
  let value := frame.value * up
  let inside (point : Nat) : Bool :=
    let scaled := point * unit
    let low := frame.low * up
    let high := frame.high * up
    if number.significand % 2 = 0 then
      low ≤ scaled && scaled ≤ high
    else
      low < scaled && scaled < high
  let below := value / unit
  let above := below + 1
  match inside below, inside above with
  | true, true =>
      if 2 * (value - below * unit) < unit then some below else some above
  | true, false => some below
  | false, true => some above
  | false, false => none

/-- The first grid from `power` downwards that has a point, among `count`. -/
def searchGrids
    (number : Binary) :
    Nat → Int → Decimal
  | 0, power => ⟨0, power⟩
  | count + 1, power =>
      match number.gridPoint? power with
      | some digits => ⟨digits, power⟩
      | none => searchGrids number count (power - 1)

/-- The shortest decimal that reads back as the number. -/
def shortest (number : Binary) : Decimal :=
  let frame := number.scaled
  let width := (Nat.toDigits 10 (frame.high / frame.denominator)).length
  number.searchGrids (width + 400) width

end Binary

/-! ## Formats -/

/-- The widths of a binary floating-point format. -/
structure FloatFormat where
  exponentBits : Nat
  fractionBits : Nat
  deriving Repr, DecidableEq

namespace FloatFormat

def single : FloatFormat :=
  ⟨8, 23⟩

def double : FloatFormat :=
  ⟨11, 52⟩

/-- The positive number with the given exponent and fraction fields. -/
def binary
    (format : FloatFormat)
    (exponent fraction : Nat) :
    Binary :=
  let bias := Nat.pow 2 (format.exponentBits - 1) - 1 + format.fractionBits
  if exponent = 0 then
    ⟨fraction, 1 - (bias : Int), false⟩
  else
    ⟨Nat.pow 2 format.fractionBits + fraction, (exponent : Int) - bias, fraction = 0⟩

end FloatFormat

/-! ## Notation -/

namespace Decimal

/-- The exponent of ten in front of the first digit. -/
def magnitude (number : Decimal) : Int :=
  number.power + (Nat.toDigits 10 number.digits).length - 1

/-- Digits with a point and at least one place after it. -/
def positional (number : Decimal) : String :=
  let digits := Nat.toDigits 10 number.digits
  let places := (-number.power).toNat
  let padded :=
    List.replicate (places + 1 - digits.length) '0' ++ digits
      ++ List.replicate number.power.toNat '0'
  let whole := padded.take (padded.length - places)
  let fraction := padded.drop (padded.length - places)
  String.ofList
    (whole ++ ['.'] ++ (if fraction.isEmpty then ['0'] else fraction))

/-- One digit, the others after a point, and a power of ten. -/
def scientific (number : Decimal) : String :=
  let digits := Nat.toDigits 10 number.digits
  let power := number.magnitude
  let rest := digits.drop 1
  String.ofList
      (digits.take 1 ++ (if rest.isEmpty then [] else '.' :: rest))
    ++ s!"e{power}"

/-- Positional from a ten-thousandth up to below ten to the sixteenth. -/
def text (number : Decimal) : String :=
  if -4 ≤ number.magnitude ∧ number.magnitude < 16 then
    number.positional
  else
    number.scientific

end Decimal

/-- The text of a floating-point number, given by its bits. -/
def floatText
    (format : FloatFormat)
    (bits : Nat) :
    String :=
  let fraction := bits % Nat.pow 2 format.fractionBits
  let exponent :=
    bits / Nat.pow 2 format.fractionBits % Nat.pow 2 format.exponentBits
  let negative :=
    bits / Nat.pow 2 (format.fractionBits + format.exponentBits) % 2 = 1
  let sign := if negative then "-" else ""
  if exponent = Nat.pow 2 format.exponentBits - 1 then
    if fraction = 0 then sign ++ "inf" else "NaN"
  else if exponent = 0 ∧ fraction = 0 then
    sign ++ "0.0"
  else
    sign ++ (format.binary exponent fraction).shortest.text

end TypeAtlas.Text
