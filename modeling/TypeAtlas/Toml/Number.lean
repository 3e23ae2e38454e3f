import TypeAtlas.Toml.Text
import TypeAtlas.Toml.Value

namespace TypeAtlas.Toml

/-!
# Numbers and moments

Digits may be grouped by single underscores. Integers have 64 bits. A decimal
integer has no leading zeros. Dates and times are those of the calendar and the
clock; a minute may have a leap second.
-/

/-! ## Digits -/

/-- Split off digits, dropping underscores between them. -/
def groupedDigits
    (accepts : Char → Bool) :
    List Char → List Char × List Char
  | '_' :: c :: cs =>
      if accepts c then
        let (digits, rest) := groupedDigits accepts cs
        (c :: digits, rest)
      else
        ([], '_' :: c :: cs)
  | c :: cs =>
      if accepts c then
        let (digits, rest) := groupedDigits accepts cs
        (c :: digits, rest)
      else
        ([], c :: cs)
  | [] => ([], [])

/-- Whether a number is within the range of integers. -/
def isInRange (number : Int) : Bool :=
  -9223372036854775808 ≤ number && number ≤ 9223372036854775807

/-- Whether a decimal, given by its digits and an exponent, exceeds all doubles. -/
def isTooLarge
    (digits : List Char)
    (exponent : Int) :
    Bool :=
  let number := numberOf 10 digits
  let places := (Nat.toDigits 10 number).length
  let magnitude := exponent + places
  -- The least number that is rounded to infinity.
  let limit := (Nat.pow 2 54 - 1) * Nat.pow 2 970
  if number = 0 || magnitude < 300 then
    false
  else if magnitude > 400 then
    true
  else if exponent ≥ 0 then
    number * Nat.pow 10 exponent.toNat ≥ limit
  else
    number ≥ limit * Nat.pow 10 (-exponent).toNat

namespace Scan

/-- Read digits that may be grouped; the first one is a digit. -/
def digits (accepts : Char → Bool) : Scan (List Char) := do
  let first ← satisfy accepts
  let (more, rest) := groupedDigits accepts (← get)
  set rest
  return first :: more

/-- Read a sign if there is one; whether it is a minus. -/
def sign : Scan Bool :=
  (do char '-'; return true) <|> (do char '+'; return false) <|> return false

/-- Read the digits of a decimal integer: a lone zero, or no leading zero. -/
def plainDigits : Scan (List Char) :=
  (do char '0'; return ['0']) <|> digits Char.isDigit

/-! ## Integers -/

/-- Read an integer of a radix behind its mark. -/
def radixInteger
    (mark : String)
    (radix : Nat)
    (accepts : Char → Bool) :
    Scan Int := do
  word mark
  return numberOf radix (← digits accepts)

/-- Read a decimal integer. -/
def decimalInteger : Scan Int := do
  let negative ← sign
  let number : Int := numberOf 10 (← plainDigits)
  return if negative then -number else number

/-- Read an integer. -/
def integer : Scan Value := do
  let number ←
    radixInteger "0x" 16 isHexDigit
      <|> radixInteger "0o" 8 (fun c => '0' ≤ c && c ≤ '7')
      <|> radixInteger "0b" 2 (fun c => c == '0' || c == '1')
      <|> decimalInteger
  if isInRange number then
    return .integer number
  else
    failure

/-! ## Floating-point numbers -/

/-- Read the fraction of a number. -/
def fraction : Scan (List Char) := do
  char '.'
  digits Char.isDigit

/-- Read the exponent of a number. -/
def exponent : Scan Int := do
  let _ ← satisfy fun c => c == 'e' || c == 'E'
  let negative ← sign
  let number : Int := numberOf 10 (← digits Char.isDigit)
  return if negative then -number else number

/-- Read a number with a fraction, an exponent, or both. -/
def decimal : Scan Unit := do
  let negative ← sign
  let whole ← plainDigits
  let places ← maybe fraction
  let power ← if places.isSome then maybe exponent else some <$> exponent
  let places := places.getD []
  if !negative && isTooLarge (whole ++ places) (power.getD 0 - places.length) then
    failure

/-- Read a number that is not finite. -/
def special : Scan Unit := do
  let _ ← sign
  word "inf" <|> word "nan"

/-- What a scanner reads, as it is written. -/
def written (scan : Scan Unit) : Scan String := do
  let before ← get
  scan
  let after ← get
  return String.ofList (before.take (before.length - after.length))

/-- Read a floating-point number. -/
def float : Scan Value :=
  .float <$> written (decimal <|> special)

/-! ## Dates and times -/

/-- Read a number of a fixed width that lies between two bounds. -/
def bounded
    (width least most : Nat) :
    Scan Nat := do
  let number := numberOf 10 (← exactly Char.isDigit width)
  if least ≤ number ∧ number ≤ most then
    return number
  else
    failure

/-- The number of days of a month. -/
def daysIn (year month : Nat) : Nat :=
  if month = 2 then
    if year % 4 = 0 ∧ (year % 100 ≠ 0 ∨ year % 400 = 0) then 29 else 28
  else if month = 4 ∨ month = 6 ∨ month = 9 ∨ month = 11 then
    30
  else
    31

/-- Read a date. -/
def date : Scan Unit := do
  let year ← bounded 4 0 9999
  char '-'
  let month ← bounded 2 1 12
  char '-'
  let _ ← bounded 2 1 (daysIn year month)

/-- Read a time of day. -/
def time : Scan Unit := do
  let _ ← bounded 2 0 23
  char ':'
  let _ ← bounded 2 0 59
  char ':'
  let _ ← bounded 2 0 60
  let _ ← maybe do
    char '.'
    let _ ← satisfy Char.isDigit
    run Char.isDigit

/-- Read the distance from universal time. -/
def offset : Scan Unit :=
  (do let _ ← satisfy fun c => c == 'Z' || c == 'z') <|> do
    let _ ← satisfy fun c => c == '+' || c == '-'
    let _ ← bounded 2 0 23
    char ':'
    let _ ← bounded 2 0 59

/-- Read a date, a time, or both, the latter with an offset if there is one. -/
def moment : Scan Value :=
  .moment <$> written do
    (do
      date
      let _ ← maybe do
        let _ ← satisfy fun c => c == 'T' || c == 't' || c == ' '
        time
        let _ ← maybe offset)
    <|> time

/-- Read a number or a moment. -/
def number : Scan Value :=
  moment <|> float <|> integer

end Scan

end TypeAtlas.Toml
