import Stepwise.Decimal.Binary

/-!
# The fewest digits that read back

Every decimal inside the rounding interval of a double reads back as that
double. The interval ends halfway to the neighbours and contains its ends
when the mantissa is even. For one digit, two digits and so on up to
seventeen, the two neighbours of the value on that decimal grid are tried;
the first grid with a hit wins, of two hits the nearer one, of two equally
near ones the larger.
-/

namespace Stepwise.Decimal

/-- A decimal `digits * 10 ^ exponent`. -/
structure Digits where
  /-- The significant digits as a number. -/
  digits : Nat
  /-- The power of ten they are scaled by. -/
  exponent : Int
deriving DecidableEq

/-- Number of decimal digits of a positive number. -/
def digitCount (n : Nat) : Nat :=
  (Nat.toDigits 10 n).length

/-- The exponent `e` with `10 ^ e ≤ num / den < 10 ^ (e + 1)`, for positive arguments. -/
def leadingExponent (num den : Nat) : Int :=
  if den ≤ num then (digitCount (num / den) : Int) - 1
  else -(digitCount ((den + num - 1) / num - 1) : Int)

/-- Drop zeros at the end of the digits; `fuel` bounds their number. -/
def Digits.strip : Nat → Digits → Digits
  | 0, d => d
  | fuel + 1, d =>
    if d.digits % 10 == 0 then Digits.strip fuel ⟨d.digits / 10, d.exponent + 1⟩ else d

/-- A positive value with its rounding interval, all over one denominator. -/
structure Interval where
  /-- Lower end. -/
  low : Nat
  /-- The value itself. -/
  value : Nat
  /-- Upper end. -/
  high : Nat
  /-- The common denominator. -/
  den : Nat
  /-- Whether the ends belong to the interval. -/
  closed : Bool

/-- The rounding interval of `mantissa * 2 ^ exponent`. Below a power of two
the neighbour is only half as far away. -/
def Interval.ofParts (mantissa : Nat) (exponent : Int) : Interval :=
  let up := (exponent - 2).toNat
  let down := (2 - exponent).toNat
  let below := if mantissa == Parts.leading && decide (-1074 < exponent) then 1 else 2
  { low := (4 * mantissa - below) * Nat.pow 2 up
    value := 4 * mantissa * Nat.pow 2 up
    high := (4 * mantissa + 2) * Nat.pow 2 up
    den := Nat.pow 2 down
    closed := mantissa % 2 == 0 }

/-- Whether `num / den` lies in the interval. -/
def Interval.contains (i : Interval) (num den : Nat) : Bool :=
  if i.closed then
    decide (i.low * den ≤ num * i.den) && decide (num * i.den ≤ i.high * den)
  else
    decide (i.low * den < num * i.den) && decide (num * i.den < i.high * den)

/-- The best decimal of at most `count` digits in the interval, if there is one. -/
def Interval.best? (i : Interval) (count : Nat) : Option Digits :=
  let exponent := leadingExponent i.value i.den + 1 - count
  let up := Nat.pow 10 exponent.toNat
  let down := Nat.pow 10 (-exponent).toNat
  let floor := i.value * down / (i.den * up)
  let rest := i.value * down % (i.den * up)
  let lower := i.contains (floor * up) down
  let upper := i.contains ((floor + 1) * up) down
  if lower && (!upper || decide (2 * rest < i.den * up)) && decide (0 < floor) then
    some ⟨floor, exponent⟩
  else if upper then some ⟨floor + 1, exponent⟩
  else none

/-- The first of the digit counts `first`, `first + 1`, … that has a decimal in the interval. -/
def Interval.search (i : Interval) : Nat → Nat → Option Digits
  | 0, _ => none
  | fuel + 1, first =>
    match i.best? first with
    | some d => some d
    | none => i.search fuel (first + 1)

/-- The shortest decimal that reads back as `mantissa * 2 ^ exponent`. -/
def shortest (mantissa : Nat) (exponent : Int) : Digits :=
  if mantissa == 0 then ⟨0, 0⟩
  else
    match (Interval.ofParts mantissa exponent).search 17 1 with
    | some d => d.strip 20
    | none => ⟨mantissa * Nat.pow 2 exponent.toNat, 0⟩

end Stepwise.Decimal
