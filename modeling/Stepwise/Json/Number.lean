import Stepwise.Json.Basic
import Stepwise.Word

/-!
# Reading JSON numbers

A numeral without point and exponent that fits 64 bits is an integer. Any
other numeral is a double: as many leading digits as fit an unsigned 64-bit
number are rounded to a double, which is then multiplied or divided by a
power of ten. The sign of a zero is kept, so `-0` is a double as well.
-/

namespace Stepwise.Json

/-- The written form of a number, split into its digits. -/
structure Numeral where
  /-- Whether a minus sign stands in front. -/
  negative : Bool
  /-- Digits before the point. -/
  whole : List Nat
  /-- Digits after the point. -/
  fraction : Option (List Nat)
  /-- Sign and digits of the exponent. -/
  power : Option (Bool × List Nat)

namespace Numeral

/-- The largest unsigned 64-bit number. -/
def limit : Nat := Word.count - 1

/-- Append digits to a number while the result stays within the limit.
Gives the number and how many digits were taken; the rest is left out. -/
def absorb (significand : Nat) : List Nat → Nat × Nat
  | [] => (significand, 0)
  | d :: rest =>
    if significand * 10 + d ≤ limit then
      let (s, n) := absorb (significand * 10 + d) rest
      (s, n + 1)
    else (significand, 0)

/-- The number that the digits spell. -/
def value (digits : List Nat) : Nat :=
  digits.foldl (fun n d => n * 10 + d) 0

/-- The double nearest to a power of ten. -/
def powerOfTen (n : Nat) : Float :=
  Float.ofScientific 1 false n

/-- Divide by a power of ten, in steps that stay in the range of doubles. -/
def divided : Nat → Float → Nat → Float
  | 0, x, _ => x
  | fuel + 1, x, n =>
    if n ≤ 308 then x / powerOfTen n
    else if x == 0.0 then x
    else divided fuel (x / powerOfTen 308) (n - 308)

/-- A number scaled by a power of ten; nothing if the result is too large. -/
def scale? (significand : Nat) (exponent : Int) : Option Float :=
  let x := significand.toUInt64.toFloat
  if 0 ≤ exponent then
    if exponent ≤ 308 then
      let y := x * powerOfTen exponent.toNat
      if y.isInf then none else some y
    else if x == 0.0 then some x
    else none
  else some (divided 8 x (-exponent).toNat)

/-- The largest exponent that is taken at its value. -/
def exponentLimit : Nat := 2147483647

/-- The numeral as a double; nothing if it is out of range. -/
def toFloat? (n : Numeral) : Option Float :=
  let (head, taken) := absorb 0 n.whole
  let dropped := n.whole.length - taken
  let (significand, after) := absorb head (n.fraction.getD [])
  let start : Int := (dropped : Int) - after
  let magnitude :=
    match n.power with
    | none => scale? significand start
    | some (down, digits) =>
      if value digits ≤ exponentLimit then
        let shift : Int := if down then -(value digits : Int) else value digits
        scale? significand (start + shift)
      else if significand == 0 || down then some 0.0
      else none
  magnitude.map fun x => if n.negative then -x else x

/-- The value of a numeral; nothing if it is out of range. -/
def toJson? (n : Numeral) : Option Json :=
  let whole := value n.whole
  if n.fraction.isNone && n.power.isNone && decide (whole ≤ limit) then
    if !n.negative then some (.int whole)
    else if 0 < whole && whole ≤ Word.half then some (.int (-(whole : Int)))
    else some (.float (-whole.toUInt64.toFloat))
  else n.toFloat?.map .float

end Numeral

end Stepwise.Json
