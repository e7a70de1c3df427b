import Stepwise.Word

/-!
# The parts of a double

A finite double is a natural number scaled by a power of two. All decimal
text and the exact remainder are computed from these parts in exact integer
arithmetic.
-/

namespace Stepwise.Decimal

/-- What the bits of a double stand for. -/
inductive Parts where
  /-- Not a number. -/
  | nan
  /-- An infinity with its sign. -/
  | infinite (negative : Bool)
  /-- The number `mantissa * 2 ^ exponent` with its sign. -/
  | finite (negative : Bool) (mantissa : Nat) (exponent : Int)
deriving DecidableEq

/-- The leading bit that the mantissa of a normal double has, and its bits do
not show: the 52nd power of two. -/
def Parts.leading : Nat := 4503599627370496

/-- Split 64 bits into sign, eleven bits of exponent and 52 bits of fraction. -/
def Parts.ofBits (bits : UInt64) : Parts :=
  let n := bits.toNat
  let negative := n / Word.half == 1
  let scale : Nat := n / leading % 2048
  let fraction : Nat := n % leading
  if scale == 2047 then
    if fraction == 0 then .infinite negative else .nan
  else if scale == 0 then
    .finite negative fraction (-1074)
  else
    .finite negative (leading + fraction) ((scale : Int) - 1075)

/-- The parts of a double. -/
def Parts.ofFloat (x : Float) : Parts :=
  Parts.ofBits x.toBits

end Stepwise.Decimal
