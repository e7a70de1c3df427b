import Stepwise.Decimal.Binary

/-!
# The exact remainder of doubles

The remainder of a division that rounds toward zero. It has the sign of the
dividend and is always a double itself, so no rounding takes place.
-/

namespace Stepwise.Decimal

/-- A number below `2 ^ 53` scaled by a power of two, with its sign. -/
def scaled (negative : Bool) (mantissa : Nat) (exponent : Int) : Float :=
  let x := Float.scaleB (Float.ofNat mantissa) exponent
  if negative then -x else x

/-- The remainder of `x` by `y`. -/
def remainder (x y : Float) : Float :=
  match Parts.ofFloat x, Parts.ofFloat y with
  | .finite negative mx ex, .finite _ my ey =>
    if my == 0 then 0.0 / 0.0
    else
      let e := min ex ey
      let a := mx * Nat.pow 2 (ex - e).toNat
      let b := my * Nat.pow 2 (ey - e).toNat
      scaled negative (a % b) e
  | .finite .., .infinite _ => x
  | _, _ => 0.0 / 0.0

end Stepwise.Decimal
