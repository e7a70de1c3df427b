import Stepwise.Decimal.Shortest

/-!
# Decimal layouts

The digits of a double are laid out in one of two ways. Messages and console
lines write every number positionally and leave out a fraction that is zero.
JSON text keeps one digit after the point and turns to an exponent outside
the middle range.
-/

namespace Stepwise.Decimal

/-- A run of zeros. -/
def zeros (n : Nat) : String :=
  String.ofList (List.replicate n '0')

/-- The sign in front of a number. -/
def sign (negative : Bool) : String :=
  if negative then "-" else ""

/-- Digits with the point after the first `point` of them. -/
def withPoint (digits : String) (point : Nat) : String :=
  (digits.take point).toString ++ "." ++ (digits.drop point).toString

/-- All digits in place; `whole` closes a number without a fraction. -/
def positional (d : Digits) (whole : String) : String :=
  let text := toString d.digits
  let point : Int := text.length + d.exponent
  if 0 ≤ d.exponent then text ++ zeros d.exponent.toNat ++ whole
  else if 0 < point then withPoint text point.toNat
  else "0." ++ zeros (-point).toNat ++ text

/-- One digit before the point and the power of ten after the mark `e`. -/
def scientific (d : Digits) : String :=
  let text := toString d.digits
  let power : Int := text.length + d.exponent - 1
  let head := if text.length == 1 then text else withPoint text 1
  head ++ "e" ++ toString power

/-- The text of a double in messages: always positional, `-0` for the
negative zero, `NaN`, `inf` and `-inf`. -/
def plain (x : Float) : String :=
  match Parts.ofFloat x with
  | .nan => "NaN"
  | .infinite negative => sign negative ++ "inf"
  | .finite negative mantissa exponent =>
    sign negative ++ positional (shortest mantissa exponent) ""

/-- The text of a double in JSON, or nothing if JSON has no text for it.
Positional from `0.00001` up to sixteen digits before the point. -/
def json? (x : Float) : Option String :=
  match Parts.ofFloat x with
  | .nan => none
  | .infinite _ => none
  | .finite negative mantissa exponent =>
    let d := shortest mantissa exponent
    let point : Int := (toString d.digits).length + d.exponent
    let body :=
      if mantissa == 0 then "0.0"
      else if -5 < point && point ≤ 16 then positional d ".0"
      else scientific d
    some (sign negative ++ body)

end Stepwise.Decimal
