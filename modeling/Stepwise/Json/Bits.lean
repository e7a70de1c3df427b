import Stepwise.Json.Printer
import Stepwise.Json.Text

/-!
# Doubles by their bits

A form of doubles that loses nothing and does not depend on how decimals are
read: an object whose member `float` has the bits as sixteen hexadecimal
digits, the highest one first. All values that are not numbers are written
`nan`, since their bits carry no meaning.
-/

namespace Stepwise.Json

/-- The bits of a double in words. -/
def bitsText (x : Float) : String :=
  if x.isNaN then "nan"
  else
    let bits := x.toBits.toNat
    String.ofList ((List.range 16).reverse.map fun i => hexDigit (bits / Nat.pow 16 i % 16))

/-- The number that hexadecimal digits spell, highest digit first. -/
def hexNat? : List Char → Nat → Option Nat
  | [], n => some n
  | c :: rest, n => do hexNat? rest (n * 16 + (← hexDigit? c))

/-- The double that its bits spell. -/
def ofBitsText? (s : String) : Option Float :=
  if s == "nan" then some (0.0 / 0.0)
  else (hexNat? s.toList 0).map fun n => Float.ofBits n.toUInt64

/-- A double by its bits. -/
def ofFloatBits (x : Float) : Json := .obj [("float", .str (bitsText x))]

/-- The double that is given by its bits. -/
def asFloatBits? (j : Json) : Option Float :=
  match j.get? "float" with
  | some (.str s) => ofBitsText? s
  | _ => none

mutual

/-- A tree with its doubles given by their bits. -/
def withFloatBits : Json → Json
  | .float x => ofFloatBits x
  | .arr items => .arr (withFloatBitsItems items)
  | .obj members => .obj (withFloatBitsMembers members)
  | j => j

/-- A list with its doubles given by their bits. -/
def withFloatBitsItems : List Json → List Json
  | [] => []
  | item :: rest => item.withFloatBits :: withFloatBitsItems rest

/-- Members with their doubles given by their bits. -/
def withFloatBitsMembers : List (String × Json) → List (String × Json)
  | [] => []
  | (name, item) :: rest => (name, item.withFloatBits) :: withFloatBitsMembers rest

end

end Stepwise.Json
