/-!
# JSON trees

Numbers are kept in two kinds, as the interchange format tells them apart:
integers, and doubles. Objects keep their members in the order written, with
repetitions, so that a reader can refuse a member that is given twice. What is
well formed and yet stands for no value is kept as such: a reader may pass
over it, but no reader can use it.
-/

namespace Stepwise

/-- A JSON value. -/
inductive Json where
  /-- `null`. -/
  | null
  /-- A truth value. -/
  | bool (value : Bool)
  /-- A number written without point and exponent. -/
  | int (value : Int)
  /-- Any other number. -/
  | float (value : Float)
  /-- A text. -/
  | str (value : String)
  /-- A list. -/
  | arr (items : List Json)
  /-- Members in the order written. -/
  | obj (members : List (String × Json))
  /-- A numeral beyond all doubles, a text with half of a surrogate pair, or an
  object with a name of that kind. -/
  | broken
deriving BEq, Inhabited

namespace Json

/-- The members of an object that have this name. -/
def named (name : String) : List (String × Json) → List Json
  | [] => []
  | (key, value) :: rest =>
    if key == name then value :: named name rest else named name rest

/-- The first member of this name, if the value is an object and has one. -/
def get? (name : String) : Json → Option Json
  | .obj members => (named name members).head?
  | _ => none

/-- A member that has to be given, once. -/
def required? (members : List (String × Json)) (name : String) : Option Json :=
  match named name members with
  | [value] => some value
  | _ => none

/-- A member that may be left out or be `null`, and is given at most once. -/
def optional? (members : List (String × Json)) (name : String) : Option (Option Json) :=
  match named name members with
  | [] => some none
  | [.null] => some none
  | [value] => some (some value)
  | _ => none

/-- A member that may be left out, which stands for a default, but must be
readable if it is given. -/
def orDefault? {α : Type} (members : List (String × Json)) (name : String)
    (read : Json → Option α) (fallback : α) : Option α :=
  match named name members with
  | [] => some fallback
  | [value] => read value
  | _ => none

mutual

/-- Levels of lists and objects in a value, counting the value itself. -/
def height : Json → Nat
  | .arr items => heightItems items + 1
  | .obj members => heightMembers members + 1
  | _ => 1

/-- The height of the highest item. -/
def heightItems : List Json → Nat
  | [] => 0
  | item :: rest => max item.height (heightItems rest)

/-- The height of the highest member. -/
def heightMembers : List (String × Json) → Nat
  | [] => 0
  | (_, item) :: rest => max item.height (heightMembers rest)

end

mutual

/-- Whether everything in a value stands for something. -/
def isWhole : Json → Bool
  | .arr items => isWholeItems items
  | .obj members => isWholeMembers members
  | .broken => false
  | _ => true

/-- Whether all items are whole. -/
def isWholeItems : List Json → Bool
  | [] => true
  | item :: rest => item.isWhole && isWholeItems rest

/-- Whether all members are whole. -/
def isWholeMembers : List (String × Json) → Bool
  | [] => true
  | (_, item) :: rest => item.isWhole && isWholeMembers rest

end

/-- A text. -/
def asString? : Json → Option String
  | .str s => some s
  | _ => none

/-- A truth value. -/
def asBool? : Json → Option Bool
  | .bool b => some b
  | _ => none

/-- A natural number below a bound. -/
def asNatBelow? (bound : Nat) : Json → Option Nat
  | .int n => if 0 ≤ n && n < bound then some n.toNat else none
  | _ => none

/-- The items of a list. -/
def asItems? : Json → Option (List Json)
  | .arr items => some items
  | _ => none

/-- The members of an object. -/
def asMembers? : Json → Option (List (String × Json))
  | .obj members => some members
  | _ => none

end Json

end Stepwise
