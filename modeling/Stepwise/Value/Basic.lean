import Stepwise.Program.Basic

/-!
# Values

Scalars and exceptions are plain data. Arrays, maps and objects are known by
reference: two variables may hold one array. What a reference leads to is
kept by the heap.
-/

namespace Stepwise

/-- A key of a map. -/
inductive Key where
  /-- A number. -/
  | int (value : Int64)
  /-- A text. -/
  | str (value : String)
  /-- A truth value. -/
  | bool (value : Bool)
deriving DecidableEq, Inhabited

namespace Key

/-- The key as text. -/
def text : Key → String
  | .int n => toString n.toInt
  | .str s => s
  | .bool b => if b then "true" else "false"

/-- The order of keys: numbers, then texts by code points, then `false` and `true`. -/
def before : Key → Key → Bool
  | .int a, .int b => decide (a.toInt < b.toInt)
  | .int _, _ => true
  | .str _, .int _ => false
  | .str a, .str b => decide (a < b)
  | .str _, .bool _ => true
  | .bool a, .bool b => !a && b
  | .bool _, _ => false

end Key

/-- A value of a running program. -/
inductive Val where
  /-- The absent value. -/
  | null
  /-- A truth value. -/
  | bool (value : Bool)
  /-- A signed 64-bit integer. -/
  | int (value : Int64)
  /-- A double. -/
  | float (value : Float)
  /-- A text. -/
  | str (value : String)
  /-- A reference to an array. -/
  | array (ref : Nat)
  /-- A reference to a map. -/
  | map (ref : Nat)
  /-- An exception: its type and what it says. -/
  | exception (typeName message : String)
  /-- A reference to an object of a type. -/
  | object (typeName : String) (ref : Nat)
deriving DecidableEq, Inhabited

namespace Val

/-- The value of a constant. -/
def ofLiteral : Literal → Val
  | .null => .null
  | .bool b => .bool b
  | .int n => .int n
  | .float x => .float x
  | .str s => .str s

/-- The value of a key. -/
def ofKey : Key → Val
  | .int n => .int n
  | .str s => .str s
  | .bool b => .bool b

/-- Whether the value is absent. -/
def isNull : Val → Bool
  | .null => true
  | _ => false

/-- Arrays and maps are collections. -/
def isCollection : Val → Bool
  | .array _ | .map _ => true
  | _ => false

/-- The name of the value's type, as messages give it. -/
def typeName : Val → String
  | .null => "null"
  | .bool _ => "bool"
  | .int _ => "int"
  | .float _ => "float"
  | .str _ => "string"
  | .array _ => "array"
  | .map _ => "map"
  | .exception name _ => name
  | .object name _ => name

/-- The key of a map that the value stands for. -/
def asKey? : Val → Option Key
  | .int n => some (.int n)
  | .str s => some (.str s)
  | .bool b => some (.bool b)
  | _ => none

/-- The number that the value stands for, as a double. -/
def asFloat? : Val → Option Float
  | .int n => some n.toFloat
  | .float x => some x
  | _ => none

end Val

end Stepwise
