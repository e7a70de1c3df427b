import Stepwise.Value.Heap
import Stepwise.Decimal.Layout

/-!
# Values as text

The text that the console and messages show. A collection that is met again
inside itself is cut short, and its contents are replaced by dots. Objects
show their type only.
-/

namespace Stepwise

/-- A collection that is being written. -/
inductive Place where
  /-- An array. -/
  | array (ref : Nat)
  /-- A map. -/
  | map (ref : Nat)
  /-- An object. -/
  | object (ref : Nat)
deriving DecidableEq

namespace Heap

/-- More collections and objects than there are in the heap. -/
def placeBound (h : Heap) : Nat :=
  h.arrays.size + h.maps.size + h.objects.size + 1

/-- The text of a value below the collections being written. -/
def textUnder (h : Heap) : Nat → List Place → Val → String
  | _, _, .null => "null"
  | _, _, .bool b => if b then "true" else "false"
  | _, _, .int n => toString n.toInt
  | _, _, .float x => Decimal.plain x
  | _, _, .str s => s
  | _, _, .exception typeName message => typeName ++ ": " ++ message
  | _, _, .object typeName _ => "<" ++ typeName ++ ">"
  | 0, _, .array _ => "[...]"
  | fuel + 1, visiting, .array ref =>
    if visiting.contains (.array ref) then "[...]"
    else "[" ++ ", ".intercalate ((h.items ref).map (h.textUnder fuel (.array ref :: visiting))) ++ "]"
  | 0, _, .map _ => "\x7b...\x7d"
  | fuel + 1, visiting, .map ref =>
    if visiting.contains (.map ref) then "\x7b...\x7d"
    else
      let entry := fun (key, value) =>
        Key.text key ++ ": " ++ h.textUnder fuel (.map ref :: visiting) value
      "\x7b" ++ ", ".intercalate ((h.entries ref).map entry) ++ "\x7d"

/-- The text of a value. -/
def text (h : Heap) (v : Val) : String :=
  h.textUnder h.placeBound [] v

end Heap

end Stepwise
