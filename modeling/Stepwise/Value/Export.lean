import Stepwise.Json.Basic
import Stepwise.Value.Text

/-!
# Values as JSON

The form in which results leave the system. Maps become objects with their
keys as text, objects list their type first, and a collection or object that
is met again inside itself becomes `null`.
-/

namespace Stepwise.Heap

/-- The JSON form of a value below the things being written. -/
def exportUnder (h : Heap) : Nat → List Place → Val → Json
  | _, _, .null => .null
  | _, _, .bool b => .bool b
  | _, _, .int n => .int n.toInt
  | _, _, .float x => .float x
  | _, _, .str s => .str s
  | _, _, .exception typeName message =>
    .obj [("type_name", .str typeName), ("message", .str message)]
  | 0, _, .array _ => .null
  | fuel + 1, visiting, .array ref =>
    if visiting.contains (.array ref) then .null
    else .arr ((h.items ref).map (h.exportUnder fuel (.array ref :: visiting)))
  | 0, _, .map _ => .null
  | fuel + 1, visiting, .map ref =>
    if visiting.contains (.map ref) then .null
    else .obj ((h.entries ref).map fun (key, value) =>
      (key.text, h.exportUnder fuel (.map ref :: visiting) value))
  | 0, _, .object _ _ => .null
  | fuel + 1, visiting, .object typeName ref =>
    if visiting.contains (.object ref) then .null
    else .obj (("$type", .str typeName) :: (h.fields ref).map fun (name, value) =>
      (name, h.exportUnder fuel (.object ref :: visiting) value))

/-- The JSON form of a value. -/
def toJson (h : Heap) (v : Val) : Json :=
  h.exportUnder h.placeBound [] v

end Stepwise.Heap
