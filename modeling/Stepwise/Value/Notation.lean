import Stepwise.Json.Bits
import Stepwise.Value.Text

/-!
# An exact notation for values

A JSON form of values from which they can be made again. Unlike the form in
which results leave the system it tells all kinds of values apart: doubles
are given by their bits, and each kind of collection has a member named for
it. A collection that is met again inside itself is noted as a cycle. Reading
makes new collections; a value that is known by a name can be referred to.
-/

namespace Stepwise

namespace Heap

/-- The notation of a value below the things being written. -/
def noteUnder (h : Heap) : Nat → List Place → Val → Json
  | _, _, .null => .null
  | _, _, .bool b => .bool b
  | _, _, .int n => .int n.toInt
  | _, _, .float x => .ofFloatBits x
  | _, _, .str s => .str s
  | _, _, .exception typeName message =>
    .obj [("exception", .arr [.str typeName, .str message])]
  | 0, _, _ => cycle
  | fuel + 1, visiting, .array ref =>
    if visiting.contains (.array ref) then cycle
    else .obj [("array", .arr ((h.items ref).map (h.noteUnder fuel (.array ref :: visiting))))]
  | fuel + 1, visiting, .map ref =>
    if visiting.contains (.map ref) then cycle
    else
      let entry := fun (key, value) =>
        .arr [h.noteUnder fuel [] (.ofKey key), h.noteUnder fuel (.map ref :: visiting) value]
      .obj [("map", .arr ((h.entries ref).map entry))]
  | fuel + 1, visiting, .object typeName ref =>
    if visiting.contains (.object ref) then cycle
    else
      let field := fun (name, value) => (name, h.noteUnder fuel (.object ref :: visiting) value)
      .obj [("object", .str typeName), ("fields", .obj ((h.fields ref).map field))]
where
  /-- The mark of something that is being written. -/
  cycle : Json := .obj [("cycle", .bool true)]

/-- The notation of a value. -/
def note (h : Heap) (v : Val) : Json := h.noteUnder h.placeBound [] v

end Heap

/-- Something that is read into a heap. -/
abbrev Reading := StateT Heap Option

namespace Reading

/-- Make something new on the heap. -/
def make (f : Heap → Val × Heap) : Reading Val := fun h => some (f h)

/-- Change the heap. -/
def change (f : Heap → Heap) : Reading Unit := fun h => some ((), f h)

/-- The value that a notation of at most the given number of levels stands
for. `names` are the values that are known by name. -/
def value (names : List (String × Val)) : Nat → Json → Reading Val
  | _, .null => pure .null
  | _, .bool b => pure (.bool b)
  | _, .int n => pure (.int (Int64.ofInt n))
  | _, .float x => pure (.float x)
  | _, .str s => pure (.str s)
  | _, .arr _ => failure
  | _, .broken => failure
  | 0, .obj _ => failure
  | depth + 1, j =>
    match j.get? "ref", j.get? "array", j.get? "map", j.get? "exception", j.get? "object" with
    | some (.str name), _, _, _, _ => (names.lookup name : Option Val)
    | _, some (.arr items), _, _, _ => do
      let items ← items.mapM (value names depth)
      make (·.newArray items)
    | _, _, some (.arr entries), _, _ => do
      let m ← make (·.newMap)
      for entry in entries do
        match entry, m with
        | .arr [key, item], .map ref =>
          let some key := (← value names depth key).asKey? | failure
          let item ← value names depth item
          change (·.putEntry ref key item)
        | _, _ => failure
      pure m
    | _, _, _, some (.arr [.str typeName, .str message]), _ => pure (.exception typeName message)
    | _, _, _, _, some (.str typeName) => do
      let o ← make (·.newObject typeName)
      for (name, item) in ((j.get? "fields").bind Json.asMembers?).getD [] do
        let item ← value names depth item
        if let .object _ ref := o then change (·.putField ref name item)
      pure o
    | _, _, _, _, _ => (j.asFloatBits?.map .float : Option Val)

end Reading

/-- The value that a notation stands for. -/
def Heap.readNote? (h : Heap) (names : List (String × Val)) (j : Json) : Option (Val × Heap) :=
  Reading.value names j.height j h

/-- The values that notations stand for, read in order. -/
def Heap.readNotes? (h : Heap) (names : List (String × Val)) (js : List Json) :
    Option (List Val × Heap) :=
  js.mapM (fun j => Reading.value names j.height j) h

end Stepwise
