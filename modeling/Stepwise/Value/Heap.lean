import Stepwise.Value.Basic

/-!
# The heap

Arrays, maps and objects each have a store of their own, so a reference can
only lead to a thing of its kind. Nothing is ever removed from a store. Map
entries are kept in the order of their keys and object fields in the order
of their names, which makes the contents of a map independent of its history.
-/

namespace Stepwise

/-- Everything that values refer to. -/
structure Heap where
  /-- Elements of each array. -/
  arrays : Array (List Val) := #[]
  /-- Entries of each map, in key order. -/
  maps : Array (List (Key × Val)) := #[]
  /-- Fields of each object, in name order. -/
  objects : Array (List (String × Val)) := #[]
deriving Inhabited

/-- Set the value of a key in a list sorted by `lt`. -/
def putSorted {κ : Type} [DecidableEq κ] (lt : κ → κ → Bool) (key : κ) (value : Val) :
    List (κ × Val) → List (κ × Val)
  | [] => [(key, value)]
  | (k, v) :: rest =>
    if k = key then (key, value) :: rest
    else if lt key k then (key, value) :: (k, v) :: rest
    else (k, v) :: putSorted lt key value rest

namespace Heap

/-- Elements of an array. -/
def items (h : Heap) (ref : Nat) : List Val := h.arrays.getD ref []

/-- Entries of a map. -/
def entries (h : Heap) (ref : Nat) : List (Key × Val) := h.maps.getD ref []

/-- Fields of an object. -/
def fields (h : Heap) (ref : Nat) : List (String × Val) := h.objects.getD ref []

/-- A new array. -/
def newArray (h : Heap) (items : List Val) : Val × Heap :=
  (.array h.arrays.size, { h with arrays := h.arrays.push items })

/-- A new map without entries. -/
def newMap (h : Heap) : Val × Heap :=
  (.map h.maps.size, { h with maps := h.maps.push [] })

/-- A new object without fields. -/
def newObject (h : Heap) (typeName : String) : Val × Heap :=
  (.object typeName h.objects.size, { h with objects := h.objects.push [] })

/-- Replace the elements of an array. -/
def setItems (h : Heap) (ref : Nat) (items : List Val) : Heap :=
  { h with arrays := h.arrays.setIfInBounds ref items }

/-- Replace the entries of a map. -/
def setEntries (h : Heap) (ref : Nat) (entries : List (Key × Val)) : Heap :=
  { h with maps := h.maps.setIfInBounds ref entries }

/-- Replace the fields of an object. -/
def setFields (h : Heap) (ref : Nat) (fields : List (String × Val)) : Heap :=
  { h with objects := h.objects.setIfInBounds ref fields }

/-- Set an entry of a map. -/
def putEntry (h : Heap) (ref : Nat) (key : Key) (value : Val) : Heap :=
  h.setEntries ref (putSorted Key.before key value (h.entries ref))

/-- Remove an entry of a map. -/
def removeEntry (h : Heap) (ref : Nat) (key : Key) : Heap :=
  h.setEntries ref ((h.entries ref).filter fun entry => entry.1 ≠ key)

/-- Set a field of an object. -/
def putField (h : Heap) (ref : Nat) (name : String) (value : Val) : Heap :=
  h.setFields ref (putSorted (fun a b => decide (a < b)) name value (h.fields ref))

/-- Number of elements of a collection. -/
def size? (h : Heap) : Val → Option Nat
  | .array ref => some (h.items ref).length
  | .map ref => some (h.entries ref).length
  | _ => none

end Heap

end Stepwise
