import Stepwise.Value.Heap

/-!
# Equality of values

Scalars are equal by value, a number of either kind to one of the other kind
as doubles. Collections are equal if their contents are, objects only if they
are the same object. A pair of collections that is met again while it is
being compared is taken as equal, so the comparison ends on cyclic values.
The pairs under comparison never repeat, hence their number bounds the depth.
-/

namespace Stepwise

/-- Two collections of one kind that are being compared. -/
inductive Pairing where
  /-- Two arrays. -/
  | arrays (left right : Nat)
  /-- Two maps. -/
  | maps (left right : Nat)
deriving DecidableEq

namespace Heap

/-- More pairs of collections than there are in the heap. -/
def pairBound (h : Heap) : Nat :=
  h.arrays.size * h.arrays.size + h.maps.size * h.maps.size + 1

/-- Equality below the pairs under comparison. -/
def equalUnder (h : Heap) : Nat → List Pairing → Val → Val → Bool
  | _, _, .null, .null => true
  | _, _, .bool a, .bool b => a == b
  | _, _, .int a, .int b => a == b
  | _, _, .float a, .float b => a == b
  | _, _, .int a, .float b => a.toFloat == b
  | _, _, .float a, .int b => b.toFloat == a
  | _, _, .str a, .str b => a == b
  | _, _, .exception t m, .exception t' m' => t == t' && m == m'
  | _, _, .object _ a, .object _ b => a == b
  | 0, _, .array _, .array _ => true
  | fuel + 1, visiting, .array a, .array b =>
    a == b || visiting.contains (.arrays a b) ||
      ((h.items a).length == (h.items b).length &&
        ((h.items a).zip (h.items b)).all fun (x, y) =>
          h.equalUnder fuel (.arrays a b :: visiting) x y)
  | 0, _, .map _, .map _ => true
  | fuel + 1, visiting, .map a, .map b =>
    a == b || visiting.contains (.maps a b) ||
      ((h.entries a).length == (h.entries b).length &&
        (h.entries a).all fun (key, x) =>
          match (h.entries b).lookup key with
          | some y => h.equalUnder fuel (.maps a b :: visiting) x y
          | none => false)
  | _, _, _, _ => false

/-- Whether two values are equal. -/
def equal (h : Heap) (a b : Val) : Bool :=
  h.equalUnder h.pairBound [] a b

end Heap

end Stepwise
