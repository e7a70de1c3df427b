import Stepwise.Host
import Stepwise.Decimal.Remainder

/-!
# Operators

The operators on values, without any effect. Arithmetic on integers is exact
and refuses results that do not fit 64 bits; a number of the other kind turns
both operands into doubles. Adding a text to anything joins texts.
-/

namespace Stepwise.Operators

/-- A condition is a truth value, or one of the integers 0 and 1. -/
def condition : Val → Except Fault Bool
  | .bool b => .ok b
  | .int n =>
    if n = 0 then .ok false
    else if n = 1 then .ok true
    else .error (.conditionRange n)
  | .null => .error .conditionNull
  | v => .error (.conditionType v.typeName)

/-- The position of an element in a sequence of the given length. -/
def position (index : Val) (length : Nat) : Except Fault Nat :=
  match index with
  | .int n =>
    if 0 ≤ n.toInt && n.toInt < length then .ok n.toInt.toNat
    else .error (.indexRange n length)
  | .null => .error .indexNull
  | v => .error (.indexType v.typeName)

/-- The element at a position of an array or a text, or of a key in a map. -/
def element (h : Heap) (target index : Val) : Except Fault Val :=
  match target with
  | .array ref => do
    let i ← position index (h.items ref).length
    .ok ((h.items ref).getD i .null)
  | .map ref => do
    let key ← Host.keyOf index
    match (h.entries ref).lookup key with
    | some value => .ok value
    | none => .error (.keyMissing key)
  | .str s => do
    let i ← position index s.length
    .ok (.str (String.singleton (s.toList.getD i ' ')))
  | .null => .error .elementOfNull
  | v => .error (.elementOf v.typeName)

/-- Assign the element at a position of an array or of a key in a map. -/
def setElement (h : Heap) (target index value : Val) : Except Fault Heap :=
  match target with
  | .array ref => do
    let i ← position index (h.items ref).length
    .ok (h.setItems ref ((h.items ref).set i value))
  | .map ref => do
    let key ← Host.keyOf index
    .ok (h.putEntry ref key value)
  | .null => .error .elementOfNull
  | v => .error (.elementAssign v.typeName)

/-- A unary operator. -/
def unary (op : UnaryOp) (v : Val) : Except Fault Val :=
  match op with
  | .not => do .ok (.bool !(← condition v))
  | .neg =>
    match v with
    | .int n =>
      match Word.signed? (-n.toInt) with
      | some m => .ok (.int m)
      | none => .error (.negateRange n)
    | .float x => .ok (.float (-x))
    | .null => .error .negateNull
    | v => .error (.negateType v.typeName)

/-- The result of an arithmetic operator on integers, for a divisor other
than zero. A quotient is rounded toward zero and the remainder belongs to it;
where the quotient does not fit, the remainder is refused too. -/
def integer? (op : BinaryOp) (a b : Int) : Option Int64 :=
  match op with
  | .add => Word.signed? (a + b)
  | .sub => Word.signed? (a - b)
  | .mul => Word.signed? (a * b)
  | .div => Word.signed? (a.tdiv b)
  | .mod => (Word.signed? (a.tdiv b)).bind fun _ => Word.signed? (a.tmod b)
  | _ => none

/-- Whether the right operand is a divisor. -/
def divides : BinaryOp → Bool
  | .div | .mod => true
  | _ => false

/-- Arithmetic on integers. -/
def intArithmetic (op : BinaryOp) (a b : Int64) : Except Fault Val :=
  if divides op && b = 0 then .error .divideByZero
  else
    match integer? op a.toInt b.toInt with
    | some n => .ok (.int n)
    | none => .error (.arithmeticRange op a b)

/-- Arithmetic on doubles. -/
def floatArithmetic (op : BinaryOp) (a b : Float) : Except Fault Val :=
  if divides op && b == 0.0 then .error .divideByZero
  else
    match op with
    | .sub => .ok (.float (a - b))
    | .mul => .ok (.float (a * b))
    | .div => .ok (.float (a / b))
    | .mod => .ok (.float (Decimal.remainder a b))
    | _ => .ok (.float (a + b))

/-- Arithmetic on numbers of either kind. -/
def arithmetic (op : BinaryOp) (left right : Val) : Except Fault Val :=
  match left, right with
  | .null, _ | _, .null => .error (.operandNull op)
  | .int a, .int b => intArithmetic op a b
  | left, right =>
    match left.asFloat?, right.asFloat? with
    | some a, some b => floatArithmetic op a b
    | _, _ => .error (.operandTypes op left.typeName right.typeName)

/-- How two doubles are ordered; nothing if one of them is not a number. -/
def orderFloats (a b : Float) : Option Ordering :=
  if a < b then some .lt
  else if b < a then some .gt
  else if a == b then some .eq
  else none

/-- How two values are ordered: numbers by size, texts by code points. -/
def order (op : BinaryOp) (left right : Val) : Except Fault (Option Ordering) :=
  match left, right with
  | .int a, .int b => .ok (some (compare a.toInt b.toInt))
  | .str a, .str b => .ok (some (if a < b then .lt else if b < a then .gt else .eq))
  | .null, _ | _, .null => .error (.compareNull op)
  | left, right =>
    match left.asFloat?, right.asFloat? with
    | some a, some b => .ok (orderFloats a b)
    | _, _ => .error (.compareTypes left.typeName right.typeName)

/-- Whether an order satisfies a comparison. -/
def satisfies : BinaryOp → Option Ordering → Bool
  | _, none => false
  | .lt, some o => o == .lt
  | .le, some o => o != .gt
  | .gt, some o => o == .gt
  | _, some o => o != .lt

/-- A value as part of a joined text: null adds nothing. -/
def part (h : Heap) : Val → String
  | .null => ""
  | v => h.text v

/-- Addition: texts are joined, numbers added. -/
def add (h : Heap) (left right : Val) : Except Fault Val :=
  match left, right with
  | .str _, _ | _, .str _ => .ok (.str (part h left ++ part h right))
  | left, right => arithmetic .add left right

/-- A binary operator on two values that are both known. Evaluation handles
`and` and `or` by itself, so that one conjunction here stands for both. -/
def binary (h : Heap) (op : BinaryOp) (left right : Val) : Except Fault Val :=
  match op with
  | .eq => .ok (.bool (h.equal left right))
  | .notEq => .ok (.bool !(h.equal left right))
  | .lt | .le | .gt | .ge => do .ok (.bool (satisfies op (← order op left right)))
  | .add => add h left right
  | .and | .or => do
    if ← condition left then .bool <$> condition right else .ok (.bool false)
  | op => arithmetic op left right

end Stepwise.Operators
