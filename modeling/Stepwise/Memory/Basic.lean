import Stepwise.Fault
import Stepwise.Value.Heap

/-!
# Variables

A variable is a cell with a fixed name and a fixed shape. Cells are known by
number, so that a scope, the globals and a snapshot can all speak of the same
variable. Disposing of a variable takes its value away and leaves the cell.
-/

namespace Stepwise

/-- What a shape lets a variable hold. -/
def Shape.accepts : Shape → Val → Bool
  | .dynamic, _ => true
  | .scalar, v => !v.isCollection
  | .array, v => v.isNull || v.isCollection

/-- A variable. -/
structure Cell where
  /-- Its name. -/
  name : String
  /-- What it may hold. -/
  shape : Shape
  /-- What it holds. -/
  value : Val
deriving Inhabited

/-- A new variable that holds a value, unless the shape refuses it. -/
def Cell.holding (name : String) (shape : Shape) (value : Val) : Except Fault Cell :=
  if shape.accepts value then .ok ⟨name, shape, value⟩
  else .error (.shapeMismatch value.typeName shape name)

/-- Store another value in a variable, unless its shape refuses it. -/
def Cell.store (c : Cell) (value : Val) : Except Fault Cell :=
  Cell.holding c.name c.shape value

/-- All variables, and which of them are global. -/
structure Memory where
  /-- The variables by number. -/
  cells : Array Cell := #[]
  /-- Numbers of the global variables, in order of declaration. -/
  globals : List Nat := []
deriving Inhabited

namespace Memory

/-- A variable by its number. -/
def cell (m : Memory) (id : Nat) : Cell := m.cells.getD id default

/-- Add a variable and give it a number. -/
def alloc (m : Memory) (c : Cell) : Nat × Memory :=
  (m.cells.size, { m with cells := m.cells.push c })

/-- Replace a variable. -/
def setCell (m : Memory) (id : Nat) (c : Cell) : Memory :=
  { m with cells := m.cells.setIfInBounds id c }

/-- Store a value in a variable. -/
def store (m : Memory) (id : Nat) (value : Val) : Except Fault Memory :=
  match (m.cell id).store value with
  | .ok c => .ok (m.setCell id c)
  | .error f => .error f

/-- Take the value of a variable away. -/
def dispose (m : Memory) (id : Nat) : Memory :=
  m.setCell id { m.cell id with value := .null }

/-- Take the values of several variables away. -/
def disposeAll (m : Memory) (ids : List Nat) : Memory :=
  ids.foldl dispose m

/-- Make a variable global. It takes the place of one with the same name, at
the end of the order. -/
def declareGlobal (m : Memory) (id : Nat) : Memory :=
  { m with globals := m.globals.filter (fun g => (m.cell g).name ≠ (m.cell id).name) ++ [id] }

/-- The global variable of a name. -/
def global? (m : Memory) (name : String) : Option Nat :=
  m.globals.find? fun g => (m.cell g).name == name

end Memory

end Stepwise
