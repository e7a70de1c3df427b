import Stepwise.Program.Basic

/-!
# Jumps inside a block

A jump to a label continues with the rest of the block that starts at the
label's first declaration. Labels of nested blocks do not count.
-/

namespace Stepwise.Block

/-- Index of the first declaration of the label in this block. -/
def position? (block : List Stmt) (label : String) : Option Nat :=
  block.findIdx? (·.declares label)

/-- The rest of the block from the first declaration of the label on. -/
def fromLabel? (label : String) : List Stmt → Option (List Stmt)
  | [] => none
  | stmt :: rest => if stmt.declares label then some (stmt :: rest) else fromLabel? label rest

/-- Jumping is dropping the statements in front of the label's position. -/
theorem fromLabel?_eq_map_drop (label : String) (block : List Stmt) :
    fromLabel? label block = (position? block label).map (block.drop ·) := by
  induction block with
  | nil => rfl
  | cons stmt rest ih =>
    unfold fromLabel? position?
    rw [List.findIdx?_cons]
    cases h : stmt.declares label with
    | true => simp
    | false =>
      simp only [Bool.false_eq_true, if_false, Option.map_map]
      rw [ih]
      rfl

/-- A jump fails exactly when no statement of the block declares the label. -/
theorem fromLabel?_eq_none_iff (label : String) (block : List Stmt) :
    fromLabel? label block = none ↔ ∀ stmt ∈ block, stmt.declares label = false := by
  induction block with
  | nil => simp [fromLabel?]
  | cons stmt rest ih =>
    unfold fromLabel?
    cases h : stmt.declares label <;> simp [h, ih]

end Stepwise.Block
