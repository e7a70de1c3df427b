import Stepwise.Word

/-!
# Source spans

Every node of a program tree remembers where it stood in the source text.
Lines and columns count from zero here and from one in messages. The blank
span marks a node that no source text stands behind.
-/

namespace Stepwise

/-- A stretch of source text: byte offsets, then line and column of both ends. -/
structure Span where
  /-- First byte. -/
  start : Nat
  /-- First byte after the stretch. -/
  stop : Nat
  /-- Line of the first byte, from zero. -/
  startLine : Nat
  /-- Column of the first byte, from zero. -/
  startCol : Nat
  /-- Line of the end, from zero. -/
  endLine : Nat
  /-- Column of the end, from zero. -/
  endCol : Nat
deriving DecidableEq, Inhabited

namespace Span

/-- The span of a node that stands for no source text. -/
def blank : Span := ⟨0, 0, 0, 0, 0, 0⟩

/-- The start of one line, without byte offsets. -/
def line (n : Nat) : Span := ⟨0, 0, n, 0, n, 1⟩

/-- Whether no source text stands behind the node. -/
def isBlank (s : Span) : Bool := decide (s = blank)

/-- A number counted from one, as an unsigned word. -/
def ordinal (n : Nat) : String := toString ((n + 1) % Word.count)

/-- The place as messages name it: line and column of the start, from one. -/
def place (s : Span) : String :=
  "line " ++ ordinal s.startLine ++ ", col " ++ ordinal s.startCol

/-- Only the blank span is blank. -/
theorem isBlank_iff (s : Span) : s.isBlank = true ↔ s = blank := by
  simp [isBlank]

end Span

end Stepwise
