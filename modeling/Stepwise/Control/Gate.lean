import Stepwise.Program.Basic

/-!
# The gate

Every engine passes the gate before each statement. An armed gate holds
engines back; steps that were granted let them pass one statement each. A
cancelled gate turns every engine away for good. A breakpoint arms the gate
when an engine comes to a statement on its line.
-/

namespace Stepwise

/-- The gate. -/
structure Gate where
  /-- Whether engines are held back. -/
  armed : Bool := false
  /-- Statements that may still pass. -/
  budget : Nat := 0
  /-- Whether engines are turned away. -/
  cancelled : Bool := false
  /-- Lines with a breakpoint, from zero, in ascending order. -/
  breakpoints : List Nat := []
  /-- Whether breakpoints count. -/
  debugging : Bool := false
deriving Inhabited

/-- How an engine leaves the gate. -/
inductive Passage where
  /-- It goes on. -/
  | passed
  /-- It is turned away. -/
  | cancelled
deriving DecidableEq, Inhabited

/-- Put a number in its place in an ascending list. -/
def insertLine (line : Nat) : List Nat → List Nat
  | [] => [line]
  | n :: rest =>
    if line < n then line :: n :: rest
    else if line = n then n :: rest
    else n :: insertLine line rest

namespace Gate

/-- Set a breakpoint, and tell whether it is new. -/
def setBreakpoint (g : Gate) (line : Nat) : Bool × Gate :=
  (!g.breakpoints.contains line, { g with breakpoints := insertLine line g.breakpoints })

/-- Remove a breakpoint, and tell whether there was one. -/
def clearBreakpoint (g : Gate) (line : Nat) : Bool × Gate :=
  (g.breakpoints.contains line, { g with breakpoints := g.breakpoints.filter (· ≠ line) })

/-- Remove all breakpoints. -/
def clearBreakpoints (g : Gate) : Gate := { g with breakpoints := [] }

/-- Whether a statement stands on a line with a breakpoint that counts. -/
def hits (g : Gate) (stmt : Stmt) : Bool :=
  g.debugging && !stmt.isPlumbing && !stmt.span.isBlank &&
    g.breakpoints.contains stmt.span.startLine

/-- Let a waiting or arriving engine leave, if the gate lets it: nothing
means that the engine waits. -/
def leave? (g : Gate) : Option (Passage × Gate) :=
  if g.cancelled then some (.cancelled, g)
  else if !g.armed then some (.passed, g)
  else if 0 < g.budget then some (.passed, { g with budget := g.budget - 1 })
  else none

/-- The gate as an engine arrives at a statement. A breakpoint arms it,
unless it turns the engine away anyway. -/
def approach (g : Gate) (stmt : Stmt) : Gate :=
  if !g.cancelled && g.hits stmt then { g with armed := true } else g

end Gate

end Stepwise
