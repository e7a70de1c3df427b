import Stepwise.Control.Phase
import Stepwise.Control.Tracker
import Stepwise.Control.Gate

/-!
# Controls

Lifecycle, gate and tracker work together: a step is granted only while the
session is paused, releasing the gate makes the session idle if nothing is in
flight, and a failure both ends the session and cancels the gate.
-/

namespace Stepwise

/-- What steers a session. -/
structure Controls where
  /-- Phase and events. -/
  life : Lifecycle := {}
  /-- The gate. -/
  gate : Gate := {}
  /-- Work in flight. -/
  tracker : Tracker := {}
deriving Inhabited

namespace Controls

/-- The current phase. -/
def phase (c : Controls) : Phase := c.life.phase

/-- Move to a phase, if legal. -/
def move (c : Controls) (next : Phase) : Bool × Controls :=
  let (ok, life) := c.life.move next
  (ok, { c with life })

/-- Be held with a call stack, if legal. -/
def pauseWith (c : Controls) (s : Snapshot) : Bool × Controls :=
  let (ok, life) := c.life.pauseWith s
  (ok, { c with life })

/-- End by a failure, if the session has not ended. -/
def failLife (c : Controls) (f : Failure) : Bool × Controls :=
  let (ok, life) := c.life.fail f
  (ok, { c with life })

/-- Run again after having been idle. -/
def activate (c : Controls) : Bool × Controls :=
  let (ok, life) := c.life.activate
  (ok, { c with life })

/-- Fall idle if the session runs and nothing is in flight. -/
def refreshIdle (c : Controls) : Bool × Controls :=
  if c.phase == .running && c.tracker.isQuiet then c.move .idle else (false, c)

/-- Hold engines back. An idle session is paused at once. -/
def pause (c : Controls) : Controls :=
  let c := { c with gate := { c.gate with armed := true } }
  if c.phase == .idle then (c.move .paused).2 else c

/-- Grant one statement, if the session is paused. -/
def step (c : Controls) : Bool × Controls :=
  if c.phase == .paused then
    let c := { c with gate := { c.gate with budget := c.gate.budget + 1 } }
    (true, (c.move .running).2)
  else (false, c)

/-- Hold engines back no longer. -/
def release (c : Controls) : Controls :=
  let c := { c with gate := { c.gate with armed := false, budget := 0 } }
  if c.phase == .paused then
    (c.move (if c.tracker.isQuiet then .idle else .running)).2
  else c

/-- Turn all engines away. -/
def cancel (c : Controls) : Controls :=
  { c with gate := { c.gate with cancelled := true } }

/-- End the session by a failure and turn all engines away. -/
def fail (c : Controls) (f : Failure) : Controls :=
  (c.failLife f).2.cancel

/-- Let an engine that waits at the gate leave, if the gate lets it. -/
def leave? (c : Controls) : Option (Passage × Controls) :=
  match c.gate.leave? with
  | some (passage, gate) => some (passage, { c with gate })
  | none => none

/-- An engine arrives at a statement. -/
def approach (c : Controls) (stmt : Stmt) : Controls :=
  { c with gate := c.gate.approach stmt }

end Controls

end Stepwise
