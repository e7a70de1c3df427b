import Stepwise.Memory.Snapshot

/-!
# The life of a session

A session is prepared, runs, may fall idle and be paused any number of times,
and ends once. Only some moves are legal; each legal move is an event, which
the observer is told and which is published to whoever has subscribed.
-/

namespace Stepwise

/-- Where a session stands. -/
inductive Phase where
  /-- Not started. -/
  | ready
  /-- Being prepared. -/
  | preparing
  /-- Running. -/
  | running
  /-- Nothing left to run. -/
  | idle
  /-- Held at a statement, or held while idle. -/
  | paused
  /-- Ended. -/
  | stopped
  /-- Ended by a failure. -/
  | failed
deriving DecidableEq, Inhabited

namespace Phase

/-- The name of a phase. -/
def word : Phase → String
  | .ready => "Ready"
  | .preparing => "Preparing"
  | .running => "Running"
  | .idle => "Idle"
  | .paused => "Paused"
  | .stopped => "Stopped"
  | .failed => "StoppedWithError"

/-- All phases. -/
def all : List Phase := [.ready, .preparing, .running, .idle, .paused, .stopped, .failed]

/-- The phase of a name. -/
def ofWord? (word : String) : Option Phase := all.find? (·.word == word)

/-- The phases that nothing follows. -/
def isTerminal : Phase → Bool
  | .stopped | .failed => true
  | _ => false

/-- Whether a session may move from one phase to another. -/
def canMove (a b : Phase) : Bool :=
  if a.isTerminal || a == b then false
  else
    match b with
    | .stopped | .failed => true
    | .preparing => a == .ready
    | .running => a == .preparing || a == .idle || a == .paused
    | .idle => a == .running || a == .paused
    | .paused => a == .running || a == .idle
    | .ready => false

/-- Nothing follows a terminal phase. -/
theorem canMove_of_isTerminal {a b : Phase} (h : a.isTerminal = true) : a.canMove b = false := by
  simp [canMove, h]

end Phase

/-- A move of a session. -/
structure Event where
  /-- The phase entered. -/
  phase : Phase
  /-- The failure that ended the session. -/
  failure : Option Failure
  /-- The call stack that was held or that failed. -/
  snapshot : Option Snapshot
deriving Inhabited

/-- The current phase and the moves that led to it. -/
structure Lifecycle where
  /-- The current phase. -/
  phase : Phase := .ready
  /-- All moves so far as the observer was told them, first one first. -/
  events : Array Event := #[]
  /-- All moves so far as they were published, first one first. -/
  published : Array Event := #[]
deriving Inhabited

namespace Lifecycle

/-- Make a move if it is legal, and tell whether it was made. -/
def apply (l : Lifecycle) (event : Event) : Bool × Lifecycle :=
  if l.phase.canMove event.phase then
    (true, ⟨event.phase, l.events.push event, l.published.push event⟩)
  else (false, l)

/-- Move to a phase. -/
def move (l : Lifecycle) (next : Phase) : Bool × Lifecycle :=
  l.apply ⟨next, none, none⟩

/-- Be held with the call stack of the engine that waits. -/
def pauseWith (l : Lifecycle) (s : Snapshot) : Bool × Lifecycle :=
  l.apply ⟨.paused, none, some s⟩

/-- End by a failure. Only the first failure counts, since the phase is terminal. -/
def fail (l : Lifecycle) (f : Failure) : Bool × Lifecycle :=
  l.apply ⟨.failed, some f, f.snapshot⟩

/-- Run again after having been idle; any other phase stays. -/
def activate (l : Lifecycle) : Bool × Lifecycle :=
  if l.phase == .idle then l.move .running else (false, l)

end Lifecycle

end Stepwise
