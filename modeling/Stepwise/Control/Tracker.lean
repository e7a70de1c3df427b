/-!
# Work in flight

The tracker counts, for each call stack, the invocations that have begun and
not ended. Together with the entry point and the calls that the host has
made, they tell when nothing is left to run.
-/

namespace Stepwise

/-- Work in flight. -/
structure Tracker where
  /-- Invocations in flight on each call stack that has a record, oldest record first. -/
  records : List (Nat × Nat) := []
  /-- Whether the entry point is running. -/
  entryActive : Bool := false
  /-- Calls of the host that have not ended. -/
  hostCalls : Nat := 0
deriving Inhabited

namespace Tracker

/-- Change the count of a call stack. -/
def update (id : Nat) (f : Nat → Nat) : List (Nat × Nat) → List (Nat × Nat)
  | [] => []
  | (key, count) :: rest =>
    if key == id then (key, f count) :: rest else (key, count) :: update id f rest

/-- Invocations in flight on a call stack. -/
def pending (t : Tracker) (id : Nat) : Nat := (t.records.lookup id).getD 0

/-- Make sure that a call stack has a record. -/
def track (t : Tracker) (id : Nat) : Tracker :=
  if (t.records.lookup id).isSome then t else { t with records := t.records ++ [(id, 0)] }

/-- An invocation begins on a call stack. -/
def taskStarted (t : Tracker) (id : Nat) : Tracker :=
  let t := t.track id
  { t with records := update id (· + 1) t.records }

/-- An invocation on a call stack ends. -/
def taskEnded (t : Tracker) (id : Nat) : Tracker :=
  { t with records := update id (· - 1) t.records }

/-- The entry point begins or ends. -/
def setEntryActive (t : Tracker) (active : Bool) : Tracker :=
  { t with entryActive := active }

/-- The host begins a call. -/
def hostCallStarted (t : Tracker) : Tracker := { t with hostCalls := t.hostCalls + 1 }

/-- A call of the host ends. -/
def hostCallEnded (t : Tracker) : Tracker := { t with hostCalls := t.hostCalls - 1 }

/-- Whether nothing is in flight. -/
def isQuiet (t : Tracker) : Bool :=
  !t.entryActive && t.hostCalls == 0 && t.records.all (·.2 == 0)

/-- Whether nothing is in flight on a call stack. -/
def isDrained (t : Tracker) (id : Nat) : Bool := t.pending id == 0

/-- Whether nothing is in flight on any call stack. -/
def allDrained (t : Tracker) : Bool := t.records.all (·.2 == 0)

/-- Drop the record of a call stack, once nothing is in flight on it. -/
def drain (t : Tracker) (id : Nat) : Tracker :=
  if t.isDrained id then { t with records := t.records.filter (·.1 ≠ id) } else t

/-- Drop the records of all call stacks on which nothing is in flight. -/
def drainAll (t : Tracker) : Tracker :=
  { t with records := t.records.filter (·.2 ≠ 0) }

end Tracker

end Stepwise
