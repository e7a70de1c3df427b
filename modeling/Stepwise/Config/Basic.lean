import Stepwise.Engine.World
import Stepwise.Lowering.Basic

/-!
# Configuration

What can be set from outside: limits on execution, the treatment of calls,
and what a session does when its entry point has ended.
-/

namespace Stepwise

/-- The configuration of a session. -/
structure Config where
  /-- Limits on execution. -/
  limits : Limits := {}
  /-- The treatment of calls. -/
  lowering : Lowering.Options := {}
  /-- Stay idle when the entry point has ended, and do not stop. -/
  keepAlive : Bool := false
  /-- Log every statement. -/
  traceStatements : Bool := true
deriving Inhabited

/-- Why a configuration cannot be used. -/
inductive ConfigError where
  /-- The file that was named is not there. -/
  | notFound (path : String)
  /-- A file or a variable cannot be read as configuration. -/
  | unreadable
  /-- A value is out of its range. -/
  | invalid (reason : String)
deriving DecidableEq, Inhabited

/-- The error in words. -/
def ConfigError.message : ConfigError → String
  | .notFound path => "config file not found: " ++ path
  | .unreadable => "failed to load configuration"
  | .invalid reason => "invalid configuration: " ++ reason

/-- Refuse limits that nothing could run under. -/
def Config.validate (c : Config) : Except ConfigError Config :=
  if c.limits.maxCallDepth == 0 then
    .error (.invalid "interpreter.max_call_depth must be at least 1")
  else if c.limits.callsPerWorker == 0 then
    .error (.invalid "interpreter.calls_per_worker must be at least 1")
  else if c.limits.workerStackSize < 65536 then
    .error (.invalid "interpreter.worker_stack_size must be at least 64 KiB")
  else .ok c

end Stepwise
