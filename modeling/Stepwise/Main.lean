import Stepwise.Command.Arguments
import Stepwise.Command.Progress

/-!
# The program

Reads the files and variables that a command may look at, and carries it out
with answers from the standard input.
-/

namespace Stepwise

/-- Fuel for one piece of work. -/
def workFuel : Nat := 1000000000000

/-- How to use the program. -/
def usage : String :=
  "usage: stepwise [--config FILE] check|lower|run PROGRAM [--debug] [--break LINE] [-- ARGS]"

/-- The variables that are settings. -/
def settingVariables : List String :=
  ["INTERPRETER", "INTERPRETER__MAX_CALL_DEPTH", "INTERPRETER__CALLS_PER_WORKER",
    "INTERPRETER__WORKER_STACK_SIZE", "OPTIMIZER", "OPTIMIZER__INLINE",
    "OPTIMIZER__RECURSION_INLINE_LIMIT", "SESSION", "SESSION__KEEP_ALIVE",
    "SESSION__TRACE_STATEMENTS"].map (Variables.marker.toUpper ++ ·)

/-- The text of a file, if it can be read. -/
def readFile? (name : String) : IO (Option String) := do
  try
    return some (← IO.FS.readFile name)
  catch _ => return none

/-- What a command can see. -/
def surroundings (c : Command) : IO Surroundings := do
  let names := [Config.variablesFile, Config.usualFile, c.program] ++ c.config.toList
  let files ← names.filterMapM fun name => do
    return (← readFile? name).map (name, ·)
  let bindings ← settingVariables.filterMapM fun name => do
    return (← IO.getEnv name).map (name, ·)
  return { files, bindings }

/-- Write what has been added to a transcript. -/
def display (before after : Transcript) : IO Unit := do
  let out ← IO.getStdout
  let err ← IO.getStderr
  err.putStr (String.ofList (after.err.toList.drop before.err.length))
  err.flush
  out.putStr (String.ofList (after.out.toList.drop before.out.length))
  out.flush

/-- The next line of the standard input; nothing at its end. -/
def nextLine : IO (Option String) := do
  let line ← (← IO.getStdin).getLine
  return if line.isEmpty then none else some line

/-- Carry a command through. -/
partial def carryThrough (shown : Transcript) (p : Progress) : IO UInt32 := do
  display shown p.transcript
  match p with
  | .ended c => return if c.failed then 1 else 0
  | .stuck _ => return 1
  | .asking _ => carryThrough p.transcript (p.answer (← nextLine))

end Stepwise

/-- The program. -/
def main (words : List String) : IO UInt32 := do
  match Stepwise.Command.ofWords? words with
  | none =>
    IO.eprintln Stepwise.usage
    return 2
  | some c => Stepwise.carryThrough {} (c.start (← Stepwise.surroundings c) Stepwise.workFuel)
