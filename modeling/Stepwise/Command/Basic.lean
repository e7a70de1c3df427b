import Stepwise.Config.Load
import Stepwise.Json.Printer
import Stepwise.Lowering.Program
import Stepwise.Program.Reader
import Stepwise.Program.Writer

/-!
# Commands

What can be asked for from the command line: to check a program, to show its
lowered form, or to run it. A command ends with a status and with what it
has written to the two outputs. The configuration is loaded first and the
program read second, so a fault in either keeps everything else from being
done.
-/

namespace Stepwise

/-- What a command does with the program. -/
inductive Action where
  /-- Show what lowering has to say about it. -/
  | check
  /-- Show its lowered form. -/
  | lower
  /-- Run its entry point with arguments. Breakpoints are lines, from one. -/
  | run (debugging : Bool) (breakpoints : List Nat) (args : List String)
deriving Inhabited

/-- A command. -/
structure Command where
  /-- The configuration that was asked for. -/
  config : Option String := none
  /-- The file with the program. -/
  program : String
  /-- What to do with it. -/
  action : Action
deriving Inhabited

/-- What a command has written. -/
structure Transcript where
  /-- To the output. -/
  out : String := ""
  /-- To the output for messages. -/
  err : String := ""
deriving DecidableEq, Inhabited

/-- How a command ended. -/
structure Conclusion where
  /-- What it has written. -/
  transcript : Transcript
  /-- Whether it failed. -/
  failed : Bool
deriving DecidableEq, Inhabited

namespace Transcript

/-- Write a line to the output. -/
def say (t : Transcript) (line : String) : Transcript := { t with out := t.out ++ line ++ "\n" }

/-- Write text to the output for messages. -/
def note (t : Transcript) (text : String) : Transcript := { t with err := t.err ++ text }

/-- Write a line to the output for messages. -/
def warn (t : Transcript) (line : String) : Transcript := t.note (line ++ "\n")

/-- End well. -/
def succeed (t : Transcript) : Conclusion := ⟨t, false⟩

/-- End with an error. -/
def fail (t : Transcript) (message : String) : Conclusion := ⟨t.warn ("Error: " ++ message), true⟩

end Transcript

/-- Read a program from a file, or say why it cannot be read. -/
def Program.load (s : Surroundings) (name : String) : Except String Program :=
  match s.file? name with
  | none => .error ("failed to read " ++ name)
  | some text =>
    match (Json.parse? text).bind Program.read? with
    | some p => .ok p
    | none => .error (name ++ " is not a valid program")

/-- Check a program. -/
def Program.check (p : Program) (config : Config) : Conclusion :=
  let lowered := p.lower config.lowering
  if lowered.diagnostics.isEmpty then (Transcript.say {} "✓ No problems found").succeed
  else
    let t := lowered.diagnostics.foldl (fun t d => t.say d.render) ({} : Transcript)
    match lowered.errors.length with
    | 0 => t.succeed
    | n => t.fail (toString n ++ " error(s) found")

/-- Show the lowered form of a program. -/
def Program.showLowered (p : Program) (config : Config) : Conclusion :=
  let lowered := p.lower config.lowering
  let t := lowered.diagnostics.foldl (fun t d => t.warn d.render) ({} : Transcript)
  if lowered.hasErrors then t.fail "program has errors; not lowered"
  else (t.say lowered.program.toJson.pretty).succeed

end Stepwise
