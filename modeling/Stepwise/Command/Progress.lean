import Stepwise.Command.Dialogue

/-!
# The course of a command

A command may have to wait for answers from whoever is at the other end. So
it is begun, and then given one answer after another until it has ended. The
same course is taken whether the answers are known beforehand or typed in
while the command is going on.
-/

namespace Stepwise

/-- How far a command has come. -/
inductive Progress where
  /-- It has ended. -/
  | ended (conclusion : Conclusion)
  /-- It waits for an answer. -/
  | asking (dialogue : Dialogue)
  /-- The program waits, and nobody is left to let it go on. -/
  | stuck (dialogue : Dialogue)

namespace Progress

/-- How far a dialogue has come. -/
def ofDialogue (d : Dialogue) : Progress :=
  match d.outcome? with
  | some outcome => .ended (d.conclude outcome)
  | none => if d.isAsking then .asking d else .stuck d

/-- Take an answer, if one is waited for. -/
def answer (line : Option String) : Progress → Progress
  | .asking d => ofDialogue (d.answer line)
  | p => p

/-- Take answers until there are no more. -/
def answerAll (p : Progress) : List String → Progress
  | [] => p.answer none
  | line :: rest => (p.answer (some line)).answerAll rest

/-- What has been written so far. -/
def transcript : Progress → Transcript
  | .ended c => c.transcript
  | .asking d | .stuck d => d.transcript

end Progress

namespace Command

/-- Run a program with breakpoints. Lines count from one, and line zero is no line. -/
def run (p : Program) (config : Config) (fuel : Nat) (debugging : Bool) (breakpoints : List Nat)
    (args : List String) : Progress :=
  let lines := (breakpoints.filter (0 < ·)).map (· - 1)
  let session := lines.foldl (fun s line => (s.setBreakpoint line).2) (Session.new p config fuel)
  .ofDialogue (Dialogue.start session fuel debugging args)

/-- Begin a command. -/
def start (c : Command) (s : Surroundings) (fuel : Nat) : Progress :=
  match Config.load s { path := c.config } with
  | .error e => .ended (Transcript.fail {} e.message)
  | .ok config =>
    match Program.load s c.program with
    | .error message => .ended (Transcript.fail {} message)
    | .ok p =>
      match c.action with
      | .check => .ended (p.check config)
      | .lower => .ended (p.showLowered config)
      | .run debugging breakpoints args => run p config fuel debugging breakpoints args

end Command

end Stepwise
