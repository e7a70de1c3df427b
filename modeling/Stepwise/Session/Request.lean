import Stepwise.Session.Basic

/-!
# Requests to a session

What a host can ask of a session. Starting, calling a method and stopping
begin tasks, which go on when the session settles; everything else is done at
once.
-/

namespace Stepwise.Session

/-- Start the session: prepare the program and run its entry point. -/
def start (s : Session) (ticket : Nat) (debugging : Bool) (args : List String) : Session :=
  let (ok, controls) := s.world.controls.move .preparing
  if ok then
    let controls := { controls with gate := { controls.gate with debugging } }
    let task : Task := { ticket, kind := .entry, stack := 0, stage := .working }
    let s := { s with world := { s.world with controls }, tasks := s.tasks ++ [task] }
    s.absorb ((prepare s.program s.config s.fuel s.world).andThen fun w outcome =>
      .done w (.ok (.prepared ticket args outcome)))
  else s.finish ticket .entry false (.error (.invalidState "start" s.phase))

/-- Call a method of the prepared program. -/
def invoke (s : Session) (ticket : Nat) (hostInitiated : Bool) (name : String)
    (args : List Val) : Session :=
  let refuse (e : SessionError) :=
    s.finish ticket (.invocation hostInitiated false) false (.error e)
  match s.code with
  | none => refuse .notStarted
  | some code =>
    if s.phase.isTerminal then refuse .terminated
    else
      match code.program.method? name with
      | none => refuse (.failed { fault := .methodMissing name })
      | some m =>
        let s := { s with world := { s.world with stackCount := s.world.stackCount + 1 } }
        let stack := s.world.stackCount - 1
        let s := s.mapTracker fun t =>
          (if hostInitiated then t.hostCallStarted else t).taskStarted stack
        let s := s.mapControls (·.activate.2)
        let job : Job := { stack, method := m, args, ticket := some ticket }
        let kind := .invocation hostInitiated m.isAsync
        let task : Task := { ticket, kind, stack, stage := .working }
        { s with
          world := { s.world with jobs := s.world.jobs ++ [job] }
          tasks := s.tasks ++ [task] }

/-- End the session: turn all work away and wait until it is gone. -/
def stop (s : Session) (ticket : Nat) : Session :=
  let s := s.mapControls (·.cancel)
  let task : Task := { ticket, kind := .stop, stack := 0, stage := .stopping (.ok .null) }
  { s with tasks := s.tasks ++ [task] }

/-- Hold the program at its next statement. -/
def pause (s : Session) : Except SessionError Session :=
  if s.phase.isTerminal then .error .terminated
  else .ok (s.mapControls (·.pause))

/-- Let one statement run, then hold the program again. -/
def step (s : Session) : Except SessionError Session :=
  if s.phase != .paused || s.world.controls.tracker.isQuiet then
    .error (.invalidState "step" s.phase)
  else
    match s.world.controls.step with
    | (true, controls) => .ok { s with world := { s.world with controls } }
    | (false, _) => .error (.invalidState "step" s.phase)

/-- Hold the program no longer. -/
def resume (s : Session) : Except SessionError Session :=
  if s.phase.isTerminal then .error .terminated
  else .ok (s.mapControls (·.release))

/-- Set a breakpoint on a line, from zero, and tell whether it is new. -/
def setBreakpoint (s : Session) (line : Nat) : Bool × Session :=
  let (ok, gate) := s.world.controls.gate.setBreakpoint line
  (ok, s.mapControls ({ · with gate }))

/-- Remove a breakpoint, and tell whether there was one. -/
def clearBreakpoint (s : Session) (line : Nat) : Bool × Session :=
  let (ok, gate) := s.world.controls.gate.clearBreakpoint line
  (ok, s.mapControls ({ · with gate }))

/-- Remove all breakpoints. -/
def clearBreakpoints (s : Session) : Session :=
  s.mapControls fun c => { c with gate := c.gate.clearBreakpoints }

/-- Lines with a breakpoint, in ascending order. -/
def breakpoints (s : Session) : List Nat := s.world.controls.gate.breakpoints

/-- The session on one line. -/
def describe (s : Session) : String :=
  "Session \x7b state: " ++ s.phase.word ++ ", methods: " ++ toString s.program.methods.length
    ++ " \x7d"

/-- The global variables of the prepared program with their values. -/
def globals? (s : Session) : Option (List (String × Val)) :=
  s.code.map fun _ => s.world.memory.globals.map fun g =>
    let c := s.world.memory.cell g
    (c.name, c.value)

end Stepwise.Session
