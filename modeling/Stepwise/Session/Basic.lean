import Stepwise.Config.Basic
import Stepwise.Engine.Task
import Stepwise.Lowering.Program

/-!
# Sessions

A session takes a program from preparation to its end. Work is done by one
worker, one piece after another in the order of submission. Whoever started a
piece of work waits for it as a task; when the work has ended, the task
settles what is left to do, possibly waiting for other work on its call stack.
-/

namespace Stepwise

/-- Why a session refuses a request, or how its work went wrong. -/
inductive SessionError where
  /-- The request does not fit the phase. -/
  | invalidState (operation : String) (phase : Phase)
  /-- There is no prepared program yet. -/
  | notStarted
  /-- The session has ended. -/
  | terminated
  /-- The work failed. -/
  | failed (failure : Failure)
  /-- The work was stopped. -/
  | cancelled
deriving Inhabited

/-- The error in words. -/
def SessionError.message : SessionError → String
  | .invalidState operation phase =>
    "cannot " ++ operation ++ " while the session is " ++ phase.word
  | .notStarted => "session has not been started"
  | .terminated => "session has terminated"
  | .failed f => f.headline
  | .cancelled => "execution was cancelled"

/-- The outcome of work as a session reports it. -/
def SessionError.ofOutcome : Except Unwind Val → Except SessionError Val
  | .ok v => .ok v
  | .error (.failed f) => .error (.failed f)
  | .error .cancelled => .error .cancelled

/-- What a task was begun for. -/
inductive TaskKind where
  /-- To run the entry point. -/
  | entry
  /-- To call a method for the host. -/
  | invocation (hostInitiated isAsync : Bool)
  /-- To end the session. -/
  | stop
deriving DecidableEq, Inhabited

/-- How far a task has come. -/
inductive Stage where
  /-- It waits for its work. -/
  | working
  /-- It waits until nothing is in flight on its call stack. -/
  | draining (result : Except SessionError Val)
  /-- It waits until nothing is in flight at all, to end the session. -/
  | stopping (result : Except SessionError Val)

/-- Somebody who waits. -/
structure Task where
  /-- The number it was given when it was begun. -/
  ticket : Nat
  /-- What it was begun for. -/
  kind : TaskKind
  /-- The call stack of its work. -/
  stack : Nat
  /-- How far it has come. -/
  stage : Stage

/-- How a task ended. -/
structure Ending where
  /-- The number of the task. -/
  ticket : Nat
  /-- What it was begun for. -/
  kind : TaskKind
  /-- Whether the task had begun its work at all. -/
  begun : Bool
  /-- Its result. -/
  result : Except SessionError Val

/-- What a piece of work reports when it has ended. -/
inductive Report where
  /-- The program is prepared, or cannot be. -/
  | prepared (ticket : Nat) (args : List String) (outcome : Except Unwind (Code × Method))
  /-- An invocation has ended. -/
  | ended (ticket : Option Nat) (outcome : Except Unwind Val)

/-- What the worker is doing between requests. -/
inductive Worker where
  /-- Nothing. -/
  | free
  /-- It waits at the gate with its piece of work. -/
  | held (resume : Passage → World → Run Report)
  /-- Its piece of work used up the fuel. -/
  | lost

/-- A session. -/
structure Session where
  /-- The program as it was given. -/
  program : Program
  /-- The configuration. -/
  config : Config
  /-- Fuel for one piece of work. -/
  fuel : Nat
  /-- The prepared program. -/
  code : Option Code := none
  /-- The world. -/
  world : World := {}
  /-- The worker. -/
  worker : Worker := .free
  /-- Tasks that have not ended, in the order begun. -/
  tasks : List Task := []
  /-- Tasks that have ended, in that order. -/
  endings : List Ending := []

/-- The single synchronous entry point, which takes nothing or an array. -/
def Program.entryPoint (p : Program) : Except Fault Method :=
  match p.entryPoints with
  | [] => .error .noEntryPoint
  | [m] =>
    if m.isAsync then .error (.asyncEntryPoint m.name)
    else
      match m.params with
      | [] => .ok m
      | [param] => if param.shape == .array then .ok m else .error (.entryPointParams m.name)
      | _ => .error (.entryPointParams m.name)
  | several => .error (.severalEntryPoints (several.map (·.name)))

/-- Load assemblies in order. -/
def loadAll : List String → Exec Unit
  | [] => pure ()
  | name :: rest => do
    Engine.onHost (.load name)
    loadAll rest

/-- The failure that an error found by lowering amounts to. -/
def Failure.ofDiagnostic (d : Diagnostic) : Failure :=
  { fault := .rejected d.problem, site := some (d.span, d.problem.code) }

/-- Prepare a program: lower it, load its assemblies, give its globals their
first values, and find its entry point. -/
def prepare (p : Program) (config : Config) (fuel : Nat) : Exec (Code × Method) :=
  let lowered := p.lower config.lowering
  match lowered.errors with
  | first :: _ => Exec.stop (.failed (Failure.ofDiagnostic first))
  | [] => do
    let code : Code := ⟨lowered.program, config.limits⟩
    loadAll code.program.assemblies
    Engine.initGlobals code fuel code.program.globals
    let entry ← Exec.lift code.program.entryPoint
    pure (code, entry)

namespace Session

/-- A session that has not been started. -/
def new (program : Program) (config : Config) (fuel : Nat) : Session :=
  { program, config, fuel }

/-- The current phase. -/
def phase (s : Session) : Phase := s.world.controls.phase

/-- Change the controls. -/
def mapControls (s : Session) (f : Controls → Controls) : Session :=
  { s with world := { s.world with controls := f s.world.controls } }

/-- Change the tracker. -/
def mapTracker (s : Session) (f : Tracker → Tracker) : Session :=
  s.mapControls fun c => { c with tracker := f c.tracker }

/-- Fall idle if nothing is left to run. -/
def refreshIdle (s : Session) : Session := s.mapControls (·.refreshIdle.2)

/-- Record how a task ended. -/
def finish (s : Session) (ticket : Nat) (kind : TaskKind) (begun : Bool)
    (result : Except SessionError Val) : Session :=
  { s with
    tasks := s.tasks.filter (·.ticket ≠ ticket)
    endings := s.endings ++ [⟨ticket, kind, begun, result⟩] }

/-- Bring a task to another stage. -/
def setStage (s : Session) (ticket : Nat) (stage : Stage) : Session :=
  { s with tasks := s.tasks.map fun t => if t.ticket == ticket then { t with stage } else t }

/-- What a task does as soon as its work has ended. -/
def workEnded (s : Session) (t : Task) (outcome : Except Unwind Val) : Session :=
  let s := s.mapTracker fun tracker =>
    match t.kind with
    | .entry => tracker.setEntryActive false
    | .invocation true _ => tracker.hostCallEnded
    | _ => tracker
  s.refreshIdle.setStage t.ticket (.draining (SessionError.ofOutcome outcome))

/-- Take a task one stage further, if what it waits for has come about. -/
def advance? (s : Session) (t : Task) : Option Session :=
  match t.stage with
  | .working => none
  | .draining result =>
    if s.world.controls.tracker.isDrained t.stack then
      let s := (s.mapTracker (·.drain t.stack)).refreshIdle
      if t.kind == .entry && !s.config.keepAlive then
        some ((s.mapControls (·.cancel)).setStage t.ticket (.stopping result))
      else some (s.finish t.ticket t.kind true result)
    else none
  | .stopping result =>
    if s.world.controls.tracker.allDrained then
      let s := (s.mapTracker (·.drainAll)).mapControls fun c => (c.move .stopped).2
      some (s.finish t.ticket t.kind true result)
    else none

/-- Take tasks further until all of them wait. A task has two stages behind
its work, so their number bounds the rounds. -/
def advanceTasks : Nat → Session → Session
  | 0, s => s
  | rounds + 1, s =>
    match s.tasks.findSome? s.advance? with
    | some s => advanceTasks rounds s
    | none => s

/-- Turn away the work that is waiting, none of which could pass the gate. -/
def turnAway (s : Session) : Session :=
  let gone := s.world.jobs.map (·.stack)
  let s := s.mapTracker fun t => gone.foldl Tracker.taskEnded t
  { s with world := { s.world with jobs := [] } }

/-- Take in the report of a piece of work. -/
def receive (s : Session) (report : Report) : Session :=
  match report with
  | .ended none _ => s
  | .ended (some ticket) outcome =>
    match s.tasks.find? (·.ticket == ticket) with
    | some t => s.workEnded t outcome
    | none => s
  | .prepared ticket _ (.error (.failed f)) =>
    (s.mapControls (·.fail f)).turnAway.finish ticket .entry true (.error (.failed f))
  | .prepared ticket _ (.error .cancelled) => s.finish ticket .entry true (.error .cancelled)
  | .prepared ticket args (.ok (code, entry)) =>
    let world := s.world.newStack
    let stack := world.stack.id
    let s := { s with code := some code, world }
    let s := s.mapTracker fun t => (t.setEntryActive true).taskStarted stack
    let (ok, controls) := s.world.controls.move .running
    if ok then
      let (args, heap) :=
        if entry.params.isEmpty then ([], s.world.heap)
        else
          let (v, heap) := s.world.heap.newArray (args.map .str)
          ([v], heap)
      let job : Job := { stack, method := entry, args, ticket := some ticket }
      { s with
        world := { s.world with controls, heap, jobs := s.world.jobs ++ [job] }
        tasks := s.tasks.map fun t => if t.ticket == ticket then { t with stack } else t }
    else
      (s.mapTracker fun t => (t.setEntryActive false).taskEnded stack).finish ticket .entry true
        (.error .cancelled)

/-- Take in how far a piece of work has come. -/
def absorb (s : Session) (run : Run Report) : Session :=
  match run with
  | .done world (.ok report) => { s with world, worker := .free }.receive report
  | .done world (.error _) => { s with world, worker := .free }
  | .held world resume => { s with world, worker := .held resume }
  | .exhausted => { s with worker := .lost }

/-- Run an invocation and report its outcome. -/
def workOn (code : Code) (fuel : Nat) (job : Job) : World → Run Report := fun w =>
  (Engine.runJob code fuel job w).andThen fun w outcome =>
    match outcome with
    | .ok outcome => .done w (.ok (.ended job.ticket outcome))
    | .error u => .done w (.error u)

/-- Let the worker go on with its piece of work or take the next one; nothing
if it cannot. -/
def work? (s : Session) : Option Session :=
  match s.worker with
  | .lost => none
  | .held resume =>
    match s.world.controls.leave? with
    | some (passage, controls) => some (s.absorb (resume passage { s.world with controls }))
    | none => none
  | .free =>
    match s.world.jobs, s.code with
    | job :: rest, some code =>
      some (s.absorb (workOn code s.fuel job { s.world with jobs := rest }))
    | _, _ => none

/-- Let tasks and worker go on until nothing moves any more. -/
def settle : Nat → Session → Session
  | 0, s => s
  | rounds + 1, s =>
    let s := advanceTasks (2 * s.tasks.length + 1) s
    match s.work? with
    | some s => settle rounds s
    | none => s

end Session

end Stepwise
