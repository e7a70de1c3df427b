import Stepwise.Engine.Basic

/-!
# Invocations and global variables

An invocation runs a method on a call stack of its own number and settles
its account when it has ended: it counts no longer as in flight, a failure
ends the session, and the session falls idle if nothing is left. Work that
was started asynchronously is run in the order in which it was started.
-/

namespace Stepwise.Engine

/-- Evaluate the first value of a global variable on a new call stack. A
failure is placed at the declaration, unless a statement is its place. -/
def initialValue (code : Code) (fuel : Nat) (g : Global) (init : Expr) : Exec Val := fun w =>
  (eval code.program (invoke code fuel) init w.newStack).andThen fun w r =>
    match r with
    | .ok v => .done w (.ok v)
    | .error (.failed f) => .done w (.error (.failed (f.atSite g.span "global-variable")))
    | .error .cancelled => .done w (.error (.failed { fault := .stoppedInGlobals }))

/-- Declare global variables in order. Each first value sees the globals
declared before it. -/
def initGlobals (code : Code) (fuel : Nat) : List Global → Exec Unit
  | [] => pure ()
  | g :: rest => do
    let value ←
      match g.init with
      | some init => initialValue code fuel g init
      | none => pure .null
    newVariable World.declareGlobal g.name g.shape value
    initGlobals code fuel rest

/-- Settle the account of an invocation that has ended. -/
def settleTask (stack : Nat) (outcome : Except Unwind Val) (w : World) : World :=
  let c := { w.controls with tracker := w.controls.tracker.taskEnded stack }
  let c :=
    match outcome with
    | .error (.failed f) => c.fail f
    | _ => c
  { w with controls := c.refreshIdle.2 }

/-- Call a method on a call stack that has no calls in progress. -/
def invokeOn (code : Code) (fuel : Nat) (stack : Nat) (m : Method) (args : List Val) : Exec Val :=
  fun w => invoke code fuel m args { w with stack := .fresh stack }

/-- Run an invocation and settle its account. The outcome is kept as a value,
since it does not end the work of others. -/
def runJob (code : Code) (fuel : Nat) (job : Job) : Exec (Except Unwind Val) := fun w =>
  (invokeOn code fuel job.stack job.method job.args w).andThen fun w outcome =>
    .done (settleTask job.stack outcome w) (.ok outcome)

/-- Run the work that is waiting, and the work that it starts, until none is
left. -/
def runQueue (code : Code) (fuel : Nat) : Nat → Exec Unit
  | 0 => fun _ => .exhausted
  | rounds + 1 => fun w =>
    match w.jobs with
    | [] => .done w (.ok ())
    | job :: rest =>
      (do
        let _ ← runJob code fuel job
        runQueue code fuel rounds : Exec Unit) { w with jobs := rest }

end Stepwise.Engine
