import Stepwise.Host
import Stepwise.Control.Basic

/-!
# The world of an engine

Everything that running a program can read or change: values, variables, the
console, the controls of the session, the call stack at work, the work that
is waiting for its turn, and a trace of the statements.
-/

namespace Stepwise

/-- Limits on execution. -/
structure Limits where
  /-- Calls in progress allowed on one call stack. -/
  maxCallDepth : Nat := 1024
  /-- Nested calls before execution moves on to a fresh worker. -/
  callsPerWorker : Nat := 32
  /-- Bytes of stack of such a worker. -/
  workerStackSize : Nat := 16777216
deriving DecidableEq, Inhabited

/-- A program with its limits. -/
structure Code where
  /-- The program. -/
  program : Program
  /-- The limits. -/
  limits : Limits := {}

/-- An invocation that is waiting for its turn. -/
structure Job where
  /-- The call stack it runs on. -/
  stack : Nat
  /-- The method to call. -/
  method : Method
  /-- The arguments. -/
  args : List Val
  /-- Who waits for the outcome, if anybody. -/
  ticket : Option Nat := none
deriving Inhabited

/-- One observation of a statement. -/
structure TraceEntry where
  /-- Whether the statement is about to run or has run. -/
  isBefore : Bool
  /-- The method it runs in, or `<global>` outside every call. -/
  method : String
  /-- Number of calls in progress. -/
  depth : Nat
  /-- The kind of the statement. -/
  kind : String
  /-- The line it stands on, from zero. -/
  line : Nat
deriving DecidableEq, Inhabited

/-- What an engine works on. -/
structure World where
  /-- Arrays, maps and objects. -/
  heap : Heap := {}
  /-- Variables. -/
  memory : Memory := {}
  /-- The host. -/
  host : Host := {}
  /-- The controls of the session. -/
  controls : Controls := {}
  /-- The call stack at work. -/
  stack : CallStack := .fresh 0
  /-- Number of call stacks there have been. -/
  stackCount : Nat := 0
  /-- Invocations waiting for their turn, first one first. -/
  jobs : List Job := []
  /-- The statements observed, first one first. -/
  trace : Array TraceEntry := #[]
  /-- How many events had been published when each of them was observed. -/
  clock : Array Nat := #[]
deriving Inhabited

namespace World

/-- A snapshot of the call stack at work. -/
def capture (w : World) : Snapshot := Snapshot.capture w.heap w.memory w.stack

/-- Begin a new call stack. -/
def newStack (w : World) : World :=
  { w with stack := .fresh w.stackCount, stackCount := w.stackCount + 1 }

/-- The variable of a name: a local one, unless only globals are meant, or else a global one. -/
def lookup? (w : World) (name : String) (isGlobal : Bool) : Option Nat :=
  let inFrame := if isGlobal then none else w.stack.lookup? name
  inFrame.or (w.memory.global? name)

/-- Add a variable to the innermost scope. Outside every call it is left unbound. -/
def declareLocal (w : World) (c : Cell) : World :=
  let (id, memory) := w.memory.alloc c
  { w with memory, stack := (w.stack.declare? c.name id).getD w.stack }

/-- Add a variable to the innermost scope, or to the globals outside every call. -/
def declare (w : World) (c : Cell) : World :=
  let (id, memory) := w.memory.alloc c
  match w.stack.declare? c.name id with
  | some stack => { w with memory, stack }
  | none => { w with memory := memory.declareGlobal id }

/-- Add a global variable. -/
def declareGlobal (w : World) (c : Cell) : World :=
  let (id, memory) := w.memory.alloc c
  { w with memory := memory.declareGlobal id }

/-- Begin a call. -/
def pushFrame (w : World) (m : Method) : World :=
  { w with stack := w.stack.pushFrame m.id m.name }

/-- End the innermost call and dispose of its variables. -/
def popFrame (w : World) : Option Val × World :=
  let (result, stack, gone) := w.stack.popFrame
  (result, { w with stack, memory := w.memory.disposeAll gone })

/-- Open a scope. -/
def pushScope (w : World) : World := { w with stack := w.stack.pushScope }

/-- Close scopes until `mark` are left and dispose of their variables. -/
def restoreScopes (w : World) (mark : Nat) : World :=
  let (stack, gone) := w.stack.restoreScopes mark
  { w with stack, memory := w.memory.disposeAll gone }

/-- Observe a statement. -/
def observe (w : World) (isBefore : Bool) (stmt : Stmt) : World :=
  let method := (w.stack.current?.map (·.name)).getD "<global>"
  let entry := ⟨isBefore, method, w.stack.depth, stmt.kindName, stmt.span.startLine⟩
  { w with
    trace := w.trace.push entry
    clock := w.clock.push w.controls.life.published.size }

/-- Start an invocation on the call stack at work, to run when its turn comes. -/
def spawn (w : World) (method : Method) (args : List Val) : World :=
  let tracker := (w.controls.tracker.taskStarted w.stack.id).track w.stack.id
  { w with
    controls := { w.controls with tracker }
    jobs := w.jobs ++ [{ stack := w.stack.id, method, args }] }

end World

end Stepwise
