import Stepwise.Engine.Eval
import Stepwise.Program.Block

/-!
# Executing statements

What one statement does, given how calls, blocks and loops are run. The next
module ties the knot. A block is walked statement by statement; a jump to a
label of the block continues from there, any other jump leaves the block and
is tried again by the block around it.
-/

namespace Stepwise.Engine

/-- How control goes on after a statement or a block. -/
inductive Flow where
  /-- To what follows. -/
  | next
  /-- To a label. -/
  | jump (label : String)
  /-- Out of the method. -/
  | leaveMethod
  /-- Out of the innermost loop. -/
  | leaveLoop
deriving DecidableEq, Inhabited

/-- How the parts of statements are run. -/
structure Callees where
  /-- Call a program method. -/
  call : Caller
  /-- Run a block, inside a loop or not. -/
  block : Block → Bool → Exec Flow
  /-- Run a loop. -/
  loop : LoopKind → Expr → Block → Exec Flow

/-- Run a step in a scope of its own, which is closed however the step ends. -/
def nested (step : Exec Flow) : Exec Flow := fun w =>
  let mark := w.stack.scopeMark
  (step.finishing (·.restoreScopes mark)) w.pushScope

/-- Make a variable and let `bind` put it into the world. -/
def newVariable (bind : World → Cell → World) (name : String) (shape : Shape) (value : Val) :
    Exec Unit := do
  let c ← Exec.lift (Cell.holding name shape value)
  Exec.change (bind · c)

/-- Store a value in a variable. -/
def storeVariable (name : String) (isGlobal : Bool) (value : Val) : Exec Unit := fun w =>
  match w.lookup? name isGlobal with
  | none => Exec.fail (.variableMissing name) w
  | some id =>
    match (w.memory.cell id).store value with
    | .ok c => .done { w with memory := w.memory.setCell id c } (.ok ())
    | .error f => Exec.fail f w

/-- Change the heap. -/
def changeHeap (f : Heap → Except Fault Heap) : Exec Unit := fun w =>
  match f w.heap with
  | .ok heap => .done { w with heap } (.ok ())
  | .error f => Exec.fail f w

/-- Store a value in what an expression denotes. -/
def assign (p : Program) (call : Caller) (target : Expr) (value : Val) : Exec Unit :=
  match target with
  | .var name isGlobal _ => storeVariable name isGlobal value
  | .index container position _ => do
    let container ← eval p call container
    let position ← eval p call position
    changeHeap (Operators.setElement · container position value)
  | .staticProperty typeName name _ => onHost (.setProperty (.type typeName) name value)
  | .property object name _ => do
    let object ← eval p call object
    onHost (.setProperty (.value object) name value)
  | other => Exec.fail (.assignTarget other.kindName)

/-- Run the handler of an `attempt` statement in a scope that holds the
exception. -/
def runHandler (callees : Callees) (catchVar : Option String) (handler : Block) (inLoop : Bool)
    (f : Failure) : Exec Flow := fun w =>
  let mark := w.stack.scopeMark
  let bindException : Exec Unit :=
    match catchVar with
    | some name => newVariable World.declareLocal name .scalar f.fault.toException
    | none => pure ()
  (do
    bindException
    (callees.block handler inLoop).finishing (·.restoreScopes mark) : Exec Flow) w.pushScope

/-- Execute one statement. -/
def execute (p : Program) (callees : Callees) (inLoop : Bool) : Stmt → Exec Flow
  | .declare name shape init _ => do
    let value ← evalOption p callees.call init
    newVariable World.declare name shape value
    pure .next
  | .assign target value _ => do
    let value ← eval p callees.call value
    assign p callees.call target value
    pure .next
  | .cond test yes no _ => do
    if ← evalCondition p callees.call test then nested (callees.block yes inLoop)
    else
      match no with
      | some no => nested (callees.block no inLoop)
      | none => pure .next
  | .branch test label _ => do
    if ← evalCondition p callees.call test then pure .next else pure (.jump label)
  | .loop kind test body _ => callees.loop kind test body
  | .ret value _ => do
    let value ← evalOption p callees.call value
    Exec.change fun w => { w with stack := w.stack.setResult value }
    pure .leaveMethod
  | .brk _ => if inLoop then pure .leaveLoop else Exec.fail .breakOutsideLoop
  | .throw value _ => do
    match ← eval p callees.call value with
    | .exception typeName message => Exec.fail (.thrown (.exception typeName message) message)
    | other => Exec.fail (.throwType other.typeName)
  | .attempt body catchVar handler _ =>
    (nested (callees.block body inLoop)).onFailure (runHandler callees catchVar handler inLoop)
  | .eval e _ => do
    let _ ← eval p callees.call e
    pure .next
  | .label _ _ => pure .next
  | .goto label _ => pure (.jump label)

/-- Leave the gate. -/
def pass : Passage → Exec Unit
  | .passed => pure ()
  | .cancelled => Exec.stop .cancelled

/-- Pass the gate before a statement, waiting there if need be. -/
def checkpoint (stmt : Stmt) : Exec Unit := fun w =>
  let w := { w with controls := w.controls.approach stmt }
  match w.controls.leave? with
  | some (passage, controls) => pass passage { w with controls }
  | none => .held { w with controls := (w.controls.pauseWith w.capture).2 } pass

/-- Note where the statement stands that runs now. -/
def enter (stmt : Stmt) : Exec Unit :=
  Exec.change fun w =>
    if stmt.span.isBlank then w else { w with stack := w.stack.setSpan stmt.span }

/-- Add place and call stack to a failure that a statement lets through. -/
def locate (stmt : Stmt) (f : Failure) : Exec Flow := fun w =>
  let f := (f.atSite stmt.span stmt.kindName).withSnapshot w.capture
  .done w (.error (.failed f))

/-- A statement on its way: gate, observation, execution, observation. -/
def runStmt (p : Program) (callees : Callees) (inLoop : Bool) (stmt : Stmt) : Exec Flow := do
  enter stmt
  checkpoint stmt
  Exec.change (·.observe true stmt)
  let flow ← (execute p callees inLoop stmt).onFailure (locate stmt)
  Exec.change (·.observe false stmt)
  pure flow

/-- What comes after a statement of a block: the statements to go on with, or
the way the block is left. -/
def follow (block rest : List Stmt) : Flow → List Stmt ⊕ Flow
  | .next => .inl rest
  | .jump label =>
    match Block.fromLabel? label block with
    | some rest => .inl rest
    | none => .inr (.jump label)
  | flow => .inr flow

/-- Whether a loop goes on after its body was left in some way. -/
def loopEnd : Flow → Option Flow
  | .next => none
  | .leaveLoop => some .next
  | flow => some flow

end Stepwise.Engine
