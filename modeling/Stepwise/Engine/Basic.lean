import Stepwise.Engine.Statement

/-!
# The engine

Calls, blocks and loops, which may go on without end. Each takes a fuel
argument that grows smaller with every step; a run that is not exhausted does
not depend on how much fuel it was given.
-/

namespace Stepwise.Engine

/-- A round of a loop up to the point where the next one begins: the way the
loop is left, or nothing. -/
def loopRound (p : Program) (callees : Callees) (kind : LoopKind) (test : Expr) (body : Block) :
    Exec (Option Flow) := do
  if ← Exec.read (·.controls.gate.cancelled) then Exec.stop .cancelled
  let goes ← match kind with
    | .testFirst => evalCondition p callees.call test
    | .testLast => pure true
  if !goes then return some .next
  match loopEnd (← nested (callees.block body true)) with
  | some flow => pure (some flow)
  | none =>
    match kind with
    | .testFirst => pure none
    | .testLast => do
      if ← evalCondition p callees.call test then pure none else pure (some .next)

/-- Bind the arguments of a call to its parameters. -/
def bindArgs : List Param → List Val → Exec Unit
  | param :: params, arg :: args => do
    newVariable World.declareLocal param.name param.shape arg
    bindArgs params args
  | _, _ => pure ()

/-- The body of a call: a jump that no block takes is a failure. -/
def runBody (block : Block → Bool → Exec Flow) (m : Method) : Exec Unit := do
  match ← block m.body false with
  | .jump label => Exec.fail (.labelMissing label m.name)
  | _ => pure ()

/-- A call in a frame of its own, which goes away however the call ends. -/
def inFrame (m : Method) (step : Exec Unit) : Exec Val := fun w =>
  (step (w.pushFrame m)).andThen fun w outcome =>
    let (result, w) := w.popFrame
    match outcome with
    | .ok _ => .done w (.ok (result.getD .null))
    | .error u => .done w (.error u)

/-- Go on with the rest of a block, or leave the block. -/
def proceed (next : List Stmt → Exec Flow) : List Stmt ⊕ Flow → Exec Flow
  | .inl rest => next rest
  | .inr flow => pure flow

/-- Go on with the next round of a loop, or leave the loop. -/
def proceedLoop (next : Exec Flow) : Option Flow → Exec Flow
  | none => next
  | some flow => pure flow

mutual

/-- Call a method. -/
def invoke (code : Code) : Nat → Method → List Val → World → Run Val
  | 0, _, _, _ => .exhausted
  | fuel + 1, m, args, w =>
    if code.limits.maxCallDepth ≤ w.stack.depth then
      Exec.fail (.callDepth code.limits.maxCallDepth m.name) w
    else if m.params.length ≠ args.length then
      Exec.fail (.arity m.name m.params.length args.length) w
    else
      inFrame m ((bindArgs m.params args).bind fun _ => runBody (runBlock code fuel) m) w

/-- Run a block. -/
def runBlock (code : Code) : Nat → Block → Bool → World → Run Flow
  | 0, _, _, _ => .exhausted
  | fuel + 1, block, inLoop, w => runFrom code fuel block inLoop block w

/-- Run the rest of a block, statement by statement. -/
def runFrom (code : Code) : Nat → Block → Bool → List Stmt → World → Run Flow
  | 0, _, _, _, _ => .exhausted
  | _ + 1, _, _, [], w => .done w (.ok .next)
  | fuel + 1, block, inLoop, stmt :: rest, w =>
    match runStmt code.program ⟨invoke code fuel, runBlock code fuel, runLoop code fuel⟩
        inLoop stmt w with
    | .done w (.ok flow) =>
      match follow block rest flow with
      | .inl rest => runFrom code fuel block inLoop rest w
      | .inr flow => .done w (.ok flow)
    | .done w (.error u) => .done w (.error u)
    | .exhausted => .exhausted
    | .held w resume =>
      .held w fun passage => Exec.bind (resume passage) fun flow =>
        proceed (runFrom code fuel block inLoop) (follow block rest flow)

/-- Run a loop, round by round. -/
def runLoop (code : Code) : Nat → LoopKind → Expr → Block → World → Run Flow
  | 0, _, _, _, _ => .exhausted
  | fuel + 1, kind, test, body, w =>
    match loopRound code.program ⟨invoke code fuel, runBlock code fuel, runLoop code fuel⟩
        kind test body w with
    | .done w (.ok none) => runLoop code fuel kind test body w
    | .done w (.ok (some flow)) => .done w (.ok flow)
    | .done w (.error u) => .done w (.error u)
    | .exhausted => .exhausted
    | .held w resume =>
      .held w fun passage => Exec.bind (resume passage)
        (proceedLoop (runLoop code fuel kind test body))

end

/-- The parts of statements with less fuel. -/
def calleesAt (code : Code) (fuel : Nat) : Callees :=
  ⟨invoke code fuel, runBlock code fuel, runLoop code fuel⟩

/-- Running the rest of a block is running its first statement and then what follows. -/
theorem runFrom_cons (code : Code) (fuel : Nat) (block : Block) (inLoop : Bool) (stmt : Stmt)
    (rest : List Stmt) :
    runFrom code (fuel + 1) block inLoop (stmt :: rest) =
      Exec.bind (runStmt code.program (calleesAt code fuel) inLoop stmt) fun flow =>
        proceed (runFrom code fuel block inLoop) (follow block rest flow) := by
  funext w
  simp only [runFrom, Exec.bind, calleesAt]
  cases runStmt code.program ⟨invoke code fuel, runBlock code fuel, runLoop code fuel⟩
      inLoop stmt w with
  | exhausted => rfl
  | held w resume => rfl
  | done w r =>
    cases r with
    | error u => rfl
    | ok flow =>
      simp only [Run.andThen]
      cases follow block rest flow <;> rfl

/-- Running a loop is running a round and then, if it goes on, the loop again. -/
theorem runLoop_succ (code : Code) (fuel : Nat) (kind : LoopKind) (test : Expr) (body : Block) :
    runLoop code (fuel + 1) kind test body =
      Exec.bind (loopRound code.program (calleesAt code fuel) kind test body)
        (proceedLoop (runLoop code fuel kind test body)) := by
  funext w
  simp only [runLoop, Exec.bind, calleesAt]
  cases loopRound code.program ⟨invoke code fuel, runBlock code fuel, runLoop code fuel⟩
      kind test body w with
  | exhausted => rfl
  | held w resume => rfl
  | done w r =>
    cases r with
    | error u => rfl
    | ok flow => cases flow <;> rfl

end Stepwise.Engine
