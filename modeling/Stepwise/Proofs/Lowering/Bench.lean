import Stepwise.Proofs.Lowering.Output

/-!
# Lowering with its stacks laid open

Lowering hands the loops and copies around a statement down to it. Here the
same work is done on a bench: the end labels of the loops and the copies that
are being made lie on two stacks, which are pushed and popped by hand, and a
callee is lowered by lowering its body wherever the call stands. There is no
guard but the count of copies on the stack. Work that nests deeper than the
given depth has no answer, so an answer shows that the recursion comes to an
end; it does if there is one at all depths from some depth on.
-/

namespace Stepwise.Lowering

/-- A copy that is being made. -/
structure Context where
  /-- The number of the method that is copied. -/
  method : Nat
  /-- Where the returns of the copy go. -/
  target : Target
  /-- The names of the code around the copy. -/
  outer : Renaming

/-- What lies on the bench. -/
structure Bench where
  /-- What was used up and found so far. -/
  progress : Progress := {}
  /-- End labels of the loops around the statement at hand, innermost first. -/
  loops : List String := []
  /-- The copies that are being made, innermost first. -/
  contexts : List Context := []
  /-- The numbers of the methods on every stack of copies that there was. -/
  seen : List (List Nat) := []

/-- Where the statement at hand stands. -/
def siteOf (loops : List String) (contexts : List Context) : Site :=
  ⟨loops, contexts.map (·.method), contexts.head?.map (·.target)⟩

/-- A step of work. It has no answer if it would go too deep. -/
abbrev Work := StateT Bench Option

/-- How the body of a callee is lowered on the bench. -/
abbrev Splicing := Block → Work Block

namespace Work

variable {α : Type}

/-- A step that leaves the stacks alone. -/
def here (step : Site → Lower α) : Work α := do
  let b ← get
  let (a, progress) := (step (siteOf b.loops b.contexts)).run b.progress
  set { b with progress }
  pure a

/-- Go on with other names and give back those from before. -/
def exchangeNames (names : Renaming) : Work Renaming := do
  let b ← get
  set { b with progress := { b.progress with scopes := names } }
  pure b.progress.scopes

/-- Go on with other loops and give back those from before. -/
def exchangeLoops (loops : List String) : Work (List String) := do
  let b ← get
  set { b with loops }
  pure b.loops

/-- Go on with another stack of copies. Every stack is remembered. -/
def setContexts (contexts : List Context) : Work Unit :=
  modify fun b => { b with contexts, seen := contexts.map (·.method) :: b.seen }

/-- Begin a copy. -/
def pushContext (callee : Method) (target : Target) (names : Renaming) : Work Unit := do
  let outer ← exchangeNames names
  setContexts (⟨callee.id, target, outer⟩ :: (← get).contexts)

/-- End the innermost copy. -/
def popContext : Work Unit := do
  match (← get).contexts with
  | [] => pure ()
  | context :: rest =>
    let _ ← exchangeNames context.outer
    setContexts rest

/-- Enter a loop. -/
def pushLoop (endLabel : String) : Work Unit :=
  modify fun b => { b with loops := endLabel :: b.loops }

/-- Leave the innermost loop. -/
def popLoop : Work Unit :=
  modify fun b => { b with loops := b.loops.tail }

/-- Open a scope of names. -/
def pushScope : Work Unit :=
  here fun _ => modify fun s => { s with scopes := s.scopes.push }

/-- Close the innermost scope of names. -/
def popScope : Work Unit :=
  here fun _ => modify fun s => { s with scopes := s.scopes.pop }

end Work

namespace Bench

open Work

/-- The statements for a call, with a copy of the callee where one is allowed.
The loops of the caller are put aside for the time of the copy. -/
def emitCall (setting : Setting) (splice : Splicing) (name : String) (args : List Expr)
    (dest : Option Expr) (callSpan span : Span) : Work Block := do
  match ← here (inlinee? setting · name args.length callSpan) with
  | none => pure (keptCall name args dest callSpan span)
  | some callee =>
    let startLabel ← here fun _ => nextLabel
    let endLabel ← here fun _ => nextLabel
    let receiver ← here fun _ => freshName (callee.name ++ ".return")
    let (names, declarations) ← here fun _ => bindParams span callee.params args
    let callerLoops ← exchangeLoops []
    pushContext callee ⟨receiver, endLabel⟩ [names]
    let body ← splice callee.body
    popContext
    let _ ← exchangeLoops callerLoops
    pure (declarations ++ .declare receiver .dynamic none span :: mark startLabel :: body
      ++ mark endLabel :: passResult receiver dest span)

mutual

/-- Move the synchronous calls of an expression in front of it. -/
def hoist (setting : Setting) (splice : Splicing) : Expr → Work (Block × Expr)
  | .call method args span => do
    let (before, lowered) ← hoistList setting splice args
    if isSynchronous setting method then
      let temp ← here fun _ => freshName "temp"
      let call ← emitCall setting splice method lowered (some (localVar temp span)) span span
      pure (before ++ .declare temp .dynamic none span :: call, localVar temp span)
    else
      here (report · (setting.program.callProblem method args.length span))
      pure (before, .call method lowered span)
  | .callStatic typeName method args span => do
    let (before, args) ← hoistList setting splice args
    pure (before, .callStatic typeName method args span)
  | .callOn object method args span => do
    let (before, args) ← hoistList setting splice args
    let (after, object) ← hoist setting splice object
    pure (before ++ after, .callOn object method args span)
  | .binary op left right span => do
    let (before, left) ← hoist setting splice left
    if op.isShortCircuit then
      pure (before, .binary op left (← here (lowerExpr setting.program · right)) span)
    else
      let (after, right) ← hoist setting splice right
      pure (before ++ after, .binary op left right span)
  | .unary op operand span => do
    let (before, operand) ← hoist setting splice operand
    pure (before, .unary op operand span)
  | .index target position span => do
    let (before, target) ← hoist setting splice target
    let (after, position) ← hoist setting splice position
    pure (before ++ after, .index target position span)
  | .property object name span => do
    let (before, object) ← hoist setting splice object
    pure (before, .property object name span)
  | .create typeName args span => do
    let (before, args) ← hoistList setting splice args
    pure (before, .create typeName args span)
  | .array items span => do
    let (before, items) ← hoistList setting splice items
    pure (before, .array items span)
  | .literal value span => do
    pure ([], ← here (lowerExpr setting.program · (.literal value span)))
  | .var name isGlobal span => do
    pure ([], ← here (lowerExpr setting.program · (.var name isGlobal span)))
  | .staticProperty typeName name span => pure ([], .staticProperty typeName name span)

/-- Move the synchronous calls of several expressions in front of them. -/
def hoistList (setting : Setting) (splice : Splicing) : List Expr → Work (Block × List Expr)
  | [] => pure ([], [])
  | e :: rest => do
    let (before, e) ← hoist setting splice e
    let (after, rest) ← hoistList setting splice rest
    pure (before ++ after, e :: rest)

end

/-- Lower a call that stands alone or whose value has a destination. -/
def lowerCall (setting : Setting) (splice : Splicing) (name : String) (args : List Expr)
    (dest : Option Expr) (callSpan span : Span) : Work Block := do
  let args ← here (lowerArgs setting.program · args)
  emitCall setting splice name args dest callSpan span

/-- Lower the return of a value. -/
def lowerReturned (setting : Setting) (splice : Splicing) (value : Expr) (span : Span) :
    Work Block := do
  match ← here fun site => pure site.copy with
  | none =>
    let (before, value) ← hoist setting splice value
    pure (before ++ [.ret (some value) span])
  | some target =>
    let dest := localVar target.receiver span
    match value with
    | .call method args callSpan =>
      let call ← lowerCall setting splice method args (some dest) callSpan span
      pure (call ++ [.goto target.endLabel span])
    | value =>
      let (before, value) ← hoist setting splice value
      pure (before ++ [.assign dest value span, .goto target.endLabel span])

/-- Lower a declaration. -/
def lowerDeclare (setting : Setting) (splice : Splicing) (name : String) (shape : Shape)
    (init : Option Expr) (span : Span) : Work Block := do
  match init with
  | some (.call method args callSpan) =>
    let args ← here (lowerArgs setting.program · args)
    let name ← here (declareName · name)
    let call ← emitCall setting splice method args (some (localVar name span)) callSpan span
    pure (.declare name shape none span :: call)
  | some value =>
    let value ← here (lowerExpr setting.program · value)
    let name ← here (declareName · name)
    pure [.declare name shape (some value) span]
  | none =>
    let name ← here (declareName · name)
    pure [.declare name shape none span]

/-- Lower an assignment. -/
def lowerAssign (setting : Setting) (splice : Splicing) (target value : Expr) (span : Span) :
    Work Block := do
  let target ← here (lowerExpr setting.program · target)
  match value with
  | .call method args callSpan => lowerCall setting splice method args (some target) callSpan span
  | value => pure [.assign target (← here (lowerExpr setting.program · value)) span]

/-- Lower an expression statement. -/
def lowerEval (setting : Setting) (splice : Splicing) (e : Expr) (span : Span) : Work Block := do
  match e with
  | .call method args callSpan => lowerCall setting splice method args none callSpan span
  | e => pure [.eval (← here (lowerExpr setting.program · e)) span]

mutual

/-- Lower one statement. -/
def lowerStmt (setting : Setting) (splice : Splicing) : Stmt → Work Block
  | .declare name shape init span => lowerDeclare setting splice name shape init span
  | .assign target value span => lowerAssign setting splice target value span
  | .eval e span => lowerEval setting splice e span
  | .cond test yes none span => do
    let test ← here (lowerExpr setting.program · test)
    let endLabel ← here fun _ => nextLabel
    let yes ← lowerStmts setting splice none yes
    pure (.branch test endLabel span :: yes ++ [mark endLabel])
  | .cond test yes (some no) span => do
    let test ← here (lowerExpr setting.program · test)
    let elseLabel ← here fun _ => nextLabel
    let endLabel ← here fun _ => nextLabel
    let yes ← lowerStmts setting splice none yes
    let no ← lowerStmts setting splice none no
    pure (.branch test elseLabel span :: yes ++ jump endLabel :: mark elseLabel :: no
      ++ [mark endLabel])
  | .loop .testFirst test body span => do
    let startLabel ← here fun _ => nextLabel
    let endLabel ← here fun _ => nextLabel
    let test ← here (lowerExpr setting.program · test)
    pushLoop endLabel
    let body ← lowerStmts setting splice none body
    popLoop
    pure (mark startLabel :: .branch test endLabel span :: body
      ++ [jump startLabel, mark endLabel])
  | .loop .testLast test body span => do
    let startLabel ← here fun _ => nextLabel
    let endLabel ← here fun _ => nextLabel
    pushLoop endLabel
    let body ← lowerStmts setting splice none body
    popLoop
    let test ← here (lowerExpr setting.program · test)
    pure (mark startLabel :: body
      ++ [.branch test endLabel span, jump startLabel, mark endLabel])
  | .brk span => do
    match ← here fun site => pure site.loopEnds with
    | endLabel :: _ => pure [.goto endLabel span]
    | [] =>
      here (report · [⟨span, .breakOutsideLoop⟩])
      pure [.brk span]
  | .ret (some value) span => lowerReturned setting splice value span
  | .ret none span => do
    match ← here fun site => pure site.copy with
    | none => pure [.ret none span]
    | some target => pure [.goto target.endLabel span]
  | .throw value span => do pure [.throw (← here (lowerExpr setting.program · value)) span]
  | .attempt body catchVar handler span => do
    pushScope
    let body ← lowerStmts setting splice none body
    popScope
    pushScope
    let catchVar ← here fun site =>
      match catchVar with
      | some name => some <$> declareName site name
      | none => pure none
    let handler ← lowerStmts setting splice none handler
    popScope
    pure [.attempt body catchVar handler span]
  | .branch test target span => pure [.branch test target span]
  | .label name span => pure [.label name span]
  | .goto target span => pure [.goto target span]

/-- Lower statements in order. -/
def lowerStmts (setting : Setting) (splice : Splicing) : Option Span → List Stmt → Work Block
  | _, [] => pure []
  | after, stmt :: rest => do
    here (report · (unreachable after stmt))
    let first ← lowerStmt setting splice stmt
    let rest ← lowerStmts setting splice (terminal? stmt) rest
    pure (first ++ rest)

end

/-- Lower the body of a method or a callee, where copies nest at most `depth`
deep. Deeper down there is no answer. -/
def lowerBody (setting : Setting) : Nat → Block → Work Block
  | 0, _ => failure
  | depth + 1, block => lowerStmts setting (lowerBody setting depth) none block

/-- Lower a method, with both stacks cleared. -/
def lowerMethod (setting : Setting) (depth : Nat) (m : Method) : Work Method := do
  let _ ← exchangeLoops []
  setContexts []
  let outer ← exchangeNames []
  let body ← lowerBody setting depth m.body
  let _ ← exchangeNames outer
  pure { m with body }

/-- Lower methods in order. -/
def lowerMethods (setting : Setting) (depth : Nat) : List Method → Work (List Method)
  | [] => pure []
  | m :: rest => do
    let m ← lowerMethod setting depth m
    let rest ← lowerMethods setting depth rest
    pure (m :: rest)

/-- Lower a program that is not in jump code yet. -/
def lowerProgram (setting : Setting) (depth : Nat) : Work Program := do
  let p := setting.program
  here (report · (duplicates [] p.methods))
  let methods ← lowerMethods setting depth p.methods
  here fun _ => checkGlobals p p.globals
  pure { p with methods, lowered := true }

end Bench

end Stepwise.Lowering
