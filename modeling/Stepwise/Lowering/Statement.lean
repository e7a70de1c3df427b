import Stepwise.Lowering.Basic

/-!
# Lowering statements

Conditions and loops become labels, branches and jumps; `break` becomes a
jump behind its loop. A synchronous call that is a statement, the value of an
assignment or the initial value of a declaration is replaced by a copy of the
callee, unless the callee is already being copied too often. Calls inside a
returned expression are first moved in front of it. `attempt` statements keep
their two blocks, which are lowered in place.

The functions here descend the statements of one body. A callee is lowered
through the argument `splice`, which the next module supplies.
-/

namespace Stepwise.Lowering

/-- The program being lowered and how. -/
structure Setting where
  /-- The program. -/
  program : Program
  /-- The treatment of calls. -/
  options : Options

/-- How the body of a callee is lowered at a site. -/
abbrev Splice := Site → Block → Lower Block

/-- A label that no source text stands behind. -/
def mark (name : String) : Stmt := .label name Span.blank

/-- A jump that no source text stands behind. -/
def jump (name : String) : Stmt := .goto name Span.blank

/-- A local variable. -/
def localVar (name : String) (span : Span) : Expr := .var name false span

/-- The callee to copy for a call, if the call is right and a copy allowed. -/
def inlinee? (setting : Setting) (site : Site) (name : String) (given : Nat) (span : Span) :
    Lower (Option Method) := do
  match setting.program.resolve name given with
  | .error problem =>
    report site [⟨span, problem⟩]
    pure none
  | .ok callee =>
    if !setting.options.inline || callee.isAsync then pure none
    else if setting.options.recursionLimit ≤ site.active.count callee.id then
      noteRefusal callee setting.options.recursionLimit span
      pure none
    else pure (some callee)

/-- Declare the parameters of a copy with the arguments as initial values. -/
def bindParams (span : Span) : List Param → List Expr →
    Lower (List (String × String) × List Stmt)
  | param :: params, arg :: args => do
    let fresh ← freshName param.name
    let (names, stmts) ← bindParams span params args
    pure (names ++ [(param.name, fresh)], .declare fresh param.shape (some arg) span :: stmts)
  | _, _ => pure ([], [])

/-- The statements for a call whose arguments and destination are lowered. -/
def emitCall (setting : Setting) (splice : Splice) (site : Site) (name : String)
    (args : List Expr) (dest : Option Expr) (callSpan span : Span) : Lower Block := do
  match ← inlinee? setting site name args.length callSpan with
  | none =>
    let call := Expr.call name args callSpan
    match dest with
    | some target => pure [.assign target call span]
    | none => pure [.eval call span]
  | some callee =>
    let startLabel ← nextLabel
    let endLabel ← nextLabel
    let receiver ← freshName (callee.name ++ ".return")
    let (names, declarations) ← bindParams span callee.params args
    let body ← withRenaming [names]
      (splice (site.insideCopy callee ⟨receiver, endLabel⟩) callee.body)
    let result :=
      match dest with
      | some target => [Stmt.assign target (localVar receiver span) span]
      | none => []
    pure (declarations ++ .declare receiver .dynamic none span :: mark startLabel :: body
      ++ mark endLabel :: result)

/-- Whether the name is that of a method whose calls wait for the result. -/
def isSynchronous (setting : Setting) (name : String) : Bool :=
  (setting.program.method? name).any (!·.isAsync)

mutual

/-- Move the synchronous calls of an expression in front of it. The right
operand of a short-circuit operator stays in place, since it may not be
evaluated. -/
def hoist (setting : Setting) (splice : Splice) (site : Site) : Expr → Lower (Block × Expr)
  | .call method args span => do
    let (before, lowered) ← hoistList setting splice site args
    if isSynchronous setting method then
      let temp ← freshName "temp"
      let call ← emitCall setting splice site method lowered (some (localVar temp span)) span span
      pure (before ++ .declare temp .dynamic none span :: call, localVar temp span)
    else
      report site (setting.program.callProblem method args.length span)
      pure (before, .call method lowered span)
  | .callStatic typeName method args span => do
    let (before, args) ← hoistList setting splice site args
    pure (before, .callStatic typeName method args span)
  | .callOn object method args span => do
    let (before, args) ← hoistList setting splice site args
    let (after, object) ← hoist setting splice site object
    pure (before ++ after, .callOn object method args span)
  | .binary op left right span => do
    let (before, left) ← hoist setting splice site left
    if op.isShortCircuit then
      pure (before, .binary op left (← lowerExpr setting.program site right) span)
    else
      let (after, right) ← hoist setting splice site right
      pure (before ++ after, .binary op left right span)
  | .unary op operand span => do
    let (before, operand) ← hoist setting splice site operand
    pure (before, .unary op operand span)
  | .index target position span => do
    let (before, target) ← hoist setting splice site target
    let (after, position) ← hoist setting splice site position
    pure (before ++ after, .index target position span)
  | .property object name span => do
    let (before, object) ← hoist setting splice site object
    pure (before, .property object name span)
  | .create typeName args span => do
    let (before, args) ← hoistList setting splice site args
    pure (before, .create typeName args span)
  | .array items span => do
    let (before, items) ← hoistList setting splice site items
    pure (before, .array items span)
  | .literal value span => do
    pure ([], ← lowerExpr setting.program site (.literal value span))
  | .var name isGlobal span => do
    pure ([], ← lowerExpr setting.program site (.var name isGlobal span))
  | .staticProperty typeName name span => pure ([], .staticProperty typeName name span)

/-- Move the synchronous calls of several expressions in front of them. -/
def hoistList (setting : Setting) (splice : Splice) (site : Site) :
    List Expr → Lower (Block × List Expr)
  | [] => pure ([], [])
  | e :: rest => do
    let (before, e) ← hoist setting splice site e
    let (after, rest) ← hoistList setting splice site rest
    pure (before ++ after, e :: rest)

end

/-- Lower a call that stands alone or whose value has a destination. -/
def lowerCall (setting : Setting) (splice : Splice) (site : Site) (name : String)
    (args : List Expr) (dest : Option Expr) (callSpan span : Span) : Lower Block := do
  let args ← lowerArgs setting.program site args
  emitCall setting splice site name args dest callSpan span

/-- Lower the return of a value. Inside a copy the value goes to the receiver. -/
def lowerReturned (setting : Setting) (splice : Splice) (site : Site) (value : Expr)
    (span : Span) : Lower Block := do
  match site.copy with
  | none =>
    let (before, value) ← hoist setting splice site value
    pure (before ++ [.ret (some value) span])
  | some target =>
    let dest := localVar target.receiver span
    match value with
    | .call method args callSpan =>
      let call ← lowerCall setting splice site method args (some dest) callSpan span
      pure (call ++ [.goto target.endLabel span])
    | value =>
      let (before, value) ← hoist setting splice site value
      pure (before ++ [.assign dest value span, .goto target.endLabel span])

/-- Lower a return, which leaves an inlined copy by a jump behind it. -/
def lowerReturn (setting : Setting) (splice : Splice) (site : Site) (value : Option Expr)
    (span : Span) : Lower Block :=
  match value with
  | some value => lowerReturned setting splice site value span
  | none =>
    match site.copy with
    | none => pure [.ret none span]
    | some target => pure [.goto target.endLabel span]

/-- Lower a declaration. The new name cannot be seen by its initial value. -/
def lowerDeclare (setting : Setting) (splice : Splice) (site : Site) (name : String)
    (shape : Shape) (init : Option Expr) (span : Span) : Lower Block := do
  match init with
  | some (.call method args callSpan) =>
    let args ← lowerArgs setting.program site args
    let name ← declareName site name
    let call ← emitCall setting splice site method args (some (localVar name span)) callSpan span
    pure (.declare name shape none span :: call)
  | some value =>
    let value ← lowerExpr setting.program site value
    let name ← declareName site name
    pure [.declare name shape (some value) span]
  | none =>
    let name ← declareName site name
    pure [.declare name shape none span]

/-- Lower an assignment. -/
def lowerAssign (setting : Setting) (splice : Splice) (site : Site) (target value : Expr)
    (span : Span) : Lower Block := do
  let target ← lowerExpr setting.program site target
  match value with
  | .call method args callSpan =>
    lowerCall setting splice site method args (some target) callSpan span
  | value => pure [.assign target (← lowerExpr setting.program site value) span]

/-- Lower an expression statement. -/
def lowerEval (setting : Setting) (splice : Splice) (site : Site) (e : Expr) (span : Span) :
    Lower Block := do
  match e with
  | .call method args callSpan => lowerCall setting splice site method args none callSpan span
  | e => pure [.eval (← lowerExpr setting.program site e) span]

/-- The warning for a statement that follows one that never goes on. Labels
and jumps are left alone: a jump may lead there. -/
def unreachable (after : Option Span) (stmt : Stmt) : List Diagnostic :=
  match after with
  | some span => if stmt.isPlumbing then [] else [⟨stmt.span, .unreachable span⟩]
  | none => []

/-- The span of a statement that never goes on to the next one. -/
def terminal? : Stmt → Option Span
  | .ret _ span | .brk span | .throw _ span => some span
  | _ => none

mutual

/-- Lower one statement. -/
def lowerStmt (setting : Setting) (splice : Splice) (site : Site) : Stmt → Lower Block
  | .declare name shape init span => lowerDeclare setting splice site name shape init span
  | .assign target value span => lowerAssign setting splice site target value span
  | .eval e span => lowerEval setting splice site e span
  | .cond test yes none span => do
    let test ← lowerExpr setting.program site test
    let endLabel ← nextLabel
    let yes ← lowerStmts setting splice site none yes
    pure (.branch test endLabel span :: yes ++ [mark endLabel])
  | .cond test yes (some no) span => do
    let test ← lowerExpr setting.program site test
    let elseLabel ← nextLabel
    let endLabel ← nextLabel
    let yes ← lowerStmts setting splice site none yes
    let no ← lowerStmts setting splice site none no
    pure (.branch test elseLabel span :: yes ++ jump endLabel :: mark elseLabel :: no
      ++ [mark endLabel])
  | .loop .testFirst test body span => do
    let startLabel ← nextLabel
    let endLabel ← nextLabel
    let test ← lowerExpr setting.program site test
    let body ← lowerStmts setting splice (site.insideLoop endLabel) none body
    pure (mark startLabel :: .branch test endLabel span :: body
      ++ [jump startLabel, mark endLabel])
  | .loop .testLast test body span => do
    let startLabel ← nextLabel
    let endLabel ← nextLabel
    let body ← lowerStmts setting splice (site.insideLoop endLabel) none body
    let test ← lowerExpr setting.program site test
    pure (mark startLabel :: body
      ++ [.branch test endLabel span, jump startLabel, mark endLabel])
  | .brk span =>
    match site.loopEnds with
    | endLabel :: _ => pure [.goto endLabel span]
    | [] => do
      report site [⟨span, .breakOutsideLoop⟩]
      pure [.brk span]
  | .ret value span => lowerReturn setting splice site value span
  | .throw value span => do pure [.throw (← lowerExpr setting.program site value) span]
  | .attempt body catchVar handler span => do
    let body ← inScope (lowerStmts setting splice site none body)
    let (catchVar, handler) ← inScope do
      let catchVar ←
        match catchVar with
        | some name => some <$> declareName site name
        | none => pure none
      pure (catchVar, ← lowerStmts setting splice site none handler)
    pure [.attempt body catchVar handler span]
  | .branch test target span => pure [.branch test target span]
  | .label name span => pure [.label name span]
  | .goto target span => pure [.goto target span]

/-- Lower statements in order; `after` is the span of the statement just
before them if that one never goes on. -/
def lowerStmts (setting : Setting) (splice : Splice) (site : Site) (after : Option Span) :
    List Stmt → Lower Block
  | [] => pure []
  | stmt :: rest => do
    report site (unreachable after stmt)
    let first ← lowerStmt setting splice site stmt
    let rest ← lowerStmts setting splice site (terminal? stmt) rest
    pure (first ++ rest)

end

end Stepwise.Lowering
