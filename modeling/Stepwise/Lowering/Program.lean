import Stepwise.Lowering.Statement

/-!
# Lowering programs

Each method is lowered by itself, in order, with one supply of labels and
new names for the whole program. A program that is in jump code already is
left as it is. Copies nest at most as deep as the limit for one method times
the number of methods, which bounds the recursion.
-/

namespace Stepwise.Lowering

/-- Lower a block in which copies nest at most `depth` deep. -/
def lowerBlock (setting : Setting) : Nat → Splice
  | 0 => fun _ _ => pure []
  | depth + 1 => fun site block => lowerStmts setting (lowerBlock setting depth) site none block

/-- Copies never nest deeper than this. -/
def Setting.depth (setting : Setting) : Nat :=
  setting.options.recursionLimit * setting.program.methods.length + 1

/-- Lower the body of a method. -/
def lowerMethod (setting : Setting) (m : Method) : Lower Method := do
  let body ← withRenaming [] (lowerBlock setting setting.depth Site.top m.body)
  pure { m with body }

/-- The errors of methods whose name an earlier method has. -/
def duplicates (seen : List String) : List Method → List Diagnostic
  | [] => []
  | m :: rest =>
    if seen.contains m.name then ⟨m.span, .duplicateMethod m.name⟩ :: duplicates seen rest
    else duplicates (m.name :: seen) rest

/-- Check the initial values of the globals. They are never changed, since
they are evaluated before there is any frame to copy a callee into. -/
def checkGlobals (p : Program) : List Global → Lower Unit
  | [] => pure ()
  | g :: rest => do
    match g.init with
    | some init => report Site.top (init.callProblems p)
    | none => pure ()
    checkGlobals p rest

/-- Lower methods in order. -/
def lowerMethods (setting : Setting) : List Method → Lower (List Method)
  | [] => pure []
  | m :: rest => do
    let m ← lowerMethod setting m
    let rest ← lowerMethods setting rest
    pure (m :: rest)

/-- Lower a program that is not in jump code yet. -/
def lowerProgram (setting : Setting) : Lower Program := do
  let p := setting.program
  report Site.top (duplicates [] p.methods)
  let methods ← lowerMethods setting p.methods
  checkGlobals p p.globals
  pure { p with methods, lowered := true }

/-- What lowering gives. -/
structure Result where
  /-- The program in jump code. -/
  program : Program
  /-- What was found on the way, in order. -/
  diagnostics : List Diagnostic

/-- The diagnostics that keep the program from running. -/
def Result.errors (r : Result) : List Diagnostic :=
  r.diagnostics.filter (·.isError)

/-- Whether something keeps the program from running. -/
def Result.hasErrors (r : Result) : Bool :=
  r.diagnostics.any (·.isError)

end Stepwise.Lowering

namespace Stepwise

/-- Turn a program into jump code. -/
def Program.lower (p : Program) (options : Lowering.Options) : Lowering.Result :=
  if p.lowered then ⟨p, []⟩
  else
    let (lowered, progress) := (Lowering.lowerProgram ⟨p, options⟩).run {}
    ⟨lowered, progress.diagnostics⟩

end Stepwise
