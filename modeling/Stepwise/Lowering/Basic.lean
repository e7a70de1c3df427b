import Stepwise.Label
import Stepwise.Lowering.Names
import Stepwise.Lowering.Calls

/-!
# The state of lowering

Lowering turns structured statements into jump code and copies callees into
their callers. What is handed down to nested statements is a `Site`; what is
carried along from statement to statement is a `Progress`.
-/

namespace Stepwise.Lowering

/-- How calls are treated. -/
structure Options where
  /-- Replace calls by copies of the callee. -/
  inline : Bool := true
  /-- How many copies of one method may be nested in each other. -/
  recursionLimit : Nat := 2
deriving DecidableEq, Inhabited

/-- Where the returns of an inlined copy go. -/
structure Target where
  /-- The variable that takes the returned value. -/
  receiver : String
  /-- The label behind the copy. -/
  endLabel : String

/-- Where a statement stands. -/
structure Site where
  /-- End labels of the loops around it in the same body, innermost first. -/
  loopEnds : List String
  /-- Numbers of the methods being copied around it, innermost first. -/
  active : List Nat
  /-- The innermost copy around it, if any. -/
  copy : Option Target

/-- The top of a method of the program. -/
def Site.top : Site := ⟨[], [], none⟩

/-- The site one loop further in. -/
def Site.insideLoop (site : Site) (endLabel : String) : Site :=
  { site with loopEnds := endLabel :: site.loopEnds }

/-- The top of a copy. The loops of the caller are out of reach there. -/
def Site.insideCopy (site : Site) (callee : Method) (target : Target) : Site :=
  ⟨[], callee.id :: site.active, some target⟩

/-- What lowering has used up and found so far. -/
structure Progress where
  /-- Labels handed out. -/
  labels : Nat := 0
  /-- New names handed out. -/
  names : Nat := 0
  /-- Names of the innermost copy. -/
  scopes : Renaming := []
  /-- Methods for which a refused copy was noted already. -/
  refused : List Nat := []
  /-- Diagnostics in the order found. -/
  diagnostics : List Diagnostic := []

/-- A step of lowering. -/
abbrev Lower := StateM Progress

/-- The next unused label. -/
def nextLabel : Lower String :=
  modifyGet fun s => (Label.name s.labels, { s with labels := s.labels + 1 })

/-- A new name that recalls the old one. -/
def freshName (base : String) : Lower String :=
  modifyGet fun s => (base ++ "$" ++ toString (s.names + 1), { s with names := s.names + 1 })

/-- Note diagnostics. Inside a copy nothing is noted, since lowering the
callee itself finds the same problems. -/
def report (site : Site) (found : List Diagnostic) : Lower Unit :=
  if site.copy.isNone then
    modify fun s => { s with diagnostics := s.diagnostics ++ found }
  else pure ()

/-- Note, once for each method, that a call of it stays a call. -/
def noteRefusal (callee : Method) (limit : Nat) (span : Span) : Lower Unit :=
  modify fun s =>
    if s.refused.contains callee.id then s
    else { s with
      refused := callee.id :: s.refused
      diagnostics := s.diagnostics ++ [⟨span, .inlineRefused callee.name limit⟩] }

/-- The name under which a declaration is made: a new one inside a copy. -/
def declareName (site : Site) (name : String) : Lower String :=
  if site.copy.isNone then pure name
  else do
    let fresh ← freshName name
    modify fun s => { s with scopes := s.scopes.bind name fresh }
    pure fresh

/-- Run a step in a scope of its own. -/
def inScope {α : Type} (step : Lower α) : Lower α := do
  modify fun s => { s with scopes := s.scopes.push }
  let result ← step
  modify fun s => { s with scopes := s.scopes.pop }
  pure result

/-- Run a step with the names of another copy. -/
def withRenaming {α : Type} (scopes : Renaming) (step : Lower α) : Lower α := do
  let outer := (← get).scopes
  modify fun s => { s with scopes }
  let result ← step
  modify fun s => { s with scopes := outer }
  pure result

/-- Check an expression and rename it for the copy it stands in. -/
def lowerExpr (p : Program) (site : Site) (e : Expr) : Lower Expr := do
  report site (e.callProblems p)
  if site.copy.isNone then pure e
  else pure (e.rename (← get).scopes)

/-- Check and rename the arguments of a call. -/
def lowerArgs (p : Program) (site : Site) (args : List Expr) : Lower (List Expr) := do
  report site (Expr.listProblems p args)
  if site.copy.isNone then pure args
  else pure (Expr.renameList (← get).scopes args)

end Stepwise.Lowering
