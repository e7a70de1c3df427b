import Stepwise.Program.Basic

/-!
# Diagnostics

What preparing a program can find fault with. Errors keep a session from
running the program, warnings and notes do not.
-/

namespace Stepwise

/-- How grave a diagnostic is. -/
inductive Severity where
  /-- The program cannot be run. -/
  | error
  /-- The program can be run but looks wrong. -/
  | warning
  /-- Nothing is wrong. -/
  | info
deriving DecidableEq, Inhabited

/-- The word for a severity. -/
def Severity.word : Severity → String
  | .error => "error"
  | .warning => "warning"
  | .info => "info"

/-- What was found. -/
inductive Problem where
  /-- A call names no method. -/
  | unresolvedMethod (name : String)
  /-- A call passes the wrong number of arguments. -/
  | arityMismatch (name : String) (expected given : Nat)
  /-- A `break` stands outside every loop. -/
  | breakOutsideLoop
  /-- Two methods share a name. -/
  | duplicateMethod (name : String)
  /-- Calls of a recursive method are no longer replaced by copies. -/
  | inlineRefused (name : String) (limit : Nat)
  /-- A statement follows one that never goes on. -/
  | unreachable (after : Span)
deriving DecidableEq, Inhabited

namespace Problem

/-- How grave the problem is. -/
def severity : Problem → Severity
  | .unresolvedMethod _ | .arityMismatch .. | .breakOutsideLoop | .duplicateMethod _ => .error
  | .unreachable _ => .warning
  | .inlineRefused .. => .info

/-- The name of the check that found the problem. -/
def code : Problem → String
  | .unresolvedMethod _ => "unresolved-method"
  | .arityMismatch .. => "arity-mismatch"
  | .breakOutsideLoop => "break-outside-loop"
  | .duplicateMethod _ => "duplicate-method"
  | .inlineRefused .. => "inline-refused"
  | .unreachable _ => "unreachable-code"

/-- The problem in words. -/
def message : Problem → String
  | .unresolvedMethod name => "method '" ++ name ++ "' is not defined"
  | .arityMismatch name expected given =>
    "method '" ++ name ++ "' expects " ++ toString expected ++ " argument(s), got "
      ++ toString given
  | .breakOutsideLoop => "'break' is only allowed inside a loop"
  | .duplicateMethod name => "method '" ++ name ++ "' is defined more than once"
  | .inlineRefused name limit =>
    "recursive calls to '" ++ name ++ "' are inlined " ++ toString limit
      ++ " level(s) deep, deeper calls stay genuine invocations"
  | .unreachable after =>
    "statement is unreachable after the statement at " ++ after.place

end Problem

/-- A problem and where it was found. -/
structure Diagnostic where
  /-- Where. -/
  span : Span
  /-- What. -/
  problem : Problem
deriving DecidableEq, Inhabited

namespace Diagnostic

/-- Whether the diagnostic keeps the program from running. -/
def isError (d : Diagnostic) : Bool :=
  d.problem.severity == .error

/-- The diagnostic on one line. -/
def render (d : Diagnostic) : String :=
  d.problem.severity.word ++ " at " ++ d.span.place ++ ": " ++ d.problem.message
    ++ " [" ++ d.problem.code ++ "]"

end Diagnostic

end Stepwise
