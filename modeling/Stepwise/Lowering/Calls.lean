import Stepwise.Diagnostic

/-!
# Checking calls

Every call of a program method has to name a method and pass as many
arguments as the method has parameters. The problems of an expression are
listed in the order in which its calls are evaluated, the arguments of a
call before the call itself.
-/

namespace Stepwise

/-- The method that a call means, or what is wrong with the call. -/
def Program.resolve (p : Program) (name : String) (given : Nat) : Except Problem Method :=
  match p.method? name with
  | none => .error (.unresolvedMethod name)
  | some callee =>
    if callee.params.length == given then .ok callee
    else .error (.arityMismatch name callee.params.length given)

/-- The diagnostic of a call by itself, if something is wrong with it. -/
def Program.callProblem (p : Program) (name : String) (given : Nat) (span : Span) :
    List Diagnostic :=
  match p.resolve name given with
  | .ok _ => []
  | .error problem => [⟨span, problem⟩]

mutual

/-- The diagnostics of all calls in an expression. -/
def Expr.callProblems (p : Program) : Expr → List Diagnostic
  | .literal .. | .var .. | .staticProperty .. => []
  | .property object _ _ => object.callProblems p
  | .index target position _ => target.callProblems p ++ position.callProblems p
  | .binary _ left right _ => left.callProblems p ++ right.callProblems p
  | .unary _ operand _ => operand.callProblems p
  | .call method args span =>
    Expr.listProblems p args ++ p.callProblem method args.length span
  | .callStatic _ _ args _ => Expr.listProblems p args
  | .callOn object _ args _ => Expr.listProblems p args ++ object.callProblems p
  | .create _ args _ => Expr.listProblems p args
  | .array items _ => Expr.listProblems p items

/-- The diagnostics of all calls in a list of expressions. -/
def Expr.listProblems (p : Program) : List Expr → List Diagnostic
  | [] => []
  | e :: rest => e.callProblems p ++ Expr.listProblems p rest

end

end Stepwise
