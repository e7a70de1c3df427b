import Stepwise.Lowering.Calls
import Stepwise.Lowering.Names
import Stepwise.Proofs.Program.Scoping

/-!
# The calls of an expression

A call of a program method is right if the method it names takes as many
arguments as it passes. The problems of an expression are those of its calls,
and renaming the variables of an expression keeps its calls.
-/

namespace Stepwise

mutual

/-- The calls of program methods in an expression, by name and number of arguments. -/
def Expr.calls : Expr → List (String × Nat)
  | .literal .. | .var .. | .staticProperty .. => []
  | .property object _ _ => object.calls
  | .index target position _ => target.calls ++ position.calls
  | .binary _ left right _ => left.calls ++ right.calls
  | .unary _ operand _ => operand.calls
  | .call method args _ => Expr.listCalls args ++ [(method, args.length)]
  | .callStatic _ _ args _ | .create _ args _ => Expr.listCalls args
  | .callOn object _ args _ => Expr.listCalls args ++ object.calls
  | .array items _ => Expr.listCalls items

/-- The calls of program methods in expressions. -/
def Expr.listCalls : List Expr → List (String × Nat)
  | [] => []
  | e :: rest => e.calls ++ Expr.listCalls rest

end

/-- Whether a call is right. -/
def Program.Answers (p : Program) (call : String × Nat) : Prop :=
  ∃ callee, p.resolve call.1 call.2 = .ok callee

/-- Nothing is wrong with a call exactly if it is right. -/
theorem Program.callProblem_eq_nil {p : Program} {name : String} {given : Nat} {span : Span} :
    p.callProblem name given span = [] ↔ p.Answers (name, given) := by
  unfold callProblem Answers
  cases p.resolve name given with
  | ok callee => exact ⟨fun _ => ⟨callee, rfl⟩, fun _ => rfl⟩
  | error problem => simp

/-- What is wrong with a call is an error. -/
theorem Program.isError_of_callProblem {p : Program} {name : String} {given : Nat} {span : Span}
    {d : Diagnostic} (h : d ∈ p.callProblem name given span) : d.isError = true := by
  unfold callProblem resolve at h
  cases hm : p.method? name with
  | none =>
    simp only [hm, List.mem_singleton] at h
    rw [h]
    rfl
  | some callee =>
    simp only [hm] at h
    by_cases hlen : (callee.params.length == given) = true
    · simp [hlen] at h
    · simp only [hlen, Bool.false_eq_true, if_false, List.mem_singleton] at h
      rw [h]
      rfl

namespace Expr

/-- Renaming keeps the number of expressions. -/
theorem length_renameList (scopes : Renaming) (es : List Expr) :
    (Expr.renameList scopes es).length = es.length := by
  induction es with
  | nil => rw [Expr.renameList]
  | cons e rest ih => rw [Expr.renameList, List.length_cons, List.length_cons, ih]

mutual

/-- Renaming keeps the calls of an expression. -/
theorem calls_rename (scopes : Renaming) : ∀ e : Expr, (e.rename scopes).calls = e.calls
  | .literal .. | .staticProperty .. => by rw [rename]
  | .var name isGlobal span => by
    rw [rename, Renaming.reference, calls]
    split
    · rw [calls]
    · split <;> rw [calls]
  | .property object _ _ => by rw [rename, calls, calls, calls_rename scopes object]
  | .index target position _ => by
    rw [rename, calls, calls, calls_rename scopes target, calls_rename scopes position]
  | .binary _ left right _ => by
    rw [rename, calls, calls, calls_rename scopes left, calls_rename scopes right]
  | .unary _ operand _ => by rw [rename, calls, calls, calls_rename scopes operand]
  | .call _ args _ => by
    rw [rename, calls, calls, listCalls_renameList scopes args, length_renameList]
  | .callStatic _ _ args _ => by rw [rename, calls, calls, listCalls_renameList scopes args]
  | .callOn object _ args _ => by
    rw [rename, calls, calls, listCalls_renameList scopes args, calls_rename scopes object]
  | .create _ args _ => by rw [rename, calls, calls, listCalls_renameList scopes args]
  | .array items _ => by rw [rename, calls, calls, listCalls_renameList scopes items]

/-- Renaming keeps the calls of expressions. -/
theorem listCalls_renameList (scopes : Renaming) :
    ∀ es : List Expr, listCalls (renameList scopes es) = listCalls es
  | [] => by rw [renameList]
  | e :: rest => by
    rw [renameList, listCalls, listCalls, calls_rename scopes e, listCalls_renameList scopes rest]

end

mutual

/-- Nothing is wrong with the calls of an expression exactly if all of them are right. -/
theorem callProblems_eq_nil {p : Program} :
    ∀ e : Expr, e.callProblems p = [] ↔ ∀ c ∈ e.calls, p.Answers c
  | .literal .. | .var .. | .staticProperty .. => by rw [callProblems, calls]; simp
  | .property object _ _ => by rw [callProblems, calls]; exact callProblems_eq_nil object
  | .index target position _ => by
    rw [callProblems, calls, List.append_eq_nil_iff, List.forall_mem_append,
      callProblems_eq_nil target, callProblems_eq_nil position]
  | .binary _ left right _ => by
    rw [callProblems, calls, List.append_eq_nil_iff, List.forall_mem_append,
      callProblems_eq_nil left, callProblems_eq_nil right]
  | .unary _ operand _ => by rw [callProblems, calls]; exact callProblems_eq_nil operand
  | .call method args span => by
    rw [callProblems, calls, List.append_eq_nil_iff, List.forall_mem_append,
      listProblems_eq_nil args, Program.callProblem_eq_nil, List.forall_mem_singleton]
  | .callStatic _ _ args _ | .create _ args _ => by
    rw [callProblems, calls]
    exact listProblems_eq_nil args
  | .callOn object _ args _ => by
    rw [callProblems, calls, List.append_eq_nil_iff, List.forall_mem_append,
      listProblems_eq_nil args, callProblems_eq_nil object]
  | .array items _ => by rw [callProblems, calls]; exact listProblems_eq_nil items

/-- Nothing is wrong with the calls of expressions exactly if all of them are right. -/
theorem listProblems_eq_nil {p : Program} :
    ∀ es : List Expr, listProblems p es = [] ↔ ∀ c ∈ listCalls es, p.Answers c
  | [] => by rw [listProblems, listCalls]; simp
  | e :: rest => by
    rw [listProblems, listCalls, List.append_eq_nil_iff, List.forall_mem_append,
      callProblems_eq_nil e, listProblems_eq_nil rest]

end

mutual

/-- What is wrong with calls is an error. -/
theorem isError_of_callProblems {p : Program} :
    ∀ e : Expr, ∀ d ∈ e.callProblems p, d.isError = true
  | .literal .. | .var .. | .staticProperty .. => by rw [callProblems]; simp
  | .property object _ _ => by rw [callProblems]; exact isError_of_callProblems object
  | .index target position _ => by
    rw [callProblems, List.forall_mem_append]
    exact ⟨isError_of_callProblems target, isError_of_callProblems position⟩
  | .binary _ left right _ => by
    rw [callProblems, List.forall_mem_append]
    exact ⟨isError_of_callProblems left, isError_of_callProblems right⟩
  | .unary _ operand _ => by rw [callProblems]; exact isError_of_callProblems operand
  | .call method args span => by
    rw [callProblems, List.forall_mem_append]
    exact ⟨isError_of_listProblems args, fun _ => Program.isError_of_callProblem⟩
  | .callStatic _ _ args _ | .create _ args _ => by
    rw [callProblems]
    exact isError_of_listProblems args
  | .callOn object _ args _ => by
    rw [callProblems, List.forall_mem_append]
    exact ⟨isError_of_listProblems args, isError_of_callProblems object⟩
  | .array items _ => by rw [callProblems]; exact isError_of_listProblems items

/-- What is wrong with calls in expressions is an error. -/
theorem isError_of_listProblems {p : Program} :
    ∀ es : List Expr, ∀ d ∈ listProblems p es, d.isError = true
  | [] => by rw [listProblems]; simp
  | e :: rest => by
    rw [listProblems, List.forall_mem_append]
    exact ⟨isError_of_callProblems e, isError_of_listProblems rest⟩

end

end Expr

/-- All calls in the expressions of the statement itself are of some kind. -/
def Stmt.CallsOnly (C : String × Nat → Prop) (stmt : Stmt) : Prop :=
  ∀ e ∈ stmt.exprs, ∀ c ∈ e.calls, C c

end Stepwise
