import Stepwise.Proofs.Engine.Approximation

/-!
# Wary calls

A call evaluates all its arguments before any of them is bound to a
parameter, so a value that its parameter is going to refuse does no harm if a
later argument fails first. A wary call notices that. It holds every value
against its parameter at once, and behind a value that does not fit a failure
of a later argument stops the run instead of going to a handler.
-/

namespace Stepwise

/-- Let every failure of a step stop the run, if the step is a risk. -/
def Exec.stopIf {α : Type} (risk : Bool) (x : Exec α) : Exec α :=
  if risk then x.onFailure fun _ => Exec.stop .cancelled else x

/-- A step that has a value although it is a risk has it anyway. -/
theorem Exec.ok_of_stopIf {α : Type} {risk : Bool} {x : Exec α} {w w' : World} {a : α}
    (h : x.stopIf risk w = .done w' (.ok a)) : x w = .done w' (.ok a) := by
  cases risk with
  | false => exact h
  | true =>
    obtain ⟨w₁, r, hx, hr⟩ := Run.andThen_eq_done.mp h
    rcases r with (f | _) | b <;> cases hr
    exact hx

/-- A step that is a risk ends early only if it is stopped. -/
theorem Exec.cancelled_of_stopIf {α : Type} {x : Exec α} {w w' : World} {u : Unwind}
    (h : x.stopIf true w = .done w' (.error u)) : u = .cancelled := by
  obtain ⟨w₁, r, -, hr⟩ := Run.andThen_eq_done.mp h
  rcases r with (f | _) | b <;> cases hr <;> rfl

/-- The parameters that a wary call of a name heeds: those of a synchronous method. -/
def Program.heeded (p : Program) (wary : Bool) (name : String) : List Param :=
  match p.method? name with
  | some callee => if wary && !callee.isAsync then callee.params else []
  | none => []

/-- A call that is not wary heeds no parameters. -/
@[simp] theorem Program.heeded_false (p : Program) (name : String) : p.heeded false name = [] := by
  unfold Program.heeded
  split <;> rfl

namespace Engine

/-- One value in front of others. -/
def consOf (first : Exec Val) (rest : Exec (List Val)) : Exec (List Val) := do
  let v ← first
  let vs ← rest
  pure (v :: vs)

/-- One value in front of others, which must not fail if the parameter of the
first one, where it is heeded, is going to refuse it. -/
def consFor (param : Option Param) (first : Exec Val) (rest : Exec (List Val)) :
    Exec (List Val) := do
  let v ← first
  let vs ← rest.stopIf (param.any fun param => !param.shape.accepts v)
  pure (v :: vs)

@[simp] theorem consFor_none (first : Exec Val) (rest : Exec (List Val)) :
    consFor none first rest = consOf first rest := rfl

/-- The values of arguments, given the parameters that are heeded. -/
def evalFor (p : Program) (call : Caller) : List Param → List Expr → Exec (List Val)
  | _, [] => pure []
  | params, e :: rest => consFor params.head? (eval p call e) (evalFor p call params.tail rest)

/-- A call by name, given how its arguments are evaluated. -/
def calling (p : Program) (call : Caller) (name : String) (args : Exec (List Val)) : Exec Val :=
  match p.method? name with
  | none => Exec.fail (.methodMissing name)
  | some callee => do callOrSpawn call callee (← args)

/-- The value of an expression in a statement. If it is a call, the call may be wary. -/
def valueOf (p : Program) (wary : Bool) (call : Caller) : Expr → Exec Val
  | .call method args _ => calling p call method (evalFor p call (p.heeded wary method) args)
  | e => eval p call e

/-- The value of an expression that may be absent; null stands in for it. -/
def valueOfOption (p : Program) (wary : Bool) (call : Caller) : Option Expr → Exec Val
  | some e => valueOf p wary call e
  | none => pure .null

section Plain

variable (p : Program) (call : Caller)

/-- If no parameters are heeded, arguments are evaluated like any expressions. -/
@[simp] theorem evalFor_nil (es : List Expr) : evalFor p call [] es = evalList p call es := by
  induction es with
  | nil => rw [evalFor, evalList]
  | cons e rest ih =>
    rw [evalFor, evalList, List.head?_nil, List.tail_nil, ih, consFor_none]
    rfl

/-- Evaluating a call. -/
theorem eval_call (method : String) (args : List Expr) (span : Span) :
    eval p call (.call method args span) = calling p call method (evalList p call args) := by
  simp only [eval]
  rfl

/-- The value of an expression that is not wary is its value. -/
@[simp] theorem valueOf_false (e : Expr) : valueOf p false call e = eval p call e := by
  cases e with
  | call method args span => rw [valueOf, eval_call, Program.heeded_false, evalFor_nil]
  | _ => rfl

@[simp] theorem valueOfOption_false (e : Option Expr) :
    valueOfOption p false call e = evalOption p call e := by
  cases e with
  | none => rfl
  | some e => exact valueOf_false p call e

end Plain

section Approximation

variable {C : Run.Comparison} {p : Program} {call : Nat → Caller} {call' : Caller}

/-- A risky step compares well if the step does. -/
theorem stopIf_compared {α : Type} {x : Nat → Exec α} {y : Exec α} (risk : Bool)
    (h : Exec.Compared C x y) : Exec.Compared C (fun n => (x n).stopIf risk) (y.stopIf risk) := by
  cases risk with
  | false => exact h
  | true => exact h.onFailure fun _ => .const _

/-- Values compare well if the first one and the others do. -/
theorem consFor_compared {a : Nat → Exec Val} {a' : Exec Val} {as : Nat → Exec (List Val)}
    {as' : Exec (List Val)} (param : Option Param) (ha : Exec.Compared C a a')
    (has : Exec.Compared C as as') :
    Exec.Compared C (fun n => consFor param (a n) (as n)) (consFor param a' as') :=
  ha.bind fun _ => (stopIf_compared _ has).bind fun _ => .const _

/-- The values of arguments compare well if the calls in them are. -/
theorem evalFor_compared (h : CallerCompared C call call') :
    ∀ params es, Exec.Compared C (fun n => evalFor p (call n) params es)
      (evalFor p call' params es)
  | _, [] => by simp only [evalFor]; exact .const _
  | params, e :: rest => by
    simp only [evalFor]
    exact consFor_compared _ (eval_compared h e) (evalFor_compared h params.tail rest)

/-- A call compares well if its arguments do. -/
theorem calling_compared (h : CallerCompared C call call') (name : String)
    {as : Nat → Exec (List Val)} {as' : Exec (List Val)} (has : Exec.Compared C as as') :
    Exec.Compared C (fun n => calling p (call n) name (as n)) (calling p call' name as') := by
  unfold calling
  cases p.method? name with
  | none => exact .const _
  | some callee => exact has.bind fun vs => callOrSpawn_compared h callee vs

/-- The value of an expression in a statement compares well if the calls in it are. -/
theorem valueOf_compared (h : CallerCompared C call call') (wary : Bool) (e : Expr) :
    Exec.Compared C (fun n => valueOf p wary (call n) e) (valueOf p wary call' e) := by
  cases e with
  | call method args _ => exact calling_compared h method (evalFor_compared h _ args)
  | _ => exact eval_compared h _

/-- So does an optional value. -/
theorem valueOfOption_compared (h : CallerCompared C call call') (wary : Bool) :
    ∀ e, Exec.Compared C (fun n => valueOfOption p wary (call n) e) (valueOfOption p wary call' e)
  | some e => valueOf_compared h wary e
  | none => .const _

end Approximation

end Engine

end Stepwise
