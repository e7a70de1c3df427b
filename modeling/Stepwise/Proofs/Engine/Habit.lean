import Stepwise.Proofs.Engine.Discipline

/-!
# Habits of evaluation

Evaluating an expression reads and makes values, asks the host, starts
invocations and calls methods. A property that the elementary steps have,
and that stays when one step follows another, is had by the evaluation of
every expression whose calls have it.
-/

namespace Stepwise.Engine

/-- A property of steps that evaluation keeps. -/
structure Habit where
  /-- The property. -/
  has : {α : Type} → Exec α → Prop
  /-- Ending with a value has it. -/
  ret : ∀ {α : Type} (a : α), has (pure a : Exec α)
  /-- Failing has it. -/
  fail : ∀ {α : Type} (f : Fault), has (Exec.fail f : Exec α)
  /-- Going on with a value has it, if both steps do. -/
  bind : ∀ {α β : Type} {x : Exec α} {f : α → Exec β}, has x → (∀ a, has (f a)) → has (x >>= f)
  /-- What changes values and the host at most has it. -/
  aside : ∀ {α : Type} {x : Exec α}, Aside x → has x
  /-- Starting an invocation has it. -/
  spawn : ∀ (m : Method) (args : List Val), has (Exec.change (·.spawn m args))

namespace Habit

variable (h : Habit) {p : Program} {call : Caller}

theorem lift {α : Type} {r : Except Fault α} (hr : Tame r) : h.has (Exec.lift r) :=
  h.aside (aside_lift fun _ => hr)

theorem operate {a b : Exec Val} (op : BinaryOp) (ha : h.has a) (hb : h.has b) :
    h.has (Engine.operate op a b) := by
  cases op
  case and =>
    refine h.bind ha fun _ => h.bind (h.lift (tame_condition _)) fun t => ?_
    cases t
    · exact h.ret _
    · exact h.bind hb fun _ => h.bind (h.lift (tame_condition _)) fun _ => h.ret _
  case or =>
    refine h.bind ha fun _ => h.bind (h.lift (tame_condition _)) fun t => ?_
    cases t
    · exact h.bind hb fun _ => h.bind (h.lift (tame_condition _)) fun _ => h.ret _
    · exact h.ret _
  all_goals
    exact h.bind ha fun _ => h.bind hb fun _ => h.aside (aside_apply fun _ => tame_binary _ _ _ _)

theorem callOrSpawn {m : Method} (hcall : ∀ args, h.has (call m args)) (args : List Val) :
    h.has (Engine.callOrSpawn call m args) := by
  unfold Engine.callOrSpawn
  split
  · exact h.bind (h.spawn m args) fun _ => h.ret _
  · exact hcall args

mutual

/-- The evaluation of an expression has the property if the calls of the program's
methods do. -/
theorem eval_of_methods (hcall : ∀ m ∈ p.methods, ∀ args, h.has (call m args)) :
    ∀ e : Expr, h.has (Engine.eval p call e)
  | .literal .. => by
    rw [Engine.eval]
    exact h.ret _
  | .var .. => by
    rw [Engine.eval]
    exact h.aside (aside_readVariable _ _)
  | .staticProperty .. => by
    rw [Engine.eval]
    exact h.aside (aside_readProperty _ _)
  | .property object _ _ => by
    rw [Engine.eval]
    exact h.bind (eval_of_methods hcall object) fun _ => h.aside (aside_readProperty _ _)
  | .index target position _ => by
    rw [Engine.eval]
    exact h.bind (eval_of_methods hcall target) fun _ =>
      h.bind (eval_of_methods hcall position) fun _ =>
        h.aside (aside_apply fun _ => tame_element _ _ _)
  | .binary op left right _ => by
    rw [eval_binary]
    exact h.operate op (eval_of_methods hcall left) (eval_of_methods hcall right)
  | .unary op operand _ => by
    rw [Engine.eval]
    exact h.bind (eval_of_methods hcall operand) fun _ => h.lift (tame_unary _ _)
  | .call method args _ => by
    rw [Engine.eval]
    cases hm : p.method? method with
    | none => exact h.fail _
    | some callee =>
      exact h.bind (evalList_of_methods hcall args) fun vs =>
        h.callOrSpawn (hcall callee (Program.mem_of_method?_eq_some hm)) vs
  | .callStatic _ _ args _ => by
    rw [Engine.eval]
    exact h.bind (evalList_of_methods hcall args) fun _ =>
      h.aside (aside_onHost (careful_invoke _ _ _))
  | .callOn object _ args _ => by
    rw [Engine.eval]
    exact h.bind (eval_of_methods hcall object) fun _ =>
      h.bind (evalList_of_methods hcall args) fun _ => h.aside (aside_onHost (careful_invoke _ _ _))
  | .create _ args _ => by
    rw [Engine.eval]
    exact h.bind (evalList_of_methods hcall args) fun _ =>
      h.aside (aside_onHost (careful_construct _ _))
  | .array items _ => by
    rw [Engine.eval]
    exact h.bind (evalList_of_methods hcall items) fun _ => h.aside (aside_newArray _)

/-- The evaluation of expressions has the property if the calls of the program's
methods do. -/
theorem evalList_of_methods (hcall : ∀ m ∈ p.methods, ∀ args, h.has (call m args)) :
    ∀ es : List Expr, h.has (Engine.evalList p call es)
  | [] => by
    rw [Engine.evalList]
    exact h.ret _
  | e :: rest => by
    rw [Engine.evalList]
    exact h.bind (eval_of_methods hcall e) fun _ =>
      h.bind (evalList_of_methods hcall rest) fun _ => h.ret _

end

theorem evalCondition_of_methods (hcall : ∀ m ∈ p.methods, ∀ args, h.has (call m args))
    (e : Expr) : h.has (Engine.evalCondition p call e) :=
  h.bind (h.eval_of_methods hcall e) fun _ => h.lift (tame_condition _)

theorem evalOption_of_methods (hcall : ∀ m ∈ p.methods, ∀ args, h.has (call m args))
    (e : Option Expr) : h.has (Engine.evalOption p call e) := by
  cases e with
  | none => exact h.ret _
  | some e => exact h.eval_of_methods hcall e

theorem eval (hcall : ∀ m args, h.has (call m args)) (e : Expr) : h.has (Engine.eval p call e) :=
  h.eval_of_methods (fun m _ => hcall m) e

theorem evalCondition (hcall : ∀ m args, h.has (call m args)) (e : Expr) :
    h.has (Engine.evalCondition p call e) :=
  h.evalCondition_of_methods (fun m _ => hcall m) e

theorem evalOption (hcall : ∀ m args, h.has (call m args)) (e : Option Expr) :
    h.has (Engine.evalOption p call e) :=
  h.evalOption_of_methods (fun m _ => hcall m) e

end Habit

end Stepwise.Engine
