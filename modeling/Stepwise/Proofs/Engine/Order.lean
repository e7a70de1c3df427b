import Stepwise.Proofs.Engine.Settle

/-!
# Where both orders of evaluation are the same

Making the calls of an expression first changes nothing if no operand that
stands in front of a call is evaluated later on that account. Such an operand
is a constant or a call itself, or else no call stands behind it.
-/

namespace Stepwise

/-- Whether an expression is a constant. -/
def Expr.isConstant : Expr → Bool
  | .literal .. => true
  | _ => false

/-- Whether nothing but a value is left of an expression once its calls are made. -/
def Expr.isPrompt (p : Program) : Expr → Bool
  | .literal .. => true
  | .call method _ _ => (p.method? method).any (!·.isAsync)
  | _ => false

mutual

/-- Whether making the calls of an expression first keeps the order of evaluation. -/
def Expr.keepsOrder (p : Program) : Expr → Bool
  | .literal .. | .var .. | .staticProperty .. => true
  | .property object _ _ => object.keepsOrder p
  | .index target position _ =>
    target.keepsOrder p && position.keepsOrder p && (target.isPrompt p || position.callFree p)
  | .binary op left right _ =>
    left.keepsOrder p && (op.isShortCircuit ||
      right.keepsOrder p && (left.isPrompt p || right.callFree p))
  | .unary _ operand _ => operand.keepsOrder p
  | .call method args _ =>
    Expr.listKeepsOrder p args && ((p.method? method).isSome || Expr.listCallFree p args)
  | .callStatic _ _ args _ | .create _ args _ => Expr.listKeepsOrder p args
  | .callOn object _ args _ =>
    object.keepsOrder p && Expr.listKeepsOrder p args &&
      (object.isConstant || Expr.listCallFree p args)
  | .array items _ => Expr.listKeepsOrder p items

/-- Whether making the calls of several expressions first keeps the order of evaluation. -/
def Expr.listKeepsOrder (p : Program) : List Expr → Bool
  | [] => true
  | e :: rest =>
    e.keepsOrder p && Expr.listKeepsOrder p rest && (e.isPrompt p || Expr.listCallFree p rest)

end

namespace Engine

variable {p : Program} {call : Caller} {β : Type}

/-- Going on from a value. -/
theorem pure_bind {α β : Type} (a : α) (f : α → Exec β) : ((pure a : Exec α) >>= f) = f a := rfl

/-- A constant is a literal. -/
theorem eq_literal_of_isConstant {e : Expr} (h : e.isConstant = true) :
    ∃ value span, e = .literal value span := by
  cases e with
  | literal value span => exact ⟨value, span, rfl⟩
  | _ => cases h

/-- An operator that is no short circuit evaluates its left operand, then its right one. -/
theorem operate_bind {op : BinaryOp} (h : op.isShortCircuit = false) (left right : Exec Val) :
    operate op left right =
      left >>= fun a => right >>= fun b => apply (Operators.binary · op a b) := by
  cases op <;> first | rfl | cases h

/-- An operator evaluates its left operand first. -/
theorem operate_left (op : BinaryOp) (left right : Exec Val) :
    operate op left right = left >>= fun a => operate op (pure a) right := by
  cases op <;> rfl

mutual

/-- Making the calls first gives the same if it keeps the order. -/
theorem settle_eq_of_keepsOrder :
    ∀ (e : Expr) (g : Val → Exec β), e.keepsOrder p = true →
      settle p false call e (· >>= g) = (eval p call e >>= g)
  | .literal .., g, _ => by simp only [settle]
  | .var .., g, _ => by simp only [settle]
  | .staticProperty .., g, _ => by simp only [settle]
  | .property object name _, g, h => by
    rw [Expr.keepsOrder] at h
    simp only [settle, eval, Exec.bind_assoc]
    exact settle_eq_of_keepsOrder object _ h
  | .index target position _, g, h => by
    simp only [Expr.keepsOrder, Bool.and_eq_true, Bool.or_eq_true] at h
    obtain ⟨⟨ht, hp⟩, hprompt | hfree⟩ := h
    · simp only [settle, settle_eq_of_isPrompt target _ ht hprompt, eval, elementOf,
        Exec.bind_assoc, pure_bind]
      exact Exec.bind_congr fun a => settle_eq_of_keepsOrder position _ hp
    · simp only [settle, settle_eq_of_callFree position _ hfree, eval, elementOf, Exec.bind_assoc]
      exact settle_eq_of_keepsOrder target _ ht
  | .binary op left right _, g, h => by
    simp only [Expr.keepsOrder, Bool.and_eq_true, Bool.or_eq_true] at h
    obtain ⟨hl, h⟩ := h
    rw [eval_binary, operate_left op (eval p call left), Exec.bind_assoc]
    cases hop : op.isShortCircuit with
    | true =>
      simp only [settle, hop, if_true]
      rw [funext fun x => congrArg (· >>= g) (operate_left op x (eval p call right))]
      simp only [Exec.bind_assoc]
      exact settle_eq_of_keepsOrder left _ hl
    | false =>
      obtain ⟨hr, hprompt | hfree⟩ := h.resolve_left (by simp [hop])
      · simp only [settle, hop, Bool.false_eq_true, if_false,
          settle_eq_of_isPrompt left _ hl hprompt, operate_bind hop, pure_bind, Exec.bind_assoc]
        exact Exec.bind_congr fun a => settle_eq_of_keepsOrder right _ hr
      · simp only [settle, hop, Bool.false_eq_true, if_false,
          settle_eq_of_callFree right _ hfree, operate_bind hop, pure_bind, Exec.bind_assoc]
        exact settle_eq_of_keepsOrder left _ hl
  | .unary op operand _, g, h => by
    rw [Expr.keepsOrder] at h
    simp only [settle, eval, Exec.bind_assoc]
    exact settle_eq_of_keepsOrder operand _ h
  | .call method args _, g, h => by
    simp only [Expr.keepsOrder, Bool.and_eq_true, Bool.or_eq_true] at h
    simp only [settle, eval, Program.heeded_false]
    cases hm : p.method? method with
    | none =>
      simp only [hm, Option.isSome_none, Bool.false_eq_true, false_or] at h
      exact settleList_eq_of_callFree _ args _ h.2
    | some callee =>
      cases ha : callee.isAsync with
      | true =>
        simp only [ha, if_true, Exec.bind_assoc]
        exact settleList_eq_of_keepsOrder args _ h.1
      | false =>
        simp only [ha, Bool.false_eq_true, if_false, callOrSpawn, pure_bind, Exec.bind_assoc]
        exact settleList_eq_of_keepsOrder args _ h.1
  | .callStatic _ _ args _, g, h => by
    rw [Expr.keepsOrder] at h
    simp only [settle, eval, Exec.bind_assoc]
    exact settleList_eq_of_keepsOrder args _ h
  | .callOn object method args _, g, h => by
    simp only [Expr.keepsOrder, Bool.and_eq_true, Bool.or_eq_true] at h
    obtain ⟨⟨ho, hargs⟩, hconst | hfree⟩ := h
    · obtain ⟨value, span, rfl⟩ := eq_literal_of_isConstant hconst
      simp only [settle, eval, callOnOf, pure_bind, Exec.bind_assoc]
      exact settleList_eq_of_keepsOrder args _ hargs
    · simp only [settle, settleList_eq_of_callFree _ args _ hfree, evalFor_nil, eval, callOnOf,
        Exec.bind_assoc]
      exact settle_eq_of_keepsOrder object _ ho
  | .create _ args _, g, h => by
    rw [Expr.keepsOrder] at h
    simp only [settle, eval, Exec.bind_assoc]
    exact settleList_eq_of_keepsOrder args _ h
  | .array items _, g, h => by
    rw [Expr.keepsOrder] at h
    simp only [settle, eval, Exec.bind_assoc]
    exact settleList_eq_of_keepsOrder items _ h

/-- Of an expression of which a value is left, the value is all that is handed on. -/
theorem settle_eq_of_isPrompt :
    ∀ (e : Expr) (k : Exec Val → Exec β), e.keepsOrder p = true → e.isPrompt p = true →
      settle p false call e k = (eval p call e >>= fun v => k (pure v))
  | .literal .., k, _, _ => by simp only [settle, eval, pure_bind]
  | .call method args _, k, h, hprompt => by
    rw [Expr.keepsOrder, Bool.and_eq_true] at h
    rw [Expr.isPrompt, Option.any_eq_true] at hprompt
    obtain ⟨callee, hm, ha⟩ := hprompt
    have ha : callee.isAsync = false := by simpa using ha
    simp only [settle, eval, hm, ha, Program.heeded_false, Bool.false_eq_true, if_false,
      callOrSpawn, Exec.bind_assoc]
    exact settleList_eq_of_keepsOrder args _ h.1

/-- Making the calls of a list first gives the same if it keeps the order. -/
theorem settleList_eq_of_keepsOrder :
    ∀ (es : List Expr) (g : List Val → Exec β), Expr.listKeepsOrder p es = true →
      settleList p false call [] es (· >>= g) = (evalList p call es >>= g)
  | [], g, _ => by simp only [settleList, evalList]
  | e :: rest, g, h => by
    simp only [Expr.listKeepsOrder, Bool.and_eq_true, Bool.or_eq_true] at h
    obtain ⟨⟨he, hrest⟩, hprompt | hfree⟩ := h
    · simp only [settleList, settle_eq_of_isPrompt e _ he hprompt, evalList, List.head?_nil,
        List.tail_nil, consFor_none, consOf, Exec.bind_assoc, pure_bind]
      exact Exec.bind_congr fun a => settleList_eq_of_keepsOrder rest _ hrest
    · simp only [settleList, settleList_eq_of_callFree _ rest _ hfree, evalList, List.head?_nil,
        List.tail_nil, evalFor_nil, consFor_none, consOf, Exec.bind_assoc]
      exact settle_eq_of_keepsOrder e _ he

end

/-- The value with calls first is the value, if that keeps the order. -/
theorem settled_eq_of_keepsOrder {e : Expr} (h : e.keepsOrder p = true) :
    settled p false call e = eval p call e := by
  have hstrict : settle p false call e (· >>= fun v => pure v) =
      (eval p call e >>= fun v => pure v) :=
    settle_eq_of_keepsOrder e _ h
  simpa only [settled, Exec.bind_pure] using hstrict

end Engine

end Stepwise
