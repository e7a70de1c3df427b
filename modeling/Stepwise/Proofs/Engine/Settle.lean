import Stepwise.Proofs.Engine.Limit
import Stepwise.Proofs.Program.Scoping

/-!
# Calls first

A second order of evaluation: the synchronous calls of an expression are
made first, in the order in which they stand, and only then is the rest of
the expression evaluated, with the results of the calls in their places. The
right operand of a short-circuit operator is not touched before its turn,
nor are the calls in it. An expression without calls has the same value in
both orders.
-/

namespace Stepwise.Engine

/-- The value of a binary operator, given how its operands are evaluated. -/
def operate (op : BinaryOp) (left right : Exec Val) : Exec Val :=
  match op with
  | .and => do
    if ← Exec.lift (Operators.condition (← left)) then
      pure (.bool (← Exec.lift (Operators.condition (← right))))
    else pure (.bool false)
  | .or => do
    if ← Exec.lift (Operators.condition (← left)) then pure (.bool true)
    else pure (.bool (← Exec.lift (Operators.condition (← right))))
  | op => do
    let left ← left
    let right ← right
    apply (Operators.binary · op left right)

/-- Evaluating a binary operator. -/
theorem eval_binary (p : Program) (call : Caller) (op : BinaryOp) (left right : Expr) (s : Span) :
    eval p call (.binary op left right s) = operate op (eval p call left) (eval p call right) := by
  cases op <;> simp only [eval, operate]

/-- The value of an element, given how container and position are evaluated. -/
def elementOf (target position : Exec Val) : Exec Val := do
  let target ← target
  let position ← position
  apply (Operators.element · target position)

/-- A call on an object, given how object and arguments are evaluated. -/
def callOnOf (object : Exec Val) (method : String) (args : Exec (List Val)) : Exec Val := do
  let object ← object
  onHost (.invoke (.value object) method (← args))

mutual

/-- Make the synchronous calls of an expression, which may be wary, then hand on
what is left of it. -/
def settle (p : Program) (wary : Bool) (call : Caller) {β : Type} :
    Expr → (Exec Val → Exec β) → Exec β
  | .literal value span, k => k (eval p call (.literal value span))
  | .var name isGlobal span, k => k (eval p call (.var name isGlobal span))
  | .staticProperty typeName name span, k => k (eval p call (.staticProperty typeName name span))
  | .property object name _, k =>
    settle p wary call object fun object => k do readProperty (.value (← object)) name
  | .index target position _, k =>
    settle p wary call target fun target =>
      settle p wary call position fun position => k (elementOf target position)
  | .binary op left right _, k =>
    settle p wary call left fun left =>
      if op.isShortCircuit then k (operate op left (eval p call right))
      else settle p wary call right fun right => k (operate op left right)
  | .unary op operand _, k =>
    settle p wary call operand fun operand => k do Exec.lift (Operators.unary op (← operand))
  | .call method args _, k =>
    settleList p wary call (p.heeded wary method) args fun args =>
      match p.method? method with
      | none => k (Exec.fail (.methodMissing method))
      | some callee =>
        if callee.isAsync then k do callOrSpawn call callee (← args)
        else do
          let values ← args
          let value ← call callee values
          k (pure value)
  | .callStatic typeName method args _, k =>
    settleList p wary call [] args fun args => k do
      onHost (.invoke (.type typeName) method (← args))
  | .callOn object method args _, k =>
    settleList p wary call [] args fun args =>
      settle p wary call object fun object => k (callOnOf object method args)
  | .create typeName args _, k =>
    settleList p wary call [] args fun args => k do
      let args ← args
      onHost (.construct typeName args)
  | .array items _, k =>
    settleList p wary call [] items fun items => k do newArray (← items)

/-- Make the synchronous calls of expressions, then hand on what is left of them,
given the parameters that are heeded. -/
def settleList (p : Program) (wary : Bool) (call : Caller) {β : Type} :
    List Param → List Expr → (Exec (List Val) → Exec β) → Exec β
  | _, [], k => k (pure [])
  | params, e :: rest, k =>
    settle p wary call e fun first =>
      settleList p wary call params.tail rest fun rest => k (consFor params.head? first rest)

end

/-- The value of an expression when its synchronous calls are made first. -/
def settled (p : Program) (wary : Bool) (call : Caller) (e : Expr) : Exec Val :=
  settle p wary call e fun rest => rest

section Approximation

variable {C : Run.Comparison} {p : Program} {call : Nat → Caller} {call' : Caller} {β : Type}

/-- A binary operator compares well if its operands are. -/
theorem operate_compared {a b : Nat → Exec Val} {a' b' : Exec Val} (op : BinaryOp)
    (ha : Exec.Compared C a a') (hb : Exec.Compared C b b') :
    Exec.Compared C (fun n => operate op (a n) (b n)) (operate op a' b') := by
  cases op
  case and =>
    refine ha.bind fun _ => (Exec.Compared.const _).bind fun t => ?_
    cases t
    · exact .const _
    · exact hb.bind fun _ => .const _
  case or =>
    refine ha.bind fun _ => (Exec.Compared.const _).bind fun t => ?_
    cases t
    · exact hb.bind fun _ => .const _
    · exact .const _
  all_goals exact ha.bind fun _ => hb.bind fun _ => .const _

/-- One way to go on compares well with others, whatever it goes on with. -/
def ContinuesCompared (C : Run.Comparison) {α : Type} (k : Nat → Exec α → Exec β)
    (k' : Exec α → Exec β) : Prop :=
  ∀ a a', Exec.Compared C a a' → Exec.Compared C (fun n => k n (a n)) (k' a')

mutual

/-- Settling compares well if calls and the way on are. -/
theorem settle_compared (wary : Bool) (h : CallerCompared C call call') :
    ∀ (e : Expr) {k : Nat → Exec Val → Exec β} {k' : Exec Val → Exec β}, ContinuesCompared C k k' →
      Exec.Compared C (fun n => settle p wary (call n) e (k n)) (settle p wary call' e k')
  | .literal .., k, k', hk => by
    simp only [settle]
    exact hk _ _ (eval_compared h _)
  | .var .., k, k', hk => by
    simp only [settle]
    exact hk _ _ (eval_compared h _)
  | .staticProperty .., k, k', hk => by
    simp only [settle]
    exact hk _ _ (eval_compared h _)
  | .property object _ _, k, k', hk => by
    simp only [settle]
    exact settle_compared wary h object fun a a' ha => hk _ _ (ha.bind fun _ => .const _)
  | .index target position _, k, k', hk => by
    simp only [settle]
    refine settle_compared wary h target fun a a' ha =>
      settle_compared wary h position fun b b' hb => hk _ _ ?_
    exact ha.bind fun _ => hb.bind fun _ => .const _
  | .binary op left right _, k, k', hk => by
    simp only [settle]
    refine settle_compared wary h left fun a a' ha => ?_
    split
    · exact hk _ _ (operate_compared op ha (eval_compared h right))
    · exact settle_compared wary h right fun b b' hb => hk _ _ (operate_compared op ha hb)
  | .unary _ operand _, k, k', hk => by
    simp only [settle]
    exact settle_compared wary h operand fun a a' ha => hk _ _ (ha.bind fun _ => .const _)
  | .call method args _, k, k', hk => by
    simp only [settle]
    refine settleList_compared wary h _ args fun as as' has => ?_
    cases p.method? method with
    | none => exact hk _ _ (.const _)
    | some callee =>
      dsimp only
      split
      · exact hk _ _ (has.bind fun vs => callOrSpawn_compared h callee vs)
      · exact has.bind fun vs => (h callee vs).bind fun v => hk (fun _ => pure v) _ (.const _)
  | .callStatic _ _ args _, k, k', hk => by
    simp only [settle]
    exact settleList_compared wary h _ args fun as as' has => hk _ _ (has.bind fun _ => .const _)
  | .callOn object _ args _, k, k', hk => by
    simp only [settle]
    refine settleList_compared wary h _ args fun as as' has =>
      settle_compared wary h object fun a a' ha => hk _ _ ?_
    exact ha.bind fun _ => has.bind fun _ => .const _
  | .create _ args _, k, k', hk => by
    simp only [settle]
    exact settleList_compared wary h _ args fun as as' has => hk _ _ (has.bind fun _ => .const _)
  | .array items _, k, k', hk => by
    simp only [settle]
    exact settleList_compared wary h _ items fun as as' has => hk _ _ (has.bind fun _ => .const _)

/-- Settling a list compares well if calls and the way on are. -/
theorem settleList_compared (wary : Bool) (h : CallerCompared C call call') :
    ∀ (params : List Param) (es : List Expr) {k : Nat → Exec (List Val) → Exec β}
      {k' : Exec (List Val) → Exec β}, ContinuesCompared C k k' →
      Exec.Compared C (fun n => settleList p wary (call n) params es (k n))
        (settleList p wary call' params es k')
  | _, [], k, k', hk => by
    simp only [settleList]
    exact hk _ _ (.const _)
  | params, e :: rest, k, k', hk => by
    simp only [settleList]
    refine settle_compared wary h e fun a a' ha =>
      settleList_compared wary h _ rest fun as as' has => hk _ _ ?_
    exact consFor_compared params.head? ha has

end

/-- The value with calls first compares well if calls are. -/
theorem settled_compared (wary : Bool) (h : CallerCompared C call call') (e : Expr) :
    Exec.Compared C (fun n => settled p wary (call n) e) (settled p wary call' e) :=
  settle_compared wary h e fun _ _ ha => ha

end Approximation

section CallFree

variable {p : Program} {wary : Bool} {call : Caller} {β : Type}

mutual

/-- Without synchronous calls nothing is made first. -/
theorem settle_eq_of_callFree :
    ∀ (e : Expr) (k : Exec Val → Exec β), e.callFree p = true →
      settle p wary call e k = k (eval p call e)
  | .literal .., k, _ => by simp only [settle]
  | .var .., k, _ => by simp only [settle]
  | .staticProperty .., k, _ => by simp only [settle]
  | .property object _ _, k, h => by
    rw [Expr.callFree] at h
    simp only [settle, settle_eq_of_callFree object _ h, eval]
  | .index target position _, k, h => by
    rw [Expr.callFree, Bool.and_eq_true] at h
    simp only [settle, settle_eq_of_callFree target _ h.1, settle_eq_of_callFree position _ h.2,
      eval, elementOf]
  | .binary op left right _, k, h => by
    rw [Expr.callFree, Bool.and_eq_true] at h
    simp only [settle, settle_eq_of_callFree left _ h.1, settle_eq_of_callFree right _ h.2,
      eval_binary, ite_self]
  | .unary _ operand _, k, h => by
    rw [Expr.callFree] at h
    simp only [settle, settle_eq_of_callFree operand _ h, eval]
  | .call method args _, k, h => by
    rw [Expr.callFree, Bool.and_eq_true] at h
    simp only [settle, settleList_eq_of_callFree _ args _ h.2, eval]
    cases hm : p.method? method with
    | none => rfl
    | some callee =>
      have hasync : callee.isAsync = true := by simpa [hm] using h.1
      have hheeded : p.heeded wary method = [] := by simp [Program.heeded, hm, hasync]
      simp only [hasync, hheeded, evalFor_nil, if_true]
  | .callStatic _ _ args _, k, h => by
    rw [Expr.callFree] at h
    simp only [settle, settleList_eq_of_callFree _ args _ h, evalFor_nil, eval]
  | .callOn object _ args _, k, h => by
    rw [Expr.callFree, Bool.and_eq_true] at h
    simp only [settle, settleList_eq_of_callFree _ args _ h.2, settle_eq_of_callFree object _ h.1,
      evalFor_nil, eval, callOnOf]
  | .create _ args _, k, h => by
    rw [Expr.callFree] at h
    simp only [settle, settleList_eq_of_callFree _ args _ h, evalFor_nil, eval]
  | .array items _, k, h => by
    rw [Expr.callFree] at h
    simp only [settle, settleList_eq_of_callFree _ items _ h, evalFor_nil, eval]

/-- Without synchronous calls in any of the expressions nothing is made first. -/
theorem settleList_eq_of_callFree :
    ∀ (params : List Param) (es : List Expr) (k : Exec (List Val) → Exec β),
      Expr.listCallFree p es = true →
      settleList p wary call params es k = k (evalFor p call params es)
  | _, [], k, _ => by simp only [settleList, evalFor]
  | params, e :: rest, k, h => by
    rw [Expr.listCallFree, Bool.and_eq_true] at h
    simp only [settleList, settle_eq_of_callFree e _ h.1, settleList_eq_of_callFree _ rest _ h.2,
      evalFor]

end

/-- Without synchronous calls, the value with calls first is the value. -/
theorem settled_eq_of_callFree {e : Expr} (h : e.callFree p = true) :
    settled p wary call e = eval p call e :=
  settle_eq_of_callFree e _ h

end CallFree

/-- The engine on which returned expressions make their calls first and some
kinds of failure are fatal. Its calls may be wary. -/
def Machine.callsFirst (code : Code) (fatal : FaultKind → Bool) (wary : Bool := false) :
    Machine where
  code := code
  wary := wary
  returned := settled code.program wary
  fatal := fatal
  smooth := fun h e => settled_compared wary h e

end Stepwise.Engine
