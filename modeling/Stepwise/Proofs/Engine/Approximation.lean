import Stepwise.Engine.Basic

/-!
# Runs with growing fuel

A family of runs, one for each amount of fuel, approximates the run without
bound: an end that is reached with some fuel is reached with all larger
amounts, and the run without bound ends exactly as some member of the family
does. Every step of execution keeps this relation, so that calls, blocks and
loops may be replaced by their limits wherever a statement uses them.
Runs that wait at the gate are never compared here; only ends count.
-/

namespace Stepwise

namespace Run

variable {α β : Type}

/-- Two runs that end in the same way, if at all. -/
def Same (x y : Run α) : Prop :=
  ∀ w r, x = .done w r ↔ y = .done w r

/-- A run that has ended. -/
def Ends (x : Run α) : Prop := ∃ w r, x = .done w r

/-- The relation is the same seen from either side. -/
theorem Same.symm {x y : Run α} (h : Same x y) : Same y x :=
  fun w r => (h w r).symm

/-- Of two runs that end alike, one ends if the other does. -/
theorem Same.ends_iff {x y : Run α} (h : Same x y) : x.Ends ↔ y.Ends :=
  exists_congr fun w => exists_congr fun r => h w r

/-- A run that goes on has ended just when both of its parts have. -/
theorem andThen_eq_done {x : Run α} {k : World → Except Unwind α → Run β} {w : World}
    {r : Except Unwind β} :
    x.andThen k = .done w r ↔ ∃ w₁ r₁, x = .done w₁ r₁ ∧ k w₁ r₁ = .done w r := by
  constructor
  · intro h
    cases x with
    | done w₁ r₁ => exact ⟨w₁, r₁, rfl, h⟩
    | held w₁ resume => simp [andThen] at h
    | exhausted => simp [andThen] at h
  · rintro ⟨w₁, r₁, rfl, h⟩
    exact h

/-- A family of runs that approximates a run. -/
structure Tends (x : Nat → Run α) (y : Run α) : Prop where
  /-- More fuel keeps an end. -/
  mono : ∀ {n w r}, x n = .done w r → x (n + 1) = .done w r
  /-- The limit ends as some member of the family does. -/
  limit : ∀ {w r}, y = .done w r ↔ ∃ n, x n = .done w r

namespace Tends

variable {x : Nat → Run α} {y : Run α}

/-- An end is kept by every larger amount of fuel. -/
theorem mono_le (h : Tends x y) {n m : Nat} (hnm : n ≤ m) {w : World} {r : Except Unwind α}
    (hx : x n = .done w r) : x m = .done w r := by
  induction hnm with
  | refl => exact hx
  | step _ ih => exact h.mono ih

/-- A run that needs no fuel approximates itself. -/
theorem const (z : Run α) : Tends (fun _ => z) z :=
  ⟨fun h => h, ⟨fun h => ⟨0, h⟩, fun ⟨_, h⟩ => h⟩⟩

/-- The first members of a family do not matter. -/
theorem shift (h : Tends x y) : Tends (fun n => x (n + 1)) y where
  mono := h.mono
  limit := by
    intro w r
    rw [h.limit]
    exact ⟨fun ⟨n, hn⟩ => ⟨n, h.mono hn⟩, fun ⟨n, hn⟩ => ⟨n + 1, hn⟩⟩

/-- Two limits of one family end alike. -/
theorem same {z : Run α} (hy : Tends x y) (hz : Tends x z) : Same y z :=
  fun _ _ => hy.limit.trans hz.limit.symm

/-- Going on keeps the relation. -/
theorem andThen {k : Nat → World → Except Unwind α → Run β} {k' : World → Except Unwind α → Run β}
    (h : Tends x y) (hk : ∀ w r, Tends (fun n => k n w r) (k' w r)) :
    Tends (fun n => (x n).andThen (k n)) (y.andThen k') where
  mono := by
    intro n w r hn
    obtain ⟨w₁, r₁, hx, hn⟩ := andThen_eq_done.mp hn
    exact andThen_eq_done.mpr ⟨w₁, r₁, h.mono hx, (hk w₁ r₁).mono hn⟩
  limit := by
    intro w r
    rw [andThen_eq_done]
    constructor
    · rintro ⟨w₁, r₁, hy, hw⟩
      obtain ⟨n, hn⟩ := h.limit.mp hy
      obtain ⟨m, hm⟩ := (hk w₁ r₁).limit.mp hw
      refine ⟨max n m, andThen_eq_done.mpr ⟨w₁, r₁, ?_, ?_⟩⟩
      · exact h.mono_le (Nat.le_max_left n m) hn
      · exact (hk w₁ r₁).mono_le (Nat.le_max_right n m) hm
    · rintro ⟨n, hn⟩
      obtain ⟨w₁, r₁, hx, hn⟩ := andThen_eq_done.mp hn
      exact ⟨w₁, r₁, h.limit.mpr ⟨n, hx⟩, (hk w₁ r₁).limit.mpr ⟨n, hn⟩⟩

end Tends

open Classical in
/-- The limit of a family: the end that some member reaches, if there is one. -/
noncomputable def lim (x : Nat → Run α) : Run α :=
  if h : ∃ n, (x n).Ends then x h.choose else .exhausted

/-- A family that keeps its ends approximates its limit. -/
theorem tends_lim {x : Nat → Run α} (h : ∀ {n w r}, x n = .done w r → x (n + 1) = .done w r) :
    Tends x (lim x) where
  mono := h
  limit := by
    intro w r
    have hle : ∀ {n m w r}, n ≤ m → x n = .done w r → x m = .done w r := by
      intro n m w r hnm hx
      induction hnm with
      | refl => exact hx
      | step _ ih => exact h ih
    constructor
    · intro hl
      unfold lim at hl
      split at hl
      · exact ⟨_, hl⟩
      · simp at hl
    · rintro ⟨n, hn⟩
      have he : ∃ n, (x n).Ends := ⟨n, w, r, hn⟩
      obtain ⟨w', r', hc⟩ := he.choose_spec
      have h₁ := hle (Nat.le_max_left n he.choose) hn
      have h₂ := hle (Nat.le_max_right n he.choose) hc
      rw [lim, dif_pos he, hc, ← h₂, h₁]

/-- A relation between families of runs and runs that execution keeps. What
follows a run hands on that the session was stopped. -/
structure Comparison where
  /-- How a family stands to a run. -/
  rel : ∀ {α : Type}, (Nat → Run α) → Run α → Prop
  /-- A run stands so to itself. -/
  const : ∀ {α : Type} (z : Run α), rel (fun _ => z) z
  /-- Going on keeps the relation. -/
  andThen : ∀ {α β : Type} {x : Nat → Run α} {y : Run α}
    {k : Nat → World → Except Unwind α → Run β} {k' : World → Except Unwind α → Run β}, rel x y →
    (∀ w r, rel (fun n => k n w r) (k' w r)) →
    (∀ n w, ∃ w', k n w (.error .cancelled) = .done w' (.error .cancelled)) →
    rel (fun n => (x n).andThen (k n)) (y.andThen k')

/-- Approximation by more and more fuel. -/
def byFuel : Comparison where
  rel := Tends
  const := .const
  andThen := fun h hk _ => h.andThen hk

/-- Every end is an end of the other run. The ends of a stopped session can be
left out. -/
def byEnds (unlessStopped : Prop) : Comparison where
  rel := fun x y => ∀ n w r, x n = .done w r →
    (unlessStopped ∧ r = .error .cancelled) ∨ y = .done w r
  const := fun _ _ _ _ h => .inr h
  andThen := by
    intro α β x y k k' h hk hc n w r hn
    obtain ⟨w₁, r₁, hx, hn⟩ := andThen_eq_done.mp hn
    rcases h n w₁ r₁ hx with ⟨hu, rfl⟩ | hy
    · obtain ⟨w', hw'⟩ := hc n w₁
      rw [hw'] at hn
      cases hn
      exact .inl ⟨hu, rfl⟩
    · exact (hk w₁ r₁ n w r hn).imp id fun hk' => andThen_eq_done.mpr ⟨w₁, r₁, hy, hk'⟩

/-- A family in which every end is an end of the next member approximates its limit. -/
theorem byEnds_lim {x : Nat → Run α} (h : ∀ n, (byEnds False).rel (fun _ => x n) (x (n + 1))) :
    Tends x (lim x) :=
  tends_lim fun {n w r} hx => (h n 0 w r hx).resolve_left fun hs => hs.1

end Run

namespace Exec

variable {α β : Type}

/-- What follows a step that has ended with a value. -/
theorem bind_of_ok {x : Exec α} {f : α → Exec β} {w w' : World} {a : α}
    (h : x w = .done w' (.ok a)) : (x >>= f) w = f a w' := by
  show (x w).andThen _ = _
  rw [h]
  rfl

/-- Nothing follows a step that has ended early. -/
theorem bind_of_error {x : Exec α} {f : α → Exec β} {w w' : World} {u : Unwind}
    (h : x w = .done w' (.error u)) : (x >>= f) w = .done w' (.error u) := by
  show (x w).andThen _ = _
  rw [h]
  rfl

/-- Two steps in a row have ended just when the first has ended early, or both have ended. -/
theorem bind_eq_done {x : Exec α} {f : α → Exec β} {w w' : World} {r : Except Unwind β} :
    (x >>= f) w = .done w' r ↔
      (∃ w₁ a, x w = .done w₁ (.ok a) ∧ f a w₁ = .done w' r) ∨
      (∃ u, x w = .done w' (.error u) ∧ r = .error u) := by
  constructor
  · intro h
    obtain ⟨w₁, r₁, h₁, h₂⟩ := Run.andThen_eq_done.mp h
    cases r₁ with
    | ok a => exact .inl ⟨w₁, a, h₁, h₂⟩
    | error u =>
      cases h₂
      exact .inr ⟨u, h₁, rfl⟩
  · rintro (⟨w₁, a, h₁, h₂⟩ | ⟨u, h₁, rfl⟩)
    · rw [bind_of_ok h₁, h₂]
    · exact bind_of_error h₁

/-- Two steps that agree and go on in the same way agree. -/
theorem bind_congr {x : Exec α} {f g : α → Exec β} (h : ∀ a, f a = g a) :
    (x >>= f) = (x >>= g) := by
  rw [funext h]

/-- Going on twice is going on once with both. -/
theorem bind_assoc {γ : Type} (x : Exec α) (f : α → Exec β) (g : β → Exec γ) :
    ((x >>= f) >>= g) = (x >>= fun a => f a >>= g) := by
  funext w
  show ((x w).andThen _).andThen _ = (x w).andThen _
  rw [Run.andThen_assoc]
  congr 1
  funext w r
  cases r <;> rfl

/-- Going on with nothing but the value is not going on. -/
theorem bind_pure (x : Exec α) : (x >>= fun a => pure a) = x := by
  funext w
  refine Eq.trans ?_ (Run.andThen_done (x w))
  show (x w).andThen _ = (x w).andThen _
  congr 1
  funext w r
  cases r <;> rfl

/-- A family of steps that approximates a step in every world. -/
def Tends (x : Nat → Exec α) (y : Exec α) : Prop :=
  ∀ w, Run.Tends (fun n => x n w) (y w)

/-- A family of steps that compares well with a step in every world. -/
def Compared (C : Run.Comparison) (x : Nat → Exec α) (y : Exec α) : Prop :=
  ∀ w, C.rel (fun n => x n w) (y w)

namespace Compared

variable {C : Run.Comparison} {x : Nat → Exec α} {y : Exec α}

/-- A step that needs no fuel compares well with itself. -/
theorem const (z : Exec α) : Compared C (fun _ => z) z :=
  fun w => C.const (z w)

/-- Going on with the value of a step keeps the relation. -/
theorem bind {f : Nat → α → Exec β} {g : α → Exec β} (h : Compared C x y)
    (hf : ∀ a, Compared C (fun n => f n a) (g a)) :
    Compared C (fun n => x n >>= f n) (y >>= g) := by
  intro w
  refine C.andThen (h w) (fun w r => ?_) fun _ w => ⟨w, rfl⟩
  cases r with
  | ok a => exact hf a w
  | error u => exact C.const _

/-- Closing what a step has opened keeps the relation. -/
theorem finishing (h : Compared C x y) (f : World → World) :
    Compared C (fun n => (x n).finishing f) (y.finishing f) :=
  fun w => C.andThen (h w) (fun _ _ => C.const _) fun _ w => ⟨f w, rfl⟩

/-- Handling failures keeps the relation. -/
theorem onFailure {f : Nat → Failure → Exec α} {g : Failure → Exec α} (h : Compared C x y)
    (hf : ∀ a, Compared C (fun n => f n a) (g a)) :
    Compared C (fun n => (x n).onFailure (f n)) (y.onFailure g) := by
  intro w
  refine C.andThen (h w) (fun w r => ?_) fun _ w => ⟨w, rfl⟩
  rcases r with (f | _) | a
  · exact hf f w
  · exact C.const _
  · exact C.const _

end Compared

end Exec

namespace Engine

/-- A family of ways to call methods that compares well with one. -/
def CallerCompared (C : Run.Comparison) (call : Nat → Caller) (call' : Caller) : Prop :=
  ∀ m args, Exec.Compared C (fun n => call n m args) (call' m args)

section Expressions

variable {C : Run.Comparison} {p : Program} {call : Nat → Caller} {call' : Caller}

/-- Calling or starting a method keeps the relation. -/
theorem callOrSpawn_compared (h : CallerCompared C call call') (m : Method) (args : List Val) :
    Exec.Compared C (fun n => callOrSpawn (call n) m args) (callOrSpawn call' m args) := by
  unfold callOrSpawn
  split
  · exact .const _
  · exact h m args

mutual

/-- The value of an expression compares well if the calls in it are. -/
theorem eval_compared (h : CallerCompared C call call') :
    ∀ e, Exec.Compared C (fun n => eval p (call n) e) (eval p call' e)
  | .literal .. => by simp only [eval]; exact .const _
  | .var .. => by simp only [eval]; exact .const _
  | .staticProperty .. => by simp only [eval]; exact .const _
  | .property object _ _ => by
    simp only [eval]
    exact (eval_compared h object).bind fun _ => .const _
  | .index target position _ => by
    simp only [eval]
    exact (eval_compared h target).bind fun _ => (eval_compared h position).bind fun _ => .const _
  | .unary _ operand _ => by
    simp only [eval]
    exact (eval_compared h operand).bind fun _ => .const _
  | .call method args _ => by
    simp only [eval]
    cases p.method? method with
    | none => exact .const _
    | some callee =>
      exact (evalList_compared h args).bind fun vs => callOrSpawn_compared h callee vs
  | .callStatic _ _ args _ => by
    simp only [eval]
    exact (evalList_compared h args).bind fun _ => .const _
  | .callOn object _ args _ => by
    simp only [eval]
    exact (eval_compared h object).bind fun _ => (evalList_compared h args).bind fun _ => .const _
  | .create _ args _ => by
    simp only [eval]
    exact (evalList_compared h args).bind fun _ => .const _
  | .array items _ => by
    simp only [eval]
    exact (evalList_compared h items).bind fun _ => .const _
  | .binary op left right _ => by
    have hl := eval_compared h left
    have hr := eval_compared h right
    cases op
    case and =>
      simp only [eval]
      refine hl.bind fun _ => (Exec.Compared.const _).bind fun b => ?_
      cases b
      · exact .const _
      · exact hr.bind fun _ => .const _
    case or =>
      simp only [eval]
      refine hl.bind fun _ => (Exec.Compared.const _).bind fun b => ?_
      cases b
      · exact hr.bind fun _ => .const _
      · exact .const _
    all_goals
      simp only [eval]
      exact hl.bind fun _ => hr.bind fun _ => .const _

/-- The values of expressions compare well if the calls in them are. -/
theorem evalList_compared (h : CallerCompared C call call') :
    ∀ es, Exec.Compared C (fun n => evalList p (call n) es) (evalList p call' es)
  | [] => by simp only [evalList]; exact .const _
  | e :: rest => by
    simp only [evalList]
    exact (eval_compared h e).bind fun _ => (evalList_compared h rest).bind fun _ => .const _

end

/-- The truth of a condition compares well if the calls in it are. -/
theorem evalCondition_compared (h : CallerCompared C call call') (e : Expr) :
    Exec.Compared C (fun n => evalCondition p (call n) e) (evalCondition p call' e) :=
  (eval_compared h e).bind fun _ => .const _

/-- An optional value compares well if the calls in it are. -/
theorem evalOption_compared (h : CallerCompared C call call') :
    ∀ e, Exec.Compared C (fun n => evalOption p (call n) e) (evalOption p call' e)
  | some e => eval_compared h e
  | none => .const _

/-- Storing a value compares well if the calls on the way are. -/
theorem assign_compared (h : CallerCompared C call call') (target : Expr) (value : Val) :
    Exec.Compared C (fun n => assign p (call n) target value) (assign p call' target value) := by
  unfold assign
  split
  · exact .const _
  · exact (eval_compared h _).bind fun _ => (eval_compared h _).bind fun _ => .const _
  · exact .const _
  · exact (eval_compared h _).bind fun _ => .const _
  · exact .const _

end Expressions

/-- A family of ways to run the parts of statements that compares well with one. -/
structure CalleesCompared (C : Run.Comparison) (c : Nat → Callees) (c' : Callees) : Prop where
  /-- Calls compare well. -/
  call : CallerCompared C (fun n => (c n).call) c'.call
  /-- Blocks compare well. -/
  block : ∀ b l, Exec.Compared C (fun n => (c n).block b l) (c'.block b l)
  /-- Loops compare well. -/
  loop : ∀ k t b, Exec.Compared C (fun n => (c n).loop k t b) (c'.loop k t b)

section Statements

variable {C : Run.Comparison} {p : Program} {c : Nat → Callees} {c' : Callees}

/-- A scope around a step keeps the relation. -/
theorem nested_compared {x : Nat → Exec Flow} {y : Exec Flow} (h : Exec.Compared C x y) :
    Exec.Compared C (fun n => nested (x n)) (nested y) :=
  fun w => (h.finishing _) w.pushScope

/-- Handlers compare well if their parts are. -/
theorem runHandler_compared (h : CalleesCompared C c c') (catchVar : Option String)
    (handler : Block) (inLoop : Bool) (f : Failure) :
    Exec.Compared C (fun n => runHandler (c n) catchVar handler inLoop f)
      (runHandler c' catchVar handler inLoop f) :=
  fun w => ((Exec.Compared.const _).bind fun _ => (h.block handler inLoop).finishing _) w.pushScope

/-- What a statement does compares well if its parts are. -/
theorem execute_compared (h : CalleesCompared C c c') (inLoop : Bool) (stmt : Stmt) :
    Exec.Compared C (fun n => execute p (c n) inLoop stmt) (execute p c' inLoop stmt) := by
  cases stmt with
  | declare => exact (evalOption_compared h.call _).bind fun _ => .const _
  | assign =>
    exact (eval_compared h.call _).bind fun _ => (assign_compared h.call _ _).bind fun _ => .const _
  | cond test yes no =>
    refine (evalCondition_compared h.call test).bind fun b => ?_
    cases b with
    | true => exact nested_compared (h.block yes inLoop)
    | false =>
      cases no with
      | some no => exact nested_compared (h.block no inLoop)
      | none => exact .const _
  | branch test => exact (evalCondition_compared h.call test).bind fun _ => .const _
  | loop kind test body => exact h.loop kind test body
  | ret => exact (evalOption_compared h.call _).bind fun _ => .const _
  | brk => exact .const _
  | throw => exact (eval_compared h.call _).bind fun _ => .const _
  | attempt body catchVar handler =>
    exact (nested_compared (h.block body inLoop)).onFailure
      fun f => runHandler_compared h catchVar handler inLoop f
  | eval => exact (eval_compared h.call _).bind fun _ => .const _
  | label => exact .const _
  | goto => exact .const _

/-- Nothing happens in a session that was stopped. -/
def unlessCancelled {α : Type} (x : Exec α) : Exec α := fun w =>
  if w.controls.gate.cancelled then .done w (.error .cancelled) else x w

/-- A round of a loop that tests first. -/
theorem loopRound_testFirst (p : Program) (c : Callees) (test : Expr) (body : Block) :
    loopRound p c .testFirst test body = unlessCancelled (do
      if ← evalCondition p c.call test then
        pure (loopEnd (← nested (c.block body true)))
      else pure (some .next)) := by
  funext w
  unfold loopRound unlessCancelled
  rw [Exec.bind_of_ok (x := Exec.read _) rfl]
  split
  · rfl
  · refine congrFun (Exec.bind_congr fun goes => ?_) w
    cases goes with
    | false => rfl
    | true =>
      refine Exec.bind_congr fun flow => ?_
      cases flow <;> rfl

/-- A round of a loop that tests last. -/
theorem loopRound_testLast (p : Program) (c : Callees) (test : Expr) (body : Block) :
    loopRound p c .testLast test body = unlessCancelled (do
      match loopEnd (← nested (c.block body true)) with
      | some flow => pure (some flow)
      | none => do
        if ← evalCondition p c.call test then pure none else pure (some .next)) := by
  funext w
  unfold loopRound unlessCancelled
  rw [Exec.bind_of_ok (x := Exec.read _) rfl]
  split
  · rfl
  · rfl

/-- A round of a loop compares well if its parts are. -/
theorem loopRound_compared (h : CalleesCompared C c c') (kind : LoopKind) (test : Expr)
    (body : Block) :
    Exec.Compared C (fun n => loopRound p (c n) kind test body)
      (loopRound p c' kind test body) := by
  have hbody := nested_compared (h.block body true)
  have htest := evalCondition_compared (p := p) h.call test
  have hguard : ∀ {x : Nat → Exec (Option Flow)} {y}, Exec.Compared C x y →
      Exec.Compared C (fun n => unlessCancelled (x n)) (unlessCancelled y) := by
    intro x y hx w
    by_cases hc : w.controls.gate.cancelled = true
    · simp only [unlessCancelled, hc, if_true]
      exact C.const _
    · simp only [unlessCancelled, hc]
      exact hx w
  cases kind with
  | testFirst =>
    simp only [loopRound_testFirst]
    refine hguard (htest.bind fun goes => ?_)
    cases goes with
    | false => exact .const _
    | true => exact hbody.bind fun _ => .const _
  | testLast =>
    simp only [loopRound_testLast]
    refine hguard (hbody.bind fun flow => ?_)
    cases loopEnd flow with
    | some flow => exact .const _
    | none => exact htest.bind fun _ => .const _

end Statements

end Engine

end Stepwise
