import Stepwise.Proofs.Engine.Wary

/-!
# Machines

The engine with three of its parts left open: how the value of a returned
expression is found, whether calls are wary, and which kinds of failure stop
the machine for good instead of going to a handler. With plain evaluation, no
wary calls and no fatal kinds the machine is the engine. The limit of a machine
is what it does with fuel enough; it satisfies the equations of the engine
without any fuel in them.
-/

namespace Stepwise

open Engine

namespace Exec

variable {σ β : Type}

/-- Go on with another state, or end with a value. -/
def goOn (next : σ → Exec β) : σ ⊕ β → Exec β
  | .inl s => next s
  | .inr b => pure b

/-- Repeat a step that tells where to go on, with so much fuel. -/
def iterate (step : σ → Exec (σ ⊕ β)) : Nat → σ → Exec β
  | 0, _ => fun _ => .exhausted
  | n + 1, s => step s >>= goOn (iterate step n)

/-- With more fuel an iteration ends as before. -/
theorem iterate_mono {step : σ → Exec (σ ⊕ β)} {n : Nat} {s : σ} {w w' : World}
    {r : Except Unwind β} (h : iterate step n s w = .done w' r) :
    iterate step (n + 1) s w = .done w' r := by
  induction n generalizing s w with
  | zero => simp [iterate] at h
  | succ n ih =>
    obtain ⟨w₁, next, h₁, h₂⟩ | ⟨u, h₁, rfl⟩ := bind_eq_done.mp h
    · refine bind_eq_done.mpr (.inl ⟨w₁, next, h₁, ?_⟩)
      cases next with
      | inl s' => exact ih h₂
      | inr b => exact h₂
    · exact bind_of_error h₁

/-- An iteration of approximating steps and the iteration of the limit of the
steps have the same limit. -/
theorem iterate_tends {step : Nat → σ → Exec (σ ⊕ β)} {step' : σ → Exec (σ ⊕ β)}
    {x : Nat → σ → Exec β} {y : σ → Exec β}
    (hstep : ∀ s, Tends (fun n => step n s) (step' s)) (hx : ∀ s, Tends (fun n => x n s) (y s))
    (zero : ∀ s w, x 0 s w = .exhausted)
    (succ : ∀ n s, x (n + 1) s = (step n s >>= goOn (x n))) (s : σ) :
    Tends (fun n => iterate step' n s) (y s) := by
  have under : ∀ n s w w' r, x n s w = .done w' r → iterate step' n s w = .done w' r := by
    intro n
    induction n with
    | zero => intro s w w' r h; simp [zero] at h
    | succ n ih =>
      intro s w w' r h
      rw [succ] at h
      obtain ⟨w₁, next, h₁, h₂⟩ | ⟨u, h₁, rfl⟩ := bind_eq_done.mp h
      · have h₁ := (hstep s w).limit.mpr ⟨n, h₁⟩
        refine bind_eq_done.mpr (.inl ⟨w₁, next, h₁, ?_⟩)
        cases next with
        | inl s' => exact ih s' w₁ w' r h₂
        | inr b => exact h₂
      · exact bind_of_error ((hstep s w).limit.mpr ⟨n, h₁⟩)
  have beyond : ∀ n s w w' r, iterate step' n s w = .done w' r → ∃ m, x m s w = .done w' r := by
    intro n
    induction n with
    | zero => intro s w w' r h; simp [iterate] at h
    | succ n ih =>
      intro s w w' r h
      obtain ⟨w₁, next, h₁, h₂⟩ | ⟨u, h₁, rfl⟩ := bind_eq_done.mp h
      · obtain ⟨a, ha⟩ := (hstep s w).limit.mp h₁
        cases next with
        | inl s' =>
          obtain ⟨m, hm⟩ := ih s' w₁ w' r h₂
          refine ⟨max a m + 1, ?_⟩
          rw [succ]
          refine bind_eq_done.mpr (.inl ⟨w₁, .inl s', ?_, ?_⟩)
          · exact (hstep s w).mono_le (Nat.le_max_left a m) ha
          · exact (hx s' w₁).mono_le (Nat.le_max_right a m) hm
        | inr b =>
          refine ⟨a + 1, ?_⟩
          rw [succ]
          exact bind_eq_done.mpr (.inl ⟨w₁, .inr b, ha, h₂⟩)
      · obtain ⟨a, ha⟩ := (hstep s w).limit.mp h₁
        refine ⟨a + 1, ?_⟩
        rw [succ]
        exact bind_of_error ha
  intro w
  refine ⟨iterate_mono, ?_⟩
  intro w' r
  rw [(hx s w).limit]
  exact ⟨fun ⟨n, hn⟩ => ⟨n, under n s w w' r hn⟩, fun ⟨n, hn⟩ => beyond n s w w' r hn⟩

/-- Let failures of the fatal kinds stop the machine. -/
def stopOn {α : Type} (fatal : FaultKind → Bool) (x : Exec α) : Exec α := fun w =>
  (x w).andThen fun w r =>
    match r with
    | .error (.failed f) =>
      if fatal f.fault.kind then .done w (.error .cancelled) else .done w (.error (.failed f))
    | r => .done w r

/-- If no kind is fatal, nothing is stopped. -/
theorem stopOn_none {α : Type} (x : Exec α) : stopOn (fun _ => false) x = x := by
  funext w
  have h : ∀ w (r : Except Unwind α), (match r with
      | .error (.failed f) =>
        if (fun _ : FaultKind => false) f.fault.kind then Run.done w (.error .cancelled)
        else .done w (.error (.failed f))
      | r => .done w r) = .done w r := by
    intro w r
    rcases r with (f | _) | a <;> rfl
  show (x w).andThen _ = x w
  rw [funext fun w => funext fun r => h w r]
  exact Run.andThen_done (x w)

end Exec

namespace Engine

/-- A statement on its way, given what it does. -/
def around (stmt : Stmt) (body : Exec Flow) : Exec Flow := do
  enter stmt
  checkpoint stmt
  Exec.change (·.observe true stmt)
  let flow ← body.onFailure (locate stmt)
  Exec.change (·.observe false stmt)
  pure flow

/-- A call, given how blocks are run. -/
def callBy (code : Code) (block : Block → Bool → Exec Flow) (m : Method) (args : List Val) :
    Exec Val := fun w =>
  if code.limits.maxCallDepth ≤ w.stack.depth then
    Exec.fail (.callDepth code.limits.maxCallDepth m.name) w
  else if m.params.length ≠ args.length then
    Exec.fail (.arity m.name m.params.length args.length) w
  else
    inFrame m ((bindArgs m.params args).bind fun _ => runBody block m) w

/-- An engine whose treatment of returned expressions, calls and failures is open. -/
structure Machine where
  /-- Program and limits. -/
  code : Code
  /-- Whether calls that statements make are wary. -/
  wary : Bool
  /-- The value of a returned expression. -/
  returned : Caller → Expr → Exec Val
  /-- The kinds of failure that no handler gets. -/
  fatal : FaultKind → Bool
  /-- Returned values compare well if calls are. -/
  smooth : ∀ {C : Run.Comparison} {call call'}, CallerCompared C call call' → ∀ e,
    Exec.Compared C (fun n => returned (call n) e) (returned call' e)

/-- What a machine can do with some amount of fuel. -/
structure Stage where
  /-- The parts of statements. -/
  callees : Callees
  /-- Run the rest of a block. -/
  walk : Block → Bool → List Stmt → Exec Flow

/-- A family of stages compares well with a stage. -/
structure StagesCompared (C : Run.Comparison) (s : Nat → Stage) (s' : Stage) : Prop where
  /-- The parts of statements compare well. -/
  callees : CalleesCompared C (fun n => (s n).callees) s'.callees
  /-- Walking a block compares well. -/
  walk : ∀ b l rest, Exec.Compared C (fun n => (s n).walk b l rest) (s'.walk b l rest)

namespace Machine

variable (M : Machine)

/-- What one statement does on the machine. -/
def execute (c : Callees) (inLoop : Bool) : Stmt → Exec Flow
  | .ret (some e) _ => do
    let value ← M.returned c.call e
    Exec.change fun w => { w with stack := w.stack.setResult value }
    pure .leaveMethod
  | .declare name shape init _ => do
    let value ← valueOfOption M.code.program M.wary c.call init
    newVariable World.declare name shape value
    pure .next
  | .assign target value _ => do
    let value ← valueOf M.code.program M.wary c.call value
    assign M.code.program c.call target value
    pure .next
  | .eval e _ => do
    let _ ← valueOf M.code.program M.wary c.call e
    pure .next
  | stmt => Engine.execute M.code.program c inLoop stmt

/-- One statement on its way on the machine. -/
def step (c : Callees) (inLoop : Bool) (stmt : Stmt) : Exec Flow :=
  (around stmt (M.execute c inLoop stmt)).stopOn M.fatal

/-- One statement of a block: what is left of the block, or how it is left. -/
def walkStep (c : Callees) (block : Block) (inLoop : Bool) : List Stmt → Exec (List Stmt ⊕ Flow)
  | [] => pure (.inr .next)
  | stmt :: rest => do pure (follow block rest (← M.step c inLoop stmt))

/-- One round of a loop: nothing if it goes on, or how it is left. -/
def loopStep (c : Callees) (kind : LoopKind) (test : Expr) (body : Block) (_ : Unit) :
    Exec (Unit ⊕ Flow) := do
  match ← loopRound M.code.program c kind test body with
  | none => pure (.inl ())
  | some flow => pure (.inr flow)

/-- The stage that has one unit of fuel more. -/
def next (s : Stage) : Stage where
  callees :=
    { call := callBy M.code s.callees.block
      block := fun b l => s.walk b l b
      loop := fun kind test body =>
        M.loopStep s.callees kind test body () >>=
          Exec.goOn fun _ => s.callees.loop kind test body }
  walk := fun b l rest => M.walkStep s.callees b l rest >>= Exec.goOn (s.walk b l)

/-- What the machine can do with so much fuel. -/
def stage : Nat → Stage
  | 0 => ⟨⟨fun _ _ _ => .exhausted, fun _ _ _ => .exhausted, fun _ _ _ _ => .exhausted⟩,
      fun _ _ _ _ => .exhausted⟩
  | n + 1 => M.next (stage n)

end Machine

section Continuity

variable {C : Run.Comparison} {c : Nat → Callees} {c' : Callees} (M : Machine)

/-- The way of a statement keeps the relation. -/
theorem around_compared {x : Nat → Exec Flow} {y : Exec Flow} (stmt : Stmt)
    (h : Exec.Compared C x y) :
    Exec.Compared C (fun n => around stmt (x n)) (around stmt y) :=
  (Exec.Compared.const _).bind fun _ => (Exec.Compared.const _).bind fun _ =>
    (Exec.Compared.const _).bind fun _ =>
      (h.onFailure fun f => .const (locate stmt f)).bind fun _ => .const _

/-- What a statement does on a machine compares well if its parts are. -/
theorem Machine.execute_compared (h : CalleesCompared C c c') (inLoop : Bool) (stmt : Stmt) :
    Exec.Compared C (fun n => M.execute (c n) inLoop stmt) (M.execute c' inLoop stmt) := by
  have hplain := Engine.execute_compared (p := M.code.program) h inLoop stmt
  unfold Machine.execute
  split
  · exact (M.smooth h.call _).bind fun _ => .const _
  · exact (valueOfOption_compared h.call M.wary _).bind fun _ => .const _
  · exact (valueOf_compared h.call M.wary _).bind fun _ =>
      (assign_compared h.call _ _).bind fun _ => .const _
  · exact (valueOf_compared h.call M.wary _).bind fun _ => .const _
  · exact hplain

/-- One statement on its way compares well if its parts are. -/
theorem Machine.step_compared (h : CalleesCompared C c c') (inLoop : Bool) (stmt : Stmt) :
    Exec.Compared C (fun n => M.step (c n) inLoop stmt) (M.step c' inLoop stmt) :=
  fun w => C.andThen (around_compared stmt (M.execute_compared h inLoop stmt) w)
    (fun _ _ => C.const _) fun _ w => ⟨w, rfl⟩

/-- One statement of a block compares well if its parts are. -/
theorem Machine.walkStep_compared (h : CalleesCompared C c c') (block : Block) (inLoop : Bool) :
    ∀ rest, Exec.Compared C (fun n => M.walkStep (c n) block inLoop rest)
      (M.walkStep c' block inLoop rest)
  | [] => .const _
  | stmt :: _ => (M.step_compared h inLoop stmt).bind fun _ => .const _

/-- One round of a loop compares well if its parts are. -/
theorem Machine.loopStep_compared (h : CalleesCompared C c c') (kind : LoopKind) (test : Expr)
    (body : Block) (u : Unit) :
    Exec.Compared C (fun n => M.loopStep (c n) kind test body u) (M.loopStep c' kind test body u) :=
  (loopRound_compared h kind test body).bind fun _ => .const _

/-- A call compares well if running blocks is. -/
theorem callBy_compared {block : Nat → Block → Bool → Exec Flow} {block' : Block → Bool → Exec Flow}
    (code : Code) (h : ∀ b l, Exec.Compared C (fun n => block n b l) (block' b l)) (m : Method)
    (args : List Val) :
    Exec.Compared C (fun n => callBy code (block n) m args) (callBy code block' m args) := by
  intro w
  have hbody : Exec.Compared C (fun n => (bindArgs m.params args).bind fun _ => runBody (block n) m)
      ((bindArgs m.params args).bind fun _ => runBody block' m) :=
    (Exec.Compared.const _).bind fun _ => (h m.body false).bind fun _ => .const _
  simp only [callBy]
  split
  · exact C.const _
  · split
    · exact C.const _
    · exact C.andThen (hbody (w.pushFrame m)) (fun _ _ => C.const _) fun _ w => ⟨_, rfl⟩

/-- Going on keeps the relation. -/
theorem goOn_compared {σ β : Type} {x : Nat → σ → Exec β} {y : σ → Exec β}
    (h : ∀ s, Exec.Compared C (fun n => x n s) (y s)) :
    ∀ r, Exec.Compared C (fun n => Exec.goOn (x n) r) (Exec.goOn y r)
  | .inl s => h s
  | .inr _ => .const _

/-- One unit of fuel more keeps the relation. -/
theorem Machine.next_compared {s : Nat → Stage} {s' : Stage} (h : StagesCompared C s s') :
    StagesCompared C (fun n => M.next (s n)) (M.next s') where
  callees :=
    { call := fun m args => callBy_compared M.code (fun b l => h.callees.block b l) m args
      block := fun b l => h.walk b l b
      loop := fun kind test body =>
        (M.loopStep_compared h.callees kind test body ()).bind
          (goOn_compared fun _ => h.callees.loop kind test body) }
  walk := fun b l rest =>
    (M.walkStep_compared h.callees b l rest).bind (goOn_compared fun rest => h.walk b l rest)

end Continuity

end Engine

end Stepwise
