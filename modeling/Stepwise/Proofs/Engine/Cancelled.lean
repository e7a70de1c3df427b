import Stepwise.Proofs.Engine.Pace

/-!
# Engines that are turned away

Once engines are turned away no statement begins. A block stops before its
first statement, so that calls and expressions come to an end, also of
programs that would go on forever. An engine that waits at the gate and is
turned away unwinds through all its calls; no handler takes part in that.
-/

namespace Stepwise

/-- The scopes of all calls with what is bound in them. -/
def CallStack.bindings (s : CallStack) : List (List Scope) := s.frames.map (·.scopes)

/-- Noting where a statement stands binds nothing. -/
theorem CallStack.bindings_setSpan (s : CallStack) (span : Span) :
    (s.setSpan span).bindings = s.bindings := by
  show (s.frames.modifyHead _).map _ = s.frames.map _
  cases s.frames <;> rfl

namespace Run

variable {α : Type}

/-- Wherever the run waits, being turned away ends it at once: calls and scopes
are closed, and nothing else happens. -/
def Yields : Run α → Prop
  | .held _ resume =>
    (∀ v, ∃ v', resume .cancelled v = .done v' (.error .cancelled) ∧ v.Closes v') ∧
      ∀ v, (resume .passed v).Yields
  | _ => True

theorem Paced.yields {x : Run α} {w : World} (h : x.Paced .cancelled w) : x.Yields := by
  induction x generalizing w with
  | done w' r => exact trivial
  | exhausted => exact trivial
  | held w' resume ih =>
    obtain ⟨-, hturned, stmt, hpassed⟩ := h
    exact ⟨hturned, fun v => ih .passed v (hpassed v)⟩

end Run

namespace Engine

variable {α β : Type}

/-- When engines are turned away, a step ends. -/
def Halts (x : Exec α) : Prop :=
  ∀ w : World, w.controls.gate.cancelled = true →
    ∃ w' r, x w = .done w' r ∧ w'.controls.gate.cancelled = true

theorem halts_stop (u : Unwind) : Halts (Exec.stop u : Exec α) := fun w hw => ⟨w, _, rfl, hw⟩

theorem Halts.bind {x : Exec α} {f : α → Exec β} (hx : Halts x) (hf : ∀ a, Halts (f a)) :
    Halts (x >>= f) := by
  intro w hw
  obtain ⟨w₁, r, hx, hw₁⟩ := hx w hw
  cases r with
  | error u => exact ⟨w₁, _, Exec.bind_of_error hx, hw₁⟩
  | ok a =>
    obtain ⟨w₂, r, hf, hw₂⟩ := hf a w₁ hw₁
    exact ⟨w₂, r, (Exec.bind_of_ok hx).trans hf, hw₂⟩

theorem halts_aside {x : Exec α} (h : Aside x) : Halts x := by
  intro w hw
  obtain ⟨heap, host, a, hx⟩ | ⟨f, hx, -⟩ := h w
  · exact ⟨_, _, hx, hw⟩
  · exact ⟨w, _, hx, hw⟩

/-- Coming to an end is a habit of evaluation. -/
def halting : Habit where
  has := Halts
  ret := fun _ w hw => ⟨w, _, rfl, hw⟩
  fail := fun _ => halts_stop _
  bind := Halts.bind
  aside := halts_aside
  spawn := fun _ _ _ hw => ⟨_, _, rfl, hw⟩

section Cancelled

variable {w : World}

/-- An engine is turned away at the gate. -/
theorem beginning_of_cancelled (hw : w.controls.gate.cancelled = true) (stmt : Stmt) :
    beginning stmt w = .done w (.error .cancelled) := by
  have hleave : w.controls.leave? = some (.cancelled, w.controls) := by
    rw [Controls.leave?, Gate.leave?_of_cancelled hw]
  refine Exec.bind_of_error ?_
  simp only [checkpoint, Controls.approach_of_cancelled hw, hleave]
  rfl

/-- No statement begins. -/
theorem runStmt_of_cancelled (hw : w.controls.gate.cancelled = true) (p : Program)
    (callees : Callees) (inLoop : Bool) (stmt : Stmt) :
    ∃ stack, runStmt p callees inLoop stmt w = .done { w with stack } (.error .cancelled) ∧
      stack.bindings = w.stack.bindings := by
  have hstopped : ∀ stack, enter stmt w = .done { w with stack } (.ok ()) →
      runStmt p callees inLoop stmt w = .done { w with stack } (.error .cancelled) := by
    intro stack henter
    rw [runStmt_eq_beginning, Exec.bind_of_ok henter]
    exact Exec.bind_of_error (beginning_of_cancelled (w := { w with stack }) hw stmt)
  by_cases hspan : stmt.span.isBlank = true
  · refine ⟨w.stack, hstopped w.stack ?_, rfl⟩
    simp only [enter, Exec.change, if_pos hspan]
  · refine ⟨w.stack.setSpan stmt.span, hstopped _ ?_, w.stack.bindings_setSpan stmt.span⟩
    simp only [enter, Exec.change, if_neg hspan]

/-- A block that is not empty stops before its first statement. -/
theorem runBlock_of_cancelled (hw : w.controls.gate.cancelled = true) (code : Code) (fuel : Nat)
    (stmt : Stmt) (rest : List Stmt) (inLoop : Bool) :
    ∃ stack, runBlock code (fuel + 2) (stmt :: rest) inLoop w =
        .done { w with stack } (.error .cancelled) ∧
      stack.bindings = w.stack.bindings := by
  obtain ⟨stack, hstopped, hbindings⟩ := runStmt_of_cancelled hw code.program
    (calleesAt code fuel) inLoop stmt
  refine ⟨stack, ?_, hbindings⟩
  rw [runBlock, runFrom_cons]
  exact Exec.bind_of_error hstopped

end Cancelled

theorem halts_runBlock (code : Code) (fuel : Nat) (block : Block) (inLoop : Bool) :
    Halts (runBlock code (fuel + 2) block inLoop) := by
  intro w hw
  cases block with
  | nil => exact ⟨w, .ok .next, by rw [runBlock, runFrom], hw⟩
  | cons stmt rest =>
    obtain ⟨stack, hstopped, -⟩ := runBlock_of_cancelled hw code fuel stmt rest inLoop
    exact ⟨_, _, hstopped, hw⟩

theorem halts_bindArgs : ∀ (params : List Param) (args : List Val), Halts (bindArgs params args)
  | [], _ => halting.ret _
  | _ :: _, [] => halting.ret _
  | _ :: params, _ :: args =>
    Halts.bind ((halting.lift (tame_holding _ _ _)).bind fun _ _ hw => ⟨_, _, rfl, hw⟩) fun _ =>
      halts_bindArgs params args

/-- Every call comes to an end. -/
theorem halts_invoke (code : Code) (fuel : Nat) (m : Method) (args : List Val) :
    Halts (invoke code (fuel + 3) m args) := by
  have hbody : Halts (runBody (runBlock code (fuel + 2)) m) := by
    refine (halts_runBlock code fuel m.body false).bind fun flow => ?_
    cases flow with
    | jump label => exact halts_stop _
    | _ => exact halting.ret _
  intro w hw
  unfold invoke
  split
  · exact halts_stop _ w hw
  split
  · exact halts_stop _ w hw
  · obtain ⟨w', r, hrun, hw'⟩ := (halts_bindArgs m.params args).bind (fun _ => hbody)
      (w.pushFrame m) hw
    refine ⟨w'.popFrame.2, r.map fun _ => (w'.popFrame.1.getD .null), ?_, hw'⟩
    unfold inFrame
    rw [show (Exec.bind (bindArgs m.params args) fun _ => runBody (runBlock code (fuel + 2)) m)
      (w.pushFrame m) = .done w' r from hrun]
    cases r <;> rfl

/-- Every expression comes to an end. -/
theorem halts_eval (code : Code) (fuel : Nat) (p : Program) (e : Expr) :
    Halts (eval p (invoke code (fuel + 3)) e) :=
  halting.eval (halts_invoke code fuel) e

/-- What engines do in a world once they are turned away. -/
structure TurnedAway (w : World) : Prop where
  /-- A block that is not empty is stopped, with values, variables, console and
  bindings as they were. -/
  block : ∀ code fuel stmt rest inLoop, ∃ stack,
    runBlock code (fuel + 2) (stmt :: rest) inLoop w = .done { w with stack } (.error .cancelled) ∧
      stack.bindings = w.stack.bindings
  /-- A call comes to an end without beginning a statement. -/
  call : ∀ code fuel m args, ∃ w' r,
    invoke code (fuel + 3) m args w = .done w' r ∧ w'.begun = w.begun
  /-- An expression comes to an end without beginning a statement. -/
  expr : ∀ code fuel p e, ∃ w' r,
    eval p (invoke code (fuel + 3)) e w = .done w' r ∧ w'.begun = w.begun

/-- A step that keeps its pace and ends begins nothing. -/
theorem Halts.quiet {x : Exec α} (hx : Halts x) (hpaces : x.Paces .cancelled) {w : World}
    (hw : w.controls.gate.cancelled = true) : ∃ w' r, x w = .done w' r ∧ w'.begun = w.begun := by
  obtain ⟨w', r, hdone, -⟩ := hx w hw
  have hpaced := hpaces w
  rw [hdone] at hpaced
  obtain ⟨acts, -, hchanges⟩ := hpaced
  exact ⟨w', r, hdone, (hchanges.of_cancelled hw).2⟩

theorem turnedAway {w : World} (hw : w.controls.gate.cancelled = true) : TurnedAway w where
  block := runBlock_of_cancelled hw
  call := fun code fuel m args =>
    (halts_invoke code fuel m args).quiet ((pacesWith code (fuel + 3)).call m args) hw
  expr := fun code fuel p e =>
    (halts_eval code fuel p e).quiet ((pace _).eval (pacesWith code (fuel + 3)).call e) hw

/-- No handler takes part when an engine is turned away. -/
structure Unwinds (code : Code) (fuel : Nat) (w : World) : Prop where
  /-- A call that waits at the gate is over at once. -/
  call : ∀ m args, (invoke code fuel m args w).Yields
  /-- So is a block. -/
  block : ∀ block inLoop, (runBlock code fuel block inLoop w).Yields
  /-- So is an expression. -/
  expr : ∀ p e, (eval p (invoke code fuel) e w).Yields
  /-- An attempt whose body was stopped is stopped, whatever its handler is. -/
  attempt : ∀ inLoop body name handler span w',
    nested (runBlock code fuel body inLoop) w = .done w' (.error .cancelled) →
    execute code.program (calleesAt code fuel) inLoop (.attempt body name handler span) w =
      .done w' (.error .cancelled)

theorem unwinds (code : Code) (fuel : Nat) (w : World) : Unwinds code fuel w where
  call := fun m args => ((pacesWith code fuel).call m args w).yields
  block := fun block inLoop => ((pacesWith code fuel).block block inLoop w).yields
  expr := fun _ e => ((pace _).eval (pacesWith code fuel).call e w).yields
  attempt := by
    intro inLoop body name handler span w' hbody
    show (nested (runBlock code fuel body inLoop) w).andThen _ = _
    rw [hbody]
    rfl

end Engine

end Stepwise
