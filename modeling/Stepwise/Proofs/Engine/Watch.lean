import Stepwise.Engine.Task
import Stepwise.Proofs.Engine.Limit

/-!
# Watching for failures

A machine can be watched for some kinds of failure: the first failure of such
a kind stops it. A watched run that was not stopped has met no such failure,
not even one that a handler took, and it has ended just as it would have
without being watched.
-/

namespace Stepwise.Engine

/-- A step that is stopped by some kinds of failure ends as it would
otherwise, unless it was stopped. -/
theorem stopOn_compared {α : Type} {x : Nat → Exec α} {y : Exec α} (fatal : FaultKind → Bool)
    (h : Exec.Compared (Run.byEnds True) x y) :
    Exec.Compared (Run.byEnds True) (fun n => (x n).stopOn fatal) y := by
  intro w n w' r hn
  obtain ⟨w₁, r₁, h₁, hr⟩ := Run.andThen_eq_done.mp hn
  have hkept : r = .error .cancelled ∨ (w₁ = w' ∧ r₁ = r) := by
    rcases r₁ with (f | _) | a
    · by_cases hf : fatal f.fault.kind = true
      · simp only [hf, if_true] at hr
        cases hr
        exact .inl rfl
      · simp only [hf] at hr
        cases hr
        exact .inr ⟨rfl, rfl⟩
    · cases hr
      exact .inl rfl
    · cases hr
      exact .inr ⟨rfl, rfl⟩
  rcases hkept with hc | ⟨rfl, rfl⟩
  · exact .inl ⟨trivial, hc⟩
  · exact h w n w₁ r₁ h₁

namespace Machine

variable (M : Machine)

/-- Call a method on a call stack that has no calls in progress. -/
def invokeOn (fuel stack : Nat) (m : Method) (args : List Val) : Exec Val := fun w =>
  ((M.stage fuel).callees.call m args).stopOn M.fatal { w with stack := .fresh stack }

/-- The same call with fuel enough. -/
noncomputable def outcome (stack : Nat) (m : Method) (args : List Val) : Exec Val := fun w =>
  (M.call m args).stopOn M.fatal { w with stack := .fresh stack }

/-- With more and more fuel a call tends to its outcome. -/
theorem invokeOn_tends (stack : Nat) (m : Method) (args : List Val) :
    Exec.Tends (fun n => M.invokeOn n stack m args) (M.outcome stack m args) :=
  fun _ => Run.Tends.andThen (M.stages_tend.callees.call m args _) fun _ _ => .const _

/-- On the plain engine this is an invocation. -/
theorem engine_invokeOn (code : Code) (fuel stack : Nat) (m : Method) (args : List Val) :
    (engine code).invokeOn fuel stack m args = Engine.invokeOn code fuel stack m args := by
  unfold Machine.invokeOn
  rw [engine_stage]
  exact funext fun w => congrFun (Exec.stopOn_none _) _

/-- The machine that is stopped by some kinds of failure. -/
def watched (fatal : FaultKind → Bool) : Machine := { M with fatal }

section Erasure

variable {M} (fatal : FaultKind → Bool) (hM : M.fatal = fun _ => false)

include hM

/-- A watched statement ends as it would otherwise, or the machine is stopped. -/
theorem watched_step {c : Nat → Callees} {c' : Callees}
    (h : CalleesCompared (Run.byEnds True) c c') (inLoop : Bool) (stmt : Stmt) :
    Exec.Compared (Run.byEnds True) (fun n => (M.watched fatal).step (c n) inLoop stmt)
      (M.step c' inLoop stmt) := by
  have hplain : M.step c' inLoop stmt = around stmt (M.execute c' inLoop stmt) := by
    unfold step
    rw [hM, Exec.stopOn_none]
  rw [hplain]
  exact stopOn_compared fatal (around_compared stmt (M.execute_compared h inLoop stmt))

/-- One unit of fuel more keeps the relation. -/
theorem watched_next {s : Nat → Stage} {s' : Stage} (h : StagesCompared (Run.byEnds True) s s') :
    StagesCompared (Run.byEnds True) (fun n => (M.watched fatal).next (s n)) (M.next s') where
  callees := (M.next_compared h).callees
  walk := by
    intro b l rest
    refine Exec.Compared.bind ?_ (goOn_compared fun rest => h.walk b l rest)
    cases rest with
    | nil => exact .const _
    | cons stmt rest => exact (watched_step fatal hM h.callees l stmt).bind fun _ => .const _

/-- A watched machine does what it does otherwise until it is stopped. -/
theorem watched_stage (n : Nat) :
    StagesCompared (Run.byEnds True) (fun _ => (M.watched fatal).stage n) (M.stage n) := by
  induction n with
  | zero => exact (M.watched fatal).stage_zero_compared True _
  | succ n ih => exact watched_next fatal hM ih

/-- A watched call that was not stopped has ended as it would otherwise. -/
theorem watched_invokeOn {fuel stack : Nat} {m : Method} {args : List Val} {w w' : World}
    {r : Except Unwind Val} (h : (M.watched fatal).invokeOn fuel stack m args w = .done w' r)
    (hr : r ≠ .error .cancelled) : M.invokeOn fuel stack m args w = .done w' r := by
  have hcall := stopOn_compared fatal ((watched_stage fatal hM fuel).callees.call m args)
    { w with stack := .fresh stack } 0 w' r h
  have hplain : M.invokeOn fuel stack m args w =
      (M.stage fuel).callees.call m args { w with stack := .fresh stack } := by
    unfold invokeOn
    rw [hM, Exec.stopOn_none]
  rw [hplain]
  exact hcall.resolve_left fun hs => hr hs.2

end Erasure

end Machine

/-- The call ends so, and it meets no failure of some kinds. -/
def EndsWithout (kinds : FaultKind → Bool) (code : Code) (stack : Nat) (m : Method)
    (args : List Val) (w w' : World) (r : Except Unwind Val) : Prop :=
  ∃ fuel, ((Machine.engine code).watched kinds).invokeOn fuel stack m args w = .done w' r ∧
    r ≠ .error .cancelled

/-- The call meets a failure of some kinds. -/
def Meets (kinds : FaultKind → Bool) (code : Code) (stack : Nat) (m : Method)
    (args : List Val) (w : World) : Prop :=
  ∃ fuel w', ((Machine.engine code).watched kinds).invokeOn fuel stack m args w =
    .done w' (.error .cancelled)

/-- A call that meets no failure of some kinds ends. -/
theorem EndsWithout.ends {kinds : FaultKind → Bool} {code : Code} {stack : Nat} {m : Method}
    {args : List Val} {w w' : World} {r : Except Unwind Val}
    (h : EndsWithout kinds code stack m args w w' r) :
    ∃ fuel, invokeOn code fuel stack m args w = .done w' r := by
  obtain ⟨fuel, hrun, hr⟩ := h
  refine ⟨fuel, ?_⟩
  rw [← Machine.engine_invokeOn]
  exact Machine.watched_invokeOn kinds rfl hrun hr

end Stepwise.Engine
