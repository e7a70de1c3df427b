import Stepwise.Engine.World

/-!
# Runs

A run ends with a value, with a failure, or because the session was stopped;
or it is held at the gate, from where it can be continued with the world as
it is then. A run may also use up its fuel before it ends, which is an answer
of its own and never mistaken for one of the others.
-/

namespace Stepwise

/-- Why a run ends early. -/
inductive Unwind where
  /-- Something went wrong. -/
  | failed (failure : Failure)
  /-- The session was stopped. -/
  | cancelled
deriving Inhabited

/-- The fate of a run. -/
inductive Run (α : Type) where
  /-- It has ended. -/
  | done (world : World) (outcome : Except Unwind α)
  /-- It waits at the gate. -/
  | held (world : World) (resume : Passage → World → Run α)
  /-- The fuel did not suffice. -/
  | exhausted

namespace Run

/-- Go on when the run has ended, however it has. -/
def andThen {α β : Type} (k : World → Except Unwind α → Run β) : Run α → Run β
  | .done w outcome => k w outcome
  | .held w resume => .held w fun passage w => (resume passage w).andThen k
  | .exhausted => .exhausted

/-- Going on with the end itself changes nothing. -/
@[simp] theorem andThen_done {α : Type} (x : Run α) : x.andThen .done = x := by
  induction x with
  | done w r => rfl
  | held w resume ih => simp only [andThen, ih]
  | exhausted => rfl

/-- Going on twice is going on once with both. -/
theorem andThen_assoc {α β γ : Type} (x : Run α) (f : World → Except Unwind α → Run β)
    (g : World → Except Unwind β → Run γ) :
    (x.andThen f).andThen g = x.andThen fun w r => (f w r).andThen g := by
  induction x with
  | done w r => rfl
  | held w resume ih => simp only [andThen, ih]
  | exhausted => rfl

end Run

/-- A step of execution. -/
def Exec (α : Type) : Type := World → Run α

namespace Exec

/-- End with a value. -/
def ret {α : Type} (a : α) : Exec α := fun w => .done w (.ok a)

/-- End early. -/
def stop {α : Type} (u : Unwind) : Exec α := fun w => .done w (.error u)

/-- Go on with the value of a step. -/
def bind {α β : Type} (x : Exec α) (f : α → Exec β) : Exec β := fun w =>
  (x w).andThen fun w r =>
    match r with
    | .ok a => f a w
    | .error u => .done w (.error u)

instance : Monad Exec where
  pure := ret
  bind := bind

/-- Fail for a cause. -/
def fail {α : Type} (f : Fault) : Exec α := stop (.failed { fault := f })

/-- Take the value of an operation without effect, or fail with it. -/
def lift {α : Type} : Except Fault α → Exec α
  | .ok a => ret a
  | .error f => fail f

/-- The world as it is. -/
def world : Exec World := fun w => .done w (.ok w)

/-- Read something off the world. -/
def read {α : Type} (f : World → α) : Exec α := fun w => .done w (.ok (f w))

/-- Change the world. -/
def change (f : World → World) : Exec Unit := fun w => .done (f w) (.ok ())

/-- Change the world when a step has ended, however it has. -/
def finishing {α : Type} (x : Exec α) (f : World → World) : Exec α := fun w =>
  (x w).andThen fun w r => .done (f w) r

/-- Hand a failure of a step to a handler. Stopping is no failure. -/
def onFailure {α : Type} (x : Exec α) (handler : Failure → Exec α) : Exec α := fun w =>
  (x w).andThen fun w r =>
    match r with
    | .error (.failed f) => handler f w
    | r => .done w r

end Exec

end Stepwise
