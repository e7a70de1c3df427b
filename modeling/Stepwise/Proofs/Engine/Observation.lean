import Stepwise.Engine.Basic

/-!
# What can be observed of a run

Two runs are compared by what is left of them: the heap, the host with its
console, the controls, the global variables, and the invocations that were
started but have not run yet. Of an invocation everything counts except the
statements of its method, which may be in another style. Local variables,
snapshots and the trace of statements are not compared. Two programs agree if
every invocation of a method ends in one of them just when it ends in the
other, and both ends agree.
-/

namespace Stepwise

/-- The gate lets every engine pass and no breakpoint counts. -/
structure Gate.Open (g : Gate) : Prop where
  /-- Engines are not held back. -/
  armed : g.armed = false
  /-- Engines are not turned away. -/
  cancelled : g.cancelled = false
  /-- No statement stands on a breakpoint. -/
  hits : ∀ stmt, g.hits stmt = false

/-- A method without its statements. -/
def Method.outline (m : Method) : Method := { m with body := [] }

/-- An invocation, apart from the statements of its method. -/
def Job.outline (j : Job) : Job := { j with method := j.method.outline }

/-- Two worlds agree outside of variables and call stacks. -/
structure World.Shares (w v : World) : Prop where
  /-- The heap is the same. -/
  heap : v.heap = w.heap
  /-- The host is the same. -/
  host : v.host = w.host
  /-- The controls are the same. -/
  controls : v.controls = w.controls
  /-- There have been as many call stacks. -/
  stackCount : v.stackCount = w.stackCount
  /-- The same invocations are waiting, in the same order. -/
  jobs : v.jobs.map Job.outline = w.jobs.map Job.outline

/-- Two worlds agree in all that can be observed after a run. -/
structure World.Agrees (w v : World) : Prop extends World.Shares w v where
  /-- The same variables are global. -/
  globals : v.memory.globals = w.memory.globals
  /-- Global variables hold the same. -/
  values : ∀ g ∈ w.memory.globals, v.memory.cell g = w.memory.cell g

/-- Two early ends agree: the same cause, which gives kind, message and
exception, and the same place if places count. -/
def Unwind.Agrees (places : Prop) : Unwind → Unwind → Prop
  | .failed f, .failed f' =>
    f'.fault = f.fault ∧ (places → f'.site.map (·.1) = f.site.map (·.1))
  | .cancelled, .cancelled => True
  | _, _ => False

/-- Two outcomes agree: the same value, or early ends that agree. -/
def Outcome.Agrees (places : Prop) : Except Unwind Val → Except Unwind Val → Prop
  | .ok v, .ok v' => v' = v
  | .error u, .error u' => u.Agrees places u'
  | _, _ => False

/-- A world in which work can begin. -/
structure World.Ready (w : World) : Prop where
  /-- The gate is open. -/
  gate : w.controls.gate.Open
  /-- The global variables are there. -/
  globals : ∀ g ∈ w.memory.globals, g < w.memory.cells.size

/-- An end that runs reach with fuel enough. -/
def EndsIn (x : Nat → Run Val) (w : World) (r : Except Unwind Val) : Prop :=
  ∃ fuel, x fuel = .done w r

/-- Two families of runs reach the same ends, as far as these can be observed. -/
structure Agreement (places : Prop) (x y : Nat → Run Val) : Prop where
  /-- If the first runs end, so do the second. -/
  forth : ∀ {w r}, EndsIn x w r →
    ∃ v r', EndsIn y v r' ∧ w.Agrees v ∧ Outcome.Agrees places r r'
  /-- If the second runs end, so do the first. -/
  back : ∀ {v r'}, EndsIn y v r' →
    ∃ w r, EndsIn x w r ∧ w.Agrees v ∧ Outcome.Agrees places r r'

/-- Two worlds that agree with the same world agree. -/
theorem World.Agrees.both {w v v' : World} (h : w.Agrees v) (h' : w.Agrees v') : v.Agrees v' where
  heap := h'.heap.trans h.heap.symm
  host := h'.host.trans h.host.symm
  controls := h'.controls.trans h.controls.symm
  stackCount := h'.stackCount.trans h.stackCount.symm
  jobs := h'.jobs.trans h.jobs.symm
  globals := h'.globals.trans h.globals.symm
  values := by
    intro g hg
    rw [h.globals] at hg
    rw [h'.values g hg, h.values g hg]

/-- A world agrees with what a world agrees with that it agrees with. -/
theorem World.Agrees.trans {w v v' : World} (h : w.Agrees v) (h' : v.Agrees v') : w.Agrees v' :=
  (h.both ⟨⟨rfl, rfl, rfl, rfl, rfl⟩, rfl, fun _ _ => rfl⟩).both h'

/-- Two early ends that agree with the same early end agree. -/
theorem Unwind.Agrees.both {places : Prop} {u u' u'' : Unwind} (h : u.Agrees places u')
    (h' : u.Agrees places u'') : u'.Agrees places u'' := by
  cases u with
  | cancelled =>
    cases u' with
    | failed => cases h
    | cancelled => exact h'
  | failed f =>
    cases u' with
    | cancelled => cases h
    | failed f' =>
      cases u'' with
      | cancelled => cases h'
      | failed f'' => exact ⟨h'.1.trans h.1.symm, fun hp => (h'.2 hp).trans (h.2 hp).symm⟩

/-- Two outcomes that agree with the same outcome agree. -/
theorem Outcome.Agrees.both {places : Prop} {r r' r'' : Except Unwind Val}
    (h : Outcome.Agrees places r r') (h' : Outcome.Agrees places r r'') :
    Outcome.Agrees places r' r'' := by
  cases r with
  | ok a =>
    cases r' with
    | error => cases h
    | ok a' =>
      cases r'' with
      | error => cases h'
      | ok a'' => exact Eq.trans h' (Eq.symm h)
  | error u =>
    cases r' with
    | ok => cases h
    | error u' =>
      cases r'' with
      | ok => cases h'
      | error u'' => exact Unwind.Agrees.both h h'

/-- An outcome agrees with itself. -/
theorem Outcome.Agrees.refl {places : Prop} (r : Except Unwind Val) :
    Outcome.Agrees places r r := by
  rcases r with (f | _) | a
  · exact ⟨rfl, fun _ => rfl⟩
  · trivial
  · rfl

/-- An outcome agrees with what an outcome agrees with that it agrees with. -/
theorem Outcome.Agrees.trans {places : Prop} {r r' r'' : Except Unwind Val}
    (h : Outcome.Agrees places r r') (h' : Outcome.Agrees places r' r'') :
    Outcome.Agrees places r r'' :=
  (h.both (.refl r)).both h'

/-- An outcome that agrees with one that was not stopped was not stopped. -/
theorem Outcome.Agrees.not_cancelled {places : Prop} {r r' : Except Unwind Val}
    (h : Outcome.Agrees places r r') (hr : r ≠ .error .cancelled) : r' ≠ .error .cancelled := by
  rintro rfl
  rcases r with (f | _) | a
  · cases h
  · exact hr rfl
  · cases h

/-- An outcome with which one agrees that was not stopped was not stopped. -/
theorem Outcome.Agrees.not_cancelled_left {places : Prop} {r r' : Except Unwind Val}
    (h : Outcome.Agrees places r r') (hr' : r' ≠ .error .cancelled) : r ≠ .error .cancelled := by
  rintro rfl
  rcases r' with (f | _) | a
  · cases h
  · exact hr' rfl
  · cases h

namespace Run

/-- The integer that a run has ended with. -/
def integer? : Run Val → Option Int64
  | .done _ (.ok (.int n)) => some n
  | _ => none

/-- The kind of the failure that a run has ended with. -/
def faultKind? : Run Val → Option FaultKind
  | .done _ (.error (.failed f)) => some f.fault.kind
  | _ => none

/-- Whether a run was stopped. -/
def isStopped : Run Val → Bool
  | .done _ (.error .cancelled) => true
  | _ => false

/-- A run that has ended with an integer. -/
theorem eq_done_of_integer? {x : Run Val} {n : Int64} (h : x.integer? = some n) :
    ∃ w, x = .done w (.ok (.int n)) := by
  unfold integer? at h
  split at h
  · cases h
    exact ⟨_, rfl⟩
  · cases h

/-- A run that was stopped. -/
theorem eq_done_of_isStopped {x : Run Val} (h : x.isStopped = true) :
    ∃ w, x = .done w (.error .cancelled) := by
  unfold isStopped at h
  split at h
  · exact ⟨_, rfl⟩
  · cases h

/-- A run that has ended with a failure. -/
theorem eq_done_of_faultKind? {x : Run Val} {kind : FaultKind} (h : x.faultKind? = some kind) :
    ∃ w f, x = .done w (.error (.failed f)) ∧ f.fault.kind = kind := by
  rcases x with ⟨w, (f | _) | v⟩ | _ | _
  · exact ⟨w, f, rfl, Option.some.inj h⟩
  all_goals cases h

end Run

end Stepwise
