import Stepwise.Control.Basic

/-!
# What happens at the controls

Requests of the host, engines at the gate and the tasks of a session all act
on the same controls, one after the other and in any order. An act is
performed whoever brings it about; a request that the controls refuse leaves
them as they are. Of the acts that matter to stepping a history is kept.
-/

namespace Stepwise

namespace Controls

/-- Something that happens at the controls. -/
inductive Act where
  /-- The host asks to hold the program. -/
  | pause
  /-- The host asks for one statement. -/
  | step
  /-- The host asks to hold the program no longer. -/
  | resume
  /-- All engines are turned away. -/
  | cancel
  /-- The session ends, once its work is gone. -/
  | close
  /-- The session begins to be prepared. -/
  | prepare
  /-- The prepared session begins to run. -/
  | run
  /-- Breakpoints begin or cease to count. -/
  | debug (on : Bool)
  /-- New work wakes an idle session. -/
  | activate
  /-- The session falls idle if nothing is left to run. -/
  | refreshIdle
  /-- Work has failed. -/
  | fail (failure : Failure)
  /-- The host sets a breakpoint. -/
  | setBreakpoint (line : Nat)
  /-- The host removes a breakpoint. -/
  | clearBreakpoint (line : Nat)
  /-- The host removes all breakpoints. -/
  | clearBreakpoints
  /-- The account of work in flight changes. -/
  | track (change : Tracker → Tracker)
  /-- An engine arrives at a statement, with its call stack as it is then. -/
  | arrive (stmt : Stmt) (snapshot : Snapshot)
  /-- An engine that waits at the gate tries to leave. -/
  | leave

namespace Act

/-- Whether engines alone act so. -/
def byEngine : Act → Bool
  | .track _ | .arrive .. => true
  | _ => false

/-- Whether an engine is at the gate. -/
def atGate : Act → Bool
  | .arrive .. | .leave => true
  | _ => false

/-- Whether no engine is at the gate and the session does not end. -/
def isPlain : Act → Bool
  | .arrive .. | .leave | .close => false
  | _ => true

/-- Whether the host asks for something at the gate, or a failure is reported. -/
def isSignal : Act → Bool
  | .pause | .step | .resume | .fail _ => true
  | _ => false

/-- What the host asks for and the failures that are reported, first one first. -/
def signals (acts : List Act) : List Act := acts.filter isSignal

/-- The failure that is reported. -/
def failure? : Act → Option Failure
  | .fail f => some f
  | _ => none

/-- The failures that are reported, first one first. -/
def failures (acts : List Act) : List Failure := acts.filterMap failure?

@[simp] theorem failures_nil : failures [] = [] := rfl

@[simp] theorem signals_append (acts more : List Act) :
    signals (acts ++ more) = signals acts ++ signals more :=
  List.filter_append ..

/-- At a plain act no engine is at the gate. -/
theorem atGate_of_isPlain {a : Act} (h : a.isPlain = true) : a.atGate = false := by
  cases a <;> first | rfl | cases h

/-- Engines give no signals. -/
theorem signals_of_byEngine {acts : List Act} (h : ∀ a ∈ acts, a.byEngine = true) :
    signals acts = [] := by
  refine List.filter_eq_nil_iff.mpr fun a ha => ?_
  have hengine := h a ha
  cases a <;> first | exact Bool.noConfusion | cases hengine

/-- All failures are among the signals. -/
theorem failures_signals (acts : List Act) : failures (signals acts) = failures acts := by
  induction acts with
  | nil => rfl
  | cons a acts ih =>
    cases a with
    | fail f => exact congrArg (f :: ·) ih
    | _ => exact ih

end Act

/-- Whether the host is granted a statement when it asks: the session is
paused and has work in flight. -/
def grantsStep (c : Controls) : Bool := c.phase == .paused && !c.tracker.isQuiet

/-- The controls after an act. -/
def act (c : Controls) : Act → Controls
  | .pause => if c.phase.isTerminal then c else c.pause
  | .step => if c.grantsStep then c.step.2 else c
  | .resume => if c.phase.isTerminal then c else c.release
  | .cancel => c.cancel
  | .close => (c.move .stopped).2
  | .prepare => (c.move .preparing).2
  | .run => (c.move .running).2
  | .debug on => { c with gate := { c.gate with debugging := on } }
  | .activate => c.activate.2
  | .refreshIdle => c.refreshIdle.2
  | .fail f => c.fail f
  | .setBreakpoint line => { c with gate := (c.gate.setBreakpoint line).2 }
  | .clearBreakpoint line => { c with gate := (c.gate.clearBreakpoint line).2 }
  | .clearBreakpoints => { c with gate := c.gate.clearBreakpoints }
  | .track change => { c with tracker := change c.tracker }
  | .arrive stmt snapshot =>
    match (c.approach stmt).leave? with
    | some (_, c) => c
    | none => ((c.approach stmt).pauseWith snapshot).2
  | .leave =>
    match c.leave? with
    | some (_, c) => c
    | none => c

/-- The controls after acts, one after the other. -/
def perform (c : Controls) (acts : List Act) : Controls := acts.foldl act c

/-- What an act means to stepping. -/
inductive Mark where
  /-- The host was granted a statement. -/
  | granted
  /-- The program is held no longer. -/
  | resumed
  /-- An engine has passed the gate for a statement that was granted. -/
  | spent
  /-- An engine has passed the gate for nothing. -/
  | free
deriving DecidableEq

end Controls

/-- What it means to stepping that an engine tries to leave the gate. -/
def Gate.mark? (g : Gate) : Option Controls.Mark :=
  match g.leave? with
  | some (.passed, g') => some (if g'.budget = g.budget then .free else .spent)
  | _ => none

namespace Controls

/-- What an act means to stepping, if anything. -/
def mark? (c : Controls) : Act → Option Mark
  | .step => if c.grantsStep then some .granted else none
  | .resume => if c.phase.isTerminal then none else some .resumed
  | .arrive stmt _ => (c.gate.approach stmt).mark?
  | .leave => c.gate.mark?
  | _ => none

/-- The meaning of acts to stepping, first one first. -/
def history (c : Controls) : List Act → List Mark
  | [] => []
  | a :: acts => (c.mark? a).toList ++ (c.act a).history acts

/-- Number of statements granted. -/
def grants (h : List Mark) : Nat := h.count .granted

/-- Number of times that the gate was passed. -/
def passes (h : List Mark) : Nat := h.count .spent + h.count .free

variable (c : Controls)

@[simp] theorem perform_cons (a : Act) (acts : List Act) :
    c.perform (a :: acts) = (c.act a).perform acts := rfl

@[simp] theorem perform_append (acts more : List Act) :
    c.perform (acts ++ more) = (c.perform acts).perform more :=
  List.foldl_append

@[simp] theorem history_append (acts more : List Act) :
    c.history (acts ++ more) = c.history acts ++ (c.perform acts).history more := by
  induction acts generalizing c with
  | nil => rfl
  | cons a acts ih =>
    simp only [List.cons_append, history, perform_cons, ih, List.append_assoc]

@[simp] theorem passes_append (h h' : List Mark) : passes (h ++ h') = passes h + passes h' := by
  simp only [passes, List.count_append]
  omega

@[simp] theorem grants_append (h h' : List Mark) : grants (h ++ h') = grants h + grants h' :=
  List.count_append

end Controls

namespace Lifecycle

variable {l : Lifecycle} {e : Event}

/-- A legal move is made. -/
theorem apply_of_canMove (h : l.phase.canMove e.phase = true) :
    (l.apply e).2 = ⟨e.phase, l.events.push e, l.published.push e⟩ := by
  rw [apply, if_pos h]

/-- Any other move is refused. -/
theorem apply_of_not_canMove (h : ¬ l.phase.canMove e.phase = true) : (l.apply e).2 = l := by
  rw [apply, if_neg h]

/-- After a move or a refusal the phase is the new one or the old one. -/
theorem phase_apply (l : Lifecycle) (e : Event) :
    (l.apply e).2.phase = l.phase ∨ (l.apply e).2.phase = e.phase := by
  by_cases h : l.phase.canMove e.phase = true
  · exact .inr (congrArg phase (apply_of_canMove h))
  · exact .inl (congrArg phase (apply_of_not_canMove h))

end Lifecycle

namespace Gate

variable {g g' : Gate}

/-- An engine that is turned away leaves the gate as it is. -/
theorem leave?_cancelled (h : g.leave? = some (.cancelled, g')) :
    g.cancelled = true ∧ g' = g := by
  unfold leave? at h
  split at h
  · cases h
    exact ⟨‹_›, rfl⟩
  split at h
  · cases h
  split at h <;> cases h

/-- An engine passes a gate that is open, or spends a statement at one that is armed. -/
theorem leave?_passed (h : g.leave? = some (.passed, g')) :
    g.cancelled = false ∧ (g.armed = false ∧ g' = g ∨
      g.armed = true ∧ 0 < g.budget ∧ g' = { g with budget := g.budget - 1 }) := by
  unfold leave? at h
  split at h
  · cases h
  have hopen : g.cancelled = false := Bool.eq_false_iff.mpr ‹_›
  split at h
  · cases h
    exact ⟨hopen, .inl ⟨by simpa using ‹(!g.armed) = true›, rfl⟩⟩
  split at h
  · cases h
    exact ⟨hopen, .inr ⟨by simpa using ‹¬(!g.armed) = true›, ‹_›, rfl⟩⟩
  · cases h

/-- An engine waits at an armed gate when nothing is granted. -/
theorem leave?_none (h : g.leave? = none) :
    g.cancelled = false ∧ g.armed = true ∧ g.budget = 0 := by
  unfold leave? at h
  split at h
  · cases h
  split at h
  · cases h
  split at h
  · cases h
  exact ⟨Bool.eq_false_iff.mpr ‹_›, by simpa using ‹¬(!g.armed) = true›, by omega⟩

/-- A cancelled gate turns every engine away. -/
theorem leave?_of_cancelled (h : g.cancelled = true) : g.leave? = some (.cancelled, g) := by
  simp only [leave?, h, if_true]

/-- Nobody passes a cancelled gate. -/
theorem mark?_of_cancelled (h : g.cancelled = true) : g.mark? = none := by
  simp only [mark?, leave?_of_cancelled h]

/-- Arriving leaves a cancelled gate as it is. -/
theorem approach_of_cancelled (h : g.cancelled = true) (stmt : Stmt) : g.approach stmt = g := by
  simp only [approach, h, Bool.not_true, Bool.false_and, Bool.false_eq_true, if_false]

/-- Arriving may arm the gate and does nothing else. -/
theorem approach_cases (g : Gate) (stmt : Stmt) :
    g.approach stmt = g ∨ g.hits stmt = true ∧ g.approach stmt = { g with armed := true } := by
  unfold approach
  split
  · exact .inr ⟨(Bool.and_eq_true_iff.mp ‹_›).2, rfl⟩
  · exact .inl rfl

@[simp] theorem cancelled_approach (g : Gate) (stmt : Stmt) :
    (g.approach stmt).cancelled = g.cancelled := by
  rcases g.approach_cases stmt with h | ⟨-, h⟩ <;> rw [h]

@[simp] theorem budget_approach (g : Gate) (stmt : Stmt) :
    (g.approach stmt).budget = g.budget := by
  rcases g.approach_cases stmt with h | ⟨-, h⟩ <;> rw [h]

end Gate

namespace Controls

variable {c c' : Controls}

/-- New work makes a session run again, or changes nothing. -/
theorem activate_cases (c : Controls) : c.activate.2 = (c.move .running).2 ∨ c.activate.2 = c := by
  by_cases h : (c.life.phase == .idle) = true
  · refine .inl ?_
    show ({ c with life := c.life.activate.2 } : Controls) = _
    rw [Lifecycle.activate, if_pos h]
    rfl
  · refine .inr ?_
    show ({ c with life := c.life.activate.2 } : Controls) = _
    rw [Lifecycle.activate, if_neg h]

/-- Looking for work makes a session idle, or changes nothing. -/
theorem refreshIdle_cases (c : Controls) :
    c.refreshIdle.2 = (c.move .idle).2 ∨ c.refreshIdle.2 = c := by
  unfold refreshIdle
  split
  · exact .inl rfl
  · exact .inr rfl

/-- Leaving changes the gate only. -/
theorem leave?_eq_some {passage : Passage} (h : c.leave? = some (passage, c')) :
    ∃ gate, c.gate.leave? = some (passage, gate) ∧ c' = { c with gate } := by
  unfold leave? at h
  split at h
  · cases h
    exact ⟨_, ‹_›, rfl⟩
  · cases h

/-- Nobody passes the gate but an engine that is there. -/
theorem passes_mark?_of_away {a : Act} (ha : a.atGate = false) :
    passes (c.mark? a).toList = 0 := by
  cases a with
  | step =>
    simp only [mark?]
    split <;> rfl
  | resume =>
    simp only [mark?]
    split <;> rfl
  | arrive => cases ha
  | leave => cases ha
  | _ => rfl

/-- An engine that is turned away leaves the controls as they are. -/
theorem eq_of_leave?_cancelled (h : c.leave? = some (.cancelled, c')) :
    c.gate.cancelled = true ∧ c' = c := by
  obtain ⟨gate, hgate, rfl⟩ := leave?_eq_some h
  obtain ⟨hcancelled, rfl⟩ := Gate.leave?_cancelled hgate
  exact ⟨hcancelled, rfl⟩

/-- Arriving at a cancelled gate changes nothing. -/
theorem approach_of_cancelled (h : c.gate.cancelled = true) (stmt : Stmt) :
    c.approach stmt = c := by
  simp only [approach, Gate.approach_of_cancelled h]

/-- An engine passes the gate that leaves it so. -/
theorem passes_mark?_of_passed (h : c.leave? = some (.passed, c')) :
    passes c.gate.mark?.toList = 1 := by
  obtain ⟨gate, hgate, -⟩ := leave?_eq_some h
  simp only [Gate.mark?, hgate]
  split <;> rfl

/-- Nobody passes if the engine waits or is turned away. -/
theorem passes_mark?_of_not_passed (h : ∀ c', c.leave? ≠ some (.passed, c')) :
    passes c.gate.mark?.toList = 0 := by
  unfold Gate.mark?
  split
  · rename_i gate hgate
    exact absurd (by rw [leave?, hgate]) (h { c with gate })
  · rfl

/-- An engine arrives and passes. -/
theorem act_arrive_of_some {stmt : Stmt} {passage : Passage}
    (h : (c.approach stmt).leave? = some (passage, c')) (snapshot : Snapshot) :
    c.act (.arrive stmt snapshot) = c' := by
  simp only [act, h]

/-- An engine arrives and has to wait. -/
theorem act_arrive_of_none {stmt : Stmt} (h : (c.approach stmt).leave? = none)
    (snapshot : Snapshot) :
    c.act (.arrive stmt snapshot) = ((c.approach stmt).pauseWith snapshot).2 := by
  simp only [act, h]

/-- An engine leaves. -/
theorem act_leave_of_some {passage : Passage} (h : c.leave? = some (passage, c')) :
    c.act .leave = c' := by
  simp only [act, h]

/-- An engine turned away on arrival changes nothing. -/
theorem act_atGate_of_cancelled (h : c.gate.cancelled = true) {a : Act} (ha : a.atGate = true) :
    c.act a = c ∧ c.mark? a = none := by
  have hleave : c.leave? = some (.cancelled, c) := by
    simp only [leave?, Gate.leave?_of_cancelled h]
  cases a with
  | arrive stmt snapshot =>
    have happroach := approach_of_cancelled h stmt
    refine ⟨act_arrive_of_some (by rw [happroach]; exact hleave) snapshot, ?_⟩
    simp only [mark?, Gate.approach_of_cancelled h, Gate.mark?_of_cancelled h]
  | leave => exact ⟨act_leave_of_some hleave, Gate.mark?_of_cancelled h⟩
  | _ => cases ha

end Controls

end Stepwise
