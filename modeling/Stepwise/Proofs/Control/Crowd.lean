import Stepwise.Proofs.Control.Cancellation
import Stepwise.Proofs.Control.Guards
import Stepwise.Proofs.Control.Phases

/-!
# Many engines at one gate

Any number of invocations share one set of controls. Each of them runs, waits
at the gate, and once its method has returned drops its guard and reports its
failure, in this order; requests of the host come in between, in any order.
An engine tells that the session is paused when it begins to wait, and never
again. A session with an engine that waits is therefore paused exactly until
a statement is granted or the program is resumed, even if another engine takes
the statement and ends.
-/

namespace Stepwise

namespace Controls

/-- Whether an engine has begun to wait after the last statement was granted
and the program was last resumed, if it was so before an act. -/
def halts (c : Controls) (before : Bool) : Act → Bool
  | .arrive stmt _ => before || (c.approach stmt).leave?.isNone
  | .step => before && !c.grantsStep
  | .resume => before && c.phase.isTerminal
  | _ => before

/-- Whether the host, or the session by itself, acts so while it runs. -/
def Act.isAside : Act → Bool
  | .pause | .step | .resume | .activate | .refreshIdle | .debug _ | .setBreakpoint _
  | .clearBreakpoint _ | .clearBreakpoints => true
  | _ => false

end Controls

/-- Where an invocation stands. -/
inductive Stand where
  /-- Its engine runs. -/
  | running
  /-- Its engine waits at the gate. -/
  | waiting
  /-- Its method has returned, or it has failed. -/
  | returned (failure : Option Failure)
  /-- Its guard is dropped. -/
  | released (failure : Option Failure)
  /-- Its failure, if any, is reported. -/
  | reported (failure : Option Failure)

/-- An invocation. -/
structure Invocation where
  /-- Its call stack. -/
  stack : Nat
  /-- Where it stands. -/
  stand : Stand := .running

/-- What an invocation does next. -/
inductive Invocation.Deed where
  /-- Its engine arrives at a statement, with its call stack as it is then. -/
  | arrive (stmt : Stmt) (snapshot : Snapshot)
  /-- Its engine wakes at the gate. -/
  | wake
  /-- Its method returns, or it fails. -/
  | finish (failure : Option Failure)
  /-- Its guard is dropped. -/
  | release
  /-- Its failure, if any, is reported. -/
  | report

/-- Where an engine stands that tries to leave the gate. -/
def Controls.standAt (c : Controls) : Stand :=
  match c.leave? with
  | none => .waiting
  | some (.passed, _) => .running
  | some (.cancelled, _) => .returned none

namespace Invocation

/-- What an invocation does at the controls and where it stands then, if it can. -/
def next? (c : Controls) (x : Invocation) : Deed → Option (Option Controls.Act × Stand)
  | .arrive stmt snapshot =>
    match x.stand with
    | .running => some (some (.arrive stmt snapshot), (c.approach stmt).standAt)
    | _ => none
  | .wake =>
    match x.stand with
    | .waiting => some (some .leave, c.standAt)
    | _ => none
  | .finish failure =>
    match x.stand with
    | .running => some (none, .returned failure)
    | _ => none
  | .release =>
    match x.stand with
    | .returned failure => some (some (.track (·.taskEnded x.stack)), .released failure)
    | _ => none
  | .report =>
    match x.stand with
    | .released failure => some (failure.map .fail, .reported failure)
    | _ => none

/-- The call stack, as long as the guard is alive. -/
def guard? (x : Invocation) : Option Nat :=
  match x.stand with
  | .running | .waiting | .returned _ => some x.stack
  | .released _ | .reported _ => none

/-- The failure that the method has ended with. -/
def failure? (x : Invocation) : Option Failure :=
  match x.stand with
  | .running | .waiting => none
  | .returned failure | .released failure | .reported failure => failure

/-- The failure that is reported. -/
def report? (x : Invocation) : Option Failure :=
  match x.stand with
  | .reported failure => failure
  | _ => none

end Invocation

/-- How far a request to stop the session has come. -/
inductive Halt where
  /-- Engines are turned away. -/
  | cancelled
  /-- No guard has been left. -/
  | drained
  /-- The session has been told to end. -/
  | closed
deriving DecidableEq

/-- Invocations and requests to stop, over one set of controls. -/
structure Crowd where
  /-- The controls. -/
  controls : Controls
  /-- The invocations, first one first. -/
  crew : List Invocation
  /-- The requests to stop the session, first one first. -/
  stops : List Halt := []

namespace Crowd

/-- Something that happens. -/
inductive Deed where
  /-- An invocation begins. -/
  | join (stack : Nat)
  /-- An invocation goes on. -/
  | engine (index : Nat) (d : Invocation.Deed)
  /-- The host asks for something, or the session looks whether it is idle. -/
  | aside (a : Controls.Act) (ha : a.isAside = true)
  /-- The entry point begins or ends. -/
  | entry (active : Bool)
  /-- The host begins a call. -/
  | hostCall
  /-- A call of the host ends. -/
  | hostReturn
  /-- The record of a call stack is dropped, if nothing is in flight on it. -/
  | drain (stack : Nat)
  /-- Somebody asks to stop the session. -/
  | stop
  /-- A request to stop the session finds no guard left. -/
  | drained (index : Nat)
  /-- A request to stop the session ends it, unless it has ended. -/
  | close (index : Nat)

/-- What happens at the controls, if anything. -/
def act? (k : Crowd) : Deed → Option Controls.Act
  | .join stack => some (.track (·.taskStarted stack))
  | .engine index d => (k.crew[index]?.bind (·.next? k.controls d)).bind Prod.fst
  | .aside a _ => some a
  | .entry active => some (.track (·.setEntryActive active))
  | .hostCall => some (.track (·.hostCallStarted))
  | .hostReturn => some (.track (·.hostCallEnded))
  | .drain stack => some (.track (·.drain stack))
  | .stop => some .cancel
  | .drained index =>
    if k.stops[index]? = some .cancelled ∧ k.controls.tracker.allDrained = true then
      some (.track (·.drainAll))
    else none
  | .close index => if k.stops[index]? = some .drained then some .close else none

/-- The invocations then. -/
def crewAfter (k : Crowd) : Deed → List Invocation
  | .join stack => k.crew ++ [⟨stack, .running⟩]
  | .engine index d =>
    match k.crew[index]? with
    | none => k.crew
    | some x =>
      match x.next? k.controls d with
      | none => k.crew
      | some (_, stand) => k.crew.set index { x with stand }
  | _ => k.crew

/-- The requests to stop the session then. -/
def stopsAfter (k : Crowd) : Deed → List Halt
  | .stop => k.stops ++ [.cancelled]
  | .drained index =>
    if k.stops[index]? = some .cancelled ∧ k.controls.tracker.allDrained = true then
      k.stops.set index .drained
    else k.stops
  | .close index =>
    if k.stops[index]? = some .drained then k.stops.set index .closed else k.stops
  | _ => k.stops

/-- Whatever happens, happens at the controls if at all. -/
def perform (k : Crowd) (d : Deed) : Crowd :=
  ⟨(k.act? d).elim k.controls k.controls.act, k.crewAfter d, k.stopsAfter d⟩

/-- One thing after the other. -/
def after (k : Crowd) (deeds : List Deed) : Crowd := deeds.foldl perform k

/-- A session whose entry point begins to run. -/
def opening (gate : Gate) (stack : Nat) : Crowd where
  controls :=
    { ({} : Controls).perform [.prepare, .track (·.setEntryActive true),
        .track (·.taskStarted stack), .run] with gate }
  crew := [⟨stack, .running⟩]

/-- Whether an engine has begun to wait after the last statement was granted
and the program was last resumed, if it was so before. -/
def halted (k : Crowd) (before : Bool) : List Deed → Bool
  | [] => before
  | d :: deeds => (k.perform d).halted ((k.act? d).elim before (k.controls.halts before)) deeds

end Crowd

namespace Controls

variable {c : Controls}

/-- An engine passes a gate that is open, or that has a statement for it. -/
theorem leave?_of_open (hopen : c.gate.cancelled = false)
    (h : c.gate.armed = false ∨ 0 < c.gate.budget) : ∃ c', c.leave? = some (.passed, c') := by
  cases hgate : c.gate.leave? with
  | none =>
    obtain ⟨-, harmed, hbudget⟩ := Gate.leave?_none hgate
    rw [harmed, hbudget] at h
    exact absurd h (by decide)
  | some left =>
    obtain ⟨passage, gate⟩ := left
    cases passage with
    | passed => exact ⟨{ c with gate }, by rw [leave?, hgate]⟩
    | cancelled =>
      rw [(Gate.leave?_cancelled hgate).1] at hopen
      cases hopen

/-- A session with work in flight is paused after an act if an engine has
begun to wait and nothing was granted since, and runs otherwise. -/
theorem phase_act_of_busy {halted : Bool} (hphase : c.phase = if halted then .paused else .running)
    (hbusy : c.tracker.isQuiet = false) {a : Act} (hrun : a ≠ .run) (hclose : a ≠ .close)
    (hopen : (c.act a).gate.cancelled = false) :
    (c.act a).phase = if c.halts halted a then .paused else .running := by
  have hterminal : c.phase.isTerminal = false := by rw [hphase]; cases halted <;> rfl
  have hbegun : c.phase.hasBegun = true := by rw [hphase]; cases halted <;> rfl
  have hidle : c.phase ≠ .idle := by rw [hphase]; cases halted <;> decide
  cases a with
  | run => exact absurd rfl hrun
  | close => exact absurd rfl hclose
  | cancel => cases hopen
  | fail f => cases hopen
  | prepare =>
    have hmove : c.phase.canMove .preparing = false := by rw [hphase]; cases halted <;> rfl
    exact (phase_move_of_not_canMove hmove).trans hphase
  | pause =>
    simp only [act, hterminal, Bool.false_eq_true, if_false, phase_pause, if_neg hidle]
    exact hphase
  | step =>
    have hgrants : c.grantsStep = halted := by
      rw [grantsStep, hphase, hbusy]
      cases halted <;> rfl
    simp only [act, halts, hgrants]
    cases halted with
    | false => exact hphase
    | true => exact phase_step hphase
  | resume =>
    simp only [act, halts, hterminal, Bool.and_false, Bool.false_eq_true, if_false, phase_release]
    rw [hphase, hbusy]
    cases halted <;> rfl
  | activate =>
    simp only [act, phase_activate, if_neg hidle]
    exact hphase
  | refreshIdle =>
    simp only [act, refreshIdle, hbusy, Bool.and_false, Bool.false_eq_true, if_false]
    exact hphase
  | arrive stmt snapshot =>
    cases hleave : (c.approach stmt).leave? with
    | none =>
      rw [phase_arrive_of_none hbegun hterminal hleave]
      simp only [halts, hleave, Option.isNone_none, Bool.or_true, if_true]
    | some left =>
      obtain ⟨gate, -, hleft⟩ := leave?_eq_some hleave
      rw [act_arrive_of_some hleave, hleft]
      simp only [halts, hleave, Option.isNone_some, Bool.or_false]
      exact hphase
  | leave =>
    simp only [act]
    split
    · obtain ⟨gate, -, hleft⟩ := leave?_eq_some ‹c.leave? = some _›
      rw [hleft]
      exact hphase
    · exact hphase
  | _ => exact hphase

end Controls

namespace Crowd

variable {k : Crowd}

/-- All that can happen: at the controls, to the invocations and to the requests to stop. -/
inductive Turn (k : Crowd) : Option Controls.Act → List Invocation → List Halt → Prop where
  /-- Nothing. -/
  | nothing : Turn k none k.crew k.stops
  /-- An invocation begins. -/
  | joins (stack : Nat) :
    Turn k (some (.track (·.taskStarted stack))) (k.crew ++ [⟨stack, .running⟩]) k.stops
  /-- An engine arrives at a statement. -/
  | arrives {before after : List Invocation} {stack : Nat} (stmt : Stmt) (snapshot : Snapshot) :
    k.crew = before ++ ⟨stack, .running⟩ :: after →
      Turn k (some (.arrive stmt snapshot))
        (before ++ ⟨stack, (k.controls.approach stmt).standAt⟩ :: after) k.stops
  /-- An engine wakes at the gate. -/
  | wakes {before after : List Invocation} {stack : Nat} :
    k.crew = before ++ ⟨stack, .waiting⟩ :: after →
      Turn k (some .leave) (before ++ ⟨stack, k.controls.standAt⟩ :: after) k.stops
  /-- A method returns, or fails. -/
  | finishes {before after : List Invocation} {stack : Nat} (failure : Option Failure) :
    k.crew = before ++ ⟨stack, .running⟩ :: after →
      Turn k none (before ++ ⟨stack, .returned failure⟩ :: after) k.stops
  /-- A guard is dropped. -/
  | releases {before after : List Invocation} {stack : Nat} {failure : Option Failure} :
    k.crew = before ++ ⟨stack, .returned failure⟩ :: after →
      Turn k (some (.track (·.taskEnded stack)))
        (before ++ ⟨stack, .released failure⟩ :: after) k.stops
  /-- A failure is reported, if there is one. -/
  | reports {before after : List Invocation} {stack : Nat} {failure : Option Failure} :
    k.crew = before ++ ⟨stack, .released failure⟩ :: after →
      Turn k (failure.map .fail) (before ++ ⟨stack, .reported failure⟩ :: after) k.stops
  /-- The host asks for something, or the session looks whether it is idle. -/
  | asides {a : Controls.Act} : a.isAside = true → Turn k (some a) k.crew k.stops
  /-- The account of work in flight changes, and guards are counted as before. -/
  | tallies {change : Tracker → Tracker} :
    (∀ t live, t.Counts live → (change t).Counts live) →
      Turn k (some (.track change)) k.crew k.stops
  /-- Somebody asks to stop the session. -/
  | stops : Turn k (some .cancel) k.crew (k.stops ++ [.cancelled])
  /-- A request to stop the session finds no guard left. -/
  | drains {index : Nat} : k.stops[index]? = some .cancelled →
    k.controls.tracker.allDrained = true →
      Turn k (some (.track (·.drainAll))) k.crew (k.stops.set index .drained)
  /-- A request to stop the session ends it, unless it has ended. -/
  | closes {index : Nat} : k.stops[index]? = some .drained →
    Turn k (some .close) k.crew (k.stops.set index .closed)

/-- An invocation and its neighbours. -/
theorem crew_eq_of_getElem? {index : Nat} {x : Invocation} (h : k.crew[index]? = some x)
    (y : Invocation) : ∃ before after, k.crew = before ++ x :: after ∧
      k.crew.set index y = before ++ y :: after := by
  obtain ⟨hlt, rfl⟩ := List.getElem?_eq_some_iff.mp h
  refine ⟨k.crew.take index, k.crew.drop (index + 1), ?_, ?_⟩
  · rw [List.getElem_cons_drop, List.take_append_drop]
  · rw [List.set_eq_take_append_cons_drop, if_pos hlt]

theorem turn_engine (k : Crowd) (index : Nat) (d : Invocation.Deed) :
    k.Turn (k.act? (.engine index d)) (k.crewAfter (.engine index d)) k.stops := by
  simp only [act?, crewAfter]
  cases hx : k.crew[index]? with
  | none => exact .nothing
  | some x =>
    obtain ⟨stack, stand⟩ := x
    simp only [Option.bind_some]
    cases hnext : Invocation.next? k.controls ⟨stack, stand⟩ d with
    | none => exact .nothing
    | some next =>
      obtain ⟨act, stand'⟩ := next
      obtain ⟨before, after, hcrew, hset⟩ := crew_eq_of_getElem? hx ⟨stack, stand'⟩
      simp only [Option.bind_some]
      rw [hset]
      -- what it does next depends on where it stands
      cases d with
      | arrive stmt snapshot =>
        cases stand <;> cases hnext
        exact .arrives stmt snapshot hcrew
      | wake =>
        cases stand <;> cases hnext
        exact .wakes hcrew
      | finish failure =>
        cases stand <;> cases hnext
        exact .finishes failure hcrew
      | release =>
        cases stand <;> cases hnext
        exact .releases hcrew
      | report =>
        cases stand <;> cases hnext
        exact .reports hcrew

/-- Whatever happens is one of these. -/
theorem turn (k : Crowd) (d : Deed) : k.Turn (k.act? d) (k.crewAfter d) (k.stopsAfter d) := by
  cases d with
  | join stack => exact .joins stack
  | engine index d => exact k.turn_engine index d
  | aside a ha => exact .asides ha
  | entry active => exact .tallies fun t _ h => h.aside active t.hostCalls
  | hostCall => exact .tallies fun t _ h => h.aside t.entryActive (t.hostCalls + 1)
  | hostReturn => exact .tallies fun t _ h => h.aside t.entryActive (t.hostCalls - 1)
  | drain stack => exact .tallies fun _ _ h => h.drain stack
  | stop => exact .stops
  | drained index =>
    simp only [act?, stopsAfter]
    split
    · rename_i h
      exact .drains h.1 h.2
    · exact .nothing
  | close index =>
    simp only [act?, stopsAfter]
    split
    · exact .closes ‹_›
    · exact .nothing

/-- When one invocation goes on, nobody else changes. -/
theorem mem_or_eq {before after : List Invocation} {x y z : Invocation}
    (h : z ∈ before ++ y :: after) : z ∈ before ++ x :: after ∨ z = y := by
  simp only [List.mem_append, List.mem_cons] at h ⊢
  grind

/-- The call stacks whose guards are alive. -/
def live (k : Crowd) : List Nat := k.crew.filterMap Invocation.guard?

/-- What holds whatever happens, if an engine has begun to wait after the last
statement was granted and the program was last resumed, or if not. -/
structure Steady (k : Crowd) (halted : Bool) : Prop where
  /-- Guards are counted. -/
  counts : k.controls.tracker.Counts k.live
  /-- The session has begun to run. -/
  begun : k.controls.phase.hasBegun = true
  /-- If it has ended, engines are turned away. -/
  sealed : k.controls.Sealed
  /-- If somebody has asked to stop it, engines are turned away. -/
  turnsAway : k.stops ≠ [] → k.controls.gate.cancelled = true
  /-- While an engine waits, the session is paused or runs. -/
  held : k.controls.gate.cancelled = false → (∃ x ∈ k.crew, x.stand = .waiting) →
    k.controls.phase = if halted then .paused else .running

theorem steady_opening (gate : Gate) (stack : Nat) : (opening gate stack).Steady false where
  counts := by
    have hcounts := (Tracker.counts_new.aside true 0).taskStarted stack
    exact hcounts
  begun := rfl
  sealed := fun h => by cases h
  turnsAway := fun h => absurd rfl h
  held := fun _ _ => rfl

/-- An engine at the gate has its guard. -/
theorem guard?_standAt (c : Controls) (stack : Nat) :
    Invocation.guard? ⟨stack, c.standAt⟩ = some stack := by
  unfold Controls.standAt
  split <;> rfl

/-- The controls after what happens at them, if anything. -/
def actAfter (c : Controls) (act : Option Controls.Act) : Controls := act.elim c c.act

section Turns

variable {act : Option Controls.Act} {crew : List Invocation} {stops : List Halt} {halted : Bool}

/-- Guards are counted whatever happens. -/
theorem Turn.counts (ht : k.Turn act crew stops) (h : k.controls.tracker.Counts k.live) :
    (actAfter k.controls act).tracker.Counts (crew.filterMap Invocation.guard?) := by
  have hsame : ∀ {before after : List Invocation} {stack : Nat} {stand : Stand},
      k.crew = before ++ ⟨stack, stand⟩ :: after → ∀ stand' : Stand,
      Invocation.guard? ⟨stack, stand⟩ = Invocation.guard? ⟨stack, stand'⟩ →
      k.live = (before ++ ⟨stack, stand'⟩ :: after).filterMap Invocation.guard? := by
    intro before after stack stand hcrew stand' hguard
    rw [live, hcrew, List.filterMap_append, List.filterMap_append, List.filterMap_cons,
      List.filterMap_cons, hguard]
  cases ht with
  | nothing => exact h
  | joins stack =>
    rw [List.filterMap_append]
    exact (h.taskStarted stack).perm (List.perm_append_singleton stack k.live).symm
  | arrives stmt snapshot hcrew =>
    rw [← hsame hcrew _ (guard?_standAt _ _).symm]
    exact (k.controls.tracker_act (a := .arrive stmt snapshot) rfl).symm ▸ h
  | wakes hcrew =>
    rw [← hsame hcrew _ (guard?_standAt _ _).symm]
    exact (k.controls.tracker_act (a := .leave) rfl).symm ▸ h
  | finishes failure hcrew =>
    rw [← hsame hcrew (.returned failure) rfl]
    exact h
  | @releases before after stack failure hcrew =>
    refine (h.taskEnded stack).perm ?_
    -- the guard that is dropped is one of those that were alive
    have hlive : k.live = before.filterMap Invocation.guard? ++
        stack :: after.filterMap Invocation.guard? := by
      rw [live, hcrew, List.filterMap_append]
      rfl
    have hperm : k.live.Perm (stack :: (before.filterMap Invocation.guard? ++
        after.filterMap Invocation.guard?)) := hlive ▸ List.perm_middle
    have herased := hperm.erase stack
    rw [List.erase_cons_head] at herased
    rw [List.filterMap_append]
    exact herased
  | @reports before after stack failure hcrew =>
    rw [← hsame hcrew (.reported failure) rfl]
    cases failure <;> exact h
  | @asides a ha =>
    have hspares : a.sparesTracker = true := by
      cases a <;> first | rfl | cases ha
    exact (k.controls.tracker_act hspares).symm ▸ h
  | tallies hkeeps => exact hkeeps _ _ h
  | stops => exact h
  | drains _ _ => exact h.drainAll
  | closes _ => exact h

/-- A session is closed only when engines are turned away, and it does not begin to run again. -/
theorem Turn.lawful (ht : k.Turn act crew stops) {a : Controls.Act} (ha : act = some a) :
    a ≠ .run ∧ (a = .close → k.stops ≠ []) := by
  cases ht with
  | closes hstop =>
    cases ha
    exact ⟨Controls.Act.noConfusion, fun _ => List.ne_nil_of_mem (List.mem_of_getElem? hstop)⟩
  | @reports _ _ _ failure _ =>
    cases failure <;> cases ha
    exact ⟨Controls.Act.noConfusion, Controls.Act.noConfusion⟩
  | asides haside =>
    cases ha
    refine ⟨?_, ?_⟩
    · rintro rfl
      cases haside
    · rintro rfl
      cases haside
  | _ => cases ha <;> exact ⟨Controls.Act.noConfusion, Controls.Act.noConfusion⟩

/-- An engine that waits has waited before, or begins to. -/
theorem Turn.waiting (ht : k.Turn act crew stops) {x : Invocation} (hx : x ∈ crew)
    (hwaits : x.stand = .waiting) : (∃ y ∈ k.crew, y.stand = .waiting) ∨
      ∃ stmt snapshot, act = some (.arrive stmt snapshot) ∧
        (k.controls.approach stmt).leave? = none := by
  have hother : ∀ {before after : List Invocation} {stack : Nat} {stand stand' : Stand},
      k.crew = before ++ ⟨stack, stand⟩ :: after →
      x ∈ before ++ ⟨stack, stand'⟩ :: after →
      (∃ y ∈ k.crew, y.stand = .waiting) ∨ stand' = .waiting := by
    intro before after stack stand stand' hcrew hmem
    rcases mem_or_eq hmem with hmem | rfl
    · exact .inl ⟨x, hcrew ▸ hmem, hwaits⟩
    · exact .inr hwaits
  cases ht with
  | joins stack =>
    rcases List.mem_append.mp hx with hx | hx
    · exact .inl ⟨x, hx, hwaits⟩
    · rw [List.mem_singleton.mp hx] at hwaits
      cases hwaits
  | arrives stmt snapshot hcrew =>
    refine (hother hcrew hx).imp id fun hstand => ⟨stmt, snapshot, rfl, ?_⟩
    unfold Controls.standAt at hstand
    split at hstand
    · assumption
    · cases hstand
    · cases hstand
  | wakes hcrew =>
    exact .inl ⟨_, hcrew ▸ List.mem_append_right _ List.mem_cons_self, rfl⟩
  | finishes failure hcrew => exact .inl ((hother hcrew hx).resolve_right Stand.noConfusion)
  | releases hcrew => exact .inl ((hother hcrew hx).resolve_right Stand.noConfusion)
  | reports hcrew => exact .inl ((hother hcrew hx).resolve_right Stand.noConfusion)
  | _ => exact .inl ⟨x, hx, hwaits⟩

/-- Requests to stop the session come first, and turn engines away. -/
theorem Turn.turnsAway (ht : k.Turn act crew stops)
    (h : k.stops ≠ [] → k.controls.gate.cancelled = true) (hstops : stops ≠ []) :
    (actAfter k.controls act).gate.cancelled = true := by
  have hkeeps : k.controls.gate.cancelled = true →
      (actAfter k.controls act).gate.cancelled = true := by
    intro hcancelled
    cases act with
    | none => exact hcancelled
    | some a => exact Controls.cancelled_act hcancelled a
  have hset : ∀ {index : Nat} {halt : Halt}, k.stops[index]? = some halt → k.stops ≠ [] :=
    fun hget => List.ne_nil_of_mem (List.mem_of_getElem? hget)
  cases ht with
  | stops => rfl
  | drains hget _ => exact hkeeps (h (hset hget))
  | closes hget => exact hkeeps (h (hset hget))
  | _ => exact hkeeps (h hstops)

end Turns

/-- An engine that waits has its guard. -/
theorem Steady.busy {halted : Bool} (h : k.Steady halted) {x : Invocation} (hx : x ∈ k.crew)
    (hwaits : x.stand = .waiting) : k.controls.tracker.isQuiet = false := by
  have hguard : x.guard? = some x.stack := by
    rw [Invocation.guard?, hwaits]
  exact h.counts.not_isQuiet (List.mem_filterMap.mpr ⟨x, hx, hguard⟩)

/-- Whatever happens. -/
theorem Steady.perform {halted : Bool} (h : k.Steady halted) (d : Deed) :
    (k.perform d).Steady ((k.act? d).elim halted (k.controls.halts halted)) := by
  have ht := k.turn d
  have hcounts := ht.counts h.counts
  have haway := ht.turnsAway h.turnsAway
  show Steady ⟨actAfter k.controls (k.act? d), k.crewAfter d, k.stopsAfter d⟩ _
  generalize k.act? d = act at ht hcounts haway
  generalize k.crewAfter d = crew at ht hcounts
  generalize k.stopsAfter d = stops at ht haway
  cases act with
  | none =>
    refine ⟨hcounts, h.begun, h.sealed, haway, fun hopen ⟨x, hx, hwaits⟩ => ?_⟩
    rcases ht.waiting hx hwaits with hbefore | ⟨stmt, snapshot, hact, -⟩
    · exact h.held hopen hbefore
    · cases hact
  | some a =>
    obtain ⟨hrun, hclose⟩ := ht.lawful rfl
    refine ⟨hcounts, Controls.hasBegun_act h.begun a,
      h.sealed.act fun ha => h.turnsAway (hclose ha), haway, fun hopen ⟨x, hx, hwaits⟩ => ?_⟩
    change (k.controls.act a).gate.cancelled = false at hopen
    have hbefore : k.controls.gate.cancelled = false := by
      refine Bool.eq_false_iff.mpr fun hcancelled => ?_
      rw [Controls.cancelled_act hcancelled a] at hopen
      cases hopen
    rcases ht.waiting hx hwaits with ⟨y, hy, hywaits⟩ | ⟨stmt, snapshot, hact, hleave⟩
    · refine Controls.phase_act_of_busy (h.held hbefore ⟨y, hy, hywaits⟩) (h.busy hy hywaits) hrun
        (fun ha => ?_) hopen
      rw [h.turnsAway (hclose ha)] at hbefore
      cases hbefore
    · cases hact
      have hended : k.controls.phase.isTerminal = false := by
        refine Bool.eq_false_iff.mpr fun hended => ?_
        rw [h.sealed hended] at hbefore
        cases hbefore
      rw [Option.elim_some, Controls.halts, hleave, Option.isNone_none, Bool.or_true, if_pos rfl]
      exact Controls.phase_arrive_of_none h.begun hended hleave snapshot

/-- Whatever happens, one thing after the other. -/
theorem Steady.after {halted : Bool} (h : k.Steady halted) (deeds : List Deed) :
    (k.after deeds).Steady (k.halted halted deeds) := by
  induction deeds generalizing k halted with
  | nil => exact h
  | cons d deeds ih => exact ih (h.perform d)

/-- What becomes of an engine that waits at a gate which turns nobody away,
if an engine has begun to wait after the last statement was granted and the
program was last resumed, or if not. -/
structure Answers (k : Crowd) (halted : Bool) : Prop where
  /-- The session is paused if so, and runs if not. -/
  phase : k.controls.phase = if halted then .paused else .running
  /-- A statement is granted if and only if so. -/
  grants : k.controls.grantsStep = halted
  /-- If so, an engine that waits passes for the statement that is granted. -/
  steps : halted = true → ∃ c, (k.controls.act .step).leave? = some (.passed, c)
  /-- In any case it passes when the program is resumed. -/
  resumes : ∃ c, (k.controls.act .resume).leave? = some (.passed, c)

/-- A session with an engine that waits is paused, and grants a statement, as
long as nothing is granted and the program is not resumed after an engine has
begun to wait, whatever else happens. -/
theorem paused_while_halted (gate : Gate) (stack : Nat) (deeds : List Deed)
    (hopen : ((opening gate stack).after deeds).controls.gate.cancelled = false)
    (hwaits : ∃ x ∈ ((opening gate stack).after deeds).crew, x.stand = .waiting) :
    ((opening gate stack).after deeds).Answers ((opening gate stack).halted false deeds) := by
  have hsteady := (steady_opening gate stack).after deeds
  generalize (opening gate stack).halted false deeds = halted at hsteady
  generalize (opening gate stack).after deeds = k at hsteady hopen hwaits
  obtain ⟨x, hx, hstand⟩ := hwaits
  have hphase := hsteady.held hopen ⟨x, hx, hstand⟩
  have hbusy := hsteady.busy hx hstand
  have hgrants : k.controls.grantsStep = halted := by
    rw [Controls.grantsStep, hphase, hbusy]
    cases halted <;> rfl
  refine ⟨hphase, hgrants, fun hhalted => ?_, ?_⟩
  · have hact : k.controls.act .step = k.controls.step.2 := if_pos (hgrants.trans hhalted)
    have hpaused : k.controls.phase = .paused := by rw [hphase, hhalted, if_pos rfl]
    rw [hact]
    refine Controls.leave?_of_open ?_ (.inr ?_)
    · rw [Controls.gate_step hpaused]
      exact hopen
    · rw [Controls.gate_step hpaused]
      exact Nat.succ_pos _
  · have hnot : ¬ k.controls.phase.isTerminal = true := by
      rw [hphase]
      cases halted <;> exact Bool.false_ne_true
    have hact : k.controls.act .resume = k.controls.release := if_neg hnot
    rw [hact]
    refine Controls.leave?_of_open ?_ (.inl ?_)
    · rw [Controls.gate_release]
      exact hopen
    · rw [Controls.gate_release]

/-- An engine is told to wait, and is granted a statement. -/
theorem one_waits_and_steps : ∃ deeds, (((opening {} 0).after deeds).crew.map (·.stand) =
    [.waiting]) ∧ ((opening {} 0).after deeds).Answers true :=
  ⟨[.aside .pause rfl, .engine 0 (.arrive (.ret none default) .empty)], rfl,
    paused_while_halted {} 0 _ rfl ⟨⟨0, .waiting⟩, List.mem_cons_self, rfl⟩⟩

/-- An engine waits, no engine runs and nothing is granted, but the session is
not paused and grants nothing. -/
structure Stranded (k : Crowd) : Prop where
  /-- An engine waits. -/
  waits : ∃ x ∈ k.crew, x.stand = .waiting
  /-- No engine runs. -/
  rests : ∀ x ∈ k.crew, x.stand ≠ .running
  /-- Nothing is granted. -/
  spent : k.controls.gate.budget = 0
  /-- Nobody is turned away. -/
  turnsNobodyAway : k.controls.gate.cancelled = false
  /-- The session is not paused. -/
  phase : k.controls.phase = .running
  /-- It grants nothing. -/
  refuses : k.controls.grantsStep = false

/-- Two engines wait for a statement, and the one that it is granted to ends. -/
def oneEnds : List Deed :=
  [.aside .pause rfl, .join 1, .engine 0 (.arrive (.ret none default) .empty),
    .engine 1 (.arrive (.ret none default) .empty), .aside .step rfl, .engine 0 .wake,
    .engine 1 .wake, .engine 0 (.finish none), .engine 0 .release, .engine 0 .report,
    .aside .refreshIdle rfl, .entry false, .aside .refreshIdle rfl]

/-- The program is resumed and paused before the engine that waits wakes. -/
def pausedTooSoon : List Deed :=
  [.aside .pause rfl, .engine 0 (.arrive (.ret none default) .empty), .aside .resume rfl,
    .aside .pause rfl, .engine 0 .wake]

/-- Either way an engine waits for good in a session that is said to run. -/
theorem engines_stranded :
    ((opening {} 0).after oneEnds).Stranded ∧ ((opening {} 0).after pausedTooSoon).Stranded := by
  refine ⟨⟨⟨⟨1, .waiting⟩, ?_, rfl⟩, ?_, rfl, rfl, rfl, rfl⟩,
    ⟨⟨⟨0, .waiting⟩, ?_, rfl⟩, ?_, rfl, rfl, rfl, rfl⟩⟩
  · exact List.mem_cons_of_mem _ List.mem_cons_self
  · intro x hx
    rcases List.mem_cons.mp hx with rfl | hx
    · exact Stand.noConfusion
    · rw [List.mem_singleton.mp hx]
      exact Stand.noConfusion
  · exact List.mem_cons_self
  · intro x hx
    rw [List.mem_singleton.mp hx]
    exact Stand.noConfusion

end Crowd

end Stepwise
