import Stepwise.Proofs.Session.Work

/-!
# Moves of a session

Requests of the host, the worker and the tasks take turns. Each of them makes
one move, and the moves may come in any order and any number of times. A move
changes the world by elementary changes and gives the signals that it is
supposed to give, so that whatever elementary changes keep, all moves keep.
-/

namespace Stepwise

open Controls (Act)

/-- Whether a task waits to end the session. -/
def Stage.isStopping : Stage → Bool
  | .stopping _ => true
  | _ => false

/-- A worker that waits at the gate is ready to go on with its piece of work,
or to give it up. -/
def Worker.Ready : Worker → Prop
  | .held resume =>
    (∀ v, ∃ v' r, resume .cancelled v = .done v' r ∧ v.Works v' r) ∧
      ∃ stmt, ∀ v, (resume .passed v).Strides (v.observe true stmt)
  | _ => True

/-- The failures that a report tells of. -/
def Report.failures : Report → List Failure
  | .prepared _ _ outcome => Unwind.failures outcome
  | .ended _ outcome => Unwind.failures outcome

/-- The failures that a piece of work reports if it ends now. -/
def Run.reports : Run Report → List Failure
  | .done _ (.ok report) => report.failures
  | _ => []

namespace Session

/-- Some task waits to end the session. -/
def Stopping (s : Session) : Prop := ∃ t ∈ s.tasks, t.stage.isStopping = true

/-- A session that goes on by itself and answers requests. -/
structure InOrder (s : Session) : Prop where
  /-- Its worker is ready. -/
  worker : s.worker.Ready
  /-- A task that waits to end the session has turned engines away. -/
  stopping : s.Stopping → s.world.controls.gate.cancelled = true

/-- From one session to another by elementary changes with signals. -/
structure Leads (s : Session) (signals : List Act) (s' : Session) : Prop where
  /-- The world changes so. -/
  changes : ∃ acts, World.Changes acts s.world s'.world ∧ Act.signals acts = signals
  /-- The worker stays ready. -/
  worker : s.worker.Ready → s'.worker.Ready
  /-- A task that comes to wait for the end has turned engines away. -/
  stopping : s'.Stopping → s.Stopping ∨ s'.world.controls.gate.cancelled = true

section Leads

variable {s s' s'' : Session} {signals more : List Act}

theorem Leads.refl (s : Session) : s.Leads [] s := ⟨⟨[], .refl _, rfl⟩, id, .inl⟩

theorem Leads.trans (h : s.Leads signals s') (h' : s'.Leads more s'') :
    s.Leads (signals ++ more) s'' := by
  obtain ⟨acts, hchanges, hsignals⟩ := h.changes
  obtain ⟨acts', hchanges', hsignals'⟩ := h'.changes
  refine ⟨⟨acts ++ acts', hchanges.trans hchanges', ?_⟩, fun hw => h'.worker (h.worker hw),
    fun hs => ?_⟩
  · rw [Act.signals_append, hsignals, hsignals']
  · rcases h'.stopping hs with hs' | hc
    · exact (h.stopping hs').imp id fun hc => (hchanges'.of_cancelled hc).1
    · exact .inr hc

/-- Going on without signals. -/
theorem Leads.still (h : s.Leads signals s') (h' : s'.Leads [] s'') : s.Leads signals s'' :=
  List.append_nil signals ▸ h.trans h'

theorem InOrder.leads (hs : s.InOrder) (h : s.Leads signals s') : s'.InOrder where
  worker := h.worker hs.worker
  stopping := by
    intro hstop
    obtain ⟨acts, hchanges, -⟩ := h.changes
    exact (h.stopping hstop).elim (fun hs' => (hchanges.of_cancelled (hs.stopping hs')).1) id

/-- Only the world changes. -/
theorem leads_world {acts : List Act} {world : World} (h : World.Changes acts s.world world) :
    s.Leads (Act.signals acts) { s with world } :=
  ⟨⟨acts, h, rfl⟩, id, .inl⟩

/-- Only the books about tasks change. -/
theorem leads_tasks {code : Option Code} {tasks : List Task} {endings : List Ending}
    (h : (∃ t ∈ tasks, t.stage.isStopping = true) → s.Stopping ∨
      s.world.controls.gate.cancelled = true) :
    s.Leads [] { s with code, tasks, endings } :=
  ⟨⟨[], .refl _, rfl⟩, id, h⟩

theorem leads_act (s : Session) (a : Act) (ha : a.isPlain = true) :
    s.Leads (Act.signals [a]) (s.mapControls (·.act a)) :=
  leads_world (World.Change.plain s.world a ha).changes

theorem leads_track (s : Session) (f : Tracker → Tracker) : s.Leads [] (s.mapTracker f) :=
  s.leads_act (.track f) rfl

theorem leads_refreshIdle (s : Session) : s.Leads [] s.refreshIdle :=
  s.leads_act .refreshIdle rfl

theorem leads_finish (s : Session) (ticket : Nat) (kind : TaskKind) (begun : Bool)
    (result : Except SessionError Val) : s.Leads [] (s.finish ticket kind begun result) := by
  refine leads_tasks ?_
  rintro ⟨t, ht, hstage⟩
  exact .inl ⟨t, (List.mem_filter.mp ht).1, hstage⟩

/-- A task comes to another stage; to wait for the end engines are turned away first. -/
theorem leads_setStage (s : Session) (ticket : Nat) (stage : Stage)
    (h : stage.isStopping = false ∨ s.world.controls.gate.cancelled = true) :
    s.Leads [] (s.setStage ticket stage) := by
  refine leads_tasks ?_
  rintro ⟨t, ht, hstage⟩
  obtain ⟨t', ht', rfl⟩ := List.mem_map.mp ht
  split at hstage
  · exact .inr (h.resolve_left (Bool.ne_false_iff.mpr hstage))
  · exact .inl ⟨t', ht', hstage⟩

/-- A task is begun; to wait for the end engines are turned away first. -/
theorem leads_begin (s : Session) (task : Task)
    (h : task.stage.isStopping = false ∨ s.world.controls.gate.cancelled = true) :
    s.Leads [] { s with tasks := s.tasks ++ [task] } := by
  refine leads_tasks ?_
  rintro ⟨t, ht, hstage⟩
  rcases List.mem_append.mp ht with ht | ht
  · exact .inl ⟨t, ht, hstage⟩
  · cases List.mem_singleton.mp ht
    exact .inr (h.resolve_left (Bool.ne_false_iff.mpr hstage))

/-- Work is submitted with a task that waits for it. -/
theorem leads_submit (s : Session) (job : Job) (task : Task)
    (h : task.stage.isStopping = false) :
    s.Leads [] { s with
      world := { s.world with jobs := s.world.jobs ++ [job] }
      tasks := s.tasks ++ [task] } := by
  have hworld : s.Leads [] { s with world := { s.world with jobs := s.world.jobs ++ [job] } } :=
    leads_world (World.Change.around _ _ _ _ _ _).changes
  exact hworld.still (leads_begin _ task (.inl h))

end Leads

section Reports

theorem leads_workEnded (s : Session) (t : Task) (outcome : Except Unwind Val) :
    s.Leads [] (s.workEnded t outcome) :=
  ((s.leads_track _).still (leads_refreshIdle _)).still (leads_setStage _ _ _ (.inl rfl))

theorem leads_turnAway (s : Session) : s.Leads [] s.turnAway :=
  (s.leads_track _).still (leads_world (World.Change.around _ _ _ _ _ _).changes)

/-- The failures that are reported when a report is taken in. -/
def received : Report → List Failure
  | .prepared _ _ outcome => Unwind.failures outcome
  | .ended .. => []

/-- A program is prepared and its entry point begins, unless the session has
ended meanwhile. -/
theorem leads_prepared (s : Session) (ticket : Nat) (args : List String) (code : Code)
    (entry : Method) : s.Leads [] (s.receive (.prepared ticket args (.ok (code, entry)))) := by
  have hstack : s.Leads [] { s with code := some code, world := s.world.newStack } :=
    (leads_world s.world.changes_newStack).still (leads_tasks .inl)
  have htracked := hstack.still (leads_track _
    fun t => (t.setEntryActive true).taskStarted s.world.newStack.stack.id)
  simp only [receive]
  split
  · refine (htracked.still (leads_act _ .run rfl)).still ?_
    refine (leads_world (World.Change.around _ _ _ _ _ _).changes).still (leads_tasks ?_)
    rintro ⟨t, ht, hstage⟩
    obtain ⟨t', ht', rfl⟩ := List.mem_map.mp ht
    refine .inl ⟨t', ht', ?_⟩
    split at hstage <;> exact hstage
  · exact (htracked.still (leads_track _ _)).still (leads_finish _ _ _ _ _)

theorem leads_receive (s : Session) (report : Report) :
    s.Leads ((received report).map .fail) (s.receive report) := by
  cases report with
  | ended ticket outcome =>
    cases ticket with
    | none => exact .refl _
    | some ticket =>
      simp only [receive]
      split
      · exact s.leads_workEnded _ outcome
      · exact .refl _
  | prepared ticket args outcome =>
    rcases outcome with (f | _) | ⟨code, entry⟩
    · exact ((s.leads_act (.fail f) rfl).still (leads_turnAway _)).still (leads_finish _ _ _ _ _)
    · exact leads_finish _ _ _ _ _
    · exact s.leads_prepared ticket args code entry

/-- A piece of work that begins in a world comes to an end or to the gate. -/
theorem leads_absorb (s : Session) {acts : List Act} {w : World} {x : Run Report}
    (hacts : World.Changes acts s.world w) (hquiet : Act.signals acts = []) (hx : x.Strides w) :
    s.Leads (x.reports.map .fail) (s.absorb x) := by
  cases x with
  | exhausted => exact ⟨⟨[], .refl _, rfl⟩, fun _ => trivial, .inl⟩
  | held w' resume =>
    obtain ⟨⟨more, hengine, hmore⟩, hready⟩ := hx
    refine ⟨⟨acts ++ more, hacts.trans hmore, ?_⟩, fun _ => hready, .inl⟩
    rw [Act.signals_append, hquiet, Act.signals_of_byEngine hengine]
    rfl
  | done w' r =>
    obtain ⟨more, hmore, hsignals⟩ := hx
    have hended : s.Leads ((Report.settled r).map .fail)
        { s with world := w', worker := .free } := by
      refine ⟨⟨acts ++ more, hacts.trans hmore, ?_⟩, fun _ => trivial, .inl⟩
      rw [Act.signals_append, hquiet, hsignals]
      rfl
    cases r with
    | error u => exact hended
    | ok report =>
      -- an invocation has reported its failure already, preparation has not
      have hreports : report.failures = Report.settled (.ok report) ++ received report := by
        cases report with
        | prepared ticket args outcome => rfl
        | ended ticket outcome => exact (List.append_nil _).symm
      show s.Leads (report.failures.map .fail) _
      rw [hreports, List.map_append]
      exact hended.trans (leads_receive _ report)

end Reports

/-- The piece of work that the worker goes on with or begins; nothing if it cannot. -/
def turn? (s : Session) : Option (Run Report) :=
  match s.worker with
  | .lost => none
  | .held resume =>
    match s.world.controls.leave? with
    | some (passage, controls) => some (resume passage { s.world with controls })
    | none => none
  | .free =>
    match s.world.jobs, s.code with
    | job :: rest, some code => some (workOn code s.fuel job { s.world with jobs := rest })
    | _, _ => none

/-- The worker takes its turn. -/
theorem work?_eq_map (s : Session) : s.work? = s.turn?.map s.absorb := by
  unfold work? turn?
  cases s.worker with
  | lost => rfl
  | held resume =>
    cases s.world.controls.leave? with
    | none => rfl
    | some left => rfl
  | free =>
    cases s.world.jobs with
    | nil => rfl
    | cons job rest => cases s.code <;> rfl

/-- The worker goes on or begins, if it was ready. -/
theorem leads_turn {s : Session} {x : Run Report} (hs : s.worker.Ready) (h : s.turn? = some x) :
    s.Leads (x.reports.map .fail) (s.absorb x) := by
  unfold turn? at h
  cases hw : s.worker with
  | lost =>
    rw [hw] at h
    cases h
  | held resume =>
    rw [hw] at h hs
    obtain ⟨haway, stmt, hpassed⟩ := hs
    cases hleave : s.world.controls.leave? with
    | none => simp [hleave] at h
    | some left =>
      obtain ⟨passage, controls⟩ := left
      simp only [hleave, Option.some.injEq] at h
      subst h
      cases passage with
      | passed =>
        -- leaving the gate and beginning the statement are one change
        have hbegin := World.Change.begin s.world .leave stmt
          (Controls.passes_mark?_of_passed hleave)
        rw [Controls.act_leave_of_some hleave] at hbegin
        exact s.leads_absorb hbegin.changes rfl (hpassed _)
      | cancelled =>
        obtain ⟨-, rfl⟩ := Controls.eq_of_leave?_cancelled hleave
        obtain ⟨v', r, hv, hworks⟩ := haway s.world
        refine s.leads_absorb (.refl _) rfl ?_
        show (resume .cancelled s.world).Strides s.world
        rw [hv]
        exact hworks
  | free =>
    rw [hw] at h
    cases hjobs : s.world.jobs with
    | nil => simp [hjobs] at h
    | cons job rest =>
      cases hcode : s.code with
      | none => simp [hjobs, hcode] at h
      | some code =>
        simp only [hjobs, hcode, Option.some.injEq] at h
        subst h
        exact s.leads_absorb (World.Change.around _ _ _ _ _ rest).changes rfl
          (strides_workOn code s.fuel job _)

/-- A task goes on. -/
theorem leads_advance {s s' : Session} {t : Task} (hs : s.InOrder) (ht : t ∈ s.tasks)
    (h : s.advance? t = some s') : s.Leads [] s' := by
  unfold advance? at h
  cases hstage : t.stage with
  | working =>
    rw [hstage] at h
    cases h
  | draining result =>
    simp only [hstage] at h
    split at h
    · have hdrained : s.Leads [] (s.mapTracker (·.drain t.stack)).refreshIdle :=
        (s.leads_track _).still (leads_refreshIdle _)
      split at h
      · cases h
        exact (hdrained.still (leads_act _ .cancel rfl)).still (leads_setStage _ _ _ (.inr rfl))
      · cases h
        exact hdrained.still (leads_finish _ _ _ _ _)
    · cases h
  | stopping result =>
    simp only [hstage] at h
    split at h
    · cases h
      have hcancelled := hs.stopping ⟨t, ht, by rw [hstage]; rfl⟩
      have hclose := World.Change.act (s.mapTracker (·.drainAll)).world .close rfl
        fun _ => hcancelled
      exact ((s.leads_track _).still (leads_world hclose.changes)).still (leads_finish _ _ _ _ _)
    · cases h

/-- A session in which a program begins to be prepared. -/
def opened (s : Session) (ticket : Nat) (debugging : Bool) : Session :=
  let s := s.mapControls fun c => (c.act .prepare).act (.debug debugging)
  { s with tasks := s.tasks ++ [{ ticket, kind := .entry, stack := 0, stage := .working }] }

/-- The piece of work that prepares the program. -/
def preparation (s : Session) (ticket : Nat) (args : List String) : Run Report :=
  (prepare s.program s.config s.fuel s.world).andThen fun w outcome =>
    .done w (.ok (.prepared ticket args outcome))

/-- A session that has not been started begins to prepare its program; any other refuses. -/
theorem start_eq (s : Session) (ticket : Nat) (debugging : Bool) (args : List String) :
    s.start ticket debugging args =
      if (s.world.controls.move .preparing).1 then
        (s.opened ticket debugging).absorb ((s.opened ticket debugging).preparation ticket args)
      else s.finish ticket .entry false (.error (.invalidState "start" s.phase)) := rfl

/-- Something that happens to a session. -/
inductive Move where
  /-- The host starts the session. -/
  | start (ticket : Nat) (debugging : Bool) (args : List String)
  /-- The host, or work of its own, calls a method. -/
  | invoke (ticket : Nat) (hostInitiated : Bool) (name : String) (args : List Val)
  /-- The host ends the session. -/
  | stop (ticket : Nat)
  /-- The host holds the program. -/
  | pause
  /-- The host lets one statement run. -/
  | step
  /-- The host holds the program no longer. -/
  | resume
  /-- The host sets a breakpoint. -/
  | setBreakpoint (line : Nat)
  /-- The host removes a breakpoint. -/
  | clearBreakpoint (line : Nat)
  /-- The host removes all breakpoints. -/
  | clearBreakpoints
  /-- The host makes values. -/
  | values (heap : Heap)
  /-- A task goes on, if what it waits for has come about. -/
  | advance (index : Nat)
  /-- The worker goes on, if it can. -/
  | work

/-- Whether nobody outside brings a move about. -/
def Move.isOwn : Move → Bool
  | .advance _ | .work => true
  | _ => false

/-- The session after a move. A request that is refused changes nothing. -/
def perform (s : Session) : Move → Session
  | .start ticket debugging args => s.start ticket debugging args
  | .invoke ticket hostInitiated name args => s.invoke ticket hostInitiated name args
  | .stop ticket => s.stop ticket
  | .pause => s.pause.toOption.getD s
  | .step => s.step.toOption.getD s
  | .resume => s.resume.toOption.getD s
  | .setBreakpoint line => (s.setBreakpoint line).2
  | .clearBreakpoint line => (s.clearBreakpoint line).2
  | .clearBreakpoints => s.clearBreakpoints
  | .values heap => { s with world := { s.world with heap } }
  | .advance index => (s.tasks[index]?.bind s.advance?).getD s
  | .work => s.work?.getD s

/-- The failures that a move reports. -/
def reports (s : Session) : Move → List Failure
  | .start ticket debugging args =>
    if (s.world.controls.move .preparing).1 then
      ((s.opened ticket debugging).preparation ticket args).reports
    else []
  | .work => (s.turn?.map Run.reports).getD []
  | _ => []

/-- What the host asks for at the gate by a move. -/
def Move.request? : Move → Option Act
  | .pause => some .pause
  | .step => some .step
  | .resume => some .resume
  | _ => none

/-- The signals that a move gives. -/
def signals (s : Session) (m : Move) : List Act := m.request?.toList ++ (s.reports m).map .fail

/-- A signal that is no failure was asked for. -/
theorem request?_of_mem_signals {s : Session} {m : Move} {a : Act} (h : a ∈ s.signals m)
    (ha : a.failure? = none) : m.request? = some a := by
  rcases List.mem_append.mp h with h | h
  · exact Option.mem_toList.mp h
  · obtain ⟨f, -, rfl⟩ := List.mem_map.mp h
    cases ha

theorem leads_start (s : Session) (ticket : Nat) (debugging : Bool) (args : List String) :
    s.Leads (s.signals (.start ticket debugging args)) (s.start ticket debugging args) := by
  show s.Leads ((s.reports (.start ticket debugging args)).map .fail) _
  rw [start_eq, reports]
  split
  · have hopened : s.Leads [] (s.opened ticket debugging) :=
      ((s.leads_act .prepare rfl).still (leads_act _ (.debug debugging) rfl)).still
        (leads_begin _ _ (.inl rfl))
    exact hopened.trans (leads_absorb _ (.refl _) rfl (strides_prepare _ _ _ _ _ _))
  · exact s.leads_finish _ _ _ _

theorem leads_invoke (s : Session) (ticket : Nat) (hostInitiated : Bool) (name : String)
    (args : List Val) : s.Leads [] (s.invoke ticket hostInitiated name args) := by
  unfold invoke
  dsimp only
  split
  · exact s.leads_finish _ _ _ _
  split
  · exact s.leads_finish _ _ _ _
  split
  · exact s.leads_finish _ _ _ _
  · have hstack : s.Leads [] { s with world := { s.world with
        stackCount := s.world.stackCount + 1 } } :=
      leads_world (World.Change.around _ _ _ _ _ _).changes
    have htracked := hstack.still (leads_track _ fun t =>
      (if hostInitiated then t.hostCallStarted else t).taskStarted (s.world.stackCount + 1 - 1))
    have hactive := htracked.still (leads_act _ .activate rfl)
    exact hactive.still (leads_submit _ _ _ rfl)

theorem leads_stop (s : Session) (ticket : Nat) : s.Leads [] (s.stop ticket) :=
  (s.leads_act .cancel rfl).still (leads_begin _ _ (.inr rfl))

section Requests

variable (s : Session)

/-- A request that a session refuses once it has ended is an act that
changes nothing then. -/
theorem unlessEnded_eq_act (a : Act) (f : Controls → Controls)
    (ha : ∀ c : Controls, c.act a = if c.phase.isTerminal then c else f c) :
    (if s.phase.isTerminal then Except.error SessionError.terminated
      else .ok (s.mapControls f)).toOption.getD s = s.mapControls (·.act a) := by
  show _ = { s with world := { s.world with controls := s.world.controls.act a } }
  by_cases h : s.phase.isTerminal = true
  · rw [if_pos h, (ha _).trans (if_pos h)]
    rfl
  · rw [if_neg h, (ha _).trans (if_neg h)]
    rfl

theorem perform_pause : s.perform .pause = s.mapControls (·.act .pause) :=
  s.unlessEnded_eq_act .pause (·.pause) fun _ => rfl

theorem perform_resume : s.perform .resume = s.mapControls (·.act .resume) :=
  s.unlessEnded_eq_act .resume (·.release) fun _ => rfl

/-- The request for a statement is accepted if and only if one is granted. -/
theorem step_eq : s.step =
    if s.world.controls.grantsStep then .ok (s.mapControls (·.act .step))
    else .error (.invalidState "step" s.phase) := by
  by_cases hgrants : s.world.controls.grantsStep = true
  · obtain ⟨hpaused, hbusy⟩ := Bool.and_eq_true_iff.mp hgrants
    have hphase : (s.phase != .paused) = false := by
      rw [bne, Bool.not_eq_false']
      exact hpaused
    have hquiet : s.world.controls.tracker.isQuiet = false := by simpa using hbusy
    have hstep : s.world.controls.step = (true, s.world.controls.act .step) := by
      rw [show s.world.controls.act .step = s.world.controls.step.2 from if_pos hgrants,
        Controls.step, if_pos hpaused]
    rw [if_pos hgrants, step, hphase, hquiet, hstep]
    rfl
  · rw [if_neg hgrants, step]
    refine if_pos ?_
    by_contra hnot
    refine hgrants ?_
    simpa [Controls.grantsStep, phase] using hnot

theorem perform_step : s.perform .step = s.mapControls (·.act .step) := by
  show s.step.toOption.getD s =
    { s with world := { s.world with controls := s.world.controls.act .step } }
  rw [step_eq]
  by_cases hgrants : s.world.controls.grantsStep = true
  · rw [if_pos hgrants]
    rfl
  · rw [if_neg hgrants, show s.world.controls.act .step = s.world.controls from if_neg hgrants]
    rfl

end Requests

/-- One move of a session that is in order. -/
theorem leads_perform {s : Session} (hs : s.InOrder) (m : Move) :
    s.Leads (s.signals m) (s.perform m) := by
  cases m with
  | start ticket debugging args => exact s.leads_start ticket debugging args
  | invoke ticket hostInitiated name args => exact s.leads_invoke ticket hostInitiated name args
  | stop ticket => exact s.leads_stop ticket
  | pause => exact s.perform_pause ▸ s.leads_act .pause rfl
  | step => exact s.perform_step ▸ s.leads_act .step rfl
  | resume => exact s.perform_resume ▸ s.leads_act .resume rfl
  | setBreakpoint line => exact s.leads_act (.setBreakpoint line) rfl
  | clearBreakpoint line => exact s.leads_act (.clearBreakpoint line) rfl
  | clearBreakpoints => exact s.leads_act .clearBreakpoints rfl
  | values heap => exact leads_world (World.Change.around _ heap _ _ _ _).changes
  | advance index =>
    simp only [perform]
    cases ht : s.tasks[index]? with
    | none => exact .refl _
    | some t =>
      cases h : s.advance? t with
      | none =>
        simp only [Option.bind_some, h]
        exact .refl _
      | some s' =>
        simp only [Option.bind_some, h]
        exact leads_advance hs (List.mem_of_getElem? ht) h
  | work =>
    show s.Leads ((s.reports .work).map .fail) _
    simp only [perform, reports, work?_eq_map]
    cases h : s.turn? with
    | none => exact .refl _
    | some x => exact leads_turn hs.worker h

/-- The session after moves, one after the other. -/
def after (s : Session) (moves : List Move) : Session := moves.foldl perform s

/-- The signals that moves give, first one first. -/
def given (s : Session) : List Move → List Act
  | [] => []
  | m :: moves => s.signals m ++ (s.perform m).given moves

/-- The failures that moves report, first one first. -/
def reported (s : Session) : List Move → List Failure
  | [] => []
  | m :: moves => s.reports m ++ (s.perform m).reported moves

theorem failures_given (s : Session) (moves : List Move) :
    Act.failures (s.given moves) = s.reported moves := by
  induction moves generalizing s with
  | nil => rfl
  | cons m moves ih =>
    have hfails : ∀ fs : List Failure, Act.failures (fs.map .fail) = fs := fun fs => by
      rw [Act.failures, List.filterMap_map]
      exact List.filterMap_some
    have hfirst : Act.failures (s.signals m) = s.reports m := by
      cases m with
      | pause => rfl
      | step => rfl
      | resume => rfl
      | _ => exact hfails _
    rw [given, reported, ← ih, ← hfirst]
    exact List.filterMap_append

@[simp] theorem after_append (s : Session) (moves more : List Move) :
    s.after (moves ++ more) = (s.after moves).after more :=
  List.foldl_append

/-- All moves of a session that is in order. -/
theorem leads_after {s : Session} (hs : s.InOrder) (moves : List Move) :
    s.Leads (s.given moves) (s.after moves) := by
  induction moves generalizing s with
  | nil => exact .refl _
  | cons m moves ih =>
    have hfirst := leads_perform hs m
    exact hfirst.trans (ih (hs.leads hfirst))

/-- A new session is in order. -/
theorem inOrder_new (p : Program) (config : Config) (fuel : Nat) : (new p config fuel).InOrder where
  worker := trivial
  stopping := fun ⟨_, ht, _⟩ => absurd ht List.not_mem_nil

/-- Whatever happens to a session, its world changes by elementary changes. -/
theorem changes_after (p : Program) (config : Config) (fuel : Nat) (moves : List Move) :
    ∃ acts, World.Changes acts {} ((new p config fuel).after moves).world ∧
      Act.signals acts = (new p config fuel).given moves :=
  (leads_after (inOrder_new p config fuel) moves).changes

section Settling

/-- Letting tasks go on is a sequence of moves. -/
theorem advanceTasks_eq_after (rounds : Nat) (s : Session) :
    ∃ moves, (∀ m ∈ moves, Move.isOwn m = true) ∧ advanceTasks rounds s = s.after moves := by
  induction rounds generalizing s with
  | zero => exact ⟨[], List.forall_mem_nil _, rfl⟩
  | succ rounds ih =>
    unfold advanceTasks
    cases h : s.tasks.findSome? s.advance? with
    | none => exact ⟨[], List.forall_mem_nil _, rfl⟩
    | some s' =>
      obtain ⟨t, ht, hadvance⟩ := List.exists_of_findSome?_eq_some h
      obtain ⟨index, hindex⟩ := List.getElem?_of_mem ht
      obtain ⟨moves, hown, hrest⟩ := ih s'
      refine ⟨.advance index :: moves, List.forall_mem_cons.mpr ⟨rfl, hown⟩, ?_⟩
      have hfirst : s.perform (.advance index) = s' := by
        simp only [perform, hindex, Option.bind_some, hadvance, Option.getD_some]
      show advanceTasks rounds s' = (s.perform (.advance index)).after moves
      rw [hfirst, hrest]

/-- Settling is a sequence of moves. -/
theorem settle_eq_after (rounds : Nat) (s : Session) :
    ∃ moves, (∀ m ∈ moves, Move.isOwn m = true) ∧ settle rounds s = s.after moves := by
  induction rounds generalizing s with
  | zero => exact ⟨[], List.forall_mem_nil _, rfl⟩
  | succ rounds ih =>
    obtain ⟨moves, hown, hadvanced⟩ := advanceTasks_eq_after (2 * s.tasks.length + 1) s
    unfold settle
    dsimp only
    rw [hadvanced]
    cases h : (s.after moves).work? with
    | none => exact ⟨moves, hown, rfl⟩
    | some s' =>
      obtain ⟨more, hmore, hrest⟩ := ih s'
      have hwork : (s.after moves).perform .work = s' := by
        simp only [perform, h, Option.getD_some]
      refine ⟨moves ++ .work :: more,
        List.forall_mem_append.mpr ⟨hown, List.forall_mem_cons.mpr ⟨rfl, hmore⟩⟩, ?_⟩
      rw [after_append]
      show settle rounds s' = ((s.after moves).perform .work).after more
      rw [hwork, hrest]

end Settling

end Session

end Stepwise
