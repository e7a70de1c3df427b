import Stepwise.Proofs.Session.Books

/-!
# Requests and the books

Requests come to a session when tasks and worker cannot go on by themselves.
Then either the worker waits at the gate, and the session is paused, or
nothing is left to be done at all. The books stay right whatever the host asks
for; so they do when the session is started, since a program that is prepared
without waiting at the gate has its entry point run, or has failed for good.
-/

namespace Stepwise

open Controls (Act)

section Preparation

variable {α β : Type}

namespace Run

/-- Whenever a run ends, it ends so. -/
def EndsWith (P : Except Unwind α → Prop) : Run α → Prop
  | .done _ r => P r
  | .held _ resume => ∀ passage v, (resume passage v).EndsWith P
  | .exhausted => True

theorem endsWith_true (x : Run α) : x.EndsWith fun _ => True := by
  induction x with
  | done w r => exact trivial
  | held w resume ih => exact ih
  | exhausted => exact trivial

theorem EndsWith.andThen {P : Except Unwind α → Prop} {Q : Except Unwind β → Prop} {x : Run α}
    {k : World → Except Unwind α → Run β} (h : x.EndsWith P)
    (hk : ∀ w r, P r → (k w r).EndsWith Q) : (x.andThen k).EndsWith Q := by
  induction x with
  | done w r => exact hk w r h
  | held w resume ih => exact fun passage v => ih passage v (h passage v)
  | exhausted => exact trivial

end Run

/-- A step that does not end as if it had been stopped. -/
def Exec.Unstopped (x : Exec α) : Prop := ∀ w, (x w).EndsWith (· ≠ .error .cancelled)

namespace Exec

theorem unstopped_ret (a : α) : (pure a : Exec α).Unstopped := fun _ => nofun

theorem unstopped_fail (f : Failure) : (stop (.failed f) : Exec α).Unstopped := fun _ => nofun

theorem unstopped_lift (r : Except Fault α) : (lift r).Unstopped := by
  cases r with
  | ok a => exact unstopped_ret a
  | error f => exact unstopped_fail _

theorem Unstopped.bind {x : Exec α} {f : α → Exec β} (hx : x.Unstopped)
    (hf : ∀ a, (f a).Unstopped) : (x >>= f).Unstopped := by
  refine fun w => (hx w).andThen fun v r hr => ?_
  rcases r with (failure | _) | a
  · exact nofun
  · exact absurd rfl hr
  · exact hf a v

end Exec

theorem Exec.unstopped_aside {x : Exec α} (h : Engine.Aside x) : x.Unstopped := by
  intro w
  obtain ⟨heap, host, a, hx⟩ | ⟨f, hx, -⟩ := h w <;> rw [hx] <;> exact nofun

theorem unstopped_loadAll (names : List String) : (loadAll names).Unstopped := by
  induction names with
  | nil => exact Exec.unstopped_ret ()
  | cons name rest ih =>
    exact (Exec.unstopped_aside (Engine.aside_onHost (Engine.careful_load name))).bind fun _ => ih

theorem unstopped_initGlobals (code : Code) (fuel : Nat) (globals : List Global) :
    (Engine.initGlobals code fuel globals).Unstopped := by
  have hvalue : ∀ g init, (Engine.initialValue code fuel g init).Unstopped := by
    intro g init w
    unfold Engine.initialValue
    -- an engine that is turned away here has failed
    refine (Run.endsWith_true _).andThen fun v r _ => ?_
    rcases r with (f | _) | value <;> exact nofun
  induction globals with
  | nil => exact Exec.unstopped_ret ()
  | cons g rest ih =>
    have hdeclare : ∀ value,
        (Engine.newVariable World.declareGlobal g.name g.shape value).Unstopped :=
      fun value => (Exec.unstopped_lift _).bind fun c w => nofun
    unfold Engine.initGlobals
    cases g.init with
    | none => exact (Exec.unstopped_ret Val.null).bind fun v => (hdeclare v).bind fun _ => ih
    | some init => exact (hvalue g init).bind fun v => (hdeclare v).bind fun _ => ih

/-- Preparing a program succeeds or fails. -/
theorem unstopped_prepare (p : Program) (config : Config) (fuel : Nat) :
    (prepare p config fuel).Unstopped := by
  unfold prepare
  dsimp only
  split
  · exact Exec.unstopped_fail _
  · exact (unstopped_loadAll _).bind fun _ => (unstopped_initGlobals _ _ _).bind fun _ =>
      (Exec.unstopped_lift _).bind fun _ => Exec.unstopped_ret _

theorem follows_loadAll {k : Conduct} (names : List String) : (loadAll names).Follows k := by
  induction names with
  | nil => exact Exec.follows_ret ()
  | cons name rest ih =>
    exact (Exec.follows_aside (Engine.aside_onHost (Engine.careful_load name))).bind fun _ => ih

/-- Preparing a program follows every conduct. -/
theorem follows_prepare {k : Conduct} (p : Program) (config : Config) (fuel : Nat) :
    (prepare p config fuel).Follows k := by
  unfold prepare
  dsimp only
  split
  · exact Exec.follows_stop _
  · exact (follows_loadAll _).bind fun _ => (Engine.follows_initGlobals _ _ _).bind fun _ =>
      (Exec.follows_lift _).bind fun _ => Exec.follows_ret _

end Preparation

/-- Whether a worker waits at the gate. -/
def Worker.isHeld : Worker → Bool
  | .held _ => true
  | _ => false

instance (worker : Worker) : Decidable (worker = .lost) :=
  match worker with
  | .lost => isTrue rfl
  | .free => isFalse nofun
  | .held _ => isFalse nofun

namespace Session

/-- Nothing goes on by itself. -/
structure Settled (s : Session) : Prop where
  /-- The worker has not used up its fuel. -/
  found : s.worker ≠ .lost
  /-- The worker cannot go on. -/
  work : s.work? = none
  /-- No task can go on. -/
  tasks : ∀ t ∈ s.tasks, s.advance? t = none

instance (s : Session) : Decidable s.Settled :=
  decidable_of_iff (s.worker ≠ .lost ∧ s.work?.isNone = true ∧
      ∀ t ∈ s.tasks, (s.advance? t).isNone = true)
    ⟨fun ⟨hfound, hwork, htasks⟩ => ⟨hfound, Option.isNone_iff_eq_none.mp hwork, fun t ht =>
        Option.isNone_iff_eq_none.mp (htasks t ht)⟩,
      fun h => ⟨h.found, Option.isNone_iff_eq_none.mpr h.work, fun t ht =>
        Option.isNone_iff_eq_none.mpr (h.tasks t ht)⟩⟩

section Settled

variable {s : Session} {inHand : Option Duty}

/-- A session whose worker waits at the gate is paused, if nothing goes on. -/
theorem Kept.paused {d : Duty} (h : s.Kept (some d)) (hs : s.Settled) :
    s.phase = .paused ∧ s.worker.isHeld = true ∧ s.world.controls.leave? = none := by
  have hserves := h.worker
  have hwork := hs.work
  unfold work? at hwork
  cases hworker : s.worker with
  | lost => exact absurd hworker hs.found
  | free =>
    rw [hworker] at hserves
    exact hserves.elim
  | held resume =>
    cases hleave : s.world.controls.leave? with
    | some left => simp [hworker, hleave] at hwork
    | none =>
      refine ⟨(h.held rfl).resolve_right fun hsome => ?_, rfl, rfl⟩
      have hgate : s.world.controls.gate.leave? = none := by
        unfold Controls.leave? at hleave
        split at hleave
        · cases hleave
        · assumption
      rw [hgate] at hsome
      cases hsome

/-- Nothing is left to be done in a session whose worker has nothing in hand, if nothing goes on. -/
theorem Kept.quiet (h : s.Kept none) (hs : s.Settled) :
    s.worker = .free ∧ s.world.jobs = [] ∧ s.tasks = [] ∧
      s.world.controls.tracker.isQuiet = true := by
  have hserves := h.worker
  have hwork := hs.work
  have hworker : s.worker = .free := by
    cases hworker : s.worker with
    | lost => exact absurd hworker hs.found
    | free => rfl
    | held resume =>
      rw [hworker] at hserves
      exact hserves.elim
  have hjobs : s.world.jobs = [] := by
    cases hjobs : s.world.jobs with
    | nil => rfl
    | cons job rest =>
      cases hcode : s.code with
      | none =>
        have hnone := h.coded hcode
        rw [World.duties, hjobs] at hnone
        cases hnone
      | some code => simp [work?, hworker, hjobs, hcode] at hwork
  have hduties : s.world.duties none = [] := by
    rw [World.duties, hjobs]
    rfl
  have hbooks := h.books
  rw [World.KeepsBooks, hduties] at hbooks
  -- no guard is alive, so that every task could go on that does not wait for work
  have htasks : s.tasks = [] := by
    refine List.eq_nil_iff_forall_not_mem.mpr fun t ht => ?_
    have hstays := hs.tasks t ht
    unfold advance? at hstays
    cases hstage : t.stage with
    | working =>
      have hmem : t.ticket ∈ (s.tasks.filter Task.waits).map (·.ticket) :=
        List.mem_map.mpr ⟨t, List.mem_filter.mpr ⟨ht, by rw [Task.waits, hstage]⟩, rfl⟩
      exact List.not_mem_nil (hbooks.awaited.symm.subset hmem)
    | draining result =>
      have hdrained := hbooks.counts.isDrained_iff.mpr (List.not_mem_nil (a := t.stack))
      simp only [hstage, hdrained, if_true] at hstays
      split at hstays <;> cases hstays
    | stopping result =>
      have hdrained := hbooks.counts.allDrained_iff.mpr rfl
      simp only [hstage, hdrained, if_true] at hstays
      cases hstays
  have hentry := hbooks.entry
  have hcalls := hbooks.calls
  rw [htasks] at hentry hcalls
  refine ⟨hworker, hjobs, htasks, hbooks.counts.isQuiet_iff.mpr ⟨?_, hcalls, rfl⟩⟩
  cases hactive : s.world.controls.tracker.entryActive with
  | false => rfl
  | true =>
    rw [hactive] at hentry
    cases hentry

/-- A session in which nothing goes on does not run. -/
theorem Kept.ne_running (h : s.Kept inHand) (hs : s.Settled) : s.phase ≠ .running := by
  intro hrunning
  cases inHand with
  | some d => cases hrunning.symm.trans (h.paused hs).1
  | none =>
    have hbusy := h.busy hrunning
    rw [(h.quiet hs).2.2.2] at hbusy
    cases hbusy

end Settled

section Requests

variable {s : Session} {inHand : Option Duty}

/-- The host acts at the controls. -/
theorem Kept.act (h : s.Kept inHand) {a : Act} (ha : a.sparesTracker = true)
    (hprepared : (s.world.controls.act a).phase ≠ .preparing)
    (hbusy : (s.world.controls.act a).phase = .running →
      s.world.controls.tracker.isQuiet = false)
    (hheld : inHand.isSome = true → (s.world.controls.act a).phase = .paused ∨
      (s.world.controls.act a).gate.leave?.isSome = true) :
    (s.mapControls (·.act a)).Kept inHand := by
  have htracker := s.world.controls.tracker_act ha
  refine ⟨⟨?_, h.worker, fun hcode => Controls.hasBegun_act (h.begun hcode) a, h.coded, hprepared,
    hheld⟩, fun hrunning => ?_⟩
  · show Books (s.world.controls.act a).tracker s.tasks _ _
    rw [htracker]
    exact h.books
  · show (s.world.controls.act a).tracker.isQuiet = false
    rw [htracker]
    exact hbusy hrunning

theorem Kept.pause (h : s.Kept inHand) (hs : s.Settled) :
    (s.mapControls (·.act .pause)).Kept inHand := by
  have hphase := s.world.controls.phase_act_pause
  refine h.act rfl ?_ (fun hrunning => ?_) fun hsome => ?_
  · rw [hphase]
    split
    · exact Phase.noConfusion
    · exact h.prepared
  · rw [hphase] at hrunning
    split at hrunning
    · cases hrunning
    · exact h.busy hrunning
  · -- it would be wrong to hold an engine again that has not yet gone on
    obtain ⟨d, rfl⟩ := Option.isSome_iff_exists.mp hsome
    have hpaused : s.world.controls.phase = .paused := (h.paused hs).1
    rw [hphase, hpaused]
    exact .inl rfl

theorem Kept.step (h : s.Kept inHand) : (s.mapControls (·.act .step)).Kept inHand := by
  have hphase := s.world.controls.phase_act_step
  by_cases hgrants : s.world.controls.grantsStep = true
  · obtain ⟨hpaused, hbusy⟩ := Bool.and_eq_true_iff.mp hgrants
    have hact : s.world.controls.act .step = s.world.controls.step.2 := if_pos hgrants
    rw [if_pos hgrants] at hphase
    refine h.act rfl ?_ (fun _ => ?_) fun _ => .inr ?_
    · rw [hphase]
      exact Phase.noConfusion
    · simpa using hbusy
    · rw [hact, Controls.gate_step (beq_iff_eq.mp hpaused)]
      exact Gate.isSome_leave?.mpr (.inr (.inr (Nat.succ_pos _)))
  · have hact : s.world.controls.act .step = s.world.controls := if_neg hgrants
    refine h.act rfl ?_ ?_ ?_
    · rw [hact]
      exact h.prepared
    · rw [hact]
      exact h.busy
    · rw [hact]
      exact h.held

theorem Kept.resume (h : s.Kept inHand) : (s.mapControls (·.act .resume)).Kept inHand := by
  have hphase := s.world.controls.phase_act_resume
  refine h.act rfl ?_ (fun hrunning => ?_) fun hsome => ?_
  · rw [hphase]
    split
    · split <;> exact Phase.noConfusion
    · exact h.prepared
  · rw [hphase] at hrunning
    split at hrunning
    · split at hrunning
      · cases hrunning
      · exact Bool.eq_false_iff.mpr ‹_›
    · exact h.busy hrunning
  · simp only [Controls.act]
    split
    · exact h.held hsome
    · rw [Controls.gate_release]
      exact .inr (Gate.isSome_leave?.mpr (.inr (.inl rfl)))

/-- The host sets or removes breakpoints. -/
theorem Kept.breakpoints (h : s.Kept inHand) (breakpoints : List Nat) :
    (s.mapControls fun c => { c with gate := { c.gate with breakpoints } }).Kept inHand := by
  refine ⟨⟨h.books, h.worker, h.begun, h.coded, h.prepared, fun hsome => ?_⟩, h.busy⟩
  rcases h.held hsome with hpaused | hleaves
  · exact .inl hpaused
  · refine .inr (Gate.isSome_leave?.mpr ?_)
    exact (Gate.isSome_leave? (g := s.world.controls.gate)).mp hleaves

/-- A request is refused. -/
theorem Kept.refuse (h : s.Kept inHand) {n : Nat} (hnew : n ∉ s.tasks.map (·.ticket))
    (kind : TaskKind) (begun : Bool) (result : Except SessionError Val) :
    (s.finish n kind begun result).Kept inHand :=
  h.retask _ (h.books.finish fun u hu heq =>
    hnew (List.mem_map.mpr ⟨u, List.mem_of_mem_filter hu, heq⟩))

theorem Kept.stop (h : s.Kept inHand) {n : Nat} (hnew : n ∉ s.tasks.map (·.ticket)) :
    (s.stop n).Kept inHand :=
  h.cancel.retask s.endings (h.books.beginAside rfl hnew)

/-- A method is called: work is submitted with a task that waits for it. -/
theorem Kept.call (h : s.Kept inHand) {n : Nat} (hnew : n ∉ s.tasks.map (·.ticket))
    (hcode : s.code.isSome = true) (m : Method) (args : List Val) (hostInitiated : Bool) :
    let stack := s.world.stackCount + 1 - 1
    let tracker := (if hostInitiated then s.world.controls.tracker.hostCallStarted
      else s.world.controls.tracker).taskStarted stack
    let controls := { s.world.controls with tracker }.activate.2
    Kept { s with
      world := { s.world with
        stackCount := s.world.stackCount + 1
        controls := controls
        jobs := s.world.jobs ++ [{ stack, method := m, args, ticket := some n }] }
      tasks := s.tasks ++ [⟨n, .invocation hostInitiated m.isAsync, stack, .working⟩] }
        inHand := by
  intro stack tracker controls
  have htracker : controls.tracker = tracker :=
    Controls.tracker_act { s.world.controls with tracker } (a := .activate) rfl
  have hphase : controls.phase = if s.phase = .idle then .running else s.phase :=
    Controls.phase_activate { s.world.controls with tracker }
  have hgate : controls.gate = s.world.controls.gate :=
    Controls.gate_activate { s.world.controls with tracker }
  have hcounts : controls.tracker.Counts ((s.world.duties inHand).map (·.stack) ++ [stack]) := by
    have haside : (if hostInitiated then s.world.controls.tracker.hostCallStarted
        else s.world.controls.tracker).Counts ((s.world.duties inHand).map (·.stack)) := by
      cases hostInitiated with
      | false => exact h.books.counts
      | true => exact h.books.counts.aside _ _
    rw [htracker]
    exact (haside.taskStarted stack).perm (List.perm_append_singleton stack _).symm
  have hbooks : Books controls.tracker
      (s.tasks ++ [⟨n, .invocation hostInitiated m.isAsync, stack, .working⟩])
      ((s.world.duties inHand).map (·.stack) ++ [stack])
      ((s.world.duties inHand).filterMap (·.ticket) ++ [n]) := by
    refine h.books.beginTask rfl hnew hcounts ?_ ?_
    · rw [htracker]
      cases hostInitiated <;> simp [tracker, Tracker.hostCallStarted]
    · rw [htracker]
      cases hostInitiated <;> simp [tracker, Tracker.hostCallStarted, TaskKind.isHostCall]
  have hbusy : controls.tracker.isQuiet = false :=
    hcounts.not_isQuiet (List.mem_append_right _ List.mem_cons_self)
  refine ⟨⟨?_, h.worker, fun _ => ?_, fun hnone => ?_, ?_, fun hsome => ?_⟩, fun _ => hbusy⟩
  · simpa [World.KeepsBooks, World.duties, Job.duty] using hbooks
  · exact Controls.hasBegun_act (c := { s.world.controls with tracker }) (h.begun hcode) .activate
  · exact absurd hcode (Option.not_isSome_iff_eq_none.mpr hnone)
  · show controls.phase ≠ .preparing
    rw [hphase]
    split
    · exact Phase.noConfusion
    · exact h.prepared
  · show controls.phase = .paused ∨ controls.gate.leave?.isSome = true
    rw [hphase, hgate]
    refine (h.held hsome).imp (fun hpaused => ?_) id
    rw [if_neg (by rw [hpaused]; exact Phase.noConfusion), hpaused]

theorem Kept.invoke (h : s.Kept inHand) {n : Nat} (hnew : n ∉ s.tasks.map (·.ticket))
    (hostInitiated : Bool) (name : String) (args : List Val) :
    (s.invoke n hostInitiated name args).Kept inHand := by
  unfold Session.invoke
  dsimp only
  split
  · exact h.refuse hnew _ _ _
  split
  · exact h.refuse hnew _ _ _
  split
  · exact h.refuse hnew _ _ _
  · rename_i code hcode _ _ m _
    have hsome : s.code.isSome = true := by rw [hcode]; rfl
    exact h.call hnew hsome m args hostInitiated

section Prepared

variable {n : Nat} (hbooks : s.world.KeepsBooks [] none) (hworker : s.worker = .free)
  (hphase : s.phase = .preparing) (htasks : s.tasks = [⟨n, .entry, 0, .working⟩])

include hbooks hworker hphase htasks

/-- A program that cannot be prepared ends the session, and nothing is left of it. -/
theorem kept_unprepared (args : List String) (f : Failure) :
    (s.receive (.prepared n args (.error (.failed f)))).Kept none := by
  have hmove : s.phase.canMove .failed = true := by
    rw [hphase]
    rfl
  have hfailed : (s.world.controls.fail f).phase = .failed :=
    congrArg Lifecycle.phase (Lifecycle.apply_of_canMove (e := ⟨.failed, some f, f.snapshot⟩) hmove)
  -- nobody waits for what preparation has started
  have hnobody : (s.world.duties none).filterMap (·.ticket) = [] := hbooks.awaited.eq_nil
  have hended := Books.endAll hbooks
  rw [hnobody] at hended
  refine ⟨⟨?_, ?_, fun _ => congrArg Phase.hasBegun hfailed, fun _ => rfl, fun h => ?_,
    fun hsome => ?_⟩, fun h => ?_⟩
  · simpa [World.KeepsBooks, World.duties, receive, turnAway, finish, mapTracker, mapControls,
      htasks, Controls.fail, Controls.cancel, Controls.failLife, Job.duty, Function.comp_def]
      using hended
  · show s.worker.Serves none
    rw [hworker]
    exact trivial
  · cases hfailed.symm.trans h
  · cases hsome
  · cases hfailed.symm.trans h

/-- When a program is prepared, its entry point is to be run. -/
theorem kept_prepared (args : List String) (code : Code) (entry : Method) :
    (s.receive (.prepared n args (.ok (code, entry)))).Kept none := by
  let tracker := (s.world.controls.tracker.setEntryActive true).taskStarted s.world.stackCount
  have hmove : s.phase.canMove .running = true := by
    rw [hphase]
    rfl
  have haccepted : ({ s.world.controls with tracker }.move .running).1 = true :=
    (Controls.accepts_move _ _).trans hmove
  have hrunning : ({ s.world.controls with tracker }.move .running).2.phase = .running :=
    Controls.phase_move_of_canMove hmove
  have hcounts : tracker.Counts
      ((s.world.duties none).map (·.stack) ++ [s.world.stackCount]) :=
    ((hbooks.counts.aside true _).taskStarted _).perm (List.perm_append_singleton _ _).symm
  have hbegun : Books tracker [⟨n, .entry, s.world.stackCount, .working⟩]
      ((s.world.duties none).map (·.stack) ++ [s.world.stackCount])
      ((s.world.duties none).filterMap (·.ticket) ++ [n]) := by
    refine hbooks.beginTask (t := ⟨n, .entry, s.world.stackCount, .working⟩) rfl List.not_mem_nil
      hcounts ?_ ?_
    · rw [hbooks.entry]
      simp [tracker, Tracker.setEntryActive]
    · simp [tracker, Tracker.setEntryActive, TaskKind.isHostCall]
  simp only [receive]
  split
  · refine ⟨⟨?_, ?_, fun _ => congrArg Phase.hasBegun hrunning, fun hnone => ?_, fun h => ?_,
      fun hsome => ?_⟩, fun _ => hcounts.not_isQuiet (List.mem_append_right _ List.mem_cons_self)⟩
    · simpa [World.KeepsBooks, World.duties, World.newStack, CallStack.fresh, Job.duty, htasks,
        mapTracker, mapControls, Controls.move] using hbegun
    · show s.worker.Serves none
      rw [hworker]
      exact trivial
    · cases hnone
    · cases hrunning.symm.trans h
    · cases hsome
  · rename_i hrefused
    exact absurd haccepted hrefused

omit hworker in
/-- A program is prepared or cannot be, unless its preparation waits at the gate. -/
theorem kept_preparation (args : List String)
    (hpasses : (s.absorb (s.preparation n args)).worker.isHeld = false) :
    (s.absorb (s.preparation n args)).worker = .lost ∨
      (s.absorb (s.preparation n args)).Kept none := by
  have hfollows := follows_prepare (k := starting) s.program s.config s.fuel s.world
  have hends := unstopped_prepare s.program s.config s.fuel s.world
  unfold preparation at hpasses ⊢
  cases hx : prepare s.program s.config s.fuel s.world with
  | exhausted => exact .inl rfl
  | held w resume =>
    rw [hx] at hpasses
    cases hpasses
  | done w r =>
    rw [hx] at hfollows hends
    have hstarts : s.world.Starts w := hfollows
    have hpreparing : w.controls.phase = .preparing :=
      (congrArg Lifecycle.phase hstarts.life).trans hphase
    refine .inr ?_
    rcases r with (f | _) | ⟨code, entry⟩
    · exact kept_unprepared (s := { s with world := w, worker := .free })
        (hstarts.keepsBooks hbooks) rfl hpreparing htasks args f
    · exact absurd rfl hends
    · exact kept_prepared (s := { s with world := w, worker := .free })
        (hstarts.keepsBooks hbooks) rfl hpreparing htasks args code entry

end Prepared

/-- The session is started, and preparing the program does not come to wait at the gate. -/
theorem Kept.start (h : s.Kept inHand) (hs : s.Settled) {n : Nat}
    (hnew : n ∉ s.tasks.map (·.ticket)) (debugging : Bool) (args : List String)
    (hpasses : s.phase = .ready → (s.start n debugging args).worker.isHeld = false) :
    (s.start n debugging args).worker = .lost ∨
      ∃ inHand, (s.start n debugging args).Kept inHand := by
  rw [start_eq, Controls.accepts_move] at hpasses ⊢
  by_cases hready : s.phase = .ready
  · have hmove : s.world.controls.phase.canMove .preparing = true := by
      show s.phase.canMove .preparing = true
      rw [hready]
      rfl
    rw [if_pos hmove] at hpasses ⊢
    have hhand : inHand = none := by
      cases inHand with
      | none => rfl
      | some d => cases hready.symm.trans (h.paused hs).1
    subst hhand
    have hnone := (h.quiet hs).2.2.1
    have hbooks : (s.opened n debugging).world.KeepsBooks [] none := hnone ▸ h.books
    have htasks : (s.opened n debugging).tasks = [⟨n, .entry, 0, .working⟩] := by
      show s.tasks ++ [_] = _
      rw [hnone]
      rfl
    exact (kept_preparation hbooks (Controls.phase_move_of_canMove hmove) htasks args
      (hpasses hready)).imp id fun hkept => ⟨none, hkept⟩
  · have hmove : ¬ s.world.controls.phase.canMove .preparing = true := by
      intro hmove
      have hleads : s.phase.Leads .preparing := Phase.canMove_iff.mp hmove
      generalize s.phase = p at hready hleads
      cases hleads
      exact hready rfl
    rw [if_neg hmove]
    exact .inr ⟨inHand, h.refuse hnew _ _ _⟩

end Requests

end Session

end Stepwise
