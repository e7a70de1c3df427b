import Mathlib.Data.List.Nodup
import Stepwise.Proofs.Control.Guards
import Stepwise.Proofs.Control.Phases
import Stepwise.Proofs.Engine.Conduct
import Stepwise.Proofs.Session.Moves

/-!
# The books of a session

Every invocation that a session has begun is either in the worker's hand or
waits for its turn, until it has run. The tracker counts one guard for each of
them. Whoever waits for an invocation is a task; the tracker knows whether one
of them is the entry point, and how many were called by the host. These books
are kept through whatever tasks and worker do.
-/

namespace Stepwise

open Controls (Act)

namespace World

/-- What engines do to the work of a session: they start invocations. -/
structure Starts (w w' : World) : Prop where
  /-- New invocations come last, nobody waits for them, and each of them has a guard. -/
  started : ∃ jobs : List Job, w'.jobs = w.jobs ++ jobs ∧ (∀ j ∈ jobs, j.ticket = none) ∧
    ∀ live, w.controls.tracker.Counts live →
      w'.controls.tracker.Counts (live ++ jobs.map (·.stack))
  /-- The entry point runs or not as before. -/
  entry : w'.controls.tracker.entryActive = w.controls.tracker.entryActive
  /-- The host has made as many calls as before. -/
  calls : w'.controls.tracker.hostCalls = w.controls.tracker.hostCalls
  /-- The phase is as before. -/
  life : w'.controls.life = w.controls.life
  /-- Engines are turned away or not as before. -/
  cancelled : w'.controls.gate.cancelled = w.controls.gate.cancelled

section Starts

variable {w v w' : World}

/-- Neither work nor controls change, but for the gate. -/
theorem starts_of_eq (gate : Gate) (hjobs : w'.jobs = w.jobs)
    (hcontrols : w'.controls = { w.controls with gate })
    (hgate : gate.cancelled = w.controls.gate.cancelled) : w.Starts w' where
  started := by
    refine ⟨[], by rw [hjobs, List.append_nil], List.forall_mem_nil _, fun live h => ?_⟩
    rw [hcontrols, List.map_nil, List.append_nil]
    exact h
  entry := by rw [hcontrols]
  calls := by rw [hcontrols]
  life := by rw [hcontrols]
  cancelled := by rw [hcontrols, hgate]

theorem Starts.refl (w : World) : w.Starts w := starts_of_eq w.controls.gate rfl rfl rfl

theorem Starts.trans (h : w.Starts v) (h' : v.Starts w') : w.Starts w' where
  started := by
    obtain ⟨jobs, hjobs, hnone, hcounts⟩ := h.started
    obtain ⟨more, hmore, hnone', hcounts'⟩ := h'.started
    refine ⟨jobs ++ more, by rw [hmore, hjobs, List.append_assoc],
      List.forall_mem_append.mpr ⟨hnone, hnone'⟩, fun live hlive => ?_⟩
    rw [List.map_append, ← List.append_assoc]
    exact hcounts' _ (hcounts live hlive)
  entry := h'.entry.trans h.entry
  calls := h'.calls.trans h.calls
  life := h'.life.trans h.life
  cancelled := h'.cancelled.trans h.cancelled

theorem starts_spawn (w : World) (m : Method) (args : List Val) : w.Starts (w.spawn m args) where
  started := by
    refine ⟨[{ stack := w.stack.id, method := m, args }], rfl, ?_, fun live hlive => ?_⟩
    · intro j hj
      rw [List.mem_singleton.mp hj]
    · exact ((hlive.taskStarted w.stack.id).track w.stack.id).perm
        (List.perm_append_singleton _ live).symm
  entry := by simp [spawn]
  calls := by simp [spawn]
  life := rfl
  cancelled := rfl

end Starts

end World

/-- Leaving the gate, an engine turns nobody away. -/
theorem Gate.cancelled_leave? {g g' : Gate} {passage : Passage}
    (h : g.leave? = some (passage, g')) : g'.cancelled = g.cancelled := by
  cases passage with
  | cancelled => rw [(leave?_cancelled h).2]
  | passed =>
    obtain ⟨-, ⟨-, rfl⟩ | ⟨-, -, rfl⟩⟩ := leave?_passed h <;> rfl

/-- To start invocations is all that engines do to the work of a session. -/
def starting : Conduct where
  goes := World.Starts
  refl := World.Starts.refl
  trans := World.Starts.trans
  aside := fun w _ _ _ _ _ _ _ => World.starts_of_eq w.controls.gate rfl rfl rfl
  spawn := World.starts_spawn
  approach := fun w stmt => World.starts_of_eq _ rfl rfl (w.controls.gate.cancelled_approach stmt)
  leave := by
    intro w passage controls h
    obtain ⟨gate, hgate, rfl⟩ := Controls.leave?_eq_some h
    exact World.starts_of_eq _ rfl rfl (Gate.cancelled_leave? hgate)

/-- An invocation that is to be run. -/
structure Duty where
  /-- The call stack it runs on. -/
  stack : Nat
  /-- Who waits for it, if anybody. -/
  ticket : Option Nat

/-- The duty of an invocation that waits for its turn. -/
def Job.duty (j : Job) : Duty := ⟨j.stack, j.ticket⟩

namespace Run

/-- A piece of work that begins in a world does its duty: when it has ended,
it has settled its account and reports to whoever waits; until then it waits
at the gate and has paused the session. -/
def Serves (d : Duty) (w : World) : Run Report → Prop
  | .done w' r => ∃ v outcome, w.Starts v ∧ w' = Engine.settleTask d.stack outcome v ∧
      r = .ok (.ended d.ticket outcome)
  | .held w' resume =>
    (∃ v snapshot, w.Starts v ∧ v.controls.leave? = none ∧
      w' = { v with controls := (v.controls.pauseWith snapshot).2 }) ∧
      ∀ passage v, (resume passage v).Serves d v
  | .exhausted => True

/-- A call that settles its account at the end does its duty. -/
theorem Follows.serves {x : Run Val} {w : World} (h : x.Follows starting w) (d : Duty) :
    (x.andThen fun w outcome => .done (Engine.settleTask d.stack outcome w)
      (.ok (.ended d.ticket outcome))).Serves d w := by
  induction x generalizing w with
  | done w' r => exact ⟨w', r, h, rfl, rfl⟩
  | held w' resume ih => exact ⟨h.1, fun passage v => ih passage v (h.2 passage v)⟩
  | exhausted => exact trivial

end Run

theorem Session.serves_workOn (code : Code) (fuel : Nat) (job : Job) (w : World) :
    (Session.workOn code fuel job w).Serves job.duty w := by
  have hwork : Session.workOn code fuel job w =
      (Engine.invokeOn code fuel job.stack job.method job.args w).andThen fun w outcome =>
        .done (Engine.settleTask job.stack outcome w) (.ok (.ended job.ticket outcome)) := by
    unfold Session.workOn Engine.runJob
    rw [Run.andThen_assoc]
    rfl
  rw [hwork]
  exact (Engine.follows_invokeOn code fuel job.stack job.method job.args w).serves job.duty

/-- The duty that a worker is to do next, if it has one in hand. -/
def Worker.Serves : Worker → Option Duty → Prop
  | .free, none => True
  | .held resume, some d => ∀ passage v, (resume passage v).Serves d v
  | _, _ => False

/-- Whether the host has called for this. -/
def TaskKind.isHostCall : TaskKind → Bool
  | .invocation true _ => true
  | _ => false

/-- What is known of work in flight when the work of such a task has ended. -/
def TaskKind.workEnded (tracker : Tracker) : TaskKind → Tracker
  | .entry => tracker.setEntryActive false
  | .invocation true _ => tracker.hostCallEnded
  | _ => tracker

/-- Whether a task waits for its work. -/
def Task.waits (t : Task) : Bool :=
  match t.stage with
  | .working => true
  | _ => false

section Tasks

variable {tasks : List Task} {t : Task}

/-- A task beside the others. -/
theorem perm_cons_filter_ticket (hdistinct : (tasks.map (·.ticket)).Nodup) (ht : t ∈ tasks) :
    tasks.Perm (t :: tasks.filter (·.ticket ≠ t.ticket)) := by
  induction tasks with
  | nil => exact absurd ht List.not_mem_nil
  | cons u rest ih =>
    rw [List.map_cons, List.nodup_cons] at hdistinct
    rcases List.mem_cons.mp ht with rfl | hrest
    · have hall : rest.filter (·.ticket ≠ t.ticket) = rest :=
        List.filter_eq_self.mpr fun u hu => decide_eq_true fun heq =>
          hdistinct.1 (List.mem_map.mpr ⟨u, hu, heq⟩)
      rw [List.filter_cons_of_neg (by simp), hall]
    · have hne : u.ticket ≠ t.ticket := fun heq =>
        hdistinct.1 (List.mem_map.mpr ⟨t, hrest, heq.symm⟩)
      rw [List.filter_cons_of_pos (by simpa using hne)]
      exact ((ih hdistinct.2 hrest).cons u).trans (List.Perm.swap _ _ _)

/-- Tasks with the same number are the same. -/
theorem eq_of_ticket_eq (hdistinct : (tasks.map (·.ticket)).Nodup) {u : Task} (ht : t ∈ tasks)
    (hu : u ∈ tasks) (h : u.ticket = t.ticket) : u = t :=
  List.inj_on_of_nodup_map hdistinct hu ht h

/-- A task with a number of its own. -/
theorem nodup_ticket_concat (hdistinct : (tasks.map (·.ticket)).Nodup)
    (hnew : t.ticket ∉ tasks.map (·.ticket)) : ((tasks ++ [t]).map (·.ticket)).Nodup := by
  rw [List.map_append]
  refine hdistinct.append (List.nodup_singleton _) fun n hn hmem => hnew ?_
  have heq : n = t.ticket := List.mem_singleton.mp hmem
  exact heq ▸ hn

/-- Tasks keep their numbers. -/
theorem map_ticket_map {f : Task → Task} (hf : ∀ t, (f t).ticket = t.ticket) :
    (tasks.map f).map (·.ticket) = tasks.map (·.ticket) := by
  rw [List.map_map]
  exact List.map_congr_left fun t _ => hf t

theorem map_ticket_setStage (n : Nat) (stage : Stage) :
    (tasks.map fun t => if t.ticket == n then { t with stage } else t).map (·.ticket) =
      tasks.map (·.ticket) := by
  refine map_ticket_map fun t => ?_
  split <;> rfl

/-- When a task comes to another stage, those that wait for work are the others. -/
theorem filter_waits_setStage (n : Nat) {stage : Stage}
    (hstage : (∀ t : Task, Task.waits { t with stage } = false)) :
    (tasks.map fun t => if t.ticket == n then { t with stage } else t).filter Task.waits =
      (tasks.filter Task.waits).filter (·.ticket ≠ n) := by
  induction tasks with
  | nil => rfl
  | cons u rest ih =>
    rw [List.map_cons]
    by_cases hn : u.ticket = n
    · have hbeq : (u.ticket == n) = true := by simpa using hn
      rw [if_pos hbeq, List.filter_cons_of_neg (by rw [hstage]; exact Bool.false_ne_true), ih]
      by_cases hu : u.waits = true
      · rw [List.filter_cons_of_pos hu, List.filter_cons_of_neg (by simpa using hn)]
      · rw [List.filter_cons_of_neg hu]
    · have hbeq : ¬ (u.ticket == n) = true := by simpa using hn
      rw [if_neg hbeq]
      by_cases hu : u.waits = true
      · rw [List.filter_cons_of_pos hu, List.filter_cons_of_pos hu,
          List.filter_cons_of_pos (by simpa using hn), ih]
      · rw [List.filter_cons_of_neg hu, List.filter_cons_of_neg hu, ih]

end Tasks

/-- The books are right, with guards alive on these call stacks and with work
to be done for the tasks of these numbers. -/
structure Books (tracker : Tracker) (tasks : List Task) (live tickets : List Nat) : Prop where
  /-- Guards are counted. -/
  counts : tracker.Counts live
  /-- Tasks have numbers of their own. -/
  distinct : (tasks.map (·.ticket)).Nodup
  /-- The tasks that wait for work are those for which there is some. -/
  awaited : tickets.Perm ((tasks.filter Task.waits).map (·.ticket))
  /-- The entry point runs if a task waits for it. -/
  entry : tracker.entryActive.toNat = (tasks.filter Task.waits).countP (·.kind == .entry)
  /-- The calls of the host are those that a task waits for. -/
  calls : tracker.hostCalls = (tasks.filter Task.waits).countP (·.kind.isHostCall)

namespace Books

variable {tracker : Tracker} {tasks : List Task} {live tickets : List Nat}

theorem new : Books {} [] [] [] := ⟨Tracker.counts_new, List.nodup_nil, .refl _, rfl, rfl⟩

/-- Tasks that do not wait for work come, go and change their stage. -/
theorem retask (h : Books tracker tasks live tickets) {tasks' : List Task}
    (hdistinct : (tasks'.map (·.ticket)).Nodup)
    (hwaits : tasks'.filter Task.waits = tasks.filter Task.waits) :
    Books tracker tasks' live tickets :=
  ⟨h.counts, hdistinct, hwaits ▸ h.awaited, hwaits ▸ h.entry, hwaits ▸ h.calls⟩

/-- Guards come and go. -/
theorem recount (h : Books tracker tasks live tickets) {tracker' : Tracker} {live' : List Nat}
    (hcounts : tracker'.Counts live') (hentry : tracker'.entryActive = tracker.entryActive)
    (hcalls : tracker'.hostCalls = tracker.hostCalls) : Books tracker' tasks live' tickets :=
  ⟨hcounts, h.distinct, h.awaited, hentry ▸ h.entry, hcalls ▸ h.calls⟩

/-- The guards that are alive are dropped one after the other. -/
theorem endAll (h : Books tracker tasks live tickets) :
    Books (live.foldl Tracker.taskEnded tracker) tasks [] tickets := by
  induction live generalizing tracker with
  | nil => exact h
  | cons id rest ih =>
    have hcounts := h.counts.taskEnded id
    rw [List.erase_cons_head] at hcounts
    exact ih (h.recount hcounts rfl rfl)

/-- A task that does not wait for work has no work to be done. -/
theorem ticket_notMem (h : Books tracker tasks live tickets) {t : Task} (ht : t ∈ tasks)
    (hwaits : t.waits = false) : ∀ u ∈ tasks.filter Task.waits, u.ticket ≠ t.ticket := by
  intro u hu heq
  obtain ⟨hu, huwaits⟩ := List.mem_filter.mp hu
  rw [eq_of_ticket_eq h.distinct ht hu heq, hwaits] at huwaits
  cases huwaits

/-- A task that does not wait for work ends. -/
theorem finish (h : Books tracker tasks live tickets) {n : Nat}
    (hn : ∀ u ∈ tasks.filter Task.waits, u.ticket ≠ n) :
    Books tracker (tasks.filter (·.ticket ≠ n)) live tickets := by
  refine h.retask (h.distinct.sublist (List.filter_sublist.map _)) ?_
  rw [List.filter_filter, List.filter_congr (q := fun t => t.waits)]
  intro u hu
  by_cases huwaits : u.waits = true
  · simp [huwaits, hn u (List.mem_filter.mpr ⟨hu, huwaits⟩)]
  · simp [huwaits]

/-- A task that does not wait for work comes to another stage. -/
theorem setStage (h : Books tracker tasks live tickets) {n : Nat} {stage : Stage}
    (hstage : (∀ t : Task, Task.waits { t with stage } = false))
    (hn : ∀ u ∈ tasks.filter Task.waits, u.ticket ≠ n) :
    Books tracker (tasks.map fun t => if t.ticket == n then { t with stage } else t) live
      tickets := by
  refine h.retask ?_ ?_
  · rw [map_ticket_setStage]
    exact h.distinct
  · rw [filter_waits_setStage n hstage]
    exact List.filter_eq_self.mpr fun u hu => decide_eq_true (hn u hu)

/-- The work of a task has ended, and it waits for something else. -/
theorem workEnded {rest : List Nat} (h : Books tracker tasks live tickets) {t : Task}
    (ht : t ∈ tasks) (hwaits : t.waits = true) (htickets : tickets.Perm (t.ticket :: rest))
    {stage : Stage} (hstage : (∀ t : Task, Task.waits { t with stage } = false)) :
    Books (t.kind.workEnded tracker)
      (tasks.map fun u => if u.ticket == t.ticket then { u with stage } else u) live rest := by
  have hsublist : ((tasks.filter Task.waits).map (·.ticket)).Sublist (tasks.map (·.ticket)) :=
    List.filter_sublist.map _
  have hperm := perm_cons_filter_ticket (h.distinct.sublist hsublist)
    (List.mem_filter.mpr ⟨ht, hwaits⟩)
  have hcount : ∀ p : Task → Bool, (tasks.filter Task.waits).countP p =
      ((tasks.filter Task.waits).filter (·.ticket ≠ t.ticket)).countP p + if p t then 1 else 0 :=
    fun p => (hperm.countP_eq p).trans (List.countP_cons ..)
  have hentry := h.entry
  have hcalls := h.calls
  rw [hcount] at hentry hcalls
  have hbound := Bool.toNat_le tracker.entryActive
  refine ⟨?_, ?_, ?_, ?_, ?_⟩
  · unfold TaskKind.workEnded
    split
    · exact h.counts.aside false tracker.hostCalls
    · exact h.counts.aside tracker.entryActive (tracker.hostCalls - 1)
    · exact h.counts
  · rw [map_ticket_setStage]
    exact h.distinct
  · rw [filter_waits_setStage t.ticket hstage]
    exact (htickets.symm.trans (h.awaited.trans (hperm.map (·.ticket)))).cons_inv
  · rw [filter_waits_setStage t.ticket hstage]
    cases hkind : t.kind with
    | entry =>
      -- it was the entry point, and no other task waits for that
      rw [if_pos (by simp [hkind])] at hentry
      show 0 = _
      omega
    | invocation hostInitiated isAsync =>
      rw [if_neg (by simp [hkind])] at hentry
      cases hostInitiated <;> exact hentry
    | stop =>
      rw [if_neg (by simp [hkind])] at hentry
      exact hentry
  · rw [filter_waits_setStage t.ticket hstage]
    cases hkind : t.kind with
    | entry =>
      rw [if_neg (by simp [hkind, TaskKind.isHostCall])] at hcalls
      exact hcalls
    | invocation hostInitiated isAsync =>
      cases hostInitiated with
      | false =>
        rw [if_neg (by simp [hkind, TaskKind.isHostCall])] at hcalls
        exact hcalls
      | true =>
        rw [if_pos (by simp [hkind, TaskKind.isHostCall])] at hcalls
        show tracker.hostCalls - 1 = _
        omega
    | stop =>
      rw [if_neg (by simp [hkind, TaskKind.isHostCall])] at hcalls
      exact hcalls

/-- A task begins and waits for work. -/
theorem beginTask (h : Books tracker tasks live tickets) {t : Task} (hwaits : t.waits = true)
    (hnew : t.ticket ∉ tasks.map (·.ticket)) {tracker' : Tracker} {live' : List Nat}
    (hcounts : tracker'.Counts live')
    (hentry : tracker'.entryActive.toNat =
      tracker.entryActive.toNat + if t.kind == .entry then 1 else 0)
    (hcalls : tracker'.hostCalls = tracker.hostCalls + if t.kind.isHostCall then 1 else 0) :
    Books tracker' (tasks ++ [t]) live' (tickets ++ [t.ticket]) := by
  have hfilter : (tasks ++ [t]).filter Task.waits = tasks.filter Task.waits ++ [t] := by
    rw [List.filter_append, List.filter_cons_of_pos hwaits, List.filter_nil]
  refine ⟨hcounts, nodup_ticket_concat h.distinct hnew, ?_, ?_, ?_⟩
  · rw [hfilter, List.map_append]
    exact h.awaited.append_right _
  · rw [hfilter, List.countP_append, ← h.entry, hentry, List.countP_singleton]
  · rw [hfilter, List.countP_append, ← h.calls, hcalls, List.countP_singleton]

/-- A task begins that does not wait for work. -/
theorem beginAside (h : Books tracker tasks live tickets) {t : Task} (hwaits : t.waits = false)
    (hnew : t.ticket ∉ tasks.map (·.ticket)) : Books tracker (tasks ++ [t]) live tickets := by
  refine h.retask (nodup_ticket_concat h.distinct hnew) ?_
  rw [List.filter_append, List.filter_cons_of_neg (by rw [hwaits]; exact Bool.false_ne_true),
    List.filter_nil, List.append_nil]

end Books

namespace World

/-- The invocations that are to be run: the one in the worker's hand, if any,
and those that wait for their turn. -/
def duties (w : World) (inHand : Option Duty) : List Duty :=
  inHand.toList ++ w.jobs.map Job.duty

/-- The books are right in a world, with this invocation in the worker's hand, if any. -/
def KeepsBooks (w : World) (tasks : List Task) (inHand : Option Duty) : Prop :=
  Books w.controls.tracker tasks ((w.duties inHand).map (·.stack))
    ((w.duties inHand).filterMap (·.ticket))

/-- Whatever engines start is in the books. -/
theorem Starts.keepsBooks {w w' : World} (h : w.Starts w') {tasks : List Task}
    {inHand : Option Duty} (hbooks : w.KeepsBooks tasks inHand) : w'.KeepsBooks tasks inHand := by
  obtain ⟨jobs, hjobs, hnone, hcounts⟩ := h.started
  have hduties : w'.duties inHand = w.duties inHand ++ jobs.map Job.duty := by
    rw [duties, duties, hjobs, List.map_append, List.append_assoc]
  have htickets : (jobs.map Job.duty).filterMap (·.ticket) = [] := by
    rw [List.filterMap_map]
    exact List.filterMap_eq_nil_iff.mpr hnone
  have hstacks : (jobs.map Job.duty).map (·.stack) = jobs.map (·.stack) := List.map_map
  unfold KeepsBooks
  rw [hduties, List.map_append, List.filterMap_append, htickets, List.append_nil, hstacks]
  exact hbooks.recount (hcounts _ hbooks.counts) h.entry h.calls

end World

namespace Session

section Turns

variable {s s' : Session} {t : Task} {m : Move}

/-- A task that goes on finds its call stack drained and ends, or turns
engines away first if the session is to end with its entry point; or it finds
everything drained and ends the session. -/
theorem advance?_cases (h : s.advance? t = some s') :
    (∃ result, t.stage = .draining result ∧
      s.world.controls.tracker.isDrained t.stack = true ∧
      t.kind = .entry ∧ s.config.keepAlive = false ∧
      s' = ((s.mapTracker (·.drain t.stack)).refreshIdle.mapControls (·.cancel)).setStage t.ticket
        (.stopping result)) ∨
    (∃ result, t.stage = .draining result ∧
      s.world.controls.tracker.isDrained t.stack = true ∧
      (t.kind = .entry → s.config.keepAlive = true) ∧
      s' = (s.mapTracker (·.drain t.stack)).refreshIdle.finish t.ticket t.kind true result) ∨
    ∃ result, t.stage = .stopping result ∧ s.world.controls.tracker.allDrained = true ∧
      s' = ((s.mapTracker (·.drainAll)).mapControls fun c => (c.move .stopped).2).finish t.ticket
        t.kind true result := by
  unfold advance? at h
  cases hstage : t.stage with
  | working =>
    rw [hstage] at h
    cases h
  | draining result =>
    simp only [hstage] at h
    split at h
    · rename_i hdrained
      split at h
      · rename_i hends
        obtain ⟨hkind, hdies⟩ := Bool.and_eq_true_iff.mp hends
        have halive : s.config.keepAlive = false := (Bool.not_eq_true' _).mp hdies
        cases h
        exact .inl ⟨result, rfl, hdrained, beq_iff_eq.mp hkind, halive, rfl⟩
      · rename_i hstays
        cases h
        refine .inr (.inl ⟨result, rfl, hdrained, fun hkind => ?_, rfl⟩)
        simpa [hkind, refreshIdle, mapTracker, mapControls] using hstays
    · cases h
  | stopping result =>
    simp only [hstage] at h
    split at h
    · rename_i hdrained
      cases h
      exact .inr (.inr ⟨result, rfl, hdrained, rfl⟩)
    · cases h

/-- By itself a session goes on as one of its tasks or its worker does, if at all. -/
theorem perform_own_cases (hown : m.isOwn = true) :
    s.perform m = s ∨ (∃ t ∈ s.tasks, s.advance? t = some (s.perform m)) ∨
      s.work? = some (s.perform m) := by
  cases m with
  | advance index =>
    cases h : s.tasks[index]?.bind s.advance? with
    | none => exact .inl (by rw [perform, h]; rfl)
    | some s' =>
      obtain ⟨t, ht, hadvance⟩ := Option.bind_eq_some_iff.mp h
      refine .inr (.inl ⟨t, List.mem_of_getElem? ht, ?_⟩)
      rw [perform, h]
      exact hadvance
  | work =>
    cases h : s.work? with
    | none => exact .inl (by rw [perform, h]; rfl)
    | some s' => exact .inr (.inr (by rw [perform, h]; rfl))
  | _ => cases hown

end Turns

/-- What tasks and worker keep, with this invocation in the worker's hand, if any. -/
structure Steady (s : Session) (inHand : Option Duty) : Prop where
  /-- The books are right. -/
  books : s.world.KeepsBooks s.tasks inHand
  /-- The worker does its duty. -/
  worker : s.worker.Serves inHand
  /-- A session with a prepared program has begun to run. -/
  begun : s.code.isSome = true → s.phase.hasBegun = true
  /-- A session without one has nothing to do. -/
  coded : s.code = none → s.world.duties inHand = []
  /-- No program is being prepared. -/
  prepared : s.phase ≠ .preparing
  /-- While the worker waits, the session is paused, or it has not yet gone on. -/
  held : inHand.isSome = true →
    s.phase = .paused ∨ s.world.controls.gate.leave?.isSome = true

/-- A session that does not take itself to run when nothing is in flight. -/
structure Kept (s : Session) (inHand : Option Duty) : Prop extends s.Steady inHand where
  /-- A session that runs has work in flight. -/
  busy : s.phase = .running → s.world.controls.tracker.isQuiet = false

section Kept

variable {s : Session} {inHand : Option Duty}

/-- The account of work in flight changes. -/
theorem Steady.mapTracker (h : s.Steady inHand) {f : Tracker → Tracker}
    (hbooks : (s.mapTracker f).world.KeepsBooks s.tasks inHand) : (s.mapTracker f).Steady inHand :=
  ⟨hbooks, h.worker, h.begun, h.coded, h.prepared, h.held⟩

/-- A session looks whether something is in flight. -/
theorem Steady.refreshIdle (h : s.Steady inHand) : s.refreshIdle.Kept inHand := by
  have hphase : s.refreshIdle.phase =
      if s.phase = .running ∧ s.world.controls.tracker.isQuiet = true then .idle else s.phase :=
    s.world.controls.phase_refreshIdle
  have htracker : s.refreshIdle.world.controls.tracker = s.world.controls.tracker :=
    s.world.controls.tracker_act (a := .refreshIdle) rfl
  have hgate : s.refreshIdle.world.controls.gate = s.world.controls.gate :=
    s.world.controls.gate_refreshIdle
  refine ⟨⟨?_, h.worker, fun hcode => Controls.hasBegun_act (h.begun hcode) .refreshIdle, h.coded,
    ?_, fun hsome => ?_⟩, fun hrunning => ?_⟩
  · show Books s.refreshIdle.world.controls.tracker s.tasks _ _
    rw [htracker]
    exact h.books
  · rw [hphase]
    split
    · exact Phase.noConfusion
    · exact h.prepared
  · rw [hphase, hgate]
    refine (h.held hsome).imp (fun hpaused => ?_) id
    rw [if_neg (by rw [hpaused]; exact fun h => Phase.noConfusion h.1), hpaused]
  · rw [hphase] at hrunning
    rw [htracker]
    split at hrunning
    · cases hrunning
    · rename_i hnot
      exact Bool.eq_false_iff.mpr fun hquiet => hnot ⟨hrunning, hquiet⟩

/-- Tasks that do not wait for work come, go and change their stage. -/
theorem Kept.retask (h : s.Kept inHand) {tasks : List Task} (endings : List Ending)
    (hbooks : s.world.KeepsBooks tasks inHand) : Kept { s with tasks, endings } inHand :=
  ⟨⟨hbooks, h.worker, h.begun, h.coded, h.prepared, h.held⟩, h.busy⟩

/-- All engines are turned away. -/
theorem Kept.cancel (h : s.Kept inHand) : (s.mapControls (·.cancel)).Kept inHand :=
  ⟨⟨h.books, h.worker, h.begun, h.coded, h.prepared, fun _ => .inr rfl⟩, h.busy⟩

/-- A task goes on. -/
theorem Kept.advance {s' : Session} (h : s.Kept inHand) {t : Task} (ht : t ∈ s.tasks)
    (hadvance : s.advance? t = some s') : s'.Kept inHand := by
  have hdrained : (s.mapTracker (·.drain t.stack)).refreshIdle.Kept inHand :=
    Steady.refreshIdle (h.mapTracker (h.books.recount (h.books.counts.drain t.stack)
      (Tracker.entryActive_drain _ _) (Tracker.hostCalls_drain _ _)))
  have hothers : ∀ u ∈ s.tasks.filter Task.waits, u.ticket ≠ t.ticket := by
    refine h.books.ticket_notMem ht (Bool.eq_false_iff.mpr fun hwaits => ?_)
    obtain ⟨_, hstage, -⟩ | ⟨_, hstage, -⟩ | ⟨_, hstage, -⟩ := advance?_cases hadvance <;>
      simp [Task.waits, hstage] at hwaits
  obtain ⟨result, -, -, -, -, rfl⟩ | ⟨result, -, -, -, rfl⟩ | ⟨result, -, hall, rfl⟩ :=
    advance?_cases hadvance
  · exact hdrained.cancel.retask _ (hdrained.books.setStage (fun _ => rfl) hothers)
  · exact hdrained.retask _ (hdrained.books.finish hothers)
  · -- nothing is left to be run, in the worker's hand neither
    have hnone : s.world.duties inHand = [] :=
      List.map_eq_nil_iff.mp (h.books.counts.allDrained_iff.mp hall)
    have hhand : inHand = none :=
      Option.toList_eq_nil_iff.mp (List.append_eq_nil_iff.mp hnone).1
    have hended : ((s.mapTracker (·.drainAll)).mapControls fun c =>
        (c.move .stopped).2).phase.isTerminal = true :=
      Controls.isTerminal_close _
    have hbooks := h.books.recount h.books.counts.drainAll rfl rfl
    refine ⟨⟨hbooks.finish hothers, h.worker, fun _ => Phase.hasBegun_of_isTerminal hended,
      h.coded, Phase.ne_of_isTerminal hended rfl, fun hsome => ?_⟩, fun hrunning => ?_⟩
    · rw [hhand] at hsome
      cases hsome
    · exact absurd hrunning (Phase.ne_of_isTerminal hended rfl)

/-- An invocation that has ended settles its account: its guard is dropped, its
failure is reported, and the session looks whether something is in flight. -/
theorem settleTask_eq (stack : Nat) (outcome : Except Unwind Val) {w : World}
    (hbegun : w.controls.phase.hasBegun = true) :
    ∃ c : Controls, Engine.settleTask stack outcome w = { w with controls := c.refreshIdle.2 } ∧
      c.tracker = w.controls.tracker.taskEnded stack ∧ c.phase.hasBegun = true := by
  let ended : Controls := { w.controls with tracker := w.controls.tracker.taskEnded stack }
  rcases outcome with (f | _) | value
  · exact ⟨ended.fail f, rfl, rfl, Controls.hasBegun_act (c := ended) hbegun (.fail f)⟩
  · exact ⟨ended, rfl, rfl, hbegun⟩
  · exact ⟨ended, rfl, rfl, hbegun⟩

section Absorb

variable {d : Duty} {w : World}

/-- The invocation in the worker's hand has ended, and whoever waits for it has not heard of it. -/
theorem books_ended {tasks : List Task} (h : w.KeepsBooks tasks (some d)) :
    Books (w.controls.tracker.taskEnded d.stack) tasks ((w.duties none).map (·.stack))
      (d.ticket.toList ++ (w.duties none).filterMap (·.ticket)) := by
  have hcounts := h.counts.taskEnded d.stack
  have htickets : (w.duties (some d)).filterMap (·.ticket) =
      d.ticket.toList ++ (w.duties none).filterMap (·.ticket) := by
    show (d :: w.jobs.map Job.duty).filterMap (·.ticket) = _
    cases hticket : d.ticket <;> simp [World.duties, hticket]
  have hlive : ((w.duties (some d)).map (·.stack)).erase d.stack = (w.duties none).map (·.stack) :=
    List.erase_cons_head ..
  rw [hlive] at hcounts
  exact htickets ▸ h.recount hcounts rfl rfl

section Ended

variable {c : Controls}

/-- A session whose worker has nothing in hand looks whether something is in flight. -/
theorem kept_refreshIdle
    (hbooks : Books c.tracker s.tasks ((w.duties none).map (·.stack))
      ((w.duties none).filterMap (·.ticket)))
    (hcode : s.code.isSome = true) (hc : c.phase.hasBegun = true) :
    Kept { s with world := { w with controls := c.refreshIdle.2 }, worker := .free } none := by
  have hsteady : Steady { s with world := { w with controls := c }, worker := .free } none :=
    ⟨hbooks, trivial, fun _ => hc,
      fun hnone => absurd hcode (Option.not_isSome_iff_eq_none.mpr hnone),
      Phase.ne_preparing_of_hasBegun hc, fun hsome => Bool.noConfusion hsome⟩
  exact hsteady.refreshIdle

/-- The task that waits for an invocation hears that it has ended. -/
theorem kept_workEnded {n : Nat}
    (hbooks : Books c.tracker s.tasks ((w.duties none).map (·.stack))
      (n :: (w.duties none).filterMap (·.ticket)))
    (hcode : s.code.isSome = true) (hc : c.phase.hasBegun = true) (outcome : Except Unwind Val) :
    (receive { s with world := { w with controls := c.refreshIdle.2 }, worker := .free }
      (.ended (some n) outcome)).Kept none := by
  have hmem : n ∈ (s.tasks.filter Task.waits).map (·.ticket) :=
    hbooks.awaited.subset List.mem_cons_self
  obtain ⟨t, ht, rfl⟩ := List.mem_map.mp hmem
  obtain ⟨ht, hwaits⟩ := List.mem_filter.mp ht
  have hfind : s.tasks.find? (·.ticket == t.ticket) = some t := by
    cases hfind : s.tasks.find? (·.ticket == t.ticket) with
    | none => exact absurd (beq_self_eq_true t.ticket) (List.find?_eq_none.mp hfind t ht)
    | some u =>
      have hticket : (u.ticket == t.ticket) = true :=
        List.find?_some (p := fun u : Task => u.ticket == t.ticket) hfind
      rw [eq_of_ticket_eq hbooks.distinct ht (List.mem_of_find?_eq_some hfind)
        (beq_iff_eq.mp hticket)]
  simp only [receive, hfind]
  -- to look for work and to come to another stage may be done in either order
  have htracker : c.refreshIdle.2.tracker = c.tracker := c.tracker_act (a := .refreshIdle) rfl
  have hstage : ∀ u : Task,
      Task.waits { u with stage := .draining (SessionError.ofOutcome outcome) } = false :=
    fun _ => rfl
  have hended := hbooks.workEnded ht hwaits (.refl _) hstage
  rw [← htracker] at hended
  exact kept_refreshIdle (c := { c.refreshIdle.2 with
      tracker := t.kind.workEnded c.refreshIdle.2.tracker }) (s := s.setStage t.ticket
        (.draining (SessionError.ofOutcome outcome))) hended hcode
    (Controls.hasBegun_act hc .refreshIdle)

end Ended

/-- A worker that does its duty comes to an end or to the gate, or is lost. -/
theorem kept_absorb {x : Run Report} (hx : x.Serves d w) (hbooks : w.KeepsBooks s.tasks (some d))
    (hcode : s.code.isSome = true) (hbegun : w.controls.phase.hasBegun = true)
    (hsealed : w.controls.Sealed) :
    (s.absorb x).worker = .lost ∨ ∃ inHand, (s.absorb x).Kept inHand := by
  cases x with
  | exhausted => exact .inl rfl
  | held w' resume =>
    obtain ⟨⟨v, snapshot, hstarts, hwaits, rfl⟩, hserves⟩ := hx
    have hphase : v.controls.phase = w.controls.phase := congrArg Lifecycle.phase hstarts.life
    have hopen : v.controls.phase.isTerminal = false := by
      refine Bool.eq_false_iff.mpr fun hended => ?_
      have hcancelled : v.controls.gate.cancelled = true :=
        hstarts.cancelled.trans (hsealed (hphase ▸ hended))
      rw [Controls.leave?, Gate.leave?_of_cancelled hcancelled] at hwaits
      cases hwaits
    have hpaused : (v.controls.pauseWith snapshot).2.phase = .paused :=
      Controls.phase_pauseWith (hphase ▸ hbegun) hopen snapshot
    refine .inr ⟨some d, ⟨hstarts.keepsBooks hbooks, hserves, fun _ => ?_,
      fun hnone => absurd hcode (Option.not_isSome_iff_eq_none.mpr hnone), ?_,
      fun _ => .inl hpaused⟩, fun hrunning => ?_⟩
    · exact congrArg Phase.hasBegun hpaused
    · exact fun hpreparing => Phase.noConfusion (hpaused.symm.trans hpreparing)
    · cases hpaused.symm.trans hrunning
  | done w' r =>
    obtain ⟨v, outcome, hstarts, rfl, rfl⟩ := hx
    have hphase : v.controls.phase = w.controls.phase := congrArg Lifecycle.phase hstarts.life
    have hended := books_ended (hstarts.keepsBooks hbooks)
    obtain ⟨c, hsettled, htracker, hc⟩ := settleTask_eq d.stack outcome (hphase ▸ hbegun)
    rw [← htracker] at hended
    refine .inr ⟨none, ?_⟩
    show (receive { s with world := Engine.settleTask d.stack outcome v, worker := .free }
      (.ended d.ticket outcome)).Kept none
    rw [hsettled]
    cases hticket : d.ticket with
    | none =>
      rw [hticket] at hended
      exact kept_refreshIdle hended hcode hc
    | some n =>
      rw [hticket] at hended
      exact kept_workEnded hended hcode hc outcome

/-- The worker goes on. -/
theorem Kept.work {s' : Session} (h : s.Kept inHand) (hsealed : s.world.controls.Sealed)
    (hwork : s.work? = some s') : s'.worker = .lost ∨ ∃ inHand, s'.Kept inHand := by
  have hserves := h.worker
  unfold work? at hwork
  cases hworker : s.worker with
  | lost =>
    rw [hworker] at hwork
    cases hwork
  | held resume =>
    rw [hworker] at hwork hserves
    cases inHand with
    | none => exact hserves.elim
    | some d =>
      have hcode : s.code.isSome = true := by
        refine Option.isSome_iff_ne_none.mpr fun hnone => ?_
        cases h.coded hnone
      cases hleave : s.world.controls.leave? with
      | none => simp [hleave] at hwork
      | some left =>
        obtain ⟨passage, controls⟩ := left
        obtain ⟨gate, hgate, rfl⟩ := Controls.leave?_eq_some hleave
        simp only [hleave, Option.some.injEq] at hwork
        subst hwork
        have hsealed' : Controls.Sealed { s.world.controls with gate } := fun hended =>
          (Gate.cancelled_leave? hgate).trans (hsealed hended)
        exact kept_absorb (hserves passage { s.world with
          controls := { s.world.controls with gate } }) h.books hcode (h.begun hcode) hsealed'
  | free =>
    rw [hworker] at hwork hserves
    cases inHand with
    | some d => exact hserves.elim
    | none =>
      cases hjobs : s.world.jobs with
      | nil => simp [hjobs] at hwork
      | cons job rest =>
        cases hcode : s.code with
        | none => simp [hjobs, hcode] at hwork
        | some code =>
          simp only [hjobs, hcode, Option.some.injEq] at hwork
          subst hwork
          have hbooks : World.KeepsBooks { s.world with jobs := rest } s.tasks (some job.duty) := by
            have hduties : s.world.duties none = job.duty :: rest.map Job.duty := by
              rw [World.duties, hjobs]
              rfl
            have hall := h.books
            rw [World.KeepsBooks, hduties] at hall
            exact hall
          have hsome : s.code.isSome = true := by rw [hcode]; rfl
          exact kept_absorb (serves_workOn code s.fuel job _) hbooks hsome (h.begun hsome) hsealed

end Absorb

end Kept

end Session

end Stepwise
