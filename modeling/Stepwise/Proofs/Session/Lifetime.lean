import Stepwise.Program.Construct
import Stepwise.Proofs.Control.Accounts
import Stepwise.Proofs.Engine.Cancelled
import Stepwise.Proofs.Engine.Shapes
import Stepwise.Proofs.Engine.Timing
import Stepwise.Proofs.Session.Moves

/-!
# The lifetime of a session

What holds of every program, however its session is used: whatever requests
come, in whatever order, and whenever its tasks and its worker go on.
Variables hold what fits their shapes, statements are accounted for while the
gate is armed, the events are a legal history, and nothing begins after the
end.
-/

namespace Stepwise

/-- A piece of work upholds the shapes of variables. -/
theorem Run.Strides.upholds {x : Run Report} {w : World} (h : x.Strides w) :
    x.Upholds w.memory := by
  have hworks : ∀ {v v' : World} {r}, v.Works v' r → v.memory.Upholds v'.memory :=
    fun ⟨_, hchanges, _⟩ => hchanges.upholds
  induction x generalizing w with
  | done w' r => exact hworks h
  | exhausted => exact trivial
  | held w' resume ih =>
    obtain ⟨⟨_, _, hwaits⟩, hturned, stmt, hpassed⟩ := h
    refine ⟨hwaits.upholds, fun passage v => ?_⟩
    cases passage with
    | passed =>
      show (resume .passed v).Upholds (v.observe true stmt).memory
      exact ih .passed v (hpassed v)
    | cancelled =>
      obtain ⟨v', r, hv, hends⟩ := hturned v
      rw [hv]
      exact hworks hends

namespace Session

/-- Every variable holds what fits its shape, now and at every moment of the
next move, and variables keep the shapes they were declared with. -/
structure HoldsShapes (s : Session) : Prop where
  /-- All variables do now. -/
  now : s.world.memory.Shapely
  /-- All variables do on the way to what comes next. -/
  meanwhile : ∀ m, ∃ path, s.world.Path path (s.perform m).world ∧
    ∀ v ∈ path, v.memory.Shapely ∧ s.world.memory.KeepsVariables v.memory
  /-- The piece of work that the worker goes on with or begins upholds the
  shapes until it ends or waits, and again whenever it goes on. -/
  turn : ∀ x, s.turn? = some x → x.Upholds s.world.memory
  /-- So does the piece of work that prepares a program. -/
  preparation : ∀ ticket args, (s.preparation ticket args).Upholds s.world.memory
  /-- Taking in a report upholds the shapes. -/
  receive : ∀ report, s.world.memory.Upholds (s.receive report).world.memory
  /-- So does a task that goes on. -/
  advance : ∀ t ∈ s.tasks, ∀ s', s.advance? t = some s' →
    s.world.memory.Upholds s'.world.memory

/-- What leads from one session to another upholds the shapes of variables. -/
theorem Leads.upholds {s s' : Session} {signals : List Controls.Act} (h : s.Leads signals s') :
    s.world.memory.Upholds s'.world.memory := by
  obtain ⟨acts, hchanges, -⟩ := h.changes
  exact hchanges.upholds

/-- The piece of work of a worker that is ready upholds the shapes of variables. -/
theorem upholds_turn {s : Session} {x : Run Report} (hs : s.worker.Ready) (h : s.turn? = some x) :
    x.Upholds s.world.memory := by
  unfold turn? at h
  cases hw : s.worker with
  | lost =>
    rw [hw] at h
    cases h
  | held resume =>
    rw [hw] at h hs
    obtain ⟨haway, stmt, hpassed⟩ := hs
    cases hleave : s.world.controls.leave? with
    | none => simp [hleave] at h
    | some left =>
      obtain ⟨passage, controls⟩ := left
      simp only [hleave, Option.some.injEq] at h
      subst h
      cases passage with
      | passed => exact (hpassed { s.world with controls }).upholds
      | cancelled =>
        obtain ⟨v', r, hv, acts, hchanges, -⟩ := haway { s.world with controls }
        rw [hv]
        exact hchanges.upholds
  | free =>
    rw [hw] at h
    cases hjobs : s.world.jobs with
    | nil => simp [hjobs] at h
    | cons job rest =>
      cases hcode : s.code with
      | none => simp [hjobs, hcode] at h
      | some code =>
        simp only [hjobs, hcode, Option.some.injEq] at h
        subst h
        exact (strides_workOn code s.fuel job { s.world with jobs := rest }).upholds

/-- In every session variables hold what fits their shapes. So they do
whatever is run without one, and what does not fit is refused without any
effect. -/
theorem variables_fit :
    (∀ p config fuel moves, ((new p config fuel).after moves).HoldsShapes) ∧
      (∀ code fuel w, Engine.UpholdsShapes code fuel w) ∧ ∀ w, Engine.RefusesMisfits w := by
  refine ⟨fun p config fuel moves => ?_, Engine.upholdsShapes, Engine.refusesMisfits⟩
  obtain ⟨acts, hchanges, -⟩ := changes_after p config fuel moves
  have hshapely := hchanges.upholds.shapely World.shapely_new
  have hs := (inOrder_new p config fuel).leads (leads_after (inOrder_new p config fuel) moves)
  refine
    { now := hshapely
      meanwhile := fun m => ?_
      turn := fun x hx => upholds_turn hs.worker hx
      preparation := fun ticket args => (strides_prepare _ _ _ ticket args _).upholds
      receive := fun report => (leads_receive _ report).upholds
      advance := fun t ht s' hadvance => (leads_advance hs ht hadvance).upholds }
  obtain ⟨more, hmove, -⟩ := (leads_perform hs m).changes
  obtain ⟨path, hpath⟩ := hmove.path
  refine ⟨path, hpath, fun v hv => ?_⟩
  obtain ⟨acts', hv⟩ := List.rel_of_pairwise_cons hpath.pairwise hv
  exact ⟨hv.upholds.shapely hshapely, hv.upholds.keeps⟩

/-- An array does not get into a scalar variable. -/
theorem scalar_refuses_array : ∃ f : Failure, f.fault.kind = .notAssignable ∧
    Engine.newVariable World.declare "x" .scalar (.array 0) {} = .done {} (.error (.failed f)) :=
  (variables_fit.2.2 {}).make World.declare "x" .scalar (.array 0) fun h => (h 0).1 rfl

section Steps

variable {s s' : Session}

/-- Number of statements that a move grants. -/
def grants (s : Session) : Move → Nat
  | .step => if s.step.isOk then 1 else 0
  | _ => 0

/-- Number of statements that moves grant. -/
def granted (s : Session) : List Move → Nat
  | [] => 0
  | m :: moves => s.grants m + (s.perform m).granted moves

/-- A statement is granted if and only if the request for it is accepted. -/
theorem step_isOk (s : Session) : s.step.isOk = s.world.controls.grantsStep := by
  rw [step_eq]
  cases s.world.controls.grantsStep <;> rfl

/-- While nobody asks for anything, budget and statements begun make up what they did. -/
theorem Leads.of_armed {signals : List Controls.Act} (h : s.Leads signals s')
    (harmed : s.world.controls.gate.armed = true) (hresume : .resume ∉ signals)
    (hstep : .step ∉ signals) :
    s'.world.controls.gate.armed = true ∧
      s'.world.controls.gate.budget + s'.world.begun.length =
        s.world.controls.gate.budget + s.world.begun.length := by
  obtain ⟨acts, hchanges, rfl⟩ := h.changes
  have hsignal : ∀ a : Controls.Act, a.isSignal = true → a ∉ Controls.Act.signals acts → a ∉ acts :=
    fun a ha hnot hm => hnot (List.mem_filter.mpr ⟨hm, ha⟩)
  obtain ⟨harmed', hsum⟩ := Controls.perform_of_armed harmed
    (Controls.resumed_notMem_history (hsignal .resume rfl hresume))
  rw [Controls.grants_history_eq_zero (hsignal .step rfl hstep), ← hchanges.controls] at hsum
  obtain ⟨new, hnew, hcount⟩ := hchanges.begun
  refine ⟨hchanges.controls ▸ harmed', ?_⟩
  rw [hnew, List.length_append, hcount]
  omega

/-- A request for a statement while the gate is armed. -/
theorem step_of_armed (harmed : s.world.controls.gate.armed = true) :
    (s.world.controls.act .step).gate.armed = true ∧
      (s.world.controls.act .step).gate.budget = s.world.controls.gate.budget + s.grants .step := by
  have hmark : (s.world.controls.mark? .step).toList =
      if s.world.controls.grantsStep then [.granted] else [] := by
    simp only [Controls.mark?]
    split <;> rfl
  have hresumed : Controls.Mark.resumed ∉ (s.world.controls.mark? .step).toList := by
    rw [hmark]
    split <;> decide
  obtain ⟨harmed', hsum⟩ := Controls.act_of_armed harmed hresumed
  refine ⟨harmed', ?_⟩
  rw [hmark] at hsum
  rw [grants, step_isOk]
  split at hsum
  · rw [if_pos ‹_›]
    exact hsum
  · rw [if_neg ‹_›]
    exact hsum

/-- One move while the gate is armed. -/
theorem perform_of_armed (hs : s.InOrder) (harmed : s.world.controls.gate.armed = true) {m : Move}
    (hm : m ≠ .resume) :
    (s.perform m).world.controls.gate.armed = true ∧
      (s.perform m).world.controls.gate.budget + (s.perform m).world.begun.length =
        s.world.controls.gate.budget + s.world.begun.length + s.grants m := by
  by_cases hstep : m = .step
  · subst hstep
    obtain ⟨harmed', hbudget⟩ := step_of_armed harmed
    rw [perform_step]
    refine ⟨harmed', ?_⟩
    show (s.world.controls.act .step).gate.budget + s.world.begun.length = _
    omega
  · have hnone : s.grants m = 0 := by
      cases m with
      | step => exact absurd rfl hstep
      | _ => rfl
    have hresume : .resume ∉ s.signals m := fun hmem => hm <| by
      have hrequest := request?_of_mem_signals hmem rfl
      cases m <;> first | rfl | cases hrequest
    have hstep : .step ∉ s.signals m := fun hmem => hstep <| by
      have hrequest := request?_of_mem_signals hmem rfl
      cases m <;> first | rfl | cases hrequest
    rw [hnone]
    exact (leads_perform hs m).of_armed harmed hresume hstep

/-- All moves while the gate is armed. -/
theorem after_of_armed (hs : s.InOrder) (harmed : s.world.controls.gate.armed = true)
    {moves : List Move} (hmoves : .resume ∉ moves) :
    (s.after moves).world.controls.gate.budget + (s.after moves).world.begun.length =
      s.world.controls.gate.budget + s.world.begun.length + s.granted moves := by
  induction moves generalizing s with
  | nil => rfl
  | cons m moves ih =>
    rw [List.mem_cons, not_or] at hmoves
    obtain ⟨harmed', hfirst⟩ := perform_of_armed hs harmed (fun h => hmoves.1 h.symm)
    have hrest := ih (hs.leads (leads_perform hs m)) harmed' hmoves.2
    show ((s.perform m).after moves).world.controls.gate.budget +
      ((s.perform m).after moves).world.begun.length = _
    rw [hrest, hfirst, granted]
    omega

end Steps

/-- Statements are accounted for, if these signals have been given so far. -/
structure CountsSteps (s : Session) (given : List Controls.Act) : Prop where
  /-- The controls are as acts with these signals leave them, and as many
  statements have begun as engines have passed the gate. -/
  account : ∃ acts, Controls.Act.signals acts = given ∧
    s.world.controls = ({} : Controls).perform acts ∧
    s.world.begun.length = Controls.passes (({} : Controls).history acts)
  /-- While the gate is armed and the program is not resumed, statements begin
  that were granted before or are granted meanwhile. -/
  bounded : s.world.controls.gate.armed = true → ∀ moves, .resume ∉ moves →
    (s.after moves).world.controls.gate.budget + (s.after moves).world.begun.length =
      s.world.controls.gate.budget + s.world.begun.length + s.granted moves

/-- Steps are accounted for, whatever parties act at the controls, and so they
are in every session. -/
theorem steps_accounted :
    (∀ acts, (({} : Controls).perform acts).Accounted (({} : Controls).history acts)) ∧
      ∀ p config fuel moves, ((new p config fuel).after moves).CountsSteps
        ((new p config fuel).given moves) := by
  refine ⟨Controls.perform_accounted, fun p config fuel moves => ?_⟩
  have hnew := inOrder_new p config fuel
  have hs := hnew.leads (leads_after hnew moves)
  refine ⟨?_, fun harmed more hmore => after_of_armed hs harmed hmore⟩
  obtain ⟨acts, hchanges, hsignals⟩ := changes_after p config fuel moves
  obtain ⟨new, hbegun, hcount⟩ := hchanges.begun
  exact ⟨acts, hsignals, hchanges.controls, hbegun ▸ hcount⟩

/-- A program that would go on forever. -/
def endless : Program :=
  { Program.empty.addMethod ((Method.start "Main").asEntryPoint.withBody
      [.label "again" Span.blank, .goto "again" Span.blank]) with lowered := true }

/-- Held before it is started, it begins one statement when one is granted. -/
theorem endless_begins_one :
    let s := (new endless {} 9).after [.pause]
    let s' := s.after [.start 0 true [], .work, .step, .work]
    s.world.controls.gate.armed = true ∧
      s'.world.controls.gate.budget + s'.world.begun.length = 0 + 0 + 1 :=
  ⟨rfl, (steps_accounted.2 endless {} 9 [.pause]).bounded rfl _ (by simp)⟩

/-- In every session the events are a legal history. So they are whatever
parties act at the controls, and in whatever order. -/
theorem history_legal :
    (∀ acts, (({} : Controls).perform acts).life.Legal (Controls.Act.failures acts)) ∧
      ∀ p config fuel moves, ((new p config fuel).after moves).world.controls.life.Legal
        ((new p config fuel).reported moves) := by
  refine ⟨Controls.legal_perform, fun p config fuel moves => ?_⟩
  obtain ⟨acts, hchanges, hsignals⟩ := changes_after p config fuel moves
  rw [hchanges.controls, ← failures_given, ← hsignals, Controls.Act.failures_signals]
  exact Controls.legal_perform acts

/-- Nothing begins after the end. -/
structure EndsForGood (s : Session) : Prop where
  /-- Nothing does whatever happens afterwards. -/
  later : s.world.Ended → ∀ moves, (s.after moves).world.begun = s.world.begun
  /-- Nothing does when tasks and worker go on by themselves. -/
  settled : s.world.Ended → ∀ rounds, (settle rounds s).world.begun = s.world.begun
  /-- Everything that has begun so far began before the end was published. -/
  order : s.world.BeginsInTime

/-- In every session nothing begins after the end. Engines that are turned
away come to an end without beginning anything, also where they would have
gone on forever, and no handler takes part in it. -/
theorem nothing_begins_after_end :
    (∀ p config fuel moves, ((new p config fuel).after moves).EndsForGood) ∧
      (∀ w : World, w.controls.gate.cancelled = true → Engine.TurnedAway w) ∧
        ∀ code fuel w, Engine.Unwinds code fuel w := by
  refine ⟨fun p config fuel moves => ?_, fun _ => Engine.turnedAway, Engine.unwinds⟩
  have hnew := inOrder_new p config fuel
  have hs := hnew.leads (leads_after hnew moves)
  obtain ⟨acts, hchanges, -⟩ := changes_after p config fuel moves
  generalize (new p config fuel).after moves = s at hs hchanges
  have hlater : s.world.Ended → ∀ moves, (s.after moves).world.begun = s.world.begun := by
    intro hended moves
    obtain ⟨more, hmore, -⟩ := (leads_after hs moves).changes
    exact (hmore.of_cancelled (hchanges.cancelled_of_ended hended)).2
  refine ⟨hlater, fun hended rounds => ?_, hchanges.beginsInTime⟩
  obtain ⟨moves, -, hsettle⟩ := settle_eq_after rounds s
  rw [hsettle]
  exact hlater hended moves

/-- Held, stopped and ended, the endless program begins nothing more. -/
theorem endless_ends :
    let s := (new endless {} 9).after [.pause, .start 0 true [], .work, .step, .work, .stop 1,
      .work, .advance 1]
    s.world.Ended ∧ (s.after [.resume, .work, .start 2 false [], .work]).world.begun =
      s.world.begun := by
  intro s
  have hlast : s.world.controls.life.published.toList.getLast? = some ⟨.stopped, none, none⟩ := rfl
  have hended : s.world.Ended := ⟨_, List.mem_of_getLast? hlast, rfl⟩
  exact ⟨hended, (nothing_begins_after_end.1 endless {} 9 _).later hended _⟩

end Session

end Stepwise
