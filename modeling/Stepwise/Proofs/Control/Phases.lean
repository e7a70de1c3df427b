import Stepwise.Proofs.Control.History

/-!
# Acts and phases

What an act does to the phase of a session, to the gate and to the account of
work in flight, apart from what it means to stepping. Only two acts make a
session idle, and they do so only when nothing is in flight.
-/

namespace Stepwise

namespace Phase

/-- Whether a session in this phase has begun to run, or has ended. -/
def hasBegun : Phase → Bool
  | .ready | .preparing => false
  | _ => true

/-- No move leads back to a session that has not begun to run. -/
theorem Leads.hasBegun {a b : Phase} (h : a.Leads b) (ha : a.hasBegun = true) :
    b.hasBegun = true := by
  cases h <;> first | rfl | cases ha

theorem hasBegun_of_isTerminal {p : Phase} (h : p.isTerminal = true) : p.hasBegun = true := by
  cases p <;> first | rfl | cases h

theorem ne_preparing_of_hasBegun {p : Phase} (h : p.hasBegun = true) : p ≠ .preparing := by
  rintro rfl
  cases h

theorem ne_of_isTerminal {p q : Phase} (hp : p.isTerminal = true) (hq : q.isTerminal = false) :
    p ≠ q := by
  rintro rfl
  rw [hp] at hq
  cases hq

/-- A session that has begun to run and has not ended may be held, if it is not. -/
theorem canMove_paused {p : Phase} (hbegun : p.hasBegun = true) (hopen : p.isTerminal = false)
    (hpaused : p ≠ .paused) : p.canMove .paused = true := by
  revert hbegun hopen hpaused
  cases p <;> decide

end Phase

/-- An engine leaves a gate that turns it away, is open, or has a statement for it. -/
theorem Gate.isSome_leave? {g : Gate} :
    g.leave?.isSome = true ↔ g.cancelled = true ∨ g.armed = false ∨ 0 < g.budget := by
  unfold leave?
  cases g.cancelled <;> cases g.armed <;> simp

namespace Controls

variable {c : Controls}

/-- A session that has begun to run has begun for good. -/
theorem hasBegun_act (h : c.phase.hasBegun = true) (a : Act) :
    (c.act a).phase.hasBegun = true := by
  rcases c.act_tries a with ⟨hlife, -⟩ | ⟨e, hlife, -⟩
  · show (c.act a).life.phase.hasBegun = true
    rw [hlife]
    exact h
  · show (c.act a).life.phase.hasBegun = true
    rw [hlife]
    by_cases hmove : c.life.phase.canMove e.phase = true
    · rw [Lifecycle.apply_of_canMove hmove]
      exact (Phase.canMove_iff.mp hmove).hasBegun h
    · rw [Lifecycle.apply_of_not_canMove hmove]
      exact h

/-- A move is accepted if and only if it is legal. -/
theorem accepts_move (c : Controls) (next : Phase) : (c.move next).1 = c.phase.canMove next := by
  show (c.life.apply ⟨next, none, none⟩).1 = c.life.phase.canMove next
  rw [Lifecycle.apply]
  split
  · exact Eq.symm ‹_›
  · exact (Bool.eq_false_iff.mpr ‹_›).symm

/-- A legal move is made. -/
theorem phase_move_of_canMove {next : Phase} (h : c.phase.canMove next = true) :
    (c.move next).2.phase = next :=
  congrArg Lifecycle.phase (Lifecycle.apply_of_canMove (e := ⟨next, none, none⟩) h)

/-- Any other move is refused. -/
theorem phase_move_of_not_canMove {next : Phase} (h : c.phase.canMove next = false) :
    (c.move next).2.phase = c.phase :=
  congrArg Lifecycle.phase
    (Lifecycle.apply_of_not_canMove (e := ⟨next, none, none⟩) (Bool.eq_false_iff.mp h))

/-- A session that has begun to run and has not ended is held when an engine has to wait. -/
theorem phase_pauseWith (hbegun : c.phase.hasBegun = true) (hopen : c.phase.isTerminal = false)
    (snapshot : Snapshot) : (c.pauseWith snapshot).2.phase = .paused := by
  show (c.life.apply ⟨.paused, none, some snapshot⟩).2.phase = .paused
  by_cases hpaused : c.life.phase = .paused
  · have hmove : ¬ c.life.phase.canMove .paused = true := by
      rw [hpaused]
      decide
    rw [Lifecycle.apply_of_not_canMove hmove]
    exact hpaused
  · have hmove : c.life.phase.canMove .paused = true :=
      Phase.canMove_paused hbegun hopen hpaused
    rw [Lifecycle.apply_of_canMove hmove]

theorem phase_arrive_of_none (hbegun : c.phase.hasBegun = true)
    (hopen : c.phase.isTerminal = false) {stmt : Stmt} (h : (c.approach stmt).leave? = none)
    (snapshot : Snapshot) : (c.act (.arrive stmt snapshot)).phase = .paused := by
  rw [act_arrive_of_none h]
  exact phase_pauseWith (c := c.approach stmt) hbegun hopen snapshot

/-- Nothing happens to the life of a session that has ended. -/
theorem life_act_of_isTerminal (h : c.phase.isTerminal = true) (a : Act) :
    (c.act a).life = c.life := by
  rcases c.act_tries a with ⟨hlife, -⟩ | ⟨e, hlife, -⟩
  · exact hlife
  · have hmove : ¬ c.life.phase.canMove e.phase = true :=
      Bool.eq_false_iff.mp (Phase.canMove_of_isTerminal h)
    rw [hlife, Lifecycle.apply_of_not_canMove hmove]

/-- A request to stop ends a session without a failure, if it has not ended. -/
theorem phase_close (c : Controls) :
    (c.act .close).phase = if c.phase.isTerminal then c.phase else .stopped := by
  by_cases h : c.phase.isTerminal = true
  · rw [if_pos h]
    exact congrArg Lifecycle.phase (life_act_of_isTerminal h .close)
  · rw [if_neg h]
    exact phase_move_of_canMove (Phase.canMove_iff.mpr (.stop (Bool.eq_false_iff.mpr h)))

theorem isTerminal_close (c : Controls) : (c.act .close).phase.isTerminal = true := by
  rw [phase_close]
  split
  · assumption
  · rfl

/-- A session that runs is idle when it looks and nothing is in flight. -/
theorem phase_refreshIdle (c : Controls) : c.refreshIdle.2.phase =
    if c.phase = .running ∧ c.tracker.isQuiet = true then .idle else c.phase := by
  by_cases h : c.phase = .running ∧ c.tracker.isQuiet = true
  · have hidle : c.refreshIdle = c.move .idle :=
      if_pos (Bool.and_eq_true_iff.mpr ⟨beq_iff_eq.mpr h.1, h.2⟩)
    rw [hidle, if_pos h]
    exact phase_move_of_canMove (by rw [h.1]; rfl)
  · have hsame : c.refreshIdle = (false, c) := if_neg fun hand =>
      h ⟨beq_iff_eq.mp (Bool.and_eq_true_iff.mp hand).1, (Bool.and_eq_true_iff.mp hand).2⟩
    rw [hsame, if_neg h]

theorem gate_refreshIdle (c : Controls) : c.refreshIdle.2.gate = c.gate := by
  rcases c.refreshIdle_cases with h | h
  · rw [h]
    rfl
  · rw [h]

/-- New work makes an idle session run. -/
theorem phase_activate (c : Controls) :
    c.activate.2.phase = if c.phase = .idle then .running else c.phase := by
  show c.life.activate.2.phase = _
  by_cases h : c.phase = .idle
  · have hactivate : c.life.activate = c.life.move .running := if_pos (beq_iff_eq.mpr h)
    have hmove : c.phase.canMove .running = true := by
      rw [h]
      rfl
    rw [hactivate, if_pos h]
    exact phase_move_of_canMove hmove
  · have hactivate : c.life.activate = (false, c.life) := if_neg fun hidle =>
      h (beq_iff_eq.mp hidle)
    rw [hactivate, if_neg h]
    rfl

theorem gate_activate (c : Controls) : c.activate.2.gate = c.gate := by
  rcases c.activate_cases with h | h
  · rw [h]
    rfl
  · rw [h]

/-- An idle session is paused at once when it is to be held. -/
theorem phase_pause (c : Controls) :
    c.pause.phase = if c.phase = .idle then .paused else c.phase := by
  by_cases h : c.phase = .idle
  · have hpause : c.pause = ({ c with gate := { c.gate with armed := true } }.move .paused).2 :=
      if_pos (beq_iff_eq.mpr h)
    have hmove : c.phase.canMove .paused = true := by
      rw [h]
      rfl
    rw [hpause, if_pos h]
    exact phase_move_of_canMove hmove
  · have hpause : c.pause = { c with gate := { c.gate with armed := true } } :=
      if_neg fun hidle => h (beq_iff_eq.mp hidle)
    rw [hpause, if_neg h]
    rfl

/-- A paused session runs when it is granted a statement. -/
theorem phase_step (h : c.phase = .paused) : c.step.2.phase = .running := by
  have hmove : c.phase.canMove .running = true := by
    rw [h]
    rfl
  simp only [step, beq_iff_eq.mpr h, if_true]
  exact phase_move_of_canMove hmove

theorem gate_step (h : c.phase = .paused) :
    c.step.2.gate = { c.gate with budget := c.gate.budget + 1 } := by
  simp only [step, beq_iff_eq.mpr h, if_true]
  rfl

/-- A session that is paused is idle or runs when the gate is released. -/
theorem phase_release (c : Controls) : c.release.phase =
    if c.phase = .paused then if c.tracker.isQuiet then .idle else .running else c.phase := by
  by_cases hpaused : c.phase = .paused
  · have hrelease : c.release =
        ({ c with gate := { c.gate with armed := false, budget := 0 } }.move
          (if c.tracker.isQuiet then .idle else .running)).2 :=
      if_pos (beq_iff_eq.mpr hpaused)
    rw [hrelease, if_pos hpaused]
    refine phase_move_of_canMove ?_
    show c.phase.canMove _ = true
    rw [hpaused]
    cases c.tracker.isQuiet <;> rfl
  · have hrelease : c.release = { c with gate := { c.gate with armed := false, budget := 0 } } :=
      if_neg fun h => hpaused (beq_iff_eq.mp h)
    rw [hrelease, if_neg hpaused]
    rfl

/-- The gate is open then, and nothing is granted. -/
theorem gate_release (c : Controls) :
    c.release.gate = { c.gate with armed := false, budget := 0 } := by
  simp only [release]
  split <;> rfl

@[simp] theorem tracker_release (c : Controls) : c.release.tracker = c.tracker := by
  simp only [release]
  split <;> rfl

/-- What a request to hold the program does to the phase. -/
theorem phase_act_pause (c : Controls) :
    (c.act .pause).phase = if c.phase = .idle then .paused else c.phase := by
  simp only [act]
  split
  · exact (if_neg (Phase.ne_of_isTerminal ‹_› rfl)).symm
  · exact c.phase_pause

/-- What a request for a statement does to the phase. -/
theorem phase_act_step (c : Controls) :
    (c.act .step).phase = if c.grantsStep then .running else c.phase := by
  simp only [act]
  split
  · exact phase_step (beq_iff_eq.mp (Bool.and_eq_true_iff.mp ‹c.grantsStep = true›).1)
  · rfl

/-- What a request to hold the program no longer does to the phase. -/
theorem phase_act_resume (c : Controls) : (c.act .resume).phase =
    if c.phase = .paused then if c.tracker.isQuiet then .idle else .running else c.phase := by
  simp only [act]
  split
  · exact (if_neg (Phase.ne_of_isTerminal ‹_› rfl)).symm
  · exact c.phase_release

/-- Whether an act leaves the account of work in flight as it is. -/
def Act.sparesTracker : Act → Bool
  | .track _ => false
  | _ => true

theorem tracker_act (c : Controls) {a : Act} (ha : a.sparesTracker = true) :
    (c.act a).tracker = c.tracker := by
  cases a with
  | track => cases ha
  | pause =>
    simp only [act, pause]
    split
    · rfl
    · split <;> rfl
  | step =>
    simp only [act, step]
    split
    · split <;> rfl
    · rfl
  | resume =>
    simp only [act, release]
    split
    · rfl
    · split <;> rfl
  | activate =>
    simp only [act]
    rcases c.activate_cases with h | h
    · rw [h]
      rfl
    · rw [h]
  | refreshIdle =>
    simp only [act]
    rcases c.refreshIdle_cases with h | h
    · rw [h]
      rfl
    · rw [h]
  | arrive stmt snapshot =>
    cases h : (c.approach stmt).leave? with
    | none =>
      rw [act_arrive_of_none h]
      rfl
    | some left =>
      obtain ⟨gate, -, hleft⟩ := leave?_eq_some h
      rw [act_arrive_of_some h, hleft]
      rfl
  | leave =>
    simp only [act]
    split
    · obtain ⟨gate, -, hleft⟩ := leave?_eq_some ‹c.leave? = some _›
      rw [hleft]
    · rfl
  | _ => rfl

/-- A move to another phase than idle does not make a session idle. -/
theorem idle_of_move {c : Controls} {next : Phase} (hnext : next ≠ .idle)
    (h : (c.move next).2.phase = .idle) : c.phase = .idle := by
  rcases c.life.phase_apply ⟨next, none, none⟩ with hsame | hmoved
  · exact hsame.symm.trans h
  · exact absurd (hmoved.symm.trans h) hnext

/-- A release makes a session idle only if nothing is in flight. -/
theorem quiet_of_release {c : Controls} (h : c.release.phase = .idle) (hbefore : c.phase ≠ .idle) :
    c.tracker.isQuiet = true := by
  rw [phase_release] at h
  split at h
  · by_contra hbusy
    rw [if_neg hbusy] at h
    cases h
  · exact absurd h hbefore

/-- Whatever makes a session idle does so only if nothing is in flight. -/
theorem quiet_of_act {c : Controls} {a : Act} (h : (c.act a).phase = .idle)
    (hbefore : c.phase ≠ .idle) : c.tracker.isQuiet = true := by
  cases a with
  | pause =>
    simp only [act, pause] at h
    split at h
    · exact absurd h hbefore
    · split at h
      · exact absurd (idle_of_move (by decide) h) hbefore
      · exact absurd h hbefore
  | step =>
    simp only [act, step] at h
    split at h
    · split at h
      · exact absurd (idle_of_move (by decide) h) hbefore
      · exact absurd h hbefore
    · exact absurd h hbefore
  | resume =>
    simp only [act] at h
    split at h
    · exact absurd h hbefore
    · exact quiet_of_release h hbefore
  | refreshIdle =>
    simp only [act, refreshIdle] at h
    split at h
    · exact (Bool.and_eq_true_iff.mp ‹_›).2
    · exact absurd h hbefore
  | activate =>
    simp only [act] at h
    rcases c.activate_cases with hc | hc
    · exact absurd (idle_of_move (by decide) (hc ▸ h)) hbefore
    · exact absurd (hc ▸ h) hbefore
  | close => exact absurd (idle_of_move (by decide) h) hbefore
  | prepare => exact absurd (idle_of_move (by decide) h) hbefore
  | run => exact absurd (idle_of_move (by decide) h) hbefore
  | fail f =>
    rcases c.life.phase_apply ⟨.failed, some f, f.snapshot⟩ with hsame | hmoved
    · exact absurd (hsame.symm.trans h) hbefore
    · cases hmoved.symm.trans h
  | arrive stmt snapshot =>
    cases hleave : (c.approach stmt).leave? with
    | none =>
      rw [act_arrive_of_none hleave] at h
      rcases c.life.phase_apply ⟨.paused, none, some snapshot⟩ with hsame | hmoved
      · exact absurd (hsame.symm.trans h) hbefore
      · cases hmoved.symm.trans h
    | some left =>
      obtain ⟨gate, -, hleft⟩ := leave?_eq_some hleave
      rw [act_arrive_of_some hleave, hleft] at h
      exact absurd h hbefore
  | leave =>
    simp only [act] at h
    split at h
    · obtain ⟨gate, -, hleft⟩ := leave?_eq_some ‹c.leave? = some _›
      rw [hleft] at h
      exact absurd h hbefore
    · exact absurd h hbefore
  | _ => exact absurd h hbefore

end Controls

end Stepwise
