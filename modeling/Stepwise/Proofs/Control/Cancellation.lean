import Stepwise.Proofs.Control.History

/-!
# Turning engines away

Once engines are turned away nobody passes the gate any more, whatever
happens at the controls. A session that ends by a failure turns engines away
in the same act, and any other session ends only when they are turned away
already, so that nobody passes the gate of a session that has ended.
-/

namespace Stepwise.Controls

variable {c : Controls}

/-- Engines that are turned away are turned away for good. -/
theorem cancelled_act (h : c.gate.cancelled = true) (a : Act) :
    (c.act a).gate.cancelled = true := by
  cases a with
  | pause =>
    simp only [act, pause]
    split
    · exact h
    · split <;> exact h
  | step =>
    simp only [act, step]
    split
    · split <;> exact h
    · exact h
  | resume =>
    simp only [act, release]
    split
    · exact h
    · split <;> exact h
  | activate =>
    simp only [act]
    rcases c.activate_cases with hc | hc <;> rw [hc] <;> exact h
  | refreshIdle =>
    simp only [act]
    rcases c.refreshIdle_cases with hc | hc <;> rw [hc] <;> exact h
  | cancel => rfl
  | fail f => rfl
  | arrive stmt snapshot => rwa [(act_atGate_of_cancelled h rfl).1]
  | leave => rwa [(act_atGate_of_cancelled h rfl).1]
  | _ => exact h

/-- Nobody passes when engines are turned away. -/
theorem passes_mark?_of_cancelled (h : c.gate.cancelled = true) (a : Act) :
    passes (c.mark? a).toList = 0 := by
  cases ha : a.atGate with
  | true =>
    rw [(act_atGate_of_cancelled h ha).2]
    rfl
  | false => exact passes_mark?_of_away ha

/-- All acts turn engines away for good, and nobody passes. -/
theorem perform_of_cancelled (h : c.gate.cancelled = true) (acts : List Act) :
    (c.perform acts).gate.cancelled = true ∧ passes (c.history acts) = 0 := by
  induction acts generalizing c with
  | nil => exact ⟨h, rfl⟩
  | cons a acts ih =>
    obtain ⟨hcancelled, hpasses⟩ := ih (cancelled_act h a)
    refine ⟨hcancelled, ?_⟩
    rw [history, passes_append, passes_mark?_of_cancelled h a, hpasses]

/-- A session that has ended turns engines away. -/
def Sealed (c : Controls) : Prop := c.phase.isTerminal = true → c.gate.cancelled = true

/-- An act keeps it so, if the session is not closed before engines are turned away. -/
theorem Sealed.act (h : c.Sealed) {a : Act} (hclose : a = .close → c.gate.cancelled = true) :
    (c.act a).Sealed := by
  intro hended
  by_cases hc : c.gate.cancelled = true
  · exact cancelled_act hc a
  have hopen : ¬ c.phase.isTerminal = true := fun hterminal => hc (h hterminal)
  rcases c.act_tries a with ⟨hlife, -⟩ | ⟨e, hlife, -, hfailed, hstopped⟩
  · exact absurd (congrArg (·.phase.isTerminal) hlife ▸ hended) hopen
  have hphase : (c.act a).phase = (c.life.apply e).2.phase := congrArg Lifecycle.phase hlife
  rw [hphase] at hended
  rcases c.life.phase_apply e with hsame | hmoved
  · rw [hsame] at hended
    exact absurd hended hopen
  rw [hmoved] at hended
  -- the session ends by this act: closed, or by a failure, which turns engines away itself
  cases he : e.phase with
  | stopped => exact absurd (hclose (hstopped he)) hc
  | failed =>
    have hsome := hfailed.mpr he
    cases a with
    | fail f => rfl
    | _ => cases hsome
  | _ =>
    rw [he] at hended
    cases hended

/-- An act publishes one event at most. If an engine passes the gate by it,
the session does not end by it. -/
theorem published_act (c : Controls) (a : Act) :
    (c.act a).life.published = c.life.published ∨
      ∃ e, (c.act a).life.published = c.life.published.push e ∧
        (passes (c.mark? a).toList = 1 → e.phase.isTerminal = false) := by
  rcases c.act_tries a with ⟨hlife, -⟩ | ⟨e, hlife, -, hfailed, hstopped⟩
  · exact .inl (congrArg Lifecycle.published hlife)
  rw [hlife]
  by_cases hmove : c.life.phase.canMove e.phase = true
  · rw [Lifecycle.apply_of_canMove hmove]
    refine .inr ⟨e, rfl, fun hpasses => ?_⟩
    have hgate : a.atGate = true := by
      by_contra haway
      rw [passes_mark?_of_away (Bool.eq_false_iff.mpr haway)] at hpasses
      cases hpasses
    cases hphase : e.phase with
    | stopped =>
      cases hstopped hphase
      cases hgate
    | failed =>
      have hfailure := hfailed.mpr hphase
      cases a with
      | fail f => cases hgate
      | _ => cases hfailure
    | _ => rfl
  · rw [Lifecycle.apply_of_not_canMove hmove]
    exact .inl rfl

end Stepwise.Controls
