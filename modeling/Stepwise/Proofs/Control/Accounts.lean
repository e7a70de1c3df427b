import Stepwise.Proofs.Control.Acts

/-!
# Accounts of stepping

The host is granted statements one at a time, and engines spend them at the
gate. Whatever happens at the controls, in any order and with any number of
engines at the gate, the budget is what was granted and not yet spent since
the program was last resumed. While the gate is armed nobody passes for
nothing, so that no more statements begin than were granted.
-/

namespace Stepwise

namespace Controls

/-- What arms the gate: a pause, or an engine that comes to a breakpoint. -/
def Arms (c : Controls) (a : Act) : Prop :=
  a = .pause ∨ ∃ stmt snapshot, a = .arrive stmt snapshot ∧ c.gate.hits stmt = true

/-- What an act with a mark does to the gate, and whether it pauses the session. -/
inductive Effect (c : Controls) (a : Act) : Option Mark → Controls → Prop where
  /-- Nothing that matters. -/
  | aside {c' : Controls} : c'.gate.armed = c.gate.armed → c'.gate.budget = c.gate.budget →
      (c'.phase = .paused → c.phase = .paused) → Effect c a none c'
  /-- The gate is armed. -/
  | arms {c' : Controls} : c.gate.armed = true ∨ c.Arms a → c'.gate.armed = true →
      c'.gate.budget = c.gate.budget → Effect c a none c'
  /-- An engine passes the gate, which is not armed. -/
  | passes {c' : Controls} : c.gate.armed = false → c'.gate = c.gate → c'.phase = c.phase →
      Effect c a (some .free) c'
  /-- An engine passes the armed gate and spends a statement. -/
  | spends {c' : Controls} : c.gate.armed = true ∨ c.Arms a → c'.gate.armed = true →
      c.gate.budget = c'.gate.budget + 1 → c'.phase = c.phase → Effect c a (some .spent) c'
  /-- A statement is granted to a paused session. -/
  | grants {c' : Controls} : c.phase = .paused → c'.gate.armed = c.gate.armed →
      c'.gate.budget = c.gate.budget + 1 → Effect c a (some .granted) c'
  /-- The program is resumed. -/
  | releases {c' : Controls} : c'.gate.armed = false → c'.gate.budget = 0 → c'.phase ≠ .paused →
      Effect c a (some .resumed) c'

section Effects

variable (c : Controls) {a : Act}

/-- A move to another phase than paused leaves the gate as it is. -/
theorem effect_move {next : Phase} (hnext : next ≠ .paused) : c.Effect a none (c.move next).2 := by
  refine .aside rfl rfl fun hp => ?_
  rcases c.life.phase_apply ⟨next, none, none⟩ with h | h
  · exact h.symm.trans hp
  · exact absurd (h.symm.trans hp) hnext

theorem effect_fail (f : Failure) : c.Effect a none (c.fail f) := by
  refine .aside rfl rfl fun hp => ?_
  rcases c.life.phase_apply ⟨.failed, some f, f.snapshot⟩ with h | h
  · exact h.symm.trans hp
  · have hfailed : Phase.failed = .paused := h.symm.trans hp
    cases hfailed

theorem effect_activate : c.Effect a none c.activate.2 := by
  rcases c.activate_cases with h | h <;> rw [h]
  · exact c.effect_move (by decide)
  · exact .aside rfl rfl id

theorem effect_refreshIdle : c.Effect a none c.refreshIdle.2 := by
  rcases c.refreshIdle_cases with h | h <;> rw [h]
  · exact c.effect_move (by decide)
  · exact .aside rfl rfl id

theorem effect_pause : c.Effect .pause none c.pause := by
  unfold pause
  dsimp only
  split <;> exact .arms (.inr (.inl rfl)) rfl rfl

theorem effect_step (h : c.phase = .paused) : c.Effect a (some .granted) c.step.2 := by
  have hpaused : (c.phase == .paused) = true := by rw [h]; rfl
  simp only [step, hpaused, if_true]
  exact .grants h rfl rfl

/-- A paused session runs or is idle when it is resumed. -/
theorem effect_release : c.Effect a (some .resumed) c.release := by
  by_cases hpaused : c.phase = .paused
  · have hrelease : c.release =
        ({ c with gate := { c.gate with armed := false, budget := 0 } }.move
          (if c.tracker.isQuiet then .idle else .running)).2 :=
      if_pos (beq_iff_eq.mpr hpaused)
    rw [hrelease]
    refine .releases rfl rfl ?_
    have hlegal : c.life.phase.canMove (if c.tracker.isQuiet then .idle else .running) = true := by
      rw [show c.life.phase = .paused from hpaused]
      cases c.tracker.isQuiet <;> rfl
    show (c.life.apply ⟨_, none, none⟩).2.phase ≠ .paused
    rw [Lifecycle.apply_of_canMove hlegal]
    cases c.tracker.isQuiet <;> exact Phase.noConfusion
  · have hrelease : c.release = { c with gate := { c.gate with armed := false, budget := 0 } } :=
      if_neg fun h => hpaused (beq_iff_eq.mp h)
    rw [hrelease]
    exact .releases rfl rfl hpaused

/-- An engine tries to leave the gate: it waits, or passes, or is turned away. -/
theorem effect_leaving (g : Gate)
    (hcases : g = c.gate ∨ c.Arms a ∧ g = { c.gate with armed := true }) :
    (∃ g', g.leave? = some (.cancelled, g') ∧ g.mark? = none ∧ g' = g) ∨
      (∃ g', g.leave? = some (.passed, g') ∧ c.Effect a g.mark? { c with gate := g' }) ∨
      (g.leave? = none ∧ g.mark? = none ∧ g.armed = true ∧ (c.gate.armed = true ∨ c.Arms a)) := by
  have hbudget : g.budget = c.gate.budget := by
    rcases hcases with rfl | ⟨-, rfl⟩ <;> rfl
  have hunarmed : g.armed = false → g = c.gate := by
    rcases hcases with rfl | ⟨-, rfl⟩
    · exact fun _ => rfl
    · exact fun h => Bool.noConfusion h
  have harmed : g.armed = true → c.gate.armed = true ∨ c.Arms a := by
    rcases hcases with rfl | ⟨harms, -⟩
    · exact .inl
    · exact fun _ => .inr harms
  cases hleave : g.leave? with
  | none =>
    have harm := (Gate.leave?_none hleave).2.1
    exact .inr (.inr ⟨rfl, by simp only [Gate.mark?, hleave], harm, harmed harm⟩)
  | some left =>
    obtain ⟨passage, g'⟩ := left
    cases passage with
    | cancelled =>
      exact .inl ⟨g', rfl, by simp only [Gate.mark?, hleave], (Gate.leave?_cancelled hleave).2⟩
    | passed =>
      refine .inr (.inl ⟨g', rfl, ?_⟩)
      obtain ⟨-, ⟨hopen, rfl⟩ | ⟨harm, hpos, rfl⟩⟩ := Gate.leave?_passed hleave
      · have hmark : g'.mark? = some .free := by simp only [Gate.mark?, hleave, if_true]
        rw [hmark]
        have hg := hunarmed hopen
        exact .passes (hg ▸ hopen) hg rfl
      · -- a statement is spent, so that the budget is another one
        have hne : g.budget - 1 ≠ g.budget := by omega
        have hmark : g.mark? = some .spent := by simp only [Gate.mark?, hleave, hne, if_false]
        rw [hmark]
        refine .spends (harmed harm) harm ?_ rfl
        show c.gate.budget = g.budget - 1 + 1
        omega

theorem effect_leave : c.Effect .leave c.gate.mark? (c.act .leave) := by
  rcases c.effect_leaving c.gate (.inl rfl) with ⟨g', hleave, hmark, rfl⟩ | ⟨g', hleave, h⟩ |
    ⟨hleave, hmark, -⟩
  · rw [hmark]
    simp only [act, leave?, hleave]
    exact .aside rfl rfl id
  · simp only [act, leave?, hleave]
    exact h
  · rw [hmark]
    simp only [act, leave?, hleave]
    exact .aside rfl rfl id

theorem effect_arrive (stmt : Stmt) (snapshot : Snapshot) :
    c.Effect (.arrive stmt snapshot) (c.gate.approach stmt).mark?
      (c.act (.arrive stmt snapshot)) := by
  have hcases : c.gate.approach stmt = c.gate ∨
      c.Arms (.arrive stmt snapshot) ∧ c.gate.approach stmt = { c.gate with armed := true } :=
    (c.gate.approach_cases stmt).imp id fun ⟨hhits, h⟩ => ⟨.inr ⟨stmt, snapshot, rfl, hhits⟩, h⟩
  rcases c.effect_leaving (c.gate.approach stmt) hcases with ⟨g', hleave, hmark, rfl⟩ |
    ⟨g', hleave, h⟩ | ⟨hleave, hmark, harmed, harms⟩
  · rw [hmark]
    simp only [act, approach, leave?, hleave]
    have hcancelled := (Gate.leave?_cancelled hleave).1
    rw [Gate.cancelled_approach] at hcancelled
    rw [Gate.approach_of_cancelled hcancelled]
    exact .aside rfl rfl id
  · simp only [act, approach, leave?, hleave]
    exact h
  · rw [hmark]
    simp only [act, approach, leave?, hleave]
    exact .arms harms harmed (c.gate.budget_approach stmt)

/-- Every act has one of the effects. -/
theorem act_effect (a : Act) : c.Effect a (c.mark? a) (c.act a) := by
  cases a with
  | pause =>
    simp only [act, mark?]
    split
    · exact .aside rfl rfl id
    · exact c.effect_pause
  | step =>
    simp only [act, mark?]
    split
    · have hpaused : c.phase = .paused := by
        simpa using (Bool.and_eq_true_iff.mp ‹c.grantsStep = true›).1
      exact c.effect_step hpaused
    · exact .aside rfl rfl id
  | resume =>
    simp only [act, mark?]
    split
    · exact .aside rfl rfl id
    · exact c.effect_release
  | close => exact c.effect_move (by decide)
  | prepare => exact c.effect_move (by decide)
  | run => exact c.effect_move (by decide)
  | activate => exact c.effect_activate
  | refreshIdle => exact c.effect_refreshIdle
  | fail f => exact c.effect_fail f
  | arrive stmt snapshot => exact c.effect_arrive stmt snapshot
  | leave => exact c.effect_leave
  | _ => exact .aside rfl rfl id

end Effects

/-- The marks since the program was last resumed, latest one first. -/
def sinceResumed (h : List Mark) : List Mark := h.reverse.takeWhile (· ≠ .resumed)

theorem sinceResumed_resumed (h : List Mark) : sinceResumed (h ++ [.resumed]) = [] := by
  simp [sinceResumed]

theorem sinceResumed_other (h : List Mark) (mark : Mark) (hm : mark ≠ .resumed) :
    sinceResumed (h ++ [mark]) = mark :: sinceResumed h := by
  simp [sinceResumed, hm]

/-- The accounts are right: what is granted and not spent since the program
was last resumed is the budget, and it is there for an armed gate only. A
session is paused at an armed gate only. -/
structure Accounts (c : Controls) (h : List Mark) : Prop where
  /-- The budget is what is granted and not spent. -/
  budget : c.gate.budget + (sinceResumed h).count .spent = grants (sinceResumed h)
  /-- The gate is armed if something is granted. -/
  armed : 0 < c.gate.budget → c.gate.armed = true
  /-- The gate is armed if the session is paused. -/
  paused : c.phase = .paused → c.gate.armed = true

/-- An act keeps the accounts right. -/
theorem Accounts.act {c : Controls} {h : List Mark} (hc : c.Accounts h) (a : Act) :
    (c.act a).Accounts (h ++ (c.mark? a).toList) := by
  have heffect := c.act_effect a
  generalize c.mark? a = mark at heffect
  generalize c.act a = c' at heffect
  obtain ⟨hbudget, harmed, hpaused⟩ := hc
  cases heffect with
  | aside ha hb hp =>
    rw [Option.toList_none, List.append_nil]
    exact ⟨hb ▸ hbudget, fun hpos => ha ▸ harmed (hb ▸ hpos), fun h' => ha ▸ hpaused (hp h')⟩
  | arms _ ha hb =>
    rw [Option.toList_none, List.append_nil]
    exact ⟨hb ▸ hbudget, fun _ => ha, fun _ => ha⟩
  | passes _ hg hp =>
    rw [Option.toList_some]
    have hsince := sinceResumed_other h .free (by decide)
    refine ⟨?_, fun hpos => ?_, fun h' => ?_⟩
    · rw [hsince, hg]
      simpa [Controls.grants] using hbudget
    · rw [hg] at hpos ⊢
      exact harmed hpos
    · rw [hg]
      exact hpaused (hp ▸ h')
  | spends _ ha hb _ =>
    rw [Option.toList_some]
    have hsince := sinceResumed_other h .spent (by decide)
    refine ⟨?_, fun _ => ha, fun _ => ha⟩
    rw [hsince, List.count_cons_self]
    have hgrants : Controls.grants (.spent :: sinceResumed h) =
        Controls.grants (sinceResumed h) := by
      simp [Controls.grants]
    rw [hgrants, ← hbudget, hb]
    omega
  | grants hp ha hb =>
    rw [Option.toList_some]
    have hsince := sinceResumed_other h .granted (by decide)
    refine ⟨?_, fun _ => ha ▸ hpaused hp, fun _ => ha ▸ hpaused hp⟩
    have hgrants : Controls.grants (.granted :: sinceResumed h) =
        Controls.grants (sinceResumed h) + 1 := by
      simp [Controls.grants]
    have hspent : (Mark.granted :: sinceResumed h).count .spent =
        (sinceResumed h).count .spent := by
      simp
    rw [hsince, hgrants, hspent, ← hbudget, hb]
    omega
  | releases ha hb hp =>
    rw [Option.toList_some]
    have hsince := sinceResumed_resumed h
    refine ⟨?_, fun hpos => ?_, fun h' => absurd h' hp⟩
    · rw [hsince, hb]
      rfl
    · rw [hb] at hpos
      cases hpos

/-- All acts keep the accounts right. -/
theorem Accounts.perform {c : Controls} {h : List Mark} (hc : c.Accounts h) (acts : List Act) :
    (c.perform acts).Accounts (h ++ c.history acts) := by
  induction acts generalizing c h with
  | nil =>
    rw [history, List.append_nil]
    exact hc
  | cons a acts ih =>
    have hrest := ih (hc.act a)
    rwa [List.append_assoc] at hrest

/-- The accounts begin with nothing. -/
theorem accounts_new : ({} : Controls).Accounts [] :=
  ⟨rfl, fun h => absurd h (by decide), fun h => by cases h⟩

/-- One act at an armed gate: it stays armed, and the budget grows by what is
granted and shrinks by what passes. -/
theorem act_of_armed {c : Controls} (h : c.gate.armed = true) {a : Act}
    (hresumed : Mark.resumed ∉ (c.mark? a).toList) :
    (c.act a).gate.armed = true ∧
      (c.act a).gate.budget + passes (c.mark? a).toList =
        c.gate.budget + grants (c.mark? a).toList := by
  have heffect := c.act_effect a
  generalize c.mark? a = mark at heffect hresumed
  generalize c.act a = c' at heffect
  cases heffect with
  | aside ha hb _ => exact ⟨ha ▸ h, by rw [hb]; rfl⟩
  | arms _ ha hb => exact ⟨ha, by rw [hb]; rfl⟩
  | passes hunarmed _ _ => rw [h] at hunarmed; cases hunarmed
  | spends _ ha hb _ => exact ⟨ha, by rw [hb]; rfl⟩
  | grants _ ha hb => exact ⟨ha ▸ h, by rw [hb]; rfl⟩
  | releases _ _ _ => exact absurd (by simp) hresumed

/-- Until the program is resumed an armed gate stays armed, and the budget and
what has passed make up what was there and what is granted. -/
theorem perform_of_armed {c : Controls} (h : c.gate.armed = true) {acts : List Act}
    (hresumed : Mark.resumed ∉ c.history acts) :
    (c.perform acts).gate.armed = true ∧
      (c.perform acts).gate.budget + passes (c.history acts) =
        c.gate.budget + grants (c.history acts) := by
  induction acts generalizing c with
  | nil => exact ⟨h, rfl⟩
  | cons a acts ih =>
    rw [history, List.mem_append, not_or] at hresumed
    obtain ⟨harmed, hfirst⟩ := act_of_armed h hresumed.1
    obtain ⟨hlast, hrest⟩ := ih harmed hresumed.2
    rw [perform_cons, history, passes_append, grants_append]
    exact ⟨hlast, by omega⟩

/-- The act that arms the gate is a pause, or an engine comes to a breakpoint. -/
theorem arms_of_act {c : Controls} {a : Act} (h : c.gate.armed = false)
    (harmed : (c.act a).gate.armed = true) : c.Arms a := by
  have hcause : c.gate.armed = true ∨ c.Arms a := by
    have heffect := c.act_effect a
    generalize c.mark? a = mark at heffect
    generalize c.act a = c' at heffect harmed
    cases heffect with
    | aside ha _ _ => exact .inl (ha ▸ harmed)
    | arms hcause _ _ => exact hcause
    | passes _ hg _ => exact .inl (hg ▸ harmed)
    | spends hcause _ _ _ => exact hcause
    | grants _ ha _ => exact .inl (ha ▸ harmed)
    | releases ha _ _ => rw [ha] at harmed; cases harmed
  exact hcause.resolve_left fun harm => by rw [h] at harm; cases harm

/-- Nobody passes for nothing while the gate is armed, or when it becomes armed. -/
theorem mark?_ne_free {c : Controls} {a : Act}
    (h : c.gate.armed = true ∨ (c.act a).gate.armed = true) : c.mark? a ≠ some .free := by
  intro hfree
  have heffect := c.act_effect a
  rw [hfree] at heffect
  cases heffect with
  | passes hopen hg _ =>
    rw [hg, hopen] at h
    exact h.elim Bool.noConfusion Bool.noConfusion

/-- Nobody passes by the act that arms a gate without budget, and nothing is granted by it. -/
theorem mark?_of_arms {c : Controls} {a : Act} (hbudget : c.gate.budget = 0)
    (h : c.gate.armed = false) (harmed : (c.act a).gate.armed = true) :
    c.mark? a = none ∧ (c.act a).gate.budget = 0 := by
  have heffect := c.act_effect a
  generalize c.mark? a = mark at heffect
  generalize c.act a = c' at heffect harmed
  cases heffect with
  | aside _ hb _ => exact ⟨rfl, hb.trans hbudget⟩
  | arms _ _ hb => exact ⟨rfl, hb.trans hbudget⟩
  | passes _ hg _ => rw [hg, h] at harmed; cases harmed
  | spends _ _ hb _ => omega
  | grants _ ha _ => rw [ha, h] at harmed; cases harmed
  | releases ha _ _ => rw [ha] at harmed; cases harmed

/-- From the act that arms the gate on, until the program is resumed, no more
statements begin than are granted. -/
theorem Accounts.bounded {c : Controls} {h : List Mark} (hc : c.Accounts h) {a : Act}
    {acts : List Act} (hopen : c.gate.armed = false) (harmed : (c.act a).gate.armed = true)
    (hresumed : Mark.resumed ∉ c.history (a :: acts)) :
    Controls.passes (c.history (a :: acts)) ≤ Controls.grants (c.history (a :: acts)) := by
  -- a gate that is not armed has no budget left over from before
  have hbudget : c.gate.budget = 0 :=
    Nat.eq_zero_of_not_pos fun hpos => by
      rw [hc.armed hpos] at hopen
      cases hopen
  obtain ⟨hmark, hnone⟩ := mark?_of_arms hbudget hopen harmed
  rw [history, hmark] at hresumed ⊢
  obtain ⟨-, hsum⟩ := perform_of_armed harmed hresumed
  rw [hnone] at hsum
  show Controls.passes ((c.act a).history acts) ≤ Controls.grants ((c.act a).history acts)
  omega

/-- The gate grants nothing by itself and does not resume the program. -/
theorem gate_mark? (g : Gate) : g.mark? ≠ some .granted ∧ g.mark? ≠ some .resumed := by
  unfold Gate.mark?
  split
  · split <;> exact ⟨by decide, by decide⟩
  · exact ⟨by decide, by decide⟩

/-- Only a request for a statement grants one. -/
theorem eq_step_of_granted {c : Controls} {a : Act} (h : c.mark? a = some .granted) :
    a = .step := by
  cases a with
  | step => rfl
  | resume =>
    simp only [mark?] at h
    split at h <;> cases h
  | arrive stmt snapshot => exact absurd h (gate_mark? _).1
  | leave => exact absurd h (gate_mark? _).1
  | _ => cases h

/-- Only a request to resume the program does so. -/
theorem eq_resume_of_resumed {c : Controls} {a : Act} (h : c.mark? a = some .resumed) :
    a = .resume := by
  cases a with
  | resume => rfl
  | step =>
    simp only [mark?] at h
    split at h <;> cases h
  | arrive stmt snapshot => exact absurd h (gate_mark? _).2
  | leave => exact absurd h (gate_mark? _).2
  | _ => cases h

/-- A mark of a history is the mark of one of the acts. -/
theorem exists_of_mem_history {c : Controls} {acts : List Act} {mark : Mark}
    (h : mark ∈ c.history acts) : ∃ a ∈ acts, ∃ c' : Controls, c'.mark? a = some mark := by
  induction acts generalizing c with
  | nil => exact absurd h List.not_mem_nil
  | cons a acts ih =>
    rcases List.mem_append.mp h with h | h
    · exact ⟨a, List.mem_cons_self, c, Option.mem_toList.mp h⟩
    · obtain ⟨a', ha', hmark⟩ := ih h
      exact ⟨a', List.mem_cons_of_mem _ ha', hmark⟩

/-- Nothing is granted if nobody asks. -/
theorem grants_history_eq_zero {c : Controls} {acts : List Act} (h : Act.step ∉ acts) :
    grants (c.history acts) = 0 := by
  refine List.count_eq_zero.mpr fun hm => ?_
  obtain ⟨a, ha, c', hmark⟩ := exists_of_mem_history hm
  exact h (eq_step_of_granted hmark ▸ ha)

/-- The program is not resumed if nobody asks. -/
theorem resumed_notMem_history {c : Controls} {acts : List Act} (h : Act.resume ∉ acts) :
    Mark.resumed ∉ c.history acts := by
  intro hm
  obtain ⟨a, ha, c', hmark⟩ := exists_of_mem_history hm
  exact h (eq_resume_of_resumed hmark ▸ ha)

/-- Everything that the accounts are kept for. -/
structure Accounted (c : Controls) (h : List Mark) : Prop extends c.Accounts h where
  /-- Nobody passes for nothing while the gate is armed, or when it becomes armed. -/
  spends : ∀ a, c.gate.armed = true ∨ (c.act a).gate.armed = true → c.mark? a ≠ some .free
  /-- A pause or a breakpoint arms the gate. From then on, until the program is
  resumed, no more statements begin than are granted. -/
  bounded : ∀ a acts, c.gate.armed = false → (c.act a).gate.armed = true →
    c.Arms a ∧ (Mark.resumed ∉ c.history (a :: acts) →
      Controls.passes (c.history (a :: acts)) ≤ Controls.grants (c.history (a :: acts)))

/-- Whatever happens at the controls, steps are accounted for. -/
theorem perform_accounted (acts : List Act) :
    (({} : Controls).perform acts).Accounted (({} : Controls).history acts) := by
  have haccounts : (({} : Controls).perform acts).Accounts (({} : Controls).history acts) :=
    accounts_new.perform acts
  exact
    { haccounts with
      spends := fun _ => mark?_ne_free
      bounded := fun _ _ hopen harmed =>
        ⟨arms_of_act hopen harmed, haccounts.bounded hopen harmed⟩ }

end Controls

end Stepwise
