import Stepwise.Proofs.Control.Crowd

/-!
# Failures and the end of a session

An invocation that fails drops its guard before it reports the failure, and a
request to stop the session waits for guards, not for reports. Whichever of
the two comes first ends the session: by a failure if one has been reported
when the request comes to its end, and without one otherwise.
-/

namespace Stepwise

namespace Controls

variable {c : Controls}

/-- A failure ends a session that has not ended. -/
theorem life_fail (h : c.phase.isTerminal = false) (f : Failure) :
    (c.act (.fail f)).life = ⟨.failed, c.life.events.push ⟨.failed, some f, f.snapshot⟩,
      c.life.published.push ⟨.failed, some f, f.snapshot⟩⟩ :=
  Lifecycle.apply_of_canMove (e := ⟨.failed, some f, f.snapshot⟩)
    (Phase.canMove_iff.mpr (.fail h))

theorem phase_close_eq_failed : (c.act .close).phase = .failed ↔ c.phase = .failed := by
  rw [phase_close]
  cases c.phase <;> decide

/-- Only a failure or a request to stop ends a session. -/
theorem ended_cases (h : c.phase.isTerminal = false) {a : Act}
    (hended : (c.act a).phase.isTerminal = true) :
    a = .close ∧ (c.act a).phase = .stopped ∨ ∃ f, a = .fail f := by
  rcases c.act_tries a with ⟨hlife, -⟩ | ⟨e, hlife, -, hfailed, hstopped⟩
  · have hsame : (c.act a).phase = c.phase := congrArg Lifecycle.phase hlife
    rw [hsame, h] at hended
    cases hended
  · have hphase : (c.act a).phase = (c.life.apply e).2.phase := congrArg Lifecycle.phase hlife
    rw [hphase] at hended ⊢
    rcases c.life.phase_apply e with hsame | hmoved
    · rw [hsame] at hended
      exact absurd (hended.symm.trans h) Bool.noConfusion
    · rw [hmoved] at hended ⊢
      cases he : e.phase with
      | stopped => exact .inl ⟨hstopped he, rfl⟩
      | failed =>
        have hsome := hfailed.mpr he
        cases a with
        | fail f => exact .inr ⟨f, rfl⟩
        | _ => cases hsome
      | _ =>
        rw [he] at hended
        cases hended

end Controls

namespace Crowd

variable {k : Crowd}

/-- The end of a session is what was reported or asked for first. -/
structure Recorded (k : Crowd) : Prop where
  /-- A session of which a failure was reported has ended. -/
  ended : ∀ x ∈ k.crew, x.report?.isSome = true → k.controls.phase.isTerminal = true
  /-- A session that has ended by a failure tells one that was reported. -/
  failed : k.controls.phase = .failed → ∃ x ∈ k.crew, ∃ f, x.report? = some f ∧
    k.controls.life.events.back? = some ⟨.failed, some f, f.snapshot⟩
  /-- A session that has ended without one was asked to. -/
  stopped : k.controls.phase = .stopped → .closed ∈ k.stops

theorem recorded_opening (gate : Gate) (stack : Nat) : (opening gate stack).Recorded where
  ended := by
    intro x hx hreport
    rw [List.mem_singleton.mp hx] at hreport
    cases hreport
  failed := fun h => by cases h
  stopped := fun h => by cases h

section Turns

variable {act : Option Controls.Act} {crew : List Invocation} {stops : List Halt}

/-- Nobody takes a report back. -/
theorem Turn.reports_stay (ht : k.Turn act crew stops) {x : Invocation} (hx : x ∈ k.crew)
    (hreport : x.report?.isSome = true) : x ∈ crew := by
  have hother : ∀ {before after : List Invocation} {stack : Nat} {stand : Stand},
      k.crew = before ++ ⟨stack, stand⟩ :: after → Invocation.report? ⟨stack, stand⟩ = none →
      ∀ stand', x ∈ before ++ ⟨stack, stand'⟩ :: after := by
    intro before after stack stand hcrew hnone stand'
    refine (mem_or_eq (hcrew ▸ hx)).resolve_right fun heq => ?_
    rw [heq, hnone] at hreport
    cases hreport
  cases ht with
  | joins stack => exact List.mem_append_left _ hx
  | arrives stmt snapshot hcrew => exact hother hcrew rfl _
  | wakes hcrew => exact hother hcrew rfl _
  | finishes failure hcrew => exact hother hcrew rfl _
  | releases hcrew => exact hother hcrew rfl _
  | reports hcrew => exact hother hcrew rfl _
  | _ => exact hx

/-- A new report is a failure at the controls. -/
theorem Turn.failure_of_report (ht : k.Turn act crew stops) {x : Invocation} (hx : x ∈ crew)
    {f : Failure} (hreport : x.report? = some f) : x ∈ k.crew ∨ act = some (.fail f) := by
  have hother : ∀ {before after : List Invocation} {stack : Nat} {stand stand' : Stand},
      k.crew = before ++ ⟨stack, stand⟩ :: after → x ∈ before ++ ⟨stack, stand'⟩ :: after →
      x ∈ k.crew ∨ Invocation.report? ⟨stack, stand'⟩ = some f := by
    intro before after stack stand stand' hcrew hmem
    rcases mem_or_eq hmem with hmem | rfl
    · exact .inl (hcrew ▸ hmem)
    · exact .inr hreport
  cases ht with
  | joins stack =>
    refine (List.mem_append.mp hx).imp id fun hx => ?_
    rw [List.mem_singleton.mp hx] at hreport
    cases hreport
  | arrives stmt snapshot hcrew =>
    refine (hother hcrew hx).imp id fun hstand => ?_
    unfold Controls.standAt at hstand
    split at hstand <;> cases hstand
  | wakes hcrew =>
    refine (hother hcrew hx).imp id fun hstand => ?_
    unfold Controls.standAt at hstand
    split at hstand <;> cases hstand
  | finishes failure hcrew => exact (hother hcrew hx).imp id fun hstand => by cases hstand
  | releases hcrew => exact (hother hcrew hx).imp id fun hstand => by cases hstand
  | @reports _ _ _ failure hcrew =>
    refine (hother hcrew hx).imp id fun hstand => ?_
    change failure = some f at hstand
    rw [hstand]
    rfl
  | _ => exact .inl hx

/-- A failure at the controls is reported by somebody. -/
theorem Turn.report_of_failure (ht : k.Turn act crew stops) {f : Failure}
    (hact : act = some (.fail f)) : ∃ x ∈ crew, x.report? = some f := by
  cases ht with
  | @reports before after stack failure hcrew =>
    cases failure <;> cases hact
    exact ⟨_, List.mem_append_right _ List.mem_cons_self, rfl⟩
  | asides ha =>
    cases hact
    cases ha
  | _ => cases hact

/-- A request to stop the session that has come to its end stays there. -/
theorem Turn.closed (ht : k.Turn act crew stops) (h : .closed ∈ k.stops ∨ act = some .close) :
    .closed ∈ stops := by
  have hset : ∀ {index : Nat} {halt halt' : Halt}, k.stops[index]? = some halt →
      halt ≠ .closed → .closed ∈ k.stops → .closed ∈ k.stops.set index halt' := by
    intro index halt halt' hget hne hmem
    obtain ⟨other, hother⟩ := List.mem_iff_getElem?.mp hmem
    have hindex : index ≠ other := by
      rintro rfl
      rw [hget] at hother
      cases hother
      exact hne rfl
    refine List.mem_iff_getElem?.mpr ⟨other, ?_⟩
    rw [List.getElem?_set_ne hindex, hother]
  cases ht with
  | stops => exact List.mem_append_left _ (h.resolve_right fun hact => by cases hact)
  | drains hget _ => exact hset hget (by decide) (h.resolve_right fun hact => by cases hact)
  | closes hget =>
    obtain ⟨hlt, -⟩ := List.getElem?_eq_some_iff.mp hget
    exact List.mem_iff_getElem?.mpr ⟨_, List.getElem?_set_self hlt⟩
  | asides ha =>
    refine h.resolve_right fun hact => ?_
    cases hact
    cases ha
  | @reports _ _ _ failure _ =>
    refine h.resolve_right fun hact => ?_
    cases failure <;> cases hact
  | _ => exact h.resolve_right fun hact => by cases hact

end Turns

/-- Whatever happens. -/
theorem Recorded.perform (h : k.Recorded) (d : Deed) : (k.perform d).Recorded := by
  have ht := k.turn d
  show Recorded ⟨actAfter k.controls (k.act? d), k.crewAfter d, k.stopsAfter d⟩
  generalize k.act? d = act at ht
  generalize k.crewAfter d = crew at ht
  generalize k.stopsAfter d = stops at ht
  by_cases hended : k.controls.phase.isTerminal = true
  · -- the session has ended, and stays as it is
    have hlife : (actAfter k.controls act).life = k.controls.life := by
      cases act with
      | none => rfl
      | some a => exact Controls.life_act_of_isTerminal hended a
    have hphase : (actAfter k.controls act).phase = k.controls.phase :=
      congrArg Lifecycle.phase hlife
    refine ⟨fun _ _ _ => hphase ▸ hended, fun hfailed => ?_, fun hstopped => ?_⟩
    · obtain ⟨x, hx, f, hreport, hevent⟩ := h.failed (hphase ▸ hfailed)
      exact ⟨x, ht.reports_stay hx (Option.isSome_of_eq_some hreport), f, hreport, hlife ▸ hevent⟩
    · exact ht.closed (.inl (h.stopped (hphase ▸ hstopped)))
  · have hopen : k.controls.phase.isTerminal = false := Bool.eq_false_iff.mpr hended
    have hends : (actAfter k.controls act).phase.isTerminal = true →
        act = some .close ∧ (actAfter k.controls act).phase = .stopped ∨
          ∃ f, act = some (.fail f) := by
      intro hended'
      cases act with
      | none => exact absurd hended' hended
      | some a =>
        exact (Controls.ended_cases hopen hended').imp (fun ⟨ha, hphase⟩ => ⟨ha ▸ rfl, hphase⟩)
          fun ⟨f, ha⟩ => ⟨f, ha ▸ rfl⟩
    have hfails : ∀ {f}, act = some (.fail f) → (actAfter k.controls act).life =
        ⟨.failed, k.controls.life.events.push ⟨.failed, some f, f.snapshot⟩,
          k.controls.life.published.push ⟨.failed, some f, f.snapshot⟩⟩ := by
      rintro f rfl
      exact Controls.life_fail hopen f
    refine ⟨fun x hx hreport => ?_, fun hfailed => ?_, fun hstopped => ?_⟩
    · obtain ⟨f, hreport⟩ := Option.isSome_iff_exists.mp hreport
      rcases ht.failure_of_report hx hreport with hx | hact
      · exact absurd (h.ended x hx (Option.isSome_of_eq_some hreport)) hended
      · exact congrArg (·.phase.isTerminal) (hfails hact)
    · rcases hends (congrArg Phase.isTerminal hfailed) with ⟨-, hstopped⟩ | ⟨f, hact⟩
      · cases hfailed.symm.trans hstopped
      · obtain ⟨x, hx, hreport⟩ := ht.report_of_failure hact
        refine ⟨x, hx, f, hreport, ?_⟩
        show (actAfter k.controls act).life.events.back? = _
        rw [hfails hact, Array.back?_push]
    · rcases hends (congrArg Phase.isTerminal hstopped) with ⟨hact, -⟩ | ⟨f, hact⟩
      · exact ht.closed (.inr hact)
      · cases hstopped.symm.trans (congrArg Lifecycle.phase (hfails hact))

/-- Whatever happens, one thing after the other. -/
theorem Recorded.after (h : k.Recorded) (deeds : List Deed) : (k.after deeds).Recorded := by
  induction deeds generalizing k with
  | nil => exact h
  | cons d deeds ih => exact ih (h.perform d)

/-- A session that has ended stays as it is. -/
theorem life_after_of_isTerminal (h : k.controls.phase.isTerminal = true) (deeds : List Deed) :
    (k.after deeds).controls.life = k.controls.life := by
  induction deeds generalizing k with
  | nil => rfl
  | cons d deeds ih =>
    have hlife : (k.perform d).controls.life = k.controls.life := by
      show (actAfter k.controls (k.act? d)).life = _
      cases k.act? d with
      | none => rfl
      | some a => exact Controls.life_act_of_isTerminal h a
    have hended : (k.perform d).controls.phase.isTerminal = true :=
      (congrArg (·.phase.isTerminal) hlife).trans h
    exact (ih hended).trans hlife

/-- Until a request to stop it has come to its end, a session has failed if
and only if a failure was reported. -/
theorem Recorded.failed_iff (h : k.Recorded) (hfirst : .closed ∉ k.stops) :
    k.controls.phase = .failed ↔ ∃ x ∈ k.crew, x.report?.isSome = true := by
  constructor
  · intro hfailed
    obtain ⟨x, hx, f, hreport, -⟩ := h.failed hfailed
    exact ⟨x, hx, Option.isSome_of_eq_some hreport⟩
  · rintro ⟨x, hx, hreport⟩
    have hended := h.ended x hx hreport
    have hnot : k.controls.phase ≠ .stopped := fun hstopped => hfirst (h.stopped hstopped)
    generalize k.controls.phase = p at hended hnot
    revert hended hnot
    cases p <;> decide

/-- How a request to stop the session ends it. -/
structure Ending (k k' : Crowd) : Prop where
  /-- The session ends by a failure if and only if one has been reported. -/
  failed : k'.controls.phase = .failed ↔ ∃ x ∈ k.crew, x.report?.isSome = true
  /-- It tells a failure that has been reported then. -/
  tells : k'.controls.phase = .failed → ∃ x ∈ k.crew, ∃ f, x.report? = some f ∧
    k'.controls.life.events.back? = some ⟨.failed, some f, f.snapshot⟩
  /-- Otherwise it ends without a failure. -/
  stopped : k'.controls.phase = .stopped ↔ ∀ x ∈ k.crew, x.report? = none
  /-- No failure is lost if all that have happened have been reported. -/
  kept : (∀ x ∈ k.crew, x.report? = x.failure?) → (∃ x ∈ k.crew, x.failure?.isSome = true) →
    k'.controls.phase = .failed
  /-- What happens later changes nothing. -/
  final : ∀ deeds, (k'.after deeds).controls.life = k'.controls.life

/-- The first request to stop the session that comes to its end finds it ended
by a failure, if one has been reported by then, and ends it without one
otherwise, even if an invocation has failed and not yet reported it. -/
theorem ends_by_reported_failure (gate : Gate) (stack : Nat) (deeds : List Deed) (index : Nat)
    (hdrained : ((opening gate stack).after deeds).stops[index]? = some .drained)
    (hfirst : .closed ∉ ((opening gate stack).after deeds).stops) :
    ((opening gate stack).after deeds).Ending
      (((opening gate stack).after deeds).perform (.close index)) := by
  have hrecorded := (recorded_opening gate stack).after deeds
  generalize (opening gate stack).after deeds = k at hdrained hfirst hrecorded
  have hcontrols : (k.perform (.close index)).controls = k.controls.act .close := by
    show actAfter k.controls (k.act? (.close index)) = _
    rw [act?, if_pos hdrained]
    rfl
  have hended : (k.perform (.close index)).controls.phase.isTerminal = true := by
    rw [hcontrols]
    exact Controls.isTerminal_close k.controls
  have hfailed : (k.perform (.close index)).controls.phase = .failed ↔
      ∃ x ∈ k.crew, x.report?.isSome = true := by
    rw [hcontrols, ← hrecorded.failed_iff hfirst]
    exact Controls.phase_close_eq_failed
  refine ⟨hfailed, fun h => ?_, ?_, fun hreported hsome => ?_, life_after_of_isTerminal hended⟩
  · -- the request has found the session ended
    have hbefore : k.controls.phase = .failed :=
      (hrecorded.failed_iff hfirst).mpr (hfailed.mp h)
    obtain ⟨x, hx, f, hreport, hevent⟩ := hrecorded.failed hbefore
    refine ⟨x, hx, f, hreport, ?_⟩
    rw [hcontrols, Controls.life_act_of_isTerminal (by rw [hbefore]; rfl)]
    exact hevent
  · have hstopped : (k.perform (.close index)).controls.phase = .stopped ↔
        (k.perform (.close index)).controls.phase ≠ .failed := by
      generalize (k.perform (.close index)).controls.phase = p at hended
      revert hended
      cases p <;> decide
    rw [hstopped, ne_eq, hfailed]
    simp
  · obtain ⟨x, hx, hsome⟩ := hsome
    refine hfailed.mpr ⟨x, hx, ?_⟩
    rw [hreported x hx]
    exact hsome

/-- The entry point fails and drops its guard. It has reported the failure, or
not, when somebody asks to stop the session and finds no guard left. -/
def failing (failure : Failure) (reports : Bool) : List Deed :=
  [.engine 0 (.finish (some failure)), .engine 0 .release] ++
    (if reports then [.engine 0 .report] else []) ++ [.stop, .drained 0]

/-- A failure that is reported in time is not lost. -/
theorem reported_in_time : (((opening {} 0).after (failing default true)).perform
    (.close 0)).controls.phase = .failed :=
  (ends_by_reported_failure {} 0 (failing default true) 0 rfl (by decide)).failed.mpr
    ⟨⟨0, .reported (some default)⟩, List.mem_cons_self, rfl⟩

/-- A failure that is reported when the session has been stopped is lost. -/
theorem reported_too_late :
    let k := (opening {} 0).after (failing default false)
    let k' := k.after [.close 0, .engine 0 .report, .aside .refreshIdle rfl]
    k.controls.phase = .running ∧ k.crew.map (·.failure?) = [some default] ∧
      k'.controls.phase = .stopped ∧ k'.crew.map (·.report?) = [some default] :=
  ⟨rfl, rfl, rfl, rfl⟩

end Crowd

end Stepwise
