import Mathlib.Data.List.Chain
import Stepwise.Proofs.Control.Acts

/-!
# Legal histories

Many parties try to move a session from one phase to another: requests,
engines at the gate, work that ends or fails. None of them knows the phase;
each relies on being refused when its move is not legal. Whatever they try,
and in whatever order, the moves that are made form a path in the graph of
phases, and at most one of them ends the session.
-/

namespace Stepwise

/-- The graph of phases. -/
inductive Phase.Leads : Phase → Phase → Prop where
  /-- A session is prepared once. -/
  | prepare : Leads .ready .preparing
  /-- A prepared session runs. -/
  | begin : Leads .preparing .running
  /-- Nothing is left to run. -/
  | rest : Leads .running .idle
  /-- There is work again. -/
  | wake : Leads .idle .running
  /-- A running session is held. -/
  | hold : Leads .running .paused
  /-- An idle session is held. -/
  | holdIdle : Leads .idle .paused
  /-- A session that was held runs. -/
  | release : Leads .paused .running
  /-- A session that was held has nothing to run. -/
  | releaseIdle : Leads .paused .idle
  /-- Every session may be stopped. -/
  | stop {p : Phase} : p.isTerminal = false → Leads p .stopped
  /-- Every session may fail. -/
  | fail {p : Phase} : p.isTerminal = false → Leads p .failed

namespace Phase

/-- A move is legal if the graph has it. -/
theorem canMove_iff {a b : Phase} : a.canMove b = true ↔ a.Leads b := by
  constructor
  · intro h
    cases a <;> cases b <;> first | (cases h; done) | (constructor; done) | (constructor; rfl)
  · rintro (_ | _ | _ | _ | _ | _ | _ | _ | h | h)
    case stop => cases a <;> first | rfl | cases h
    case fail => cases a <;> first | rfl | cases h
    all_goals rfl

namespace Leads

variable {a b : Phase} {l : List Phase}

/-- No move leads from the end of a session. -/
theorem not_terminal (h : a.Leads b) : a.isTerminal = false := by
  cases h <;> first | rfl | assumption

/-- No move leads back to the beginning. -/
theorem ne_ready (h : a.Leads b) : b ≠ .ready := by
  cases h <;> exact Phase.noConfusion

/-- On a path nothing comes back to the beginning. -/
theorem ready_notMem (h : (a :: l).IsChain Leads) : .ready ∉ l := by
  induction l generalizing a with
  | nil => exact List.not_mem_nil
  | cons b l ih =>
    obtain ⟨hab, hl⟩ := List.isChain_cons_cons.mp h
    exact fun hm => (List.mem_cons.mp hm).elim (fun he => hab.ne_ready he.symm) (ih hl)

/-- On a path only the beginning leads to preparation. -/
theorem preparing_notMem (h : (a :: l).IsChain Leads) (ha : a ≠ .ready) : .preparing ∉ l := by
  induction l generalizing a with
  | nil => exact List.not_mem_nil
  | cons b l ih =>
    obtain ⟨hab, hl⟩ := List.isChain_cons_cons.mp h
    intro hm
    rcases List.mem_cons.mp hm with rfl | hm
    · cases hab
      exact ha rfl
    · exact ih hl hab.ne_ready hm

/-- On a path nothing follows an end. -/
theorem not_terminal_of_mem (h : (a :: l).IsChain Leads) :
    ∀ p ∈ (a :: l).dropLast, p.isTerminal = false := by
  induction l generalizing a with
  | nil => exact fun p hp => absurd hp List.not_mem_nil
  | cons b l ih =>
    obtain ⟨hab, hl⟩ := List.isChain_cons_cons.mp h
    rw [List.dropLast_cons_cons]
    exact List.forall_mem_cons.mpr ⟨hab.not_terminal, ih hl⟩

end Leads

end Phase

namespace Lifecycle

/-- The phases entered so far, first one first. -/
def phases (l : Lifecycle) : List Phase := l.events.toList.map (·.phase)

/-- What every move of a session keeps, if these failures have been reported so far. -/
structure Sound (l : Lifecycle) (reports : List Failure) : Prop where
  /-- The phases form a path in the graph. -/
  path : (.ready :: l.phases).IsChain Phase.Leads
  /-- The last of them is the current one. -/
  current : l.phase = l.phases.getLastD .ready
  /-- What is published is what the observer is told. -/
  told : l.published = l.events
  /-- A move has a failure if and only if it ends the session by one. -/
  failure : ∀ e ∈ l.events.toList, e.failure.isSome = true ↔ e.phase = .failed
  /-- That failure is the first one reported. -/
  first : ∀ e ∈ l.events.toList, ∀ f, e.failure = some f → reports.head? = some f
  /-- A session of which a failure was reported has ended. -/
  ended : reports ≠ [] → l.phase.isTerminal = true

/-- A legal history, if these failures have been reported so far. -/
structure Legal (l : Lifecycle) (reports : List Failure) : Prop extends l.Sound reports where
  /-- Nothing comes back to the beginning, which is left for preparation once at most. -/
  once : .ready ∉ l.phases ∧ .preparing ∉ l.phases.tail
  /-- Nothing follows an end. -/
  last : ∀ p ∈ l.phases.dropLast, p.isTerminal = false

variable {l : Lifecycle} {reports : List Failure}

theorem sound_new : ({} : Lifecycle).Sound [] where
  path := List.isChain_singleton _
  current := rfl
  told := rfl
  failure := fun _ he => absurd he List.not_mem_nil
  first := fun _ he => absurd he List.not_mem_nil
  ended := fun h => absurd rfl h

/-- The rest of what makes a history legal follows from the path. -/
theorem Sound.legal (h : l.Sound reports) : l.Legal reports where
  toSound := h
  once := by
    refine ⟨Phase.Leads.ready_notMem h.path, ?_⟩
    have hpath := h.path
    cases hl : l.phases with
    | nil => exact List.not_mem_nil
    | cons p rest =>
      rw [hl] at hpath
      obtain ⟨hp, hrest⟩ := List.isChain_cons_cons.mp hpath
      exact Phase.Leads.preparing_notMem hrest hp.ne_ready
  last := by
    intro p hp
    refine Phase.Leads.not_terminal_of_mem h.path p ?_
    cases hl : l.phases with
    | nil =>
      rw [hl] at hp
      exact absurd hp List.not_mem_nil
    | cons q rest =>
      rw [hl] at hp
      rw [List.dropLast_cons_cons]
      exact List.mem_cons_of_mem _ hp

/-- A session that was told to end has ended. -/
theorem Legal.isTerminal (h : l.Legal reports) {e : Event} (he : e ∈ l.published.toList)
    (hended : e.phase.isTerminal = true) : l.phase.isTerminal = true := by
  rw [h.told] at he
  have hmem : e.phase ∈ l.phases := List.mem_map_of_mem he
  have hne : l.phases ≠ [] := List.ne_nil_of_mem hmem
  have hlast : e.phase = l.phases.getLast hne := by
    rw [← List.dropLast_append_getLast hne, List.mem_append, List.mem_singleton] at hmem
    refine hmem.resolve_left fun hearlier => ?_
    rw [h.last _ hearlier] at hended
    cases hended
  rw [h.current, List.getLastD_eq_getLast?, List.getLast?_eq_some_getLast hne, Option.getD_some,
    ← hlast]
  exact hended

/-- A move is made or refused, and a failure is reported with it if it is one. -/
theorem Sound.apply (h : l.Sound reports) {e : Event}
    (he : e.failure.isSome = true ↔ e.phase = .failed) :
    (l.apply e).2.Sound (reports ++ e.failure.toList) := by
  by_cases hmove : l.phase.canMove e.phase = true
  · -- a session that can still move has had no failure reported
    have hopen : reports = [] := by
      by_contra hreports
      rw [Phase.canMove_of_isTerminal (h.ended hreports)] at hmove
      cases hmove
    have hphases : Lifecycle.phases ⟨e.phase, l.events.push e, l.published.push e⟩ =
        l.phases ++ [e.phase] := by
      simp only [phases, Array.toList_push, List.map_append, List.map_cons, List.map_nil]
    rw [apply_of_canMove hmove, hopen, List.nil_append]
    refine ⟨?_, ?_, ?_, ?_, ?_, ?_⟩
    · rw [hphases, ← List.cons_append, List.isChain_append]
      refine ⟨h.path, List.isChain_singleton _, fun p hp q hq => ?_⟩
      rw [List.getLast?_cons, Option.mem_some_iff] at hp
      cases hq
      rw [← hp, ← List.getLastD_eq_getLast?, ← h.current]
      exact Phase.canMove_iff.mp hmove
    · rw [hphases, List.getLastD_concat]
    · exact congrArg (·.push e) h.told
    · intro e' he'
      rw [Array.toList_push, List.mem_append, List.mem_singleton] at he'
      exact he'.elim (h.failure e') fun heq => heq ▸ he
    · intro e' he' f hf
      rw [Array.toList_push, List.mem_append, List.mem_singleton] at he'
      rcases he' with he' | rfl
      · have hfirst := h.first e' he' f hf
        rw [hopen] at hfirst
        cases hfirst
      · rw [hf]
        rfl
    · intro hsome
      have hfailed : e.phase = .failed := he.mp (by
        cases hf : e.failure with
        | none => rw [hf] at hsome; exact absurd rfl hsome
        | some f => rfl)
      show e.phase.isTerminal = true
      rw [hfailed]
      rfl
  · rw [apply_of_not_canMove hmove]
    refine { h with first := fun e' he' f hf => ?_, ended := fun hsome => ?_ }
    · rw [List.head?_append, h.first e' he' f hf]
      rfl
    · cases hf : e.failure with
      | none =>
        rw [hf, Option.toList_none, List.append_nil] at hsome
        exact h.ended hsome
      | some f =>
        -- a failure is refused only by a session that has ended
        have hfailed : e.phase = .failed := he.mp (by rw [hf]; rfl)
        by_contra hopen
        rw [hfailed] at hmove
        exact hmove (Phase.canMove_iff.mpr (.fail (Bool.eq_false_iff.mpr hopen)))

end Lifecycle

namespace Controls

/-- The controls after an act: one attempt to move the session, or none. It
has a failure if and only if it would end the session by one, and only
closing would end it otherwise. -/
def Tries (c : Controls) (a : Act) (c' : Controls) : Prop :=
  c'.life = c.life ∧ a.failure? = none ∨
    ∃ e : Event, c'.life = (c.life.apply e).2 ∧ e.failure = a.failure? ∧
      (a.failure?.isSome = true ↔ e.phase = .failed) ∧ (e.phase = .stopped → a = .close)

variable (c : Controls) {c' : Controls} {a : Act}

theorem tries_nothing (h : c'.life = c.life) (ha : a.failure? = none) : c.Tries a c' :=
  .inl ⟨h, ha⟩

/-- An attempt that does not end the session. -/
theorem tries_event (e : Event) (hopen : e.phase.isTerminal = false) (hfailure : e.failure = none)
    (h : c'.life = (c.life.apply e).2) (ha : a.failure? = none) : c.Tries a c' := by
  refine .inr ⟨e, h, hfailure.trans ha.symm, ?_, fun hstopped => ?_⟩
  · rw [ha]
    refine iff_of_false Bool.false_ne_true fun hfailed => ?_
    rw [hfailed] at hopen
    cases hopen
  · rw [hstopped] at hopen
    cases hopen

theorem tries_move (next : Phase) (hopen : next.isTerminal = false)
    (h : c'.life = (c.life.move next).2) (ha : a.failure? = none) : c.Tries a c' :=
  c.tries_event ⟨next, none, none⟩ hopen rfl h ha

/-- Every act is one attempt at most. -/
theorem act_tries (a : Act) : c.Tries a (c.act a) := by
  cases a with
  | pause =>
    simp only [act, pause]
    split
    · exact c.tries_nothing rfl rfl
    split
    · exact c.tries_move .paused rfl rfl rfl
    · exact c.tries_nothing rfl rfl
  | step =>
    simp only [act, step]
    split
    · split
      · exact c.tries_move .running rfl rfl rfl
      · exact c.tries_nothing rfl rfl
    · exact c.tries_nothing rfl rfl
  | resume =>
    simp only [act, release]
    split
    · exact c.tries_nothing rfl rfl
    split
    · split
      · exact c.tries_move .idle rfl rfl rfl
      · exact c.tries_move .running rfl rfl rfl
    · exact c.tries_nothing rfl rfl
  | close =>
    have hopen : Phase.stopped ≠ .failed := by decide
    exact .inr ⟨⟨.stopped, none, none⟩, rfl, rfl, iff_of_false Bool.false_ne_true hopen,
      fun _ => rfl⟩
  | prepare => exact c.tries_move .preparing rfl rfl rfl
  | run => exact c.tries_move .running rfl rfl rfl
  | activate =>
    rcases c.activate_cases with h | h
    · exact c.tries_move .running rfl (congrArg life h) rfl
    · exact c.tries_nothing (congrArg life h) rfl
  | refreshIdle =>
    rcases c.refreshIdle_cases with h | h
    · exact c.tries_move .idle rfl (congrArg life h) rfl
    · exact c.tries_nothing (congrArg life h) rfl
  | fail f =>
    have hopen : Phase.failed ≠ .stopped := by decide
    exact .inr ⟨⟨.failed, some f, f.snapshot⟩, rfl, rfl, iff_of_true rfl rfl,
      fun h => absurd h hopen⟩
  | arrive stmt snapshot =>
    cases h : (c.approach stmt).leave? with
    | none =>
      exact c.tries_event ⟨.paused, none, some snapshot⟩ rfl rfl
        (congrArg life (act_arrive_of_none h snapshot)) rfl
    | some left =>
      obtain ⟨gate, -, hleft⟩ := leave?_eq_some h
      refine c.tries_nothing ?_ rfl
      rw [act_arrive_of_some h, hleft]
      rfl
  | leave =>
    refine c.tries_nothing ?_ rfl
    simp only [act]
    split
    · obtain ⟨gate, -, hleft⟩ := leave?_eq_some ‹c.leave? = some _›
      rw [hleft]
    · rfl
  | _ => exact c.tries_nothing rfl rfl

/-- An act keeps the history sound. -/
theorem sound_act {reports : List Failure} (h : c.life.Sound reports) (a : Act) :
    (c.act a).life.Sound (reports ++ a.failure?.toList) := by
  rcases c.act_tries a with ⟨hlife, hnone⟩ | ⟨e, hlife, hfailure, hphase, -⟩
  · rw [hlife, hnone, Option.toList_none, List.append_nil]
    exact h
  · rw [hlife, ← hfailure]
    exact h.apply (hfailure ▸ hphase)

/-- All acts keep the history sound. -/
theorem sound_perform {reports : List Failure} (h : c.life.Sound reports) (acts : List Act) :
    (c.perform acts).life.Sound (reports ++ Act.failures acts) := by
  induction acts generalizing c reports with
  | nil =>
    rw [Act.failures_nil, List.append_nil]
    exact h
  | cons a acts ih =>
    have hrest := ih (c.act a) (c.sound_act h a)
    have hcons : Act.failures (a :: acts) = a.failure?.toList ++ Act.failures acts := by
      cases hf : a.failure? <;> simp [Act.failures, hf]
    rwa [hcons, ← List.append_assoc]

/-- Whatever happens at new controls, the history is legal. -/
theorem legal_perform (acts : List Act) :
    (({} : Controls).perform acts).life.Legal (Act.failures acts) := by
  have hsound := ({} : Controls).sound_perform Lifecycle.sound_new acts
  rw [List.nil_append] at hsound
  exact hsound.legal

end Controls

end Stepwise
