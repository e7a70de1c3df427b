import Stepwise.Proofs.Engine.Changes

/-!
# Statements and events in time

Statements are observed and events are published by different parties, each in
an order of its own. How many events had been published when a statement was
observed puts both in one order. In that order no statement begins behind the
end: an engine passes the gate only as long as it is not turned away, and the
end is published to engines that are turned away already or by that very act.
-/

namespace Stepwise

namespace World

/-- The end of the session has been published. -/
def Ended (w : World) : Prop :=
  ∃ e ∈ w.controls.life.published.toList, e.phase.isTerminal = true

/-- Engines are turned away from the moment on at which the end is published. -/
theorem Changes.cancelled_of_ended {acts : List Controls.Act} {w : World} (h : Changes acts {} w)
    (hended : w.Ended) : w.controls.gate.cancelled = true := by
  obtain ⟨e, he, hterminal⟩ := hended
  have hlegal := Controls.legal_perform acts
  rw [show ({} : Controls).perform acts = w.controls from h.controls.symm] at hlegal
  exact h.sealed (fun hready => by cases hready) (hlegal.isTerminal he hterminal)

/-- The statements observed, each with the events published before it. -/
def sightings (w : World) : List (TraceEntry × List Event) :=
  w.trace.toList.zip (w.clock.toList.map w.controls.life.published.toList.take)

/-- Every statement began before any end was published. -/
structure BeginsInTime (w : World) : Prop where
  /-- Every statement observed has its place among the events. -/
  timed : w.clock.size = w.trace.size
  /-- That place is one among the events published so far. -/
  past : ∀ n ∈ w.clock.toList, n ≤ w.controls.life.published.size
  /-- No event published before a statement began is an end. -/
  early : ∀ sighting ∈ w.sightings, sighting.1.isBefore = true →
    ∀ e ∈ sighting.2, e.phase.isTerminal = false

namespace BeginsInTime

variable {w : World}

/-- Nothing has begun in a new world. -/
theorem new : BeginsInTime {} where
  timed := rfl
  past := fun _ hn => absurd hn List.not_mem_nil
  early := fun _ hs => absurd hs List.not_mem_nil

/-- Statements and events stay as they are. -/
theorem of_eq {w' : World} (h : w.BeginsInTime) (htrace : w'.trace = w.trace)
    (hclock : w'.clock = w.clock)
    (hpublished : w'.controls.life.published = w.controls.life.published) : w'.BeginsInTime where
  timed := by rw [htrace, hclock, h.timed]
  past := by
    rw [hclock, hpublished]
    exact h.past
  early := by
    rw [sightings, htrace, hclock, hpublished]
    exact h.early

/-- What is published later is behind all that has been observed. -/
theorem act (h : w.BeginsInTime) (a : Controls.Act) :
    BeginsInTime { w with controls := w.controls.act a } := by
  rcases w.controls.published_act a with hsame | ⟨e, hmore, -⟩
  · exact h.of_eq rfl rfl hsame
  · have hsightings : { w with controls := w.controls.act a }.sightings = w.sightings := by
      refine congrArg w.trace.toList.zip (List.map_congr_left fun n hn => ?_)
      show (w.controls.act a).life.published.toList.take n = _
      rw [hmore, Array.toList_push, List.take_append_of_le_length (h.past n hn)]
    refine ⟨h.timed, fun n hn => ?_, hsightings ▸ h.early⟩
    show n ≤ (w.controls.act a).life.published.size
    rw [hmore, Array.size_push]
    exact Nat.le_succ_of_le (h.past n hn)

/-- One more statement is observed, behind all events. -/
theorem observe (h : w.BeginsInTime) {isBefore : Bool} (stmt : Stmt)
    (hopen : isBefore = true → ¬ w.Ended) : (w.observe isBefore stmt).BeginsInTime where
  timed := by simp [World.observe, h.timed]
  past := by
    intro n hn
    simp only [World.observe, Array.toList_push, List.mem_append, List.mem_singleton] at hn
    exact hn.elim (h.past n) fun hn => hn ▸ Nat.le_refl _
  early := by
    intro sighting hs hbefore e he
    have hlength : w.trace.toList.length =
        (w.clock.toList.map w.controls.life.published.toList.take).length := by
      simp [h.timed]
    simp only [sightings, World.observe, Array.toList_push, List.map_append, List.map_cons,
      List.map_nil, List.zip_append hlength, List.mem_append] at hs
    rcases hs with hs | hs
    · exact h.early sighting hs hbefore e he
    · obtain rfl := List.mem_singleton.mp hs
      by_contra hterminal
      refine hopen hbefore ⟨e, List.mem_of_mem_take he, Bool.ne_false_iff.mp hterminal⟩

end BeginsInTime

/-- What an engine publishes when it passes the gate is no end. -/
theorem not_ended_of_passes {w : World} {a : Controls.Act}
    (hw : w.Ended → w.controls.gate.cancelled = true)
    (hpasses : Controls.passes (w.controls.mark? a).toList = 1) :
    ¬ { w with controls := w.controls.act a }.Ended := by
  have hopen : ¬ w.Ended := fun hended => by
    rw [Controls.passes_mark?_of_cancelled (hw hended)] at hpasses
    cases hpasses
  rintro ⟨e, he, hterminal⟩
  rcases w.controls.published_act a with hsame | ⟨e', hmore, he'⟩
  · exact hopen ⟨e, hsame ▸ he, hterminal⟩
  · change e ∈ (w.controls.act a).life.published.toList at he
    rw [hmore, Array.toList_push, List.mem_append, List.mem_singleton] at he
    rcases he with he | rfl
    · exact hopen ⟨e, he, hterminal⟩
    · rw [he' hpasses] at hterminal
      cases hterminal

/-- Whatever happens to a new world, statements begin before the end. -/
theorem Changes.beginsInTime {acts : List Controls.Act} {w : World} (h : Changes acts {} w) :
    w.BeginsInTime := by
  generalize hnew : ({} : World) = start at h
  induction h with
  | refl w => exact hnew ▸ .new
  | @tail acts more _ v w' hfirst hlast ih =>
    subst hnew
    have hv := ih rfl
    cases hlast with
    | complete _ stmt => exact hv.observe stmt nofun
    | act _ a _ _ => exact hv.act a
    | begin _ a stmt hpasses =>
      exact (hv.act a).observe stmt fun _ =>
        not_ended_of_passes hfirst.cancelled_of_ended hpasses
    | _ => exact hv.of_eq rfl rfl rfl

end World

end Stepwise
