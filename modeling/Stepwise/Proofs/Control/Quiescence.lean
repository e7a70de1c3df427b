import Mathlib.Logic.Function.Basic
import Stepwise.Proofs.Control.Guards
import Stepwise.Proofs.Control.Phases

/-!
# Quiescence

A guard holds a counter of its own and lowers that counter when it is dropped,
whatever has become of the record of its call stack. A ledger keeps counters,
records and guards apart in this way. Whatever happens, in any order, the
tracker shows what the ledger holds: no record goes while a guard needs it, so
that the tracker calls a session quiet exactly when nothing is in flight, and a
session falls idle only then.
-/

namespace Stepwise

/-- A guard that is alive. -/
structure Guard where
  /-- The call stack of its invocation. -/
  stack : Nat
  /-- The counter that it lowers when it is dropped. -/
  counter : Nat
deriving DecidableEq

/-- Guards, the counters that they hold, and the counter that each call stack has. -/
structure Ledger where
  /-- The value of each counter. -/
  counters : Nat → Nat := fun _ => 0
  /-- Number of counters there have been. -/
  made : Nat := 0
  /-- The counter of each call stack that has a record, oldest record first. -/
  records : List (Nat × Nat) := []
  /-- The guards that are alive, oldest one first. -/
  guards : List Guard := []

namespace Ledger

/-- Make sure that a call stack has a record, if need be with a new counter. -/
def register (l : Ledger) (stack : Nat) : Ledger :=
  if (l.records.lookup stack).isSome then l
  else { l with made := l.made + 1, records := l.records ++ [(stack, l.made)] }

/-- Change the value of a counter. -/
def setCounter (l : Ledger) (counter : Nat) (f : Nat → Nat) : Ledger :=
  { l with counters := Function.update l.counters counter (f (l.counters counter)) }

/-- An invocation begins: its guard raises the counter that the call stack has now. -/
def start (l : Ledger) (stack : Nat) : Ledger :=
  let l := l.register stack
  match l.records.lookup stack with
  | some counter => { l.setCounter counter (· + 1) with guards := ⟨stack, counter⟩ :: l.guards }
  | none => l

/-- A guard is dropped: it lowers the counter that it holds. -/
def drop (l : Ledger) (index : Nat) : Ledger :=
  match l.guards[index]? with
  | some guard => { l.setCounter guard.counter (· - 1) with guards := l.guards.eraseIdx index }
  | none => l

/-- Drop the record of a call stack, once its counter is down. -/
def drain (l : Ledger) (stack : Nat) : Ledger :=
  match l.records.lookup stack with
  | some counter =>
    if l.counters counter = 0 then { l with records := l.records.filter (·.1 ≠ stack) } else l
  | none => l

/-- Drop the records of all call stacks whose counters are down. -/
def drainAll (l : Ledger) : Ledger :=
  { l with records := l.records.filter fun record => l.counters record.2 ≠ 0 }

/-- The count of each call stack that has a record. -/
def shown (l : Ledger) : List (Nat × Nat) :=
  l.records.map fun record => (record.1, l.counters record.2)

/-- The ledger is right. -/
structure Sound (l : Ledger) : Prop where
  /-- No call stack has two records. -/
  distinct : (l.records.map Prod.fst).Nodup
  /-- No counter belongs to two call stacks. -/
  apart : (l.records.map Prod.snd).Nodup
  /-- No record has a counter yet to be made. -/
  issued : ∀ record ∈ l.records, record.2 < l.made
  /-- The counter that a guard holds is the one that its call stack has. -/
  registered : ∀ guard ∈ l.guards, (guard.stack, guard.counter) ∈ l.records
  /-- A counter is the number of guards that hold it. -/
  counted : ∀ counter, l.counters counter = l.guards.countP (·.counter == counter)

theorem sound_new : ({} : Ledger).Sound where
  distinct := List.nodup_nil
  apart := List.nodup_nil
  issued := fun _ h => absurd h List.not_mem_nil
  registered := fun _ h => absurd h List.not_mem_nil
  counted := fun _ => rfl

variable {l : Ledger} {stack counter : Nat}

/-- The call stacks with a record are those that show a count. -/
theorem lookup_shown (l : Ledger) (stack : Nat) :
    l.shown.lookup stack = (l.records.lookup stack).map l.counters := by
  unfold shown
  induction l.records with
  | nil => rfl
  | cons record rest ih =>
    obtain ⟨key, counter⟩ := record
    by_cases h : stack = key
    · simp [h]
    · rw [List.map_cons, Tracker.lookup_cons_ne h, Tracker.lookup_cons_ne h, ih]

/-- The counter of a guard is up. -/
theorem Sound.counter_pos (h : l.Sound) {guard : Guard} (hguard : guard ∈ l.guards) :
    0 < l.counters guard.counter := by
  rw [h.counted]
  exact List.countP_pos_iff.mpr ⟨guard, hguard, beq_self_eq_true _⟩

/-- A counter yet to be made is down. -/
theorem Sound.counter_new (h : l.Sound) : l.counters l.made = 0 := by
  rw [h.counted, List.countP_eq_zero]
  intro guard hguard hcounter
  have hissued := h.issued _ (h.registered guard hguard)
  rw [beq_iff_eq] at hcounter
  omega

/-- A record shows its counter, and no other record does. -/
theorem shown_setCounter {records : List (Nat × Nat)} (counters : Nat → Nat)
    (hdistinct : (records.map Prod.fst).Nodup) (hapart : (records.map Prod.snd).Nodup)
    (hmem : (stack, counter) ∈ records) (f : Nat → Nat) :
    (records.map fun record =>
        (record.1, Function.update counters counter (f (counters counter)) record.2)) =
      Tracker.update stack f (records.map fun record => (record.1, counters record.2)) := by
  induction records with
  | nil => exact absurd hmem List.not_mem_nil
  | cons record rest ih =>
    obtain ⟨key, held⟩ := record
    rw [List.map_cons, List.nodup_cons] at hdistinct hapart
    rw [List.map_cons, List.map_cons, Tracker.update]
    rcases List.mem_cons.mp hmem with heq | hrest
    · -- this is the record, and nobody else holds its counter
      obtain ⟨rfl, rfl⟩ := Prod.mk.inj heq
      rw [if_pos (beq_self_eq_true stack), Function.update_self]
      refine congrArg _ (List.map_congr_left fun record hrecord => ?_)
      have hne : record.2 ≠ counter := fun hsame =>
        hapart.1 (List.mem_map.mpr ⟨record, hrecord, hsame⟩)
      rw [Function.update_of_ne hne]
    · have hkey : key ≠ stack := fun hsame =>
        hdistinct.1 (List.mem_map.mpr ⟨(stack, counter), hrest, hsame.symm⟩)
      have hheld : held ≠ counter := fun hsame =>
        hapart.1 (List.mem_map.mpr ⟨(stack, counter), hrest, hsame.symm⟩)
      rw [if_neg (by simpa using hkey), Function.update_of_ne hheld,
        ih hdistinct.2 hapart.2 hrest]

theorem Sound.register (h : l.Sound) (stack : Nat) : (l.register stack).Sound := by
  unfold Ledger.register
  split
  · exact h
  · rename_i hnone
    have hlookup : l.records.lookup stack = none := Option.not_isSome_iff_eq_none.mp hnone
    refine ⟨?_, ?_, fun record hrecord => ?_, fun guard hguard => ?_, h.counted⟩
    · rw [List.map_append, List.nodup_append]
      refine ⟨h.distinct, List.nodup_singleton _, fun a ha b hb heq => ?_⟩
      rw [heq, List.mem_singleton.mp hb] at ha
      obtain ⟨record, hrecord, hstack⟩ := List.mem_map.mp ha
      have hne := List.lookup_eq_none_iff.mp hlookup record hrecord
      simp [hstack] at hne
    · rw [List.map_append, List.nodup_append]
      refine ⟨h.apart, List.nodup_singleton _, fun a ha b hb heq => ?_⟩
      rw [heq, List.mem_singleton.mp hb] at ha
      obtain ⟨record, hrecord, hmade⟩ := List.mem_map.mp ha
      exact absurd hmade (Nat.ne_of_lt (h.issued record hrecord))
    · rcases List.mem_append.mp hrecord with hrecord | hrecord
      · exact Nat.lt_succ_of_lt (h.issued record hrecord)
      · rw [List.mem_singleton.mp hrecord]
        exact Nat.lt_succ_self _
    · exact List.mem_append_left _ (h.registered guard hguard)

/-- After registering, a call stack has a record. -/
theorem exists_register (l : Ledger) (stack : Nat) :
    ∃ counter, (l.register stack).records.lookup stack = some counter := by
  unfold register
  split
  · exact Option.isSome_iff_exists.mp ‹_›
  · rename_i hnone
    refine ⟨l.made, ?_⟩
    rw [List.lookup_append, Option.not_isSome_iff_eq_none.mp hnone]
    simp

theorem shown_register (h : l.Sound) {t : Tracker} (ht : t.records = l.shown) (stack : Nat) :
    (t.track stack).records = (l.register stack).shown := by
  unfold Tracker.track Ledger.register
  rw [ht, lookup_shown, Option.isSome_map]
  split
  · exact ht
  · show l.shown ++ [(stack, 0)] = (l.records ++ [(stack, l.made)]).map _
    rw [List.map_append, List.map_cons, List.map_nil, h.counter_new]
    rfl

theorem Sound.start (h : l.Sound) (stack : Nat) : (l.start stack).Sound := by
  have hregister := h.register stack
  obtain ⟨counter, hlookup⟩ := l.exists_register stack
  simp only [Ledger.start, hlookup]
  refine ⟨hregister.distinct, hregister.apart, hregister.issued, fun guard hguard => ?_,
    fun other => ?_⟩
  · rcases List.mem_cons.mp hguard with rfl | hguard
    · exact (Tracker.lookup_eq_some_iff_mem hregister.distinct).mp hlookup
    · exact hregister.registered guard hguard
  · show Function.update _ counter _ other = _
    rw [List.countP_cons, ← hregister.counted other]
    by_cases hother : other = counter
    · subst hother
      simp
    · simp [Function.update_of_ne hother, Ne.symm hother]

theorem shown_start (h : l.Sound) {t : Tracker} (ht : t.records = l.shown) (stack : Nat) :
    (t.taskStarted stack).records = (l.start stack).shown := by
  have hregister := h.register stack
  obtain ⟨counter, hlookup⟩ := l.exists_register stack
  simp only [Ledger.start, hlookup]
  show Tracker.update stack (· + 1) (t.track stack).records = _
  rw [shown_register h ht stack]
  exact (shown_setCounter _ hregister.distinct hregister.apart
    ((Tracker.lookup_eq_some_iff_mem hregister.distinct).mp hlookup) _).symm

section Drop

variable {index : Nat} {guard : Guard}

/-- A guard beside the others. -/
theorem perm_eraseIdx (hguard : l.guards[index]? = some guard) :
    l.guards.Perm (guard :: l.guards.eraseIdx index) := by
  obtain ⟨hlt, hget⟩ := List.getElem?_eq_some_iff.mp hguard
  have herase := List.erase_getElem hlt
  rw [hget] at herase
  exact (List.perm_cons_erase (List.mem_of_getElem? hguard)).trans (herase.cons guard)

theorem Sound.drop (h : l.Sound) (hguard : l.guards[index]? = some guard) :
    (l.drop index).Sound := by
  simp only [Ledger.drop, hguard]
  refine ⟨h.distinct, h.apart, h.issued, fun other hother => ?_, fun other => ?_⟩
  · exact h.registered other (List.mem_of_mem_eraseIdx hother)
  · have hcount := (perm_eraseIdx hguard).countP_eq (·.counter == other)
    rw [← h.counted, List.countP_cons] at hcount
    show Function.update l.counters guard.counter (l.counters guard.counter - 1) other = _
    by_cases hother : other = guard.counter
    · subst hother
      rw [beq_self_eq_true, if_pos rfl] at hcount
      rw [Function.update_self, hcount, Nat.add_sub_cancel]
    · rw [if_neg (by simpa using Ne.symm hother), Nat.add_zero] at hcount
      rw [Function.update_of_ne hother, hcount]

theorem shown_drop (h : l.Sound) {t : Tracker} (ht : t.records = l.shown)
    (hguard : l.guards[index]? = some guard) :
    (t.taskEnded guard.stack).records = (l.drop index).shown := by
  simp only [Ledger.drop, hguard]
  show Tracker.update guard.stack (· - 1) t.records = _
  rw [ht]
  exact (shown_setCounter _ h.distinct h.apart
    (h.registered guard (List.mem_of_getElem? hguard)) _).symm

end Drop

/-- Records go only while their counters are down, so that no guard loses its record. -/
theorem Sound.keep (h : l.Sound) (p : Nat × Nat → Bool)
    (hp : ∀ record ∈ l.records, 0 < l.counters record.2 → p record = true) :
    Sound { l with records := l.records.filter p } := by
  refine ⟨h.distinct.sublist (List.filter_sublist.map _), h.apart.sublist
    (List.filter_sublist.map _), fun record hrecord => h.issued _ (List.mem_of_mem_filter hrecord),
    fun guard hguard => ?_, h.counted⟩
  have hmem := h.registered guard hguard
  exact List.mem_filter.mpr ⟨hmem, hp _ hmem (h.counter_pos hguard)⟩

theorem Sound.drain (h : l.Sound) (stack : Nat) : (l.drain stack).Sound := by
  unfold Ledger.drain
  split
  · rename_i counter hlookup
    split
    · rename_i hdown
      refine h.keep _ fun record hrecord hup => ?_
      refine decide_eq_true fun hstack => ?_
      subst hstack
      rw [(Tracker.lookup_eq_some_iff_mem h.distinct).mpr hrecord] at hlookup
      cases hlookup
      omega
    · exact h
  · exact h

theorem shown_drain {t : Tracker} (ht : t.records = l.shown) (stack : Nat) :
    (t.drain stack).records = (l.drain stack).shown := by
  have hpending : t.pending stack = ((l.records.lookup stack).map l.counters).getD 0 := by
    rw [Tracker.pending, ht, lookup_shown]
  have hfilter : t.records.filter (·.1 ≠ stack) =
      ({ l with records := l.records.filter (·.1 ≠ stack) } : Ledger).shown := by
    rw [ht, shown, shown, List.filter_map]
    rfl
  unfold Tracker.drain Ledger.drain Tracker.isDrained
  rw [hpending]
  cases hlookup : l.records.lookup stack with
  | none =>
    -- there is no record to drop
    have hall : l.records.filter (·.1 ≠ stack) = l.records := by
      refine List.filter_eq_self.mpr fun record hrecord => decide_eq_true fun hstack => ?_
      have hne := List.lookup_eq_none_iff.mp hlookup record hrecord
      simp [hstack] at hne
    show t.records.filter (·.1 ≠ stack) = l.shown
    rw [hfilter, hall]
  | some counter =>
    by_cases hdown : l.counters counter = 0
    · simp only [hdown, Option.map_some, Option.getD_some, beq_self_eq_true, if_true]
      exact hfilter
    · simp only [hdown, Option.map_some, Option.getD_some, beq_iff_eq, if_false]
      exact ht

theorem Sound.drainAll (h : l.Sound) : l.drainAll.Sound :=
  h.keep _ fun _ _ hup => decide_eq_true (Nat.ne_of_gt hup)

theorem shown_drainAll {t : Tracker} (ht : t.records = l.shown) :
    t.drainAll.records = l.drainAll.shown := by
  show t.records.filter (·.2 ≠ 0) = _
  rw [ht, shown, List.filter_map]
  rfl

end Ledger

namespace Controls

/-- Controls beside a ledger of the guards that are alive. -/
structure Guarded where
  /-- The controls. -/
  controls : Controls
  /-- The ledger. -/
  ledger : Ledger := {}

/-- Something that happens to controls and guards. -/
inductive Deed where
  /-- An invocation begins on a call stack and holds a guard. -/
  | start (stack : Nat)
  /-- One of the guards that are alive is dropped. -/
  | drop (index : Nat)
  /-- A call stack is registered. -/
  | track (stack : Nat)
  /-- The entry point begins or ends. -/
  | entry (active : Bool)
  /-- The host begins a call. -/
  | hostCall
  /-- A call of the host ends. -/
  | hostReturn
  /-- The record of a call stack is dropped, if nothing is in flight on it. -/
  | drain (stack : Nat)
  /-- The records of all call stacks on which nothing is in flight are dropped. -/
  | drainAll
  /-- The gate is released. -/
  | release
  /-- The session looks whether it is idle, is activated, or is acted on otherwise. -/
  | other (a : Act) (spares : a.sparesTracker = true)

namespace Guarded

/-- Change the tracker. -/
def mapTracker (g : Guarded) (f : Tracker → Tracker) : Guarded :=
  { g with controls := { g.controls with tracker := f g.controls.tracker } }

/-- Controls and guards after a deed. A guard that is not alive cannot be dropped. -/
def perform (g : Guarded) : Deed → Guarded
  | .start stack => { g.mapTracker (·.taskStarted stack) with ledger := g.ledger.start stack }
  | .drop index =>
    match g.ledger.guards[index]? with
    | some guard => { g.mapTracker (·.taskEnded guard.stack) with ledger := g.ledger.drop index }
    | none => g
  | .track stack => { g.mapTracker (·.track stack) with ledger := g.ledger.register stack }
  | .entry active => g.mapTracker (·.setEntryActive active)
  | .hostCall => g.mapTracker (·.hostCallStarted)
  | .hostReturn => g.mapTracker (·.hostCallEnded)
  | .drain stack => { g.mapTracker (·.drain stack) with ledger := g.ledger.drain stack }
  | .drainAll => { g.mapTracker (·.drainAll) with ledger := g.ledger.drainAll }
  | .release => { g with controls := g.controls.release }
  | .other a _ => { g with controls := g.controls.act a }

/-- Controls and guards after deeds, one after the other. -/
def after (g : Guarded) (deeds : List Deed) : Guarded := deeds.foldl perform g

end Guarded

/-- Whether the entry point is running after a deed. -/
def Deed.entryAfter (active : Bool) : Deed → Bool
  | .entry active => active
  | _ => active

/-- Number of calls of the host after a deed. One that has not begun does not end. -/
def Deed.callsAfter (calls : Nat) : Deed → Nat
  | .hostCall => calls + 1
  | .hostReturn => calls - 1
  | _ => calls

namespace Guarded

/-- The tracker shows what the ledger holds, and knows of the entry point and the host. -/
structure Shows (g : Guarded) (active : Bool) (calls : Nat) : Prop where
  /-- The ledger is right. -/
  sound : g.ledger.Sound
  /-- Records show the counters that guards hold. -/
  shown : g.controls.tracker.records = g.ledger.shown
  /-- Guards are counted. -/
  counts : g.controls.tracker.Counts (g.ledger.guards.map (·.stack))
  /-- The entry point is running, or it is not. -/
  entry : g.controls.tracker.entryActive = active
  /-- So many calls of the host have not ended. -/
  calls : g.controls.tracker.hostCalls = calls

variable {g : Guarded} {active : Bool} {calls : Nat}

/-- The controls change, and the tracker does not. -/
theorem Shows.controls (h : g.Shows active calls) {c : Controls}
    (hc : c.tracker = g.controls.tracker) : Shows { g with controls := c } active calls :=
  ⟨h.sound, hc ▸ h.shown, hc ▸ h.counts, hc ▸ h.entry, hc ▸ h.calls⟩

/-- To register a call stack makes no guard. -/
theorem guards_register (l : Ledger) (stack : Nat) : (l.register stack).guards = l.guards := by
  unfold Ledger.register
  split <;> rfl

/-- To drain a call stack drops no guard, and lowers no counter. -/
theorem guards_drain (l : Ledger) (stack : Nat) :
    (l.drain stack).guards = l.guards ∧ (l.drain stack).counters = l.counters := by
  unfold Ledger.drain
  split
  · split <;> exact ⟨rfl, rfl⟩
  · exact ⟨rfl, rfl⟩

/-- The guards that are alive when an invocation has begun. -/
theorem guards_start (l : Ledger) (stack : Nat) :
    (l.start stack).guards.map (·.stack) = stack :: l.guards.map (·.stack) := by
  obtain ⟨counter, hlookup⟩ := l.exists_register stack
  simp only [Ledger.start, hlookup, List.map_cons, guards_register]

theorem Shows.drop (h : g.Shows active calls) {index : Nat} {guard : Guard}
    (hguard : g.ledger.guards[index]? = some guard) :
    Shows { g.mapTracker (·.taskEnded guard.stack) with ledger := g.ledger.drop index }
      active calls := by
  have hperm := (Ledger.perm_eraseIdx hguard).map (·.stack)
  have herased := hperm.erase guard.stack
  rw [List.map_cons, List.erase_cons_head] at herased
  refine ⟨h.sound.drop hguard, Ledger.shown_drop h.sound h.shown hguard, ?_, h.entry, h.calls⟩
  simp only [Ledger.drop, hguard]
  exact (h.counts.taskEnded guard.stack).perm herased

/-- One deed. -/
theorem Shows.perform (h : g.Shows active calls) (d : Deed) :
    (g.perform d).Shows (d.entryAfter active) (d.callsAfter calls) := by
  cases d with
  | start stack =>
    refine ⟨h.sound.start stack, Ledger.shown_start h.sound h.shown stack, ?_, ?_, ?_⟩
    · show (g.controls.tracker.taskStarted stack).Counts ((g.ledger.start stack).guards.map _)
      rw [guards_start]
      exact h.counts.taskStarted stack
    · exact (Tracker.entryActive_track _ _).trans h.entry
    · exact (Tracker.hostCalls_track _ _).trans h.calls
  | drop index =>
    simp only [Guarded.perform]
    cases hguard : g.ledger.guards[index]? with
    | none => exact h
    | some guard => exact h.drop hguard
  | track stack =>
    refine ⟨h.sound.register stack, Ledger.shown_register h.sound h.shown stack, ?_, ?_, ?_⟩
    · show (g.controls.tracker.track stack).Counts ((g.ledger.register stack).guards.map _)
      rw [guards_register]
      exact h.counts.track stack
    · exact (Tracker.entryActive_track _ _).trans h.entry
    · exact (Tracker.hostCalls_track _ _).trans h.calls
  | entry on => exact ⟨h.sound, h.shown, h.counts.aside _ _, rfl, h.calls⟩
  | hostCall =>
    exact ⟨h.sound, h.shown, h.counts.aside _ _, h.entry, congrArg (· + 1) h.calls⟩
  | hostReturn =>
    exact ⟨h.sound, h.shown, h.counts.aside _ _, h.entry, congrArg (· - 1) h.calls⟩
  | drain stack =>
    refine ⟨h.sound.drain stack, Ledger.shown_drain h.shown stack, ?_, ?_, ?_⟩
    · show (g.controls.tracker.drain stack).Counts ((g.ledger.drain stack).guards.map _)
      rw [(guards_drain _ _).1]
      exact h.counts.drain stack
    · exact (Tracker.entryActive_drain _ _).trans h.entry
    · exact (Tracker.hostCalls_drain _ _).trans h.calls
  | drainAll =>
    exact ⟨h.sound.drainAll, Ledger.shown_drainAll h.shown, h.counts.drainAll, h.entry, h.calls⟩
  | release => exact h.controls (tracker_release g.controls)
  | other a spares => exact h.controls (g.controls.tracker_act spares)

/-- All deeds. -/
theorem Shows.after (h : g.Shows active calls) (deeds : List Deed) :
    (g.after deeds).Shows (deeds.foldl Deed.entryAfter active)
      (deeds.foldl Deed.callsAfter calls) := by
  induction deeds generalizing g active calls with
  | nil => exact h
  | cons d deeds ih => exact ih (h.perform d)

/-- Idle means that nothing is in flight, if the entry point is running or not
and so many calls of the host have not ended. -/
structure Quiesces (g : Guarded) (active : Bool) (calls : Nat) : Prop where
  /-- The count of a call stack is the number of its guards. -/
  counted : ∀ stack, g.controls.tracker.pending stack =
    g.ledger.guards.countP (·.stack == stack)
  /-- The record of a guard that is alive is there, and shows the counter that the guard holds. -/
  registered : ∀ guard ∈ g.ledger.guards, g.controls.tracker.records.lookup guard.stack =
    some (g.ledger.counters guard.counter)
  /-- Draining takes no such record away. -/
  kept : ∀ guard ∈ g.ledger.guards, ∀ d, d = .drainAll ∨ (∃ stack, d = .drain stack) →
    (g.perform d).controls.tracker.records.lookup guard.stack =
      g.controls.tracker.records.lookup guard.stack
  /-- The tracker is quiet if and only if nothing is in flight. -/
  quiet : g.controls.tracker.isQuiet = true ↔
    active = false ∧ calls = 0 ∧ g.ledger.guards = []
  /-- Whatever makes the session idle does so only then. -/
  idle : ∀ d, (g.perform d).controls.phase = .idle → g.controls.phase ≠ .idle →
    g.controls.tracker.isQuiet = true

/-- The record of a guard shows the counter that it holds. -/
theorem Shows.registered (h : g.Shows active calls) {guard : Guard}
    (hguard : guard ∈ g.ledger.guards) :
    g.controls.tracker.records.lookup guard.stack = some (g.ledger.counters guard.counter) := by
  have hlookup := (Tracker.lookup_eq_some_iff_mem h.sound.distinct).mpr
    (h.sound.registered guard hguard)
  rw [h.shown, Ledger.lookup_shown, hlookup, Option.map_some]

theorem Shows.kept (h : g.Shows active calls) {guard : Guard} (hguard : guard ∈ g.ledger.guards)
    {d : Deed} (hd : d = .drainAll ∨ ∃ stack, d = .drain stack) :
    (g.perform d).controls.tracker.records.lookup guard.stack =
      g.controls.tracker.records.lookup guard.stack := by
  have hledger : (g.perform d).ledger.guards = g.ledger.guards ∧
      (g.perform d).ledger.counters = g.ledger.counters := by
    rcases hd with rfl | ⟨stack, rfl⟩
    · exact ⟨rfl, rfl⟩
    · exact guards_drain g.ledger stack
  rw [(h.perform d).registered (hledger.1 ▸ hguard), hledger.2, h.registered hguard]

/-- Whatever deed makes a session idle does so only if nothing is in flight. -/
theorem quiet_of_deed {d : Deed} (hidle : (g.perform d).controls.phase = .idle)
    (hbefore : g.controls.phase ≠ .idle) : g.controls.tracker.isQuiet = true := by
  cases d with
  | release => exact quiet_of_release hidle hbefore
  | other a spares => exact quiet_of_act hidle hbefore
  | drop index =>
    simp only [Guarded.perform] at hidle
    split at hidle <;> exact absurd hidle hbefore
  | _ => exact absurd hidle hbefore

/-- Controls with an empty tracker, whatever their phase and their gate are:
after any deeds, in any order, idle means that nothing is in flight. -/
theorem idle_means_quiescent (c : Controls) (deeds : List Deed) :
    Quiesces (after ⟨{ c with tracker := {} }, {}⟩ deeds) (deeds.foldl Deed.entryAfter false)
      (deeds.foldl Deed.callsAfter 0) := by
  have hnew : Shows ⟨{ c with tracker := {} }, {}⟩ false 0 :=
    ⟨Ledger.sound_new, rfl, Tracker.counts_new, rfl, rfl⟩
  have h := hnew.after deeds
  refine ⟨fun stack => ?_, fun _ => h.registered, fun _ hguard _ => h.kept hguard, ?_,
    fun _ => quiet_of_deed⟩
  · rw [h.counts.pending, List.count, List.countP_map]
    rfl
  · rw [h.counts.isQuiet_iff, h.entry, h.calls, List.map_eq_nil_iff]

end Guarded

end Controls

end Stepwise
