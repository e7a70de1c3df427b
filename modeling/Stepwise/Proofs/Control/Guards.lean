import Mathlib.Data.List.Nodup
import Stepwise.Control.Tracker

/-!
# Guards

Whoever begins an invocation holds a guard of its call stack until the
invocation has ended. The tracker counts guards and knows nothing else of
them: its records come and go with the work on a call stack, and a record that
has gone is made anew when work begins there again. As long as no guard is
dropped twice, the count of every call stack is the number of guards that are
alive on it.
-/

namespace Stepwise.Tracker

section Records

variable {id n : Nat} {records : List (Nat × Nat)}

/-- The record of another call stack is passed over. -/
theorem lookup_cons_ne {k key : Nat} (h : k ≠ key) (count : Nat) (rest : List (Nat × Nat)) :
    ((key, count) :: rest).lookup k = rest.lookup k := by
  have hbeq : (k == key) = false := by simpa using h
  simp only [List.lookup_cons, hbeq]

/-- Changing a count keeps the call stacks that have a record. -/
@[simp] theorem map_fst_update (id : Nat) (f : Nat → Nat) (records : List (Nat × Nat)) :
    (update id f records).map Prod.fst = records.map Prod.fst := by
  induction records with
  | nil => rfl
  | cons record rest ih =>
    unfold update
    split
    · rfl
    · rw [List.map_cons, List.map_cons, ih]

/-- Only the count of one call stack changes. -/
theorem lookup_update (id : Nat) (f : Nat → Nat) (records : List (Nat × Nat)) (k : Nat) :
    (update id f records).lookup k =
      if k = id then (records.lookup k).map f else records.lookup k := by
  induction records with
  | nil => simp [update]
  | cons record rest ih =>
    obtain ⟨key, count⟩ := record
    unfold update
    by_cases hkey : key = id
    · subst hkey
      rw [if_pos (beq_self_eq_true key)]
      by_cases hk : k = key
      · simp [hk]
      · rw [if_neg hk, lookup_cons_ne hk, lookup_cons_ne hk]
    · rw [if_neg (by simpa using hkey)]
      by_cases hk : k = key
      · subst hk
        simp [hkey]
      · rw [lookup_cons_ne hk, lookup_cons_ne hk, ih]

/-- Where call stacks have one record each, looking one up finds it. -/
theorem lookup_eq_some_iff_mem (h : (records.map Prod.fst).Nodup) :
    records.lookup id = some n ↔ (id, n) ∈ records := by
  induction records with
  | nil => simp
  | cons record rest ih =>
    obtain ⟨key, count⟩ := record
    rw [List.map_cons, List.nodup_cons] at h
    by_cases hid : id = key
    · subst hid
      have hnot : (id, n) ∉ rest := fun hmem => h.1 (List.mem_map.mpr ⟨(id, n), hmem, rfl⟩)
      simp [hnot, eq_comm]
    · rw [lookup_cons_ne hid, ih h.2, List.mem_cons]
      simp [hid]

/-- Dropping the record of a call stack keeps all others. -/
theorem lookup_filter_ne (id : Nat) (records : List (Nat × Nat)) (k : Nat) :
    (records.filter (·.1 ≠ id)).lookup k = if k = id then none else records.lookup k := by
  induction records with
  | nil => simp
  | cons record rest ih =>
    obtain ⟨key, count⟩ := record
    by_cases hkey : key = id
    · subst hkey
      rw [List.filter_cons_of_neg (by simp), ih]
      by_cases hk : k = key
      · rw [if_pos hk, if_pos hk]
      · rw [lookup_cons_ne hk]
    · rw [List.filter_cons_of_pos (by simpa using hkey)]
      by_cases hk : k = key
      · subst hk
        simp [hkey]
      · rw [lookup_cons_ne hk, lookup_cons_ne hk, ih]

end Records

@[simp] theorem entryActive_track (t : Tracker) (id : Nat) :
    (t.track id).entryActive = t.entryActive := by
  unfold track
  split <;> rfl

@[simp] theorem hostCalls_track (t : Tracker) (id : Nat) :
    (t.track id).hostCalls = t.hostCalls := by
  unfold track
  split <;> rfl

@[simp] theorem entryActive_taskStarted (t : Tracker) (id : Nat) :
    (t.taskStarted id).entryActive = t.entryActive := t.entryActive_track id

@[simp] theorem hostCalls_taskStarted (t : Tracker) (id : Nat) :
    (t.taskStarted id).hostCalls = t.hostCalls := t.hostCalls_track id

@[simp] theorem entryActive_drain (t : Tracker) (id : Nat) :
    (t.drain id).entryActive = t.entryActive := by
  unfold drain
  split <;> rfl

@[simp] theorem hostCalls_drain (t : Tracker) (id : Nat) :
    (t.drain id).hostCalls = t.hostCalls := by
  unfold drain
  split <;> rfl

/-- The guards alive on each call stack are counted, if these are the call
stacks of all guards that are alive. -/
structure Counts (t : Tracker) (live : List Nat) : Prop where
  /-- No call stack has two records. -/
  distinct : (t.records.map Prod.fst).Nodup
  /-- The count of a call stack is the number of its guards. -/
  pending : ∀ id, t.pending id = live.count id

variable {t : Tracker} {live : List Nat}

theorem counts_new : ({} : Tracker).Counts [] := ⟨List.nodup_nil, fun _ => rfl⟩

/-- Neither the entry point nor the calls of the host matter to guards. -/
theorem Counts.aside (h : t.Counts live) (entryActive : Bool) (hostCalls : Nat) :
    Counts { t with entryActive, hostCalls } live := ⟨h.distinct, h.pending⟩

theorem Counts.perm (h : t.Counts live) {live' : List Nat} (hperm : live.Perm live') :
    t.Counts live' := ⟨h.distinct, fun id => (h.pending id).trans (hperm.count_eq id)⟩

/-- A guard that is alive has its record. -/
theorem Counts.registered (h : t.Counts live) {id : Nat} (hid : id ∈ live) :
    ∃ n, 0 < n ∧ t.records.lookup id = some n := by
  have hcount : 0 < t.pending id := by
    rw [h.pending]
    exact List.count_pos_iff.mpr hid
  unfold Tracker.pending at hcount
  cases hlookup : t.records.lookup id with
  | none => simp [hlookup] at hcount
  | some n => exact ⟨n, by simpa [hlookup] using hcount, rfl⟩

theorem Counts.track (h : t.Counts live) (id : Nat) : (t.track id).Counts live := by
  unfold Tracker.track
  split
  · exact h
  · rename_i hnone
    have hlookup : t.records.lookup id = none := Option.not_isSome_iff_eq_none.mp hnone
    have hnew : id ∉ t.records.map Prod.fst := by
      intro hmem
      obtain ⟨record, hrecord, rfl⟩ := List.mem_map.mp hmem
      have hne := List.lookup_eq_none_iff.mp hlookup record hrecord
      simp at hne
    refine ⟨?_, fun k => ?_⟩
    · rw [List.map_append, List.nodup_append]
      refine ⟨h.distinct, List.nodup_singleton _, fun a ha b hb heq => ?_⟩
      rw [heq, List.mem_singleton.mp hb] at ha
      exact hnew ha
    · rw [← h.pending k]
      unfold Tracker.pending
      rw [List.lookup_append]
      by_cases hk : k = id
      · subst hk
        simp [hlookup]
      · rw [lookup_cons_ne hk, List.lookup_nil, Option.or_none]

/-- After tracking, a call stack has a record. -/
theorem lookup_track (t : Tracker) (id : Nat) :
    (t.track id).records.lookup id = some (t.pending id) := by
  unfold track pending
  cases hlookup : t.records.lookup id with
  | none => simp [List.lookup_append, hlookup]
  | some n => simp [hlookup]

/-- An invocation begins, and its guard is alive. -/
theorem Counts.taskStarted (h : t.Counts live) (id : Nat) :
    (t.taskStarted id).Counts (id :: live) := by
  have htracked := h.track id
  refine ⟨?_, fun k => ?_⟩
  · show ((update id (· + 1) (t.track id).records).map Prod.fst).Nodup
    rw [map_fst_update]
    exact htracked.distinct
  · show ((update id (· + 1) (t.track id).records).lookup k).getD 0 = _
    rw [lookup_update, List.count_cons, ← htracked.pending k]
    by_cases hk : k = id
    · subst hk
      simp [Tracker.pending, lookup_track]
    · simp [Tracker.pending, hk, Ne.symm hk]

/-- A guard that is alive is dropped. -/
theorem Counts.taskEnded (h : t.Counts live) (id : Nat) :
    (t.taskEnded id).Counts (live.erase id) := by
  refine ⟨?_, fun k => ?_⟩
  · show ((update id (· - 1) t.records).map Prod.fst).Nodup
    rw [map_fst_update]
    exact h.distinct
  · show ((update id (· - 1) t.records).lookup k).getD 0 = _
    have hpending := h.pending k
    unfold Tracker.pending at hpending
    rw [lookup_update, List.count_erase, ← hpending]
    by_cases hk : k = id
    · subst hk
      cases t.records.lookup k <;> simp
    · simp [hk, Ne.symm hk]

/-- A call stack is drained if and only if it has no guard. -/
theorem Counts.isDrained_iff (h : t.Counts live) {id : Nat} :
    t.isDrained id = true ↔ id ∉ live := by
  rw [isDrained, beq_iff_eq, h.pending, List.count_eq_zero]

theorem Counts.drain (h : t.Counts live) (id : Nat) : (t.drain id).Counts live := by
  unfold Tracker.drain
  split
  · rename_i hdrained
    have hnone := h.isDrained_iff.mp hdrained
    refine ⟨h.distinct.sublist (List.filter_sublist.map _), fun k => ?_⟩
    show ((t.records.filter (·.1 ≠ id)).lookup k).getD 0 = _
    rw [lookup_filter_ne]
    by_cases hk : k = id
    · subst hk
      simp [List.count_eq_zero.mpr hnone]
    · rw [if_neg hk]
      exact h.pending k
  · exact h

theorem Counts.drainAll (h : t.Counts live) : t.drainAll.Counts live := by
  have hdistinct : ((t.records.filter (·.2 ≠ 0)).map Prod.fst).Nodup :=
    h.distinct.sublist (List.filter_sublist.map _)
  refine ⟨hdistinct, fun k => ?_⟩
  rw [← h.pending k]
  show ((t.records.filter (·.2 ≠ 0)).lookup k).getD 0 = (t.records.lookup k).getD 0
  cases hlookup : t.records.lookup k with
  | none =>
    have hgone : (t.records.filter (·.2 ≠ 0)).lookup k = none :=
      List.lookup_eq_none_iff.mpr fun record hrecord =>
        List.lookup_eq_none_iff.mp hlookup record (List.mem_of_mem_filter hrecord)
    rw [hgone]
  | some n =>
    have hmem := (lookup_eq_some_iff_mem h.distinct).mp hlookup
    by_cases hn : n = 0
    · -- the record goes, and with it a count of nothing
      subst hn
      cases hkept : (t.records.filter (·.2 ≠ 0)).lookup k with
      | none => rfl
      | some m =>
        have hm := List.mem_of_mem_filter ((lookup_eq_some_iff_mem hdistinct).mp hkept)
        rw [← lookup_eq_some_iff_mem h.distinct, hlookup] at hm
        cases hm
        rfl
    · have hkept := (lookup_eq_some_iff_mem hdistinct).mpr
        (List.mem_filter.mpr ⟨hmem, by simpa using hn⟩)
      rw [hkept]

/-- Nothing is in flight on any call stack if and only if no guard is alive. -/
theorem Counts.allDrained_iff (h : t.Counts live) : t.allDrained = true ↔ live = [] := by
  unfold allDrained
  rw [List.all_eq_true]
  constructor
  · intro hall
    refine List.eq_nil_iff_forall_not_mem.mpr fun id hid => ?_
    obtain ⟨n, hpos, hlookup⟩ := h.registered hid
    have hzero := hall _ ((lookup_eq_some_iff_mem h.distinct).mp hlookup)
    rw [beq_iff_eq] at hzero
    exact absurd hzero (Nat.ne_of_gt hpos)
  · rintro rfl ⟨id, n⟩ hmem
    have hpending := h.pending id
    rw [Tracker.pending, (lookup_eq_some_iff_mem h.distinct).mpr hmem] at hpending
    simpa using hpending

/-- Nothing is in flight at all if and only if the entry point is not running,
the host has no calls and no guard is alive. -/
theorem Counts.isQuiet_iff (h : t.Counts live) :
    t.isQuiet = true ↔ t.entryActive = false ∧ t.hostCalls = 0 ∧ live = [] := by
  rw [← h.allDrained_iff]
  simp [isQuiet, allDrained, and_assoc]

/-- While a guard is alive something is in flight. -/
theorem Counts.not_isQuiet (h : t.Counts live) {id : Nat} (hid : id ∈ live) :
    t.isQuiet = false := by
  refine Bool.eq_false_iff.mpr fun hquiet => ?_
  rw [(h.isQuiet_iff.mp hquiet).2.2] at hid
  exact absurd hid List.not_mem_nil

end Stepwise.Tracker
