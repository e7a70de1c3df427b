import Mathlib.Data.List.Perm.Subperm
import Stepwise.Value.Heap

/-!
# Walks through values

Values may lead back to themselves, so a walk through one need not come to an
end. A walk keeps in mind what it is inside of and does not step inside of it
once more. Where it steps inside it steps out again, so after a walk that ends
there is as much on its mind as before. Walks are given a depth below which
they have no answer; a walk that has the same answer at all depths from some
depth on comes to an end with it.
-/

namespace Stepwise

/-- A walk, which has no answer if it would go too deep. It keeps in mind what
it is inside of, innermost first. -/
abbrev Walk (π : Type) := StateT (List π) Option

namespace Walk

variable {π α β : Type} {inside : List π}

/-- Inside of the given things a walk has an answer, and is inside of the same
things then. -/
def Yields (inside : List π) (walk : Walk π α) (answer : α) : Prop :=
  walk.run inside = some (answer, inside)

/-- A walk that begins inside of nothing comes to an end with an answer, and is
inside of nothing then. -/
def Ends (walk : Nat → Walk π α) (answer : α) : Prop :=
  ∃ enough, ∀ depth, enough ≤ depth → Yields [] (walk depth) answer

theorem yields_pure (a : α) : Yields inside (pure a) a := rfl

theorem Yields.bind {walk : Walk π α} {next : α → Walk π β} {a : α} {b : β}
    (h : Yields inside walk a) (hnext : Yields inside (next a) b) :
    Yields inside (walk >>= next) b := by
  unfold Yields at h ⊢
  rw [StateT.run_bind, h]
  exact hnext

/-- An answer that is put together from another one. -/
theorem Yields.andPure {walk : Walk π α} {a : α} (h : Yields inside walk a) (f : α → β) :
    Yields inside (walk >>= fun a => pure (f a)) (f a) :=
  h.bind (yields_pure (f a))

/-- There is only one answer. -/
theorem Yields.unique {walk : Walk π α} {a b : α} (ha : Yields inside walk a)
    (hb : Yields inside walk b) : a = b := by
  unfold Yields at ha hb
  rw [ha] at hb
  exact congrArg Prod.fst (Option.some.inj hb)

/-- Yes for one reason, or else the answer of a walk. -/
theorem Yields.or {walk : Walk π Bool} {a : Bool} (h : Yields inside walk a) (yes : Bool) :
    Yields inside (if yes then pure true else walk) (yes || a) := by
  cases yes with
  | true => exact yields_pure true
  | false => exact h

/-- No for one reason, or else the answer of a walk. -/
theorem Yields.and {walk : Walk π Bool} {a : Bool} (h : Yields inside walk a) (yes : Bool) :
    Yields inside (if yes then walk else pure false) (yes && a) := by
  cases yes with
  | true => exact h
  | false => exact yields_pure false

/-- Walks one after the other, an answer for each. -/
theorem yields_mapM {walk : α → Walk π β} {answer : α → β} :
    ∀ {xs : List α}, (∀ x ∈ xs, Yields inside (walk x) (answer x)) →
      Yields inside (xs.mapM walk) (xs.map answer)
  | [], _ => by
    rw [List.mapM_nil]
    exact yields_pure []
  | x :: xs, h => by
    obtain ⟨hx, hxs⟩ := List.forall_mem_cons.mp h
    rw [List.mapM_cons]
    exact hx.bind ((yields_mapM hxs).andPure _)

/-- Walks one after the other until one says no. -/
theorem yields_allM {walk : α → Walk π Bool} {answer : α → Bool} :
    ∀ {xs : List α}, (∀ x ∈ xs, Yields inside (walk x) (answer x)) →
      Yields inside (xs.allM walk) (xs.all answer)
  | [], _ => yields_pure true
  | x :: xs, h => by
    obtain ⟨hx, hxs⟩ := List.forall_mem_cons.mp h
    rw [List.allM, List.all_cons]
    refine hx.bind ?_
    cases answer x with
    | true => exact yields_allM hxs
    | false => exact yields_pure false

section Visits

variable [DecidableEq π]

/-- Step inside of something for the time of a walk. If the walk is inside of
it already, another one is taken. -/
def visit (place : π) (walk again : Walk π α) : Walk π α := do
  if (← get).contains place then again
  else
    modify (place :: ·)
    let a ← walk
    modify (·.erase place)
    pure a

theorem yields_visit {place : π} {walk again : Walk π α} {a : α}
    (hagain : place ∈ inside → Yields inside again a)
    (hwalk : place ∉ inside → Yields (place :: inside) walk a) :
    Yields inside (visit place walk again) a := by
  unfold Yields visit
  by_cases hin : place ∈ inside
  · have hrun := hagain hin
    unfold Yields at hrun
    simpa [hin] using hrun
  · have hrun := hwalk hin
    unfold Yields at hrun
    simp [hin, hrun]

/-- Where the walk is inside already, the answer is yes. -/
theorem yields_visit_or {place : π} {walk : Walk π Bool} {a : Bool}
    (hwalk : place ∉ inside → Yields (place :: inside) walk a) :
    Yields inside (visit place walk (pure true)) (inside.contains place || a) := by
  refine yields_visit (fun hin => ?_) fun hnew => ?_
  · rw [List.contains_iff_mem.mpr hin]
    exact yields_pure true
  · have hcontains : inside.contains place = false := by simpa using hnew
    rw [hcontains]
    exact hwalk hnew

end Visits

/-- There are only so many things to step inside of, and a bound on the depth
of a walk leaves room for those that it is not inside of yet. -/
structure Room (things : List π) (fuel : Nat) (inside : List π) : Prop where
  /-- The walk is inside of nothing twice. -/
  distinct : inside.Nodup
  /-- It is inside of some of the things. -/
  within : inside ⊆ things
  /-- It can step inside of the others and once more. -/
  enough : things.length < fuel + inside.length

namespace Room

variable {things : List π} {fuel : Nat}

theorem start (h : things.length < fuel) : Room things fuel [] :=
  ⟨List.nodup_nil, List.nil_subset _, h⟩

/-- There is room left everywhere. -/
theorem not_zero (h : Room things 0 inside) : False := by
  have hle : inside.length ≤ things.length := (h.distinct.subperm h.within).length_le
  have hlt := h.enough
  omega

/-- A step inside takes one off the bound. -/
theorem enter (h : Room things (fuel + 1) inside) {place : π} (hnew : place ∉ inside)
    (hplace : place ∈ things) : Room things fuel (place :: inside) where
  distinct := List.nodup_cons.mpr ⟨hnew, h.distinct⟩
  within := List.cons_subset.mpr ⟨hplace, h.within⟩
  enough := by
    have hlt := h.enough
    rw [List.length_cons]
    omega

end Room

end Walk

namespace Heap

variable {h : Heap}

/-- Only arrays of the heap have elements. -/
theorem lt_of_mem_items {ref : Nat} {v : Val} (hv : v ∈ h.items ref) : ref < h.arrays.size := by
  refine Nat.lt_of_not_le fun hge => ?_
  rw [items, Array.getD_eq_getD_getElem?, Array.getElem?_eq_none hge] at hv
  exact List.not_mem_nil hv

/-- Only maps of the heap have entries. -/
theorem lt_of_mem_entries {ref : Nat} {entry : Key × Val} (he : entry ∈ h.entries ref) :
    ref < h.maps.size := by
  refine Nat.lt_of_not_le fun hge => ?_
  rw [entries, Array.getD_eq_getD_getElem?, Array.getElem?_eq_none hge] at he
  exact List.not_mem_nil he

/-- Only objects of the heap have fields. -/
theorem lt_of_mem_fields {ref : Nat} {field : String × Val} (hf : field ∈ h.fields ref) :
    ref < h.objects.size := by
  refine Nat.lt_of_not_le fun hge => ?_
  rw [fields, Array.getD_eq_getD_getElem?, Array.getElem?_eq_none hge] at hf
  exact List.not_mem_nil hf

end Heap

end Stepwise
