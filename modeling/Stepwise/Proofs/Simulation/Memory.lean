import Stepwise.Memory.Stack

/-!
# Paired memories

The variables of a source run and of a target run, side by side. Variables
from before the runs are common to both. Of the others some are linked, one
of the source to one of the target, and hold the same value; some variables
of the target are owned, which means that what they hold is known exactly.
All further variables of either side are of no concern and may be disposed of.
-/

namespace Stepwise

namespace Memory

/-- A variable after another one was added. -/
theorem cell_alloc (m : Memory) (c : Cell) (id : Nat) :
    (m.alloc c).2.cell id = if id = m.cells.size then c else m.cell id := by
  simp only [cell, alloc, Array.getD_eq_getD_getElem?, Array.getElem?_push]
  split <;> rfl

@[simp] theorem size_alloc (m : Memory) (c : Cell) :
    (m.alloc c).2.cells.size = m.cells.size + 1 := by
  simp [alloc]

@[simp] theorem fst_alloc (m : Memory) (c : Cell) : (m.alloc c).1 = m.cells.size := rfl

/-- A variable after it or another one was replaced. -/
theorem cell_setCell (m : Memory) (id : Nat) (c : Cell) (j : Nat) :
    (m.setCell id c).cell j = if j = id ∧ id < m.cells.size then c else m.cell j := by
  simp only [cell, setCell, Array.getD_eq_getD_getElem?, Array.getElem?_setIfInBounds]
  by_cases h : id = j
  · subst h
    by_cases hlt : id < m.cells.size
    · simp [hlt]
    · simp [hlt]
  · have h' : ¬ j = id := fun e => h e.symm
    simp [h, h']

/-- Replacing a variable leaves the others as they are. -/
theorem cell_setCell_ne (m : Memory) {id j : Nat} (c : Cell) (h : j ≠ id) :
    (m.setCell id c).cell j = m.cell j := by
  rw [cell_setCell, if_neg fun ⟨e, _⟩ => h e]

/-- The variable that was replaced. -/
theorem cell_setCell_self (m : Memory) {id : Nat} (c : Cell) (h : id < m.cells.size) :
    (m.setCell id c).cell id = c := by
  rw [cell_setCell, if_pos ⟨rfl, h⟩]

@[simp] theorem size_setCell (m : Memory) (id : Nat) (c : Cell) :
    (m.setCell id c).cells.size = m.cells.size := by
  simp [setCell]

@[simp] theorem size_disposeAll (m : Memory) (ids : List Nat) :
    (m.disposeAll ids).cells.size = m.cells.size := by
  induction ids generalizing m with
  | nil => rfl
  | cons id ids ih =>
    show ((m.dispose id).disposeAll ids).cells.size = _
    rw [ih, dispose, size_setCell]

@[simp] theorem globals_disposeAll (m : Memory) (ids : List Nat) :
    (m.disposeAll ids).globals = m.globals := by
  induction ids generalizing m with
  | nil => rfl
  | cons id ids ih =>
    show ((m.dispose id).disposeAll ids).globals = _
    rw [ih]
    rfl

/-- Disposing of variables leaves the others as they are. -/
theorem cell_disposeAll (m : Memory) {ids : List Nat} {j : Nat} (h : j ∉ ids) :
    (m.disposeAll ids).cell j = m.cell j := by
  induction ids generalizing m with
  | nil => rfl
  | cons id ids ih =>
    have hne : j ≠ id := fun e => h (e ▸ List.mem_cons_self)
    have hrest : j ∉ ids := fun hm => h (List.mem_cons_of_mem id hm)
    show ((m.dispose id).disposeAll ids).cell j = _
    rw [ih _ hrest, dispose, cell_setCell_ne m _ hne]

end Memory

namespace Simulation

/-- Two variables that hold the same; the names agree if names are kept. -/
structure Twins (keep : Prop) (c c' : Cell) : Prop where
  /-- Both have the same shape. -/
  shape : c'.shape = c.shape
  /-- Both hold the same value. -/
  value : c'.value = c.value
  /-- Both have the same name. -/
  name : keep → c'.name = c.name

/-- Links are between different variables on both sides. -/
structure OneToOne (links : List (Nat × Nat)) : Prop where
  /-- A variable of the source has one partner. -/
  left : ∀ p ∈ links, ∀ q ∈ links, p.1 = q.1 → p = q
  /-- A variable of the target has one partner. -/
  right : ∀ p ∈ links, ∀ q ∈ links, p.2 = q.2 → p = q

/-- The memories of two runs; numbers below `base` are common. -/
structure Paired (keep : Prop) (base : Nat) (links : List (Nat × Nat)) (own : List (Nat × Cell))
    (m m' : Memory) : Prop where
  /-- The same variables are global. -/
  globals : m'.globals = m.globals
  /-- Global variables are common. -/
  globals_lt : ∀ g ∈ m.globals, g < base
  /-- The source has all common variables. -/
  base_le : base ≤ m.cells.size
  /-- The target has all common variables. -/
  base_le' : base ≤ m'.cells.size
  /-- Common variables hold the same. -/
  common : ∀ i, i < base → m'.cell i = m.cell i
  /-- Links are between different variables. -/
  oneToOne : OneToOne links
  /-- Linked variables are there and hold the same. -/
  linked : ∀ i j, (i, j) ∈ links → base ≤ i ∧ i < m.cells.size ∧ base ≤ j ∧ j < m'.cells.size ∧
    Twins keep (m.cell i) (m'.cell j)
  /-- Different entries own different variables. -/
  distinct : (own.map (·.1)).Nodup
  /-- Owned variables are not linked. -/
  apart : ∀ p ∈ links, p.2 ∉ own.map (·.1)
  /-- Owned variables are there and hold what is known. -/
  owned : ∀ j c, (j, c) ∈ own → base ≤ j ∧ j < m'.cells.size ∧ m'.cell j = c

namespace Paired

variable {keep : Prop} {base : Nat} {links links' : List (Nat × Nat)} {own own' : List (Nat × Cell)}
  {m m' : Memory}

/-- Fewer links and fewer owned variables. -/
theorem weaken (h : Paired keep base links own m m') (hl : ∀ p ∈ links', p ∈ links)
    (ho : own'.Sublist own) : Paired keep base links' own' m m' :=
  { h with
    oneToOne := ⟨fun p hp q hq => h.oneToOne.left p (hl p hp) q (hl q hq),
      fun p hp q hq => h.oneToOne.right p (hl p hp) q (hl q hq)⟩
    linked := fun i j hij => h.linked i j (hl _ hij)
    distinct := h.distinct.sublist (ho.map _)
    apart := fun p hp hm => h.apart p (hl p hp) ((ho.map _).subset hm)
    owned := fun j c hj => h.owned j c (ho.subset hj) }

/-- The order of owned variables does not matter. -/
theorem perm (h : Paired keep base links own m m') (ho : own.Perm own') :
    Paired keep base links own' m m' :=
  { h with
    distinct := (ho.map _).nodup_iff.mp h.distinct
    apart := fun p hp hm => h.apart p hp ((ho.map _).mem_iff.mpr hm)
    owned := fun j c hj => h.owned j c (ho.mem_iff.mpr hj) }

/-- Store in two linked variables. -/
theorem storeLinked (h : Paired keep base links own m m') {i j : Nat} (hij : (i, j) ∈ links)
    {c c' : Cell} (hc : Twins keep c c') :
    Paired keep base links own (m.setCell i c) (m'.setCell j c') := by
  obtain ⟨hi, hi', hj, hj', -⟩ := h.linked i j hij
  refine { h with
    base_le := by simpa using h.base_le
    base_le' := by simpa using h.base_le'
    common := ?_, linked := ?_, owned := ?_ }
  · intro k hk
    rw [Memory.cell_setCell_ne _ _ (by omega), Memory.cell_setCell_ne _ _ (by omega), h.common k hk]
  · intro i' j' hij'
    obtain ⟨h₁, h₂, h₃, h₄, htw⟩ := h.linked i' j' hij'
    rw [Memory.size_setCell, Memory.size_setCell]
    refine ⟨h₁, h₂, h₃, h₄, ?_⟩
    by_cases he : i' = i
    · obtain rfl : j' = j := congrArg Prod.snd (h.oneToOne.left _ hij' _ hij he)
      subst he
      rw [Memory.cell_setCell_self _ _ hi', Memory.cell_setCell_self _ _ hj']
      exact hc
    · have he' : j' ≠ j := fun e => he (congrArg Prod.fst (h.oneToOne.right _ hij' _ hij e))
      rw [Memory.cell_setCell_ne _ _ he, Memory.cell_setCell_ne _ _ he']
      exact htw
  · intro k d hk
    obtain ⟨h₁, h₂, h₃⟩ := h.owned k d hk
    rw [Memory.size_setCell]
    refine ⟨h₁, h₂, ?_⟩
    have hne : k ≠ j := fun e => h.apart _ hij (e ▸ List.mem_map_of_mem hk)
    rw [Memory.cell_setCell_ne _ _ hne, h₃]

/-- Store in a common variable. -/
theorem storeCommon (h : Paired keep base links own m m') {i : Nat} (hi : i < base) (c : Cell) :
    Paired keep base links own (m.setCell i c) (m'.setCell i c) := by
  refine { h with
    base_le := by simpa using h.base_le
    base_le' := by simpa using h.base_le'
    common := ?_, linked := ?_, owned := ?_ }
  · intro k hk
    by_cases he : k = i
    · subst he
      rw [Memory.cell_setCell_self _ _ (Nat.lt_of_lt_of_le hi h.base_le),
        Memory.cell_setCell_self _ _ (Nat.lt_of_lt_of_le hi h.base_le')]
    · rw [Memory.cell_setCell_ne _ _ he, Memory.cell_setCell_ne _ _ he, h.common k hk]
  · intro i' j' hij'
    obtain ⟨h₁, h₂, h₃, h₄, htw⟩ := h.linked i' j' hij'
    rw [Memory.size_setCell, Memory.size_setCell, Memory.cell_setCell_ne _ _ (by omega),
      Memory.cell_setCell_ne _ _ (by omega)]
    exact ⟨h₁, h₂, h₃, h₄, htw⟩
  · intro k d hk
    obtain ⟨h₁, h₂, h₃⟩ := h.owned k d hk
    rw [Memory.size_setCell, Memory.cell_setCell_ne _ _ (by omega)]
    exact ⟨h₁, h₂, h₃⟩

/-- Store in an owned variable of the target. -/
theorem storeOwned (h : Paired keep base links own m m') {before after : List (Nat × Cell)}
    {j : Nat} {c : Cell} (ho : own = before ++ (j, c) :: after) (c' : Cell) :
    Paired keep base links (before ++ (j, c') :: after) m (m'.setCell j c') := by
  subst ho
  have hmem : (j, c) ∈ before ++ (j, c) :: after := by simp
  have hkeys : (before ++ (j, c') :: after).map (·.1) = (before ++ (j, c) :: after).map (·.1) := by
    simp
  obtain ⟨hj, hj', -⟩ := h.owned j c hmem
  have hdistinct := h.distinct
  refine { h with
    base_le' := by simpa using h.base_le'
    common := ?_, linked := ?_, distinct := by rw [hkeys]; exact h.distinct
    apart := by rw [hkeys]; exact h.apart
    owned := ?_ }
  · intro k hk
    rw [Memory.cell_setCell_ne _ _ (by omega), h.common k hk]
  · intro i' j' hij'
    obtain ⟨h₁, h₂, h₃, h₄, htw⟩ := h.linked i' j' hij'
    have hne : j' ≠ j := by
      rintro rfl
      exact h.apart _ hij' (List.mem_map_of_mem (f := (·.1)) hmem)
    rw [Memory.size_setCell, Memory.cell_setCell_ne _ _ hne]
    exact ⟨h₁, h₂, h₃, h₄, htw⟩
  · intro k d hk
    rw [Memory.size_setCell]
    by_cases he : k = j
    · subst he
      rw [Memory.cell_setCell_self _ _ hj']
      refine ⟨hj, hj', ?_⟩
      simp only [List.map_append, List.map_cons, List.nodup_append, List.nodup_cons] at hdistinct
      obtain ⟨-, ⟨hafter, -⟩, hbefore⟩ := hdistinct
      rcases List.mem_append.mp hk with hk | hk
      · exact absurd rfl (hbefore k (List.mem_map_of_mem hk) k (by simp))
      · rcases List.mem_cons.mp hk with hk | hk
        · exact (congrArg Prod.snd hk).symm
        · exact absurd (List.mem_map_of_mem hk) hafter
    · rw [Memory.cell_setCell_ne _ _ he]
      refine h.owned k d ?_
      rcases List.mem_append.mp hk with hk | hk
      · exact List.mem_append_left _ hk
      · rcases List.mem_cons.mp hk with hk | hk
        · exact absurd (congrArg Prod.fst hk) he
        · exact List.mem_append_right _ (List.mem_cons_of_mem _ hk)

/-- Every link and every owned variable is older than the variables to come. -/
theorem linked_lt (h : Paired keep base links own m m') {p : Nat × Nat} (hp : p ∈ links) :
    p.1 < m.cells.size ∧ p.2 < m'.cells.size := by
  obtain ⟨-, h₁, -, h₂, -⟩ := h.linked p.1 p.2 hp
  exact ⟨h₁, h₂⟩

/-- Owned variables are older than the variables to come. -/
theorem owned_lt (h : Paired keep base links own m m') {j : Nat} (hj : j ∈ own.map (·.1)) :
    base ≤ j ∧ j < m'.cells.size := by
  obtain ⟨p, hp, rfl⟩ := List.mem_map.mp hj
  obtain ⟨h₁, h₂, -⟩ := h.owned p.1 p.2 hp
  exact ⟨h₁, h₂⟩

/-- The next variable of the source is not linked yet. -/
theorem next_notMem (h : Paired keep base links own m m') :
    m.cells.size ∉ links.map (·.1) := by
  intro hm
  obtain ⟨p, hp, hpe⟩ := List.mem_map.mp hm
  exact Nat.ne_of_lt (h.linked_lt hp).1 hpe

/-- The next variable of the target is neither linked nor owned yet. -/
theorem next_notMem' (h : Paired keep base links own m m') :
    m'.cells.size ∉ links.map (·.2) ∧ m'.cells.size ∉ own.map (·.1) := by
  refine ⟨fun hm => ?_, fun hm => Nat.lt_irrefl _ (h.owned_lt hm).2⟩
  obtain ⟨p, hp, hpe⟩ := List.mem_map.mp hm
  exact Nat.ne_of_lt (h.linked_lt hp).2 hpe

/-- Add a variable to the source that is of no concern. -/
theorem allocSource (h : Paired keep base links own m m') (c : Cell) :
    Paired keep base links own (m.alloc c).2 m' := by
  refine { h with
    base_le := by rw [Memory.size_alloc]; exact Nat.le_succ_of_le h.base_le
    common := ?_, linked := ?_ }
  · intro k hk
    rw [Memory.cell_alloc, if_neg (by have := h.base_le; omega), h.common k hk]
  · intro i j hij
    obtain ⟨h₁, h₂, h₃, h₄, htw⟩ := h.linked i j hij
    rw [Memory.size_alloc, Memory.cell_alloc, if_neg (by omega)]
    exact ⟨h₁, by omega, h₃, h₄, htw⟩

/-- Add an owned variable to the target. -/
theorem allocOwned (h : Paired keep base links own m m') (c : Cell) :
    Paired keep base links ((m'.cells.size, c) :: own) m (m'.alloc c).2 := by
  refine { h with
    base_le' := by rw [Memory.size_alloc]; exact Nat.le_succ_of_le h.base_le'
    common := ?_, linked := ?_, distinct := ?_, apart := ?_, owned := ?_ }
  · intro k hk
    rw [Memory.cell_alloc, if_neg (by have := h.base_le'; omega), h.common k hk]
  · intro i j hij
    obtain ⟨h₁, h₂, h₃, h₄, htw⟩ := h.linked i j hij
    rw [Memory.size_alloc, Memory.cell_alloc, if_neg (by omega)]
    exact ⟨h₁, h₂, h₃, by omega, htw⟩
  · rw [List.map_cons, List.nodup_cons]
    exact ⟨h.next_notMem'.2, h.distinct⟩
  · intro p hp hm
    rcases List.mem_cons.mp hm with hm | hm
    · have := (h.linked_lt hp).2
      simp only at hm
      omega
    · exact h.apart p hp hm
  · intro j d hj
    rw [Memory.size_alloc, Memory.cell_alloc]
    rcases List.mem_cons.mp hj with hj | hj
    · cases hj
      exact ⟨h.base_le', by omega, if_pos rfl⟩
    · obtain ⟨h₁, h₂, h₃⟩ := h.owned j d hj
      rw [if_neg (by omega)]
      exact ⟨h₁, by omega, h₃⟩

/-- Link an owned variable of the target to a new one of the source. -/
theorem adopt (h : Paired keep base links own m m') {before after : List (Nat × Cell)} {j : Nat}
    {c c' : Cell} (ho : own = before ++ (j, c') :: after) (hc : Twins keep c c') :
    Paired keep base ((m.cells.size, j) :: links) (before ++ after) (m.alloc c).2 m' := by
  have hmem : (j, c') ∈ own := by simp [ho]
  have hkey : j ∈ own.map (·.1) := List.mem_map_of_mem (f := (·.1)) hmem
  obtain ⟨hj, hj', hjc⟩ := h.owned j c' hmem
  have hsub : (before ++ after).Sublist own := by
    rw [ho]
    exact List.Sublist.append (List.Sublist.refl _) (List.sublist_cons_self _ _)
  have hnot : j ∉ (before ++ after).map (·.1) := by
    have hd := h.distinct
    rw [ho] at hd
    simp only [List.map_append, List.map_cons, List.nodup_append, List.nodup_cons] at hd
    rw [List.map_append, List.mem_append]
    rintro (hb | ha)
    · exact hd.2.2 j hb j List.mem_cons_self rfl
    · exact hd.2.1.1 ha
  have h' := (h.allocSource c).weaken (fun _ hp => hp) hsub
  refine { h' with oneToOne := ⟨?_, ?_⟩, linked := ?_, apart := ?_ }
  · intro p hp q hq hpq
    rcases List.mem_cons.mp hp with rfl | hp
    · rcases List.mem_cons.mp hq with rfl | hq
      · rfl
      · have := (h.linked_lt hq).1
        simp only at hpq
        omega
    · rcases List.mem_cons.mp hq with rfl | hq
      · have := (h.linked_lt hp).1
        simp only at hpq
        omega
      · exact h.oneToOne.left p hp q hq hpq
  · intro p hp q hq hpq
    rcases List.mem_cons.mp hp with rfl | hp
    · rcases List.mem_cons.mp hq with rfl | hq
      · rfl
      · exact absurd (show q.2 ∈ own.map (·.1) from hpq ▸ hkey) (h.apart q hq)
    · rcases List.mem_cons.mp hq with rfl | hq
      · exact absurd (show p.2 ∈ own.map (·.1) from hpq ▸ hkey) (h.apart p hp)
      · exact h.oneToOne.right p hp q hq hpq
  · intro i k hik
    rcases List.mem_cons.mp hik with he | hik
    · cases he
      rw [Memory.size_alloc, Memory.cell_alloc, if_pos rfl, hjc]
      exact ⟨h.base_le, by omega, hj, hj', hc⟩
    · exact h'.linked i k hik
  · intro p hp
    rcases List.mem_cons.mp hp with rfl | hp
    · exact hnot
    · exact h'.apart p hp

/-- Add two linked variables. -/
theorem allocLinked (h : Paired keep base links own m m') {c c' : Cell} (hc : Twins keep c c') :
    Paired keep base ((m.cells.size, m'.cells.size) :: links) own (m.alloc c).2
      (m'.alloc c').2 := by
  have hown : (m'.cells.size, c') :: own = [] ++ (m'.cells.size, c') :: own := rfl
  exact (h.allocOwned c').adopt hown hc

/-- Dispose of variables of the source that are neither common nor linked. -/
theorem disposeSource (h : Paired keep base links own m m') {ids : List Nat}
    (hids : ∀ i ∈ ids, base ≤ i ∧ i ∉ links.map (·.1)) :
    Paired keep base links own (m.disposeAll ids) m' := by
  refine { h with
    globals := by rw [Memory.globals_disposeAll]; exact h.globals
    globals_lt := by rw [Memory.globals_disposeAll]; exact h.globals_lt
    base_le := by rw [Memory.size_disposeAll]; exact h.base_le
    common := ?_, linked := ?_ }
  · intro k hk
    rw [Memory.cell_disposeAll m fun hm => by have := (hids k hm).1; omega, h.common k hk]
  · intro i j hij
    have hnot : i ∉ ids := fun hm => (hids i hm).2 (List.mem_map_of_mem (f := (·.1)) hij)
    rw [Memory.size_disposeAll, Memory.cell_disposeAll m hnot]
    exact h.linked i j hij

/-- Dispose of variables of the target that are neither common nor linked nor owned. -/
theorem disposeTarget (h : Paired keep base links own m m') {ids : List Nat}
    (hids : ∀ j ∈ ids, base ≤ j ∧ j ∉ links.map (·.2) ∧ j ∉ own.map (·.1)) :
    Paired keep base links own m (m'.disposeAll ids) := by
  refine { h with
    globals := by rw [Memory.globals_disposeAll]; exact h.globals
    base_le' := by rw [Memory.size_disposeAll]; exact h.base_le'
    common := ?_, linked := ?_, owned := ?_ }
  · intro k hk
    rw [Memory.cell_disposeAll m' fun hm => by have := (hids k hm).1; omega, h.common k hk]
  · intro i j hij
    have hnot : j ∉ ids := fun hm => (hids j hm).2.1 (List.mem_map_of_mem (f := (·.2)) hij)
    rw [Memory.size_disposeAll, Memory.cell_disposeAll m' hnot]
    exact h.linked i j hij
  · intro j c hj
    have hnot : j ∉ ids := fun hm => (hids j hm).2.2 (List.mem_map_of_mem (f := (·.1)) hj)
    rw [Memory.size_disposeAll, Memory.cell_disposeAll m' hnot]
    exact h.owned j c hj

end Paired

end Simulation

end Stepwise
