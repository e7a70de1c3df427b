import Stepwise.Proofs.Simulation.Pose

/-!
# Scopes and calls

While a statement runs, a pose only grows: links and known variables are
added, the innermost scopes get new entries, and all else stays. That is
enough to return to the pose from before when a scope or a frame is left,
since what is disposed of there is new and was never linked to older
variables.
-/

namespace Stepwise.Simulation

open Engine

/-- The second pose comes from the first by running statements that bind no
names in the target but those of `new`. -/
structure Grows (T : Tie) (new : String → Prop) (π π' : Pose) : Prop where
  /-- Links are kept. -/
  links : ∀ p ∈ π.links, p ∈ π'.links
  /-- Known variables are kept. -/
  pins : ∃ more, π'.pins = more ++ π.pins
  /-- The result goes to the same place. -/
  slot : π'.slot = π.slot
  /-- The outer scopes of the source are the same. -/
  outer : π'.outer = π.outer
  /-- The lower frames of the source are the same. -/
  below : π'.below = π.below
  /-- The outer scopes of the target are the same. -/
  rest : π'.rest = π.rest
  /-- The lower frames of the target are the same. -/
  under : π'.under = π.under
  /-- New variables of the source were not linked before. -/
  fresh : ∀ e ∈ π'.inner, e ∈ π.inner ∨ (T.base ≤ e.2 ∧ e.2 ∉ π.links.map (·.1))
  /-- New variables of the target were neither linked nor known before. -/
  fresh' : ∀ e ∈ π'.flat, e ∈ π.flat ∨
    (T.base ≤ e.2 ∧ e.2 ∉ π.links.map (·.2) ∧ e.2 ∉ π.own.map (·.1))
  /-- Names of the target that are not new mean the same. -/
  same : ∀ y, ¬ new y → π'.flat.lookup y = π.flat.lookup y

namespace Grows

variable {T : Tie} {new new' : String → Prop} {π π' π'' : Pose}

/-- Nothing has changed. -/
theorem refl (π : Pose) : Grows T new π π where
  links := fun _ hp => hp
  pins := ⟨[], rfl⟩
  slot := rfl
  outer := rfl
  below := rfl
  rest := rfl
  under := rfl
  fresh := fun _ he => .inl he
  fresh' := fun _ he => .inl he
  same := fun _ _ => rfl

/-- More names may be new. -/
theorem mono (g : Grows T new π π') (hn : ∀ y, new y → new' y) : Grows T new' π π' :=
  { g with same := fun y hy => g.same y fun h => hy (hn y h) }

/-- The numbers of known variables are kept. -/
theorem own_mem (g : Grows T new π π') {j : Nat} (hj : j ∈ π.own.map (·.1)) :
    j ∈ π'.own.map (·.1) := by
  obtain ⟨more, hmore⟩ := g.pins
  have hheld : π'.held.map (·.1) = π.held.map (·.1) := by
    simp only [Pose.held, g.slot]
    split <;> rfl
  rw [Pose.own, List.map_append, List.mem_append] at hj ⊢
  rw [hheld, hmore, List.map_append, List.mem_append]
  exact hj.imp .inr id

/-- One run after the other. -/
theorem trans (g : Grows T new π π') (g' : Grows T new π' π'') : Grows T new π π'' where
  links := fun p hp => g'.links p (g.links p hp)
  pins := by
    obtain ⟨more, h⟩ := g.pins
    obtain ⟨more', h'⟩ := g'.pins
    exact ⟨more' ++ more, by rw [h', h, List.append_assoc]⟩
  slot := g'.slot.trans g.slot
  outer := g'.outer.trans g.outer
  below := g'.below.trans g.below
  rest := g'.rest.trans g.rest
  under := g'.under.trans g.under
  fresh := by
    intro e he
    rcases g'.fresh e he with he | ⟨hbase, hnot⟩
    · exact g.fresh e he
    · refine .inr ⟨hbase, fun hm => hnot ?_⟩
      obtain ⟨p, hp, hpe⟩ := List.mem_map.mp hm
      exact List.mem_map.mpr ⟨p, g.links p hp, hpe⟩
  fresh' := by
    intro e he
    rcases g'.fresh' e he with he | ⟨hbase, hnot, hown⟩
    · exact g.fresh' e he
    · refine .inr ⟨hbase, fun hm => hnot ?_, fun hm => hown (g.own_mem hm)⟩
      obtain ⟨p, hp, hpe⟩ := List.mem_map.mp hm
      exact List.mem_map.mpr ⟨p, g.links p hp, hpe⟩
  same := fun y hy => (g'.same y hy).trans (g.same y hy)

/-- A name that is not new denotes the same variable of the target. -/
theorem find'_eq (g : Grows T new π π') {y : String} (hy : ¬ new y) : π'.find' y = π.find' y := by
  simp only [Pose.find', Scope.search, List.findSome?_cons, g.same y hy, g.rest]

/-- The outcome of a method does not count. -/
theorem withResult (g : Grows T new π π') (result : Option Val) :
    Grows T new π { π' with result } :=
  { g with }

end Grows

namespace Pose

/-- The pose inside a new scope of the source. -/
def enterBlock (π : Pose) : Pose := { π with inner := [], outer := π.inner :: π.outer }

/-- The pose inside a new scope of both sides. -/
def enterBoth (π : Pose) : Pose :=
  { π with inner := [], outer := π.inner :: π.outer, flat := [], rest := π.flat :: π.rest }

variable {T : Tie} {new : String → Prop} {π π' : Pose} {w v : World}

/-- Both sides open a scope. -/
theorem Holds.enterBoth (h : π.Holds T w v) : π.enterBoth.Holds T w.pushScope v.pushScope :=
  { h with
    shares := { h.shares with }
    source := h.source.pushScope
    target := h.target.pushScope }

/-- The source opens a scope. -/
theorem Holds.enterBlock (h : π.Holds T w v) : π.enterBlock.Holds T w.pushScope v :=
  { h with shares := { h.shares with }, source := h.source.pushScope }

/-- What the slot holds depends on slot and result alone. -/
theorem held_congr (hs : π'.slot = π.slot) : { π with result := π'.result }.held = π'.held := by
  simp only [held, hs]

/-- What is known after a run includes what was known before. -/
theorem own_sublist (g : Grows T new π π') :
    ({ π with result := π'.result } : Pose).own.Sublist π'.own := by
  obtain ⟨more, hmore⟩ := g.pins
  rw [own, own, held_congr g.slot, hmore]
  exact (List.sublist_append_right more π.pins).append (List.Sublist.refl _)

/-- The variables of a scope are gone when it is left. -/
theorem ids_fresh {links : List (Nat × Nat)} {scope : Scope}
    (h : ∀ e ∈ scope, e ∈ ([] : Scope) ∨ (T.base ≤ e.2 ∧ e.2 ∉ links.map (·.1))) :
    ∀ i ∈ scope.ids, T.base ≤ i ∧ i ∉ links.map (·.1) := by
  intro i hi
  obtain ⟨e, he, rfl⟩ := List.mem_map.mp hi
  exact (h e he).resolve_left (List.not_mem_nil)

/-- The source leaves a scope. -/
theorem Holds.leaveBlock (h : π'.Holds T w v) (g : Grows T new π.enterBlock π') :
    Holds T { π with flat := π'.flat, result := π'.result }
      (w.restoreScopes (π.outer.length + 1)) v := by
  have hsource : w.stack.Stands (π'.inner :: π.inner :: π.outer) π'.result π'.below := by
    have := h.source
    rwa [g.outer] at this
  obtain ⟨hstands, hids, hid⟩ := hsource.restore (List.cons_ne_nil _ _)
  have hmem := (h.memory.weaken g.links (own_sublist g)).disposeSource (ids_fresh g.fresh)
  rw [← hids] at hmem
  rw [g.below] at hstands
  have htarget := h.target
  have hanswer : π'.answer = ({ π with result := π'.result } : Pose).answer :=
    answer_congr g.slot rfl
  rw [hanswer, g.rest, g.under] at htarget
  exact
    { shares := { h.shares with }
      gate := h.gate
      stackId := h.stackId.trans hid.symm
      memory := hmem
      source := hstands
      target := htarget
      depth_le := by
        have := h.depth_le
        rwa [g.under, g.below] at this
      depth_eq := by
        have := h.depth_eq
        rwa [g.under, g.below] at this }

/-- Leaving a scope of the source is growing. -/
theorem grows_leaveBlock (g : Grows T new π.enterBlock π') :
    Grows T new π { π with flat := π'.flat, result := π'.result } where
  links := fun _ hp => hp
  pins := ⟨[], rfl⟩
  slot := rfl
  outer := rfl
  below := rfl
  rest := rfl
  under := rfl
  fresh := fun _ he => .inl he
  fresh' := g.fresh'
  same := g.same

/-- Both sides leave a scope. -/
theorem Holds.leaveBoth (h : π'.Holds T w v) (g : Grows T new π.enterBoth π') :
    Holds T { π with result := π'.result } (w.restoreScopes (π.outer.length + 1))
      (v.restoreScopes (π.rest.length + 1)) := by
  have hsource : w.stack.Stands (π'.inner :: π.inner :: π.outer) π'.result π'.below := by
    have := h.source
    rwa [g.outer] at this
  have htarget : v.stack.Stands (π'.flat :: π.flat :: π.rest) π'.answer π'.under := by
    have := h.target
    rwa [g.rest] at this
  obtain ⟨hstands, hids, hid⟩ := hsource.restore (List.cons_ne_nil _ _)
  obtain ⟨hstands', hids', hid'⟩ := htarget.restore (List.cons_ne_nil _ _)
  have hfresh' : ∀ j ∈ π'.flat.ids, T.base ≤ j ∧ j ∉ π.links.map (·.2) ∧
      j ∉ ({ π with result := π'.result } : Pose).own.map (·.1) := by
    intro j hj
    obtain ⟨e, he, rfl⟩ := List.mem_map.mp hj
    obtain ⟨hbase, hlinks, hown⟩ := (g.fresh' e he).resolve_left List.not_mem_nil
    refine ⟨hbase, hlinks, fun hm => hown ?_⟩
    have hkeys : ({ π.enterBoth with result := π'.result } : Pose).own.map (·.1) =
        π.enterBoth.own.map (·.1) := by
      simp only [own, held, List.map_append]
      congr 1
      split <;> rfl
    rw [← hkeys]
    exact hm
  have hmem := ((h.memory.weaken g.links (own_sublist g)).disposeSource
    (ids_fresh g.fresh)).disposeTarget hfresh'
  rw [← hids, ← hids'] at hmem
  rw [g.below] at hstands
  have hanswer : π'.answer = ({ π with result := π'.result } : Pose).answer :=
    answer_congr g.slot rfl
  rw [hanswer, g.under] at hstands'
  exact
    { shares := { h.shares with }
      gate := h.gate
      stackId := by
        show (v.stack.restoreScopes _).1.id = (w.stack.restoreScopes _).1.id
        exact hid'.trans (h.stackId.trans hid.symm)
      memory := hmem
      source := hstands
      target := hstands'
      depth_le := by
        have := h.depth_le
        rwa [g.under, g.below] at this
      depth_eq := by
        have := h.depth_eq
        rwa [g.under, g.below] at this }

end Pose

/-- Two worlds between calls: what holds whatever the innermost frames are. -/
structure Ground (T : Tie) (links : List (Nat × Nat)) (own : List (Nat × Cell)) (w v : World) :
    Prop where
  /-- Everything but variables and stacks agrees. -/
  shares : World.Shares w v
  /-- The gate is open. -/
  gate : w.controls.gate.Open
  /-- The same call stack is at work. -/
  stackId : v.stack.id = w.stack.id
  /-- The variables are as linked. -/
  memory : Paired (¬ T.lax) T.base links own w.memory v.memory
  /-- The target has no more frames than the source. -/
  depth_le : v.stack.depth ≤ w.stack.depth
  /-- Without copies it has as many. -/
  depth_eq : ¬ T.lax → v.stack.depth = w.stack.depth

/-- The ground is the same but for what a call may change. -/
structure Ground.Kept (T : Tie) (links : List (Nat × Nat)) (own : List (Nat × Cell))
    (w₀ v₀ w v : World) : Prop extends Ground T links own w v where
  /-- The frames of the source are the same. -/
  frames : w.stack.frames = w₀.stack.frames
  /-- The frames of the target are the same. -/
  frames' : v.stack.frames = v₀.stack.frames

section Calls

variable {T : Tie} {new : String → Prop} {π π' : Pose} {w v w₀ v₀ : World}
  {links : List (Nat × Nat)} {own : List (Nat × Cell)}

/-- The ground of a pose. -/
theorem Pose.Holds.ground (h : π.Holds T w v) : Ground T π.links π.own w v where
  shares := h.shares
  gate := h.gate
  stackId := h.stackId
  memory := h.memory
  depth_le := by
    rw [h.stackDepth.1, h.stackDepth.2]
    exact Nat.succ_le_succ h.depth_le
  depth_eq := by
    intro hlax
    rw [h.stackDepth.1, h.stackDepth.2, h.depth_eq hlax]

/-- A call that has changed nothing below leads back to the pose. -/
theorem Pose.Holds.ofKept (h : π.Holds T w₀ v₀)
    (hk : Ground.Kept T π.links π.own w₀ v₀ w v) : π.Holds T w v :=
  { h with
    shares := hk.shares
    gate := hk.gate
    stackId := hk.stackId
    memory := hk.memory
    source := by
      obtain ⟨f, hf, hs⟩ := h.source
      exact ⟨f, hk.frames.trans hf, hs⟩
    target := by
      obtain ⟨f, hf, hs⟩ := h.target
      exact ⟨f, hk.frames'.trans hf, hs⟩ }

/-- The pose at the start of a call that both sides make. -/
def Pose.called (links : List (Nat × Nat)) (own : List (Nat × Cell)) (below under : List Frame) :
    Pose where
  links := links
  pins := own
  slot := none
  result := none
  inner := []
  outer := []
  below := below
  flat := []
  rest := []
  under := under

/-- Both sides begin a call. -/
theorem Ground.enterCall (h : Ground T links own w v) (m m' : Method) :
    (Pose.called links own w.stack.frames v.stack.frames).Holds T (w.pushFrame m)
      (v.pushFrame m') where
  shares := { h.shares with }
  gate := h.gate
  stackId := h.stackId
  memory := by
    have hown : (Pose.called links own w.stack.frames v.stack.frames).own = own :=
      List.append_nil own
    rw [hown]
    exact h.memory
  source := w.stack.stands_pushFrame m.id m.name
  target := v.stack.stands_pushFrame m'.id m'.name
  depth_le := by
    have := h.depth_le
    rwa [w.stack.depth_eq, v.stack.depth_eq] at this
  depth_eq := by
    have := h.depth_eq
    rwa [w.stack.depth_eq, v.stack.depth_eq] at this

/-- Both sides end a call: the ground is as before, and the results agree. -/
theorem Pose.Holds.leaveCall (h : π'.Holds T w v)
    (g : Grows T new (Pose.called links own w₀.stack.frames v₀.stack.frames) π')
    (h₀ : Ground T links own w₀ v₀) :
    Ground.Kept T links own w₀ v₀ w.popFrame.2 v.popFrame.2 ∧
      w.popFrame.1 = π'.result ∧ v.popFrame.1 = π'.result := by
  have hsource : w.stack.Stands [π'.inner] π'.result w₀.stack.frames := by
    have := h.source
    rwa [g.outer, g.below] at this
  have htarget : v.stack.Stands [π'.flat] π'.result v₀.stack.frames := by
    have := h.target
    rwa [g.rest, g.under, Pose.answer_of_noSlot g.slot] at this
  obtain ⟨hresult, hframes, hid, hids⟩ := hsource.pop
  obtain ⟨hresult', hframes', hid', hids'⟩ := htarget.pop
  have hown : own.Sublist π'.own := by
    obtain ⟨more, hmore⟩ := g.pins
    rw [Pose.own, hmore]
    exact (List.sublist_append_right more own).trans (List.sublist_append_left _ _)
  have hfresh' : ∀ j ∈ π'.flat.ids, T.base ≤ j ∧ j ∉ links.map (·.2) ∧ j ∉ own.map (·.1) := by
    intro j hj
    obtain ⟨e, he, rfl⟩ := List.mem_map.mp hj
    obtain ⟨hbase, hlinks, hnot⟩ := (g.fresh' e he).resolve_left List.not_mem_nil
    refine ⟨hbase, hlinks, fun hm => hnot ?_⟩
    rw [Pose.own, List.map_append]
    exact List.mem_append_left _ hm
  have hmem := ((h.memory.weaken g.links hown).disposeSource
    (Pose.ids_fresh g.fresh)).disposeTarget hfresh'
  have hids₁ : w.stack.popFrame.2.2 = π'.inner.ids := by rw [hids]; simp
  have hids₂ : v.stack.popFrame.2.2 = π'.flat.ids := by rw [hids']; simp
  rw [← hids₁, ← hids₂] at hmem
  refine ⟨?_, hresult, hresult'⟩
  exact
    { shares := { h.shares with }
      gate := h.gate
      stackId := by
        show v.stack.popFrame.2.1.id = w.stack.popFrame.2.1.id
        rw [hid, hid', h.stackId]
      memory := hmem
      depth_le := by
        show v.stack.popFrame.2.1.depth ≤ w.stack.popFrame.2.1.depth
        rw [CallStack.depth_eq, CallStack.depth_eq, hframes, hframes']
        have := h₀.depth_le
        rwa [CallStack.depth_eq, CallStack.depth_eq] at this
      depth_eq := by
        show _ → v.stack.popFrame.2.1.depth = w.stack.popFrame.2.1.depth
        rw [CallStack.depth_eq, CallStack.depth_eq, hframes, hframes']
        have := h₀.depth_eq
        rwa [CallStack.depth_eq, CallStack.depth_eq] at this
      frames := hframes
      frames' := hframes' }

end Calls

end Stepwise.Simulation
