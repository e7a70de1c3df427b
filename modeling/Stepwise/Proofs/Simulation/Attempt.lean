import Stepwise.Proofs.Simulation.Block

/-!
# Handlers in both programs

An `attempt` statement keeps its two blocks in the target, each in a scope of
its own on both sides. A jump out of such a block leads to a label outside of
it, so the block is left by it. Both sides hand the same failure to the
handler, which can always take it.
-/

namespace Stepwise.Simulation

open Engine
open Lowering hiding Target

variable {T : Tie} {π π' : Pose} {w v : World} {site : Site} {c c' : Supply}
  {unsure spilled : List String} {depth nesting : Nat} {span : Span} {block code : Block}

/-- The labels of a site are not marked in code for it. -/
structure Outside (site : Site) (code : Block) : Prop where
  /-- The code does not mark the end of the copy. -/
  copy : ∀ target, site.copy = some target → target.endLabel ∉ Block.labels code
  /-- The code does not mark the end of a loop. -/
  loops : ∀ l ∈ site.loopEnds, l ∉ Block.labels code

/-- Labels of a site were handed out before. -/
theorem Tie.Known.outside (h : T.Known site c) {high : Nat} (hm : Marked c.labels high code) :
    Outside site code where
  copy := by
    intro target hc
    obtain ⟨-, i, hi, he⟩ := h.copy target hc
    rw [he]
    exact hm.notMem hi
  loops := by
    intro l hl
    obtain ⟨i, hi, rfl⟩ := h.loops l hl
    exact hm.notMem hi

/-- Control that leaves the code of a site leaves the block that the code is. -/
theorem Outside.land (h : Outside site code) {flow flow' : Flow} (hs : Sends site flow flow')
    (v : World) : ∃ n, Simulation.land T.target code [] flow' v n = .done v (.ok flow') := by
  cases hs with
  | next => exact ⟨1, rfl⟩
  | leaveLoop hl =>
    exact ⟨0, land_leave (Block.fromLabel?_eq_none (h.loops _ (List.mem_of_head? hl))) 0⟩
  | leaveMethod =>
    cases hc : site.copy with
    | none =>
      rw [leaving, hc]
      exact ⟨0, rfl⟩
    | some target =>
      rw [leaving, hc]
      exact ⟨0, land_leave (Block.fromLabel?_eq_none (h.copy target hc)) 0⟩

/-- A block of the source against its code as a block of the target. -/
theorem Walks.mirrors (h : Walks T site spilled unsure depth c code c' block block)
    (hout : Outside site code) (hnodup : (Block.labels code).Nodup)
    (hdepth : π.below.length = depth) (hw : π.Holds T w v) (hfits : π.Fits T site c unsure) :
    Mirrors T.strictTerms (T.source.callees.block block (!site.loopEnds.isEmpty) w)
      (T.target.callees.block code false v)
      (Flows T (T.New site spilled c c') π (fun _ => True) site)
      (Halts T (Closed T) (T.New site spilled c c') π) := by
  have hlead := h code [] [] π w v (by simp) hnodup hdepth hw hfits
  rw [List.append_nil] at hlead
  refine (hlead.toMirrors (T.target.block_tends code false v) ?_).congr
    (T.source.block_same block _ w).symm fun _ _ => Iff.rfl
  intro w r Z hpost
  cases r with
  | ok flow =>
    obtain ⟨v, flow', hf, rfl⟩ := hpost
    obtain ⟨n, hn⟩ := hout.land (T := T) hf.1 v
    exact ⟨n, v, .ok flow', hn, hf⟩
  | error u =>
    obtain ⟨v, u', hh, rfl⟩ := hpost
    exact ⟨0, v, .error u', rfl, hh⟩

/-- Both sides have left a scope. -/
def Left (T : Tie) (π : Pose) (site : Site) (w : World) (flow : Flow) (v : World) (flow' : Flow) :
    Prop :=
  Sends site flow flow' ∧ ∃ result, Pose.Holds T { π with result } w v ∧
    (flow ≠ .leaveMethod → result = none)

/-- Both sides have left a scope by an early end. -/
def LeftEarly (T : Tie) (π : Pose) (w : World) (u : Unwind) (v : World) (u' : Unwind) : Prop :=
  Closed T u u' ∧ π.Holds T w v

/-- A block in a scope that both sides have opened and then close. -/
theorem Walks.closing (h : Walks T site spilled unsure depth c code c' block block)
    (hout : Outside site code) (hnodup : (Block.labels code).Nodup)
    (hdepth : π.below.length = depth) (hr : π.result = none)
    (g : Grows T (fun _ => True) π.enterBoth π') (hw : π'.Holds T w v)
    (hfits : π'.Fits T site c unsure) :
    Mirrors T.strictTerms
      ((T.source.callees.block block (!site.loopEnds.isEmpty)).finishing
        (·.restoreScopes (π.outer.length + 1)) w)
      ((T.target.callees.block code false).finishing (·.restoreScopes (π.rest.length + 1)) v)
      (Left T π site) (LeftEarly T π) := by
  have hblock := h.mirrors hout hnodup (by rw [g.below]; exact hdepth) hw hfits
  have hgrows : ∀ {π₁}, Grows T (T.New site spilled c c') π' π₁ →
      Grows T (fun _ => True) π.enterBoth π₁ :=
    fun g₁ => g.trans (g₁.mono fun _ _ => trivial)
  refine hblock.andThen Iff.rfl id ?_ ?_ ?_
  · intro w r v r' hrel
    cases r with
    | ok flow =>
      cases r' with
      | error u' => cases hrel
      | ok flow' =>
        obtain ⟨hs, π₁, g₁, hw₁, hres, -⟩ := hrel
        exact .ok ⟨hs, π₁.result, hw₁.leaveBoth (hgrows g₁), hres⟩
    | error u =>
      cases r' with
      | ok flow' => cases hrel
      | error u' =>
        obtain ⟨hc, π₁, g₁, hw₁, hres⟩ := hrel
        have hback := hw₁.leaveBoth (hgrows g₁)
        rw [hres, ← hr] at hback
        exact .error ⟨hc, hback⟩
  · rintro - w u hu w' r hdone
    cases hdone
    exact ⟨u, rfl, hu⟩
  · exact fun v => ⟨_, rfl⟩

/-- An open scope of a copy has no names yet. -/
theorem naming_push (site : Site) (scopes : Renaming) :
    naming site scopes.push = naming site scopes := by
  unfold naming
  split <;> rfl

/-- A pose fits inside a scope that both sides have just opened. -/
theorem Pose.Fits.enterBoth (h : π.Fits T site c unsure) (hs : c'.scopes = c.scopes.push) :
    π.enterBoth.Fits T site c' unsure where
  result := h.result
  sees := by
    rw [hs, naming_push]
    exact fun x hx => h.sees x hx
  receives := h.receives

/-- A site is known inside a scope that was just opened. -/
theorem Tie.Known.push (h : T.Known site c) :
    T.Known site { c with scopes := c.scopes.push } where
  names := fun x y hx => h.names x y hx
  copy := h.copy
  loops := h.loops
  lax := h.lax

/-- The names that are unsafe in a handler. -/
def handlerUnsure (unsure : List String) (name : Option String) : List String :=
  unsure.filter fun x => !name.toList.contains x

variable {body handler body' handler' : Block} {name name' : Option String} {s s' : Progress}

/-- The handlers do the same on both sides. -/
theorem runHandler_mirrors (hk : T.Known site s.supply) (hname : CatchName site name name' s s')
    (h : Walks T site spilled (handlerUnsure unsure name) depth s'.supply code c' block block)
    (hout : Outside site code) (hnodup : (Block.labels code).Nodup)
    (hdepth : π.below.length = depth) (hw : π.Holds T w v)
    (hfits : π.enterBoth.Fits T site s.supply unsure) {f f' : Failure}
    (hfault : f'.fault = f.fault) (hmild : Mild f.fault) :
    Mirrors T.strictTerms (runHandler T.source.callees name block (!site.loopEnds.isEmpty) f w)
      (runHandler T.target.callees name' code false f' v) (Left T π site) (LeftEarly T π) := by
  have hmark : w.stack.scopeMark = π.outer.length + 1 := hw.source.mark
  have hmark' : v.stack.scopeMark = π.rest.length + 1 := hw.target.mark
  have hentered := hw.enterBoth
  unfold runHandler
  rw [hmark, hmark', hfault]
  cases name with
  | none =>
    cases name' with
    | some y => cases hname
    | none =>
      obtain rfl : s' = s := hname
      refine h.closing hout hnodup hdepth hfits.result (.refl _) hentered (hfits.mono ?_)
      intro x hx
      simpa [handlerUnsure] using hx
  | some x =>
    cases name' with
    | none => cases hname
    | some y =>
      have hfit := accepts_exception hmild
      have hu : ∀ z ∈ unsure, z ≠ x → z ∈ handlerUnsure unsure (some x) := by
        intro z hz hne
        simp [handlerUnsure, hz, hne]
      obtain ⟨π₁, g₁, hw₁, hfits₁⟩ :=
        (hk.named hname).declare hentered hfits hu .scalar f.fault.toException
      show Mirrors _ ((newVariable World.declareLocal x .scalar f.fault.toException >>= fun _ => _)
        w.pushScope) ((newVariable World.declareLocal y .scalar f.fault.toException >>= fun _ => _)
          v.pushScope) _ _
      rw [Exec.bind_of_ok (newVariable_local hfit hentered.source),
        Exec.bind_of_ok (newVariable_local hfit hentered.target)]
      exact h.closing hout hnodup hdepth hfits.result (g₁.mono fun _ _ => trivial) hw₁ hfits₁

/-- An `attempt` statement. -/
theorem attempt_passes {spilled' : List String} {s₁ s₂ : Progress} {c₃ : Supply}
    (hk : T.Known site s.supply) (hs : Supplies site [] s.supply c')
    (hyields : Yields site spilled { s with scopes := s.scopes.push }.supply body' s₁.supply)
    (hbody : Walks T site spilled unsure depth { s with scopes := s.scopes.push }.supply body'
      s₁.supply body body)
    (hname : CatchName site name name' { s₁ with scopes := s₁.scopes.pop.push } s₂)
    (hmarked : Marked s₂.labels c₃.labels handler')
    (hhandler : Walks T site spilled' (handlerUnsure unsure name) depth s₂.supply handler' c₃
      handler handler) :
    Passes T T.terms (Closes T span) site [] unsure (Onward T site c' unsure) depth s.supply
      [.attempt body' name' handler' span] c' (T.source.execute T.source.callees
        (!site.loopEnds.isEmpty) (.attempt body name handler span)) := by
  intro block before after π w v hblock hnodup hdepth hw hfits
  have hknown₁ : T.Known site { s₁ with scopes := s₁.scopes.pop.push }.supply :=
    (hk.later hyields.toSupplies.inScope).push
  have hpop : s₁.scopes.pop = s.scopes := hyields.tail
  have htry : ∀ {w v}, π.Holds T w v → Mirrors T.strictTerms
      (nested (T.source.callees.block body (!site.loopEnds.isEmpty)) w)
      (nested (T.target.callees.block body' false) v) (Left T π site) (LeftEarly T π) := by
    intro w v hw
    have hmark : w.stack.scopeMark = π.outer.length + 1 := hw.source.mark
    have hmark' : v.stack.scopeMark = π.rest.length + 1 := hw.target.mark
    unfold nested
    rw [hmark, hmark']
    exact hbody.closing (hk.push.outside hyields.marked) hyields.marked.nodup hdepth hfits.result
      (.refl _) hw.enterBoth (hfits.enterBoth rfl)
  have hcatch : ∀ {w v f f'}, π.Holds T w v → f'.fault = f.fault → Mild f.fault →
      Mirrors T.strictTerms (runHandler T.source.callees name handler (!site.loopEnds.isEmpty) f w)
        (runHandler T.target.callees name' handler' false f' v) (Left T π site)
        (LeftEarly T π) := by
    intro w v f f' hw hfault hmild
    refine runHandler_mirrors hknown₁ hname hhandler
      ((hknown₁.later hname.supplies).outside hmarked) hmarked.nodup hdepth hw
      (hfits.enterBoth ?_) hfault hmild
    show s₁.scopes.pop.push = s.scopes.push
    rw [hpop]
  have hboth : Mirrors T.strictTerms
      ((nested (T.source.callees.block body (!site.loopEnds.isEmpty))).onFailure
        (runHandler T.source.callees name handler (!site.loopEnds.isEmpty)) w)
      ((nested (T.target.callees.block body' false)).onFailure
        (runHandler T.target.callees name' handler' false)
        (arrive (.attempt body' name' handler' span) v)) (Left T π site) (LeftEarly T π) := by
    refine (htry (hw.arriveTarget _)).andThen Iff.rfl id ?_ ?_ ?_
    · intro w r v r' hrel
      rcases r with (f | _) | flow <;> rcases r' with (f' | _) | flow'
      · exact hcatch hrel.2 hrel.1.1.1 hrel.1.1.2.1
      · exact hrel.1.elim
      · exact hrel.elim
      · exact hrel.1.elim
      · exact .error hrel
      · exact hrel.elim
      · exact hrel.elim
      · exact hrel.elim
      · exact .ok hrel
    · rintro - w u rfl w' r hdone
      cases hdone
      exact ⟨.cancelled, rfl, rfl⟩
    · exact fun v => ⟨v, rfl⟩
  have hclosed := hboth.toTerms.mono (fun _ _ _ _ h => h) fun _ _ _ _ h =>
    (⟨h.1.alike, h.2⟩ : Alike T.sharp none _ _ ∧ π.Holds T _ _)
  refine Leads.after (route_concluding hw.gate') (Leads.ofRest hclosed ?_ ?_)
  · rintro w flow v flow' ⟨hsends, result, hw', hr⟩
    refine ⟨_, flow', ⟨hsends, { π with result }, (Grows.refl π).withResult result,
      hw'.observeTarget false _, hr, fun _ => ?_⟩, rfl⟩
    exact hfits.sees.onward hs fun x hx => absurd hx List.not_mem_nil
  · exact fun w u v u' hc hw' => ⟨v, u', ⟨hc, π, .refl π, hw', hfits.result⟩, rfl⟩

end Stepwise.Simulation
