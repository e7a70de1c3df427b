import Stepwise.Proofs.Simulation.Block

/-!
# Loops in both programs

A loop of the source is an iteration over its rounds. In the target a round
begins at the first label of the loop and comes back to it by a jump, or it
leads behind the last label. From round to round the pose grows, but the
names that are safe to use inside the loop denote what they did before it.
-/

namespace Stepwise.Simulation

open Engine
open Lowering hiding Target

variable {T : Tie} {π π' : Pose} {w v : World} {site : Site} {c c' : Supply}
  {unsure spilled : List String} {depth nesting : Nat} {span : Span}

/-- What the end of its body means for a loop: another round, or how it is left. -/
def roundEnd : Flow → Unit ⊕ Flow
  | .next => .inl ()
  | .leaveLoop => .inr .next
  | flow => .inr flow

section Rounds

variable {M : Machine} {callees : Callees} {test : Expr} {body : Block}

/-- Nothing is cancelled behind an open gate. -/
theorem unlessCancelled_bind {α β : Type} (h : w.controls.gate.Open) (x : Exec α)
    (f : α → Exec β) : (unlessCancelled x >>= f) w = (x >>= f) w := by
  show (unlessCancelled x w).andThen _ = (x w).andThen _
  rw [show unlessCancelled x w = x w by simp [unlessCancelled, h.cancelled]]

/-- A round of a loop that tests first. -/
theorem loopStep_testFirst (h : w.controls.gate.Open) :
    M.loopStep callees .testFirst test body () w =
      (evalCondition M.code.program callees.call test >>= fun goes =>
        if goes then nested (callees.block body true) >>= fun flow => pure (roundEnd flow)
        else pure (.inr .next)) w := by
  unfold Machine.loopStep
  rw [loopRound_testFirst, unlessCancelled_bind h, Exec.bind_assoc]
  refine congrFun (Exec.bind_congr fun goes => ?_) w
  cases goes with
  | false => rfl
  | true =>
    simp only [if_true]
    rw [Exec.bind_assoc]
    refine Exec.bind_congr fun flow => ?_
    cases flow <;> rfl

/-- A round of a loop that tests last. -/
theorem loopStep_testLast (h : w.controls.gate.Open) :
    M.loopStep callees .testLast test body () w =
      (nested (callees.block body true) >>= fun flow =>
        match roundEnd flow with
        | .inr flow => pure (.inr flow)
        | .inl _ => evalCondition M.code.program callees.call test >>= fun goes =>
          if goes then pure (.inl ()) else pure (.inr .next)) w := by
  unfold Machine.loopStep
  rw [loopRound_testLast, unlessCancelled_bind h, Exec.bind_assoc]
  refine congrFun (Exec.bind_congr fun flow => ?_) w
  cases flow with
  | next =>
    simp only [loopEnd, roundEnd]
    rw [Exec.bind_assoc]
    refine Exec.bind_congr fun goes => ?_
    cases goes <;> rfl
  | jump => rfl
  | leaveMethod => rfl
  | leaveLoop => rfl

end Rounds

section Loops

variable {test : Expr} {body body' : Block} {label endLabel : String}
  {block rest after : List Stmt}

/-- Before a round: the pose has grown since the loop began and fits as it did
then, and the target is at the statements `rest`. -/
def BeforeRound (T : Tie) (site : Site) (spilled unsure : List String) (c c' : Supply) (π : Pose)
    (block rest : List Stmt) (w : World) (Y : Nat → Run Flow) : Prop :=
  ∃ v π', Grows T (T.New site spilled c c') π π' ∧ π'.Fits T site c unsure ∧ π'.Holds T w v ∧
    Y = route T.target block rest v

/-- The end of a loop, behind its last label. -/
abbrev AfterLoop (T : Tie) (site : Site) (spilled unsure : List String) (c c' : Supply) (π : Pose)
    (span : Span) (block after : List Stmt) :=
  Post T (Closes T span) (T.New site spilled c c') π (Onward T site c' unsure) site block after

/-- Control that jumps behind a loop has left it. -/
theorem leaveLoop_leads {I : World → (Nat → Run Flow) → Prop}
    (g : Grows T (T.New site spilled c c') π π') (hon : Onward T site c' unsure π')
    (hr : π'.result = none) (hw : π'.Holds T w v)
    (hend : Block.fromLabel? endLabel block = some (mark endLabel :: after)) :
    Leads T.terms (.done w (.ok (.inr .next))) (land T.target block rest (.jump endLabel) v)
      (Leads.Round I (AfterLoop T site spilled unsure c c' π span block after)) := by
  obtain ⟨v', hreach, hw'⟩ := hw.passTo hend rest
  exact Leads.after hreach (.done ⟨v', .next, ⟨.next, π', g, hw', fun _ => hr, fun _ => hon⟩, rfl⟩)

/-- Control that does not go on after the body of a loop leaves the loop. -/
theorem roundEnd_leads {I : World → (Nat → Run Flow) → Prop} {flow flow' : Flow} {π₁ : Pose}
    (g : Grows T (T.New site spilled c c') π π₁)
    (hf : Flows T (T.New site spilled c c') π₁ (Onward T site c' unsure)
      (site.insideLoop endLabel) w flow v flow') (hne : flow ≠ .next)
    (hend : Block.fromLabel? endLabel block = some (mark endLabel :: after)) :
    Leads T.terms (.done w (.ok (roundEnd flow))) (land T.target block rest flow' v)
      (Leads.Round I (AfterLoop T site spilled unsure c c' π span block after)) := by
  obtain ⟨hs, π₂, g₂, hw, hr, hon⟩ := hf
  cases hs with
  | next => exact absurd rfl hne
  | leaveLoop h =>
    cases h
    exact leaveLoop_leads (g.trans g₂) (hon nofun) (hr nofun) hw hend
  | leaveMethod =>
    have hsends : Sends site .leaveMethod (leaving site) := .leaveMethod
    exact .done ⟨v, leaving site, ⟨hsends, π₂, g.trans g₂, hw, hr, hon⟩,
      land_of_ne_next hsends nofun after v⟩

/-- Control that jumps back to the first label begins another round. -/
theorem nextRound_leads {R : World → Except Unwind Flow → (Nat → Run Flow) → Prop} {π₁ : Pose}
    {n : Nat} {start : List Stmt} (hk : T.Known site c)
    (hs : Supplies site spilled { c with labels := n } c')
    (g₁ : Grows T (T.New site spilled c c') π π₁) (hfits : π₁.Fits T site c (unsure ++ spilled))
    (g₂ : Grows T (T.New site spilled c c') π₁ π') (hr : π'.result = none)
    (hon : Onward T site c' (unsure ++ spilled) π') (hw : π'.Holds T w v)
    (hstart : Block.fromLabel? label block = some start) :
    Leads T.terms (.done w (.ok (.inl ()))) (route T.target block (jump label :: rest) v)
      (Leads.Round (BeforeRound T site spilled (unsure ++ spilled) c c' π block start) R) := by
  obtain ⟨v', hjump, hw'⟩ := hw.passJump block label Span.blank rest
  rw [land_jump hstart] at hjump
  refine .done ⟨1, _, Nat.one_pos, hjump, v', π', g₁.trans g₂, ⟨hr, ?_, ?_⟩, hw', rfl⟩
  · exact hon.back (c := { c with labels := n }) hs fun x hx => List.mem_append_right _ hx
  · exact hfits.receives.grow g₂ fun _ hc => hk.receiver_not_new hc

/-- The body of a loop, up to the point where it is over on both sides. -/
theorem loopBody_leads {before : List Stmt} {n : Nat} (span : Span)
    (hk : T.Known (site.insideLoop endLabel) { c with labels := n })
    (hs : Supplies site spilled { c with labels := n } c')
    (hbody : Walks T (site.insideLoop endLabel) spilled (unsure ++ spilled) depth
      { c with labels := n } body' c' body body)
    (hblock : block = before ++ (body' ++ rest)) (hnodup : (Block.labels block).Nodup)
    (hdepth : π.below.length = depth) (hw : π.Holds T w v)
    (hfits : π.Fits T site c (unsure ++ spilled)) :
    Leads T.terms (nested (T.source.callees.block body true) w)
      (route T.target block (body' ++ rest) v)
      (Post T (Closes T span) (T.New site spilled c c') π (Onward T site c' (unsure ++ spilled))
        (site.insideLoop endLabel) block rest) := by
  have hlead := nested_passes hk (hs.site_congr (site.insideLoop endLabel) rfl) hbody span block
    before rest π w v hblock hnodup hdepth hw ((hfits.insideLoop endLabel).congr rfl)
  refine hlead.mono fun w r Z hp => hp.mono (.refl π) (fun _ h => h) (fun π' _ hon => ?_)
    fun _ _ h => h
  refine Pose.Sees.mono hon fun _ hx => hx.mono fun y hy => ?_
  rcases List.mem_append.mp hy with hy | hy
  · exact hy
  · exact List.mem_append_right _ hy

/-- A loop that tests first. -/
theorem loop_first_passes (hscene : Scene T depth nesting site) (hk : T.Known site c) {n : Nat}
    (hk₁ : T.Known (site.insideLoop endLabel) { c with labels := n })
    (he : ∀ y ∈ test.locals, T.Usable (unsure ++ spilled) y)
    (hs : Supplies site spilled { c with labels := n } c')
    (hbody : Walks T (site.insideLoop endLabel) spilled (unsure ++ spilled) depth
      { c with labels := n } body' c' body body) :
    Passes T T.terms (Closes T span) site spilled unsure (Onward T site c' (unsure ++ spilled))
      depth c (mark label :: .branch (render site c.scopes test) endLabel span :: body' ++
        [jump label, mark endLabel]) c'
      (T.source.execute T.source.callees (!site.loopEnds.isEmpty)
        (.loop .testFirst test body span)) := by
  intro block before after π w v hblock hnodup hdepth hw hfits
  have hcode : mark label :: .branch (render site c.scopes test) endLabel span :: body' ++
      [jump label, mark endLabel] ++ after = mark label ::
        (.branch (render site c.scopes test) endLabel span ::
          (body' ++ jump label :: mark endLabel :: after)) := by
    simp
  rw [hcode] at hblock ⊢
  have hstart : Block.fromLabel? label block = some (mark label ::
      (.branch (render site c.scopes test) endLabel span ::
        (body' ++ jump label :: mark endLabel :: after))) := by
    rw [hblock] at hnodup ⊢
    exact Block.fromLabel?_append hnodup
  have hinner : block = (before ++ [mark label,
      .branch (render site c.scopes test) endLabel span]) ++
        (body' ++ jump label :: mark endLabel :: after) := by
    rw [hblock]
    simp
  have hend : Block.fromLabel? endLabel block = some (mark endLabel :: after) := by
    have hsplit : block = (before ++ mark label ::
        .branch (render site c.scopes test) endLabel span :: (body' ++ [jump label])) ++
          mark endLabel :: after := by
      rw [hblock]
      simp
    rw [hsplit] at hnodup ⊢
    exact Block.fromLabel?_append hnodup
  refine Leads.iterate (T.source.loop_tends .testFirst test body)
    (BeforeRound T site spilled (unsure ++ spilled) c c' π block _) ?_
    ⟨v, π, .refl π, hfits.mono fun x hx => List.mem_append_left _ hx, hw, rfl⟩
  rintro w Y ⟨v, π₁, g₁, hfits₁, hw₁, rfl⟩
  have hdepth₁ : π₁.below.length = depth := by rw [g₁.below]; exact hdepth
  obtain ⟨v₁, hpass, hw₁⟩ := hw₁.passLabel block label Span.blank _
  rw [loopStep_testFirst hw₁.gate]
  refine Leads.after hpass (branch_leads (hscene.calls π₁ hdepth₁) hfits₁.sees he hw₁ ?_ ?_ ?_)
  · intro w v hw
    simp only [if_true]
    refine Leads.bind (loopBody_leads span hk₁ hs hbody hinner hnodup hdepth₁ hw hfits₁) ?_ ?_
    · rintro w flow Z ⟨v, flow', hf, rfl⟩
      by_cases hflow : flow = .next
      · subst hflow
        obtain ⟨hsends, π₂, g₂, hw₂, hr, hon⟩ := hf
        cases hsends
        exact nextRound_leads hk hs g₁ hfits₁ g₂ (hr nofun) (hon nofun) hw₂ hstart
      · exact roundEnd_leads g₁ hf hflow hend
    · rintro w u Z ⟨v, u', hh, rfl⟩
      exact ⟨v, u', hh.mono g₁ (fun _ h => h) id, rfl⟩
  · intro w v hw
    exact leaveLoop_leads g₁ (hfits₁.sees.onward (c := { c with labels := n }) hs
      fun x hx => List.mem_append_right _ hx) hfits₁.result hw hend
  · exact fun w u v u' hc hw => ⟨v, u', ⟨hc, π₁, g₁, hw, hfits₁.result⟩, rfl⟩

/-- A loop that tests last. -/
theorem loop_last_passes (hscene : Scene T depth nesting site) (hk : T.Known site c) {n : Nat}
    (hk₁ : T.Known (site.insideLoop endLabel) { c with labels := n })
    (he : ∀ y ∈ test.locals, T.Usable (unsure ++ spilled) y)
    (hs : Supplies site spilled { c with labels := n } c')
    (hbody : Walks T (site.insideLoop endLabel) spilled (unsure ++ spilled) depth
      { c with labels := n } body' c' body body) :
    Passes T T.terms (Closes T span) site spilled unsure (Onward T site c' (unsure ++ spilled))
      depth c (mark label :: body' ++ [.branch (render site c'.scopes test) endLabel span,
        jump label, mark endLabel]) c'
      (T.source.execute T.source.callees (!site.loopEnds.isEmpty)
        (.loop .testLast test body span)) := by
  intro block before after π w v hblock hnodup hdepth hw hfits
  have hcode : mark label :: body' ++ [.branch (render site c'.scopes test) endLabel span,
      jump label, mark endLabel] ++ after = mark label :: (body' ++
        .branch (render site c'.scopes test) endLabel span :: jump label :: mark endLabel ::
          after) := by
    simp
  rw [hcode] at hblock ⊢
  have hstart : Block.fromLabel? label block = some (mark label :: (body' ++
      .branch (render site c'.scopes test) endLabel span :: jump label :: mark endLabel ::
        after)) := by
    rw [hblock] at hnodup ⊢
    exact Block.fromLabel?_append hnodup
  have hinner : block = (before ++ [mark label]) ++ (body' ++
      .branch (render site c'.scopes test) endLabel span :: jump label :: mark endLabel ::
        after) := by
    rw [hblock]
    simp
  have hend : Block.fromLabel? endLabel block = some (mark endLabel :: after) := by
    have hsplit : block = (before ++ mark label :: (body' ++
        [.branch (render site c'.scopes test) endLabel span, jump label])) ++
          mark endLabel :: after := by
      rw [hblock]
      simp
    rw [hsplit] at hnodup ⊢
    exact Block.fromLabel?_append hnodup
  refine Leads.iterate (T.source.loop_tends .testLast test body)
    (BeforeRound T site spilled (unsure ++ spilled) c c' π block _) ?_
    ⟨v, π, .refl π, hfits.mono fun x hx => List.mem_append_left _ hx, hw, rfl⟩
  rintro w Y ⟨v, π₁, g₁, hfits₁, hw₁, rfl⟩
  have hdepth₁ : π₁.below.length = depth := by rw [g₁.below]; exact hdepth
  obtain ⟨v₁, hpass, hw₁⟩ := hw₁.passLabel block label Span.blank _
  rw [loopStep_testLast hw₁.gate]
  refine Leads.after hpass (Leads.bind (loopBody_leads span hk₁ hs hbody hinner hnodup hdepth₁ hw₁
    hfits₁) ?_ ?_)
  · rintro w flow Z ⟨v, flow', hf, rfl⟩
    cases flow with
    | next =>
      obtain ⟨hsends, π₂, g₂, hw₂, hr, hon⟩ := hf
      cases hsends
      refine branch_leads (hscene.calls π₂ (by rw [g₂.below]; exact hdepth₁)) (hon nofun) he hw₂ ?_
        ?_ ?_
      · intro w v hw
        exact nextRound_leads hk hs g₁ hfits₁ g₂ (hr nofun) (hon nofun) hw hstart
      · intro w v hw
        exact leaveLoop_leads (g₁.trans g₂) (hon nofun) (hr nofun) hw hend
      · exact fun w u v u' hc hw => ⟨v, u', ⟨hc, π₂, g₁.trans g₂, hw, hr nofun⟩, rfl⟩
    | jump label => cases hf.1
    | leaveMethod =>
      show Leads T.terms (.done w (.ok (roundEnd .leaveMethod))) _ _
      exact roundEnd_leads g₁ hf nofun hend
    | leaveLoop =>
      show Leads T.terms (.done w (.ok (roundEnd .leaveLoop))) _ _
      exact roundEnd_leads g₁ hf nofun hend
  · rintro w u Z ⟨v, u', hh, rfl⟩
    exact ⟨v, u', hh.mono g₁ (fun _ h => h) id, rfl⟩

end Loops

end Stepwise.Simulation
