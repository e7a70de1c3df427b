import Stepwise.Proofs.Simulation.Simple

/-!
# Statements with blocks

Conditions, loops and `attempt` statements, given that the code for the
statements inside them does what these do. A condition or a loop opens a
scope in the source only, so that what is declared inside is gone in the
source and still there in the target, under names that are unsafe from then
on. An `attempt` statement opens a scope on both sides.
-/

namespace Stepwise.Simulation

open Engine
open Lowering hiding Target

variable {T : Tie} {π π' : Pose} {w v w' v' : World} {site : Site} {c c' c₁ : Supply}
  {unsure spilled : List String} {depth nesting : Nat} {span : Span}

/-- The code `code` does what the statements `rest` of a block of the source do. -/
def Walks (T : Tie) (site : Site) (spilled unsure : List String) (depth : Nat) (c : Supply)
    (code : Block) (c' : Supply) (block : Block) (rest : List Stmt) : Prop :=
  Passes T T.strictTerms (Closed T) site spilled unsure (fun _ => True) depth c code c'
    (T.source.limit.walk block (!site.loopEnds.isEmpty) rest)

/-- A pose fits a supply with the same names of the copy. -/
theorem Pose.Fits.congr (h : π.Fits T site c unsure) (hs : c'.scopes = c.scopes) :
    π.Fits T site c' unsure :=
  ⟨h.result, by rw [hs]; exact h.sees, h.receives⟩

/-- More names may be unsafe. -/
theorem Pose.Fits.mono {unsure' : List String} (h : π.Fits T site c unsure)
    (hu : ∀ x ∈ unsure, x ∈ unsure') : π.Fits T site c unsure' :=
  ⟨h.result, h.sees.mono fun _ hx => hx.mono hu, h.receives⟩

/-- A fit is one inside a loop. -/
theorem Pose.Fits.insideLoop (h : π.Fits T site c unsure) (label : String) :
    π.Fits T (site.insideLoop label) c unsure :=
  ⟨h.result, h.sees, h.receives⟩

/-- Names that are not spilled denote the same after code as before it. -/
theorem Pose.Sees.onward (h : π.Sees (naming site c.scopes) (T.Usable unsure))
    (hs : Supplies site spilled c c') (hu : ∀ x ∈ spilled, x ∈ unsure) :
    Onward T site c' unsure π := by
  intro x hx
  rw [Supplies.naming_eq hs fun hm => hx.1 (hu x hm)]
  exact h x hx

/-- Names that are not spilled denote the same before code as after it. -/
theorem Onward.back (h : Onward T site c' unsure π) (hs : Supplies site spilled c c')
    (hu : ∀ x ∈ spilled, x ∈ unsure) : π.Sees (naming site c.scopes) (T.Usable unsure) := by
  intro x hx
  rw [← Supplies.naming_eq hs fun hm => hx.1 (hu x hm)]
  exact h x hx

/-- What safe names denote outlasts code that spills other names. -/
theorem Pose.Fits.grow (h : π.Fits T site c unsure) (hk : T.Known site c)
    (g : Grows T (T.New site spilled c c') π π') (hi : π'.inner = π.inner)
    (hr : π'.result = none) (hu : ∀ x ∈ spilled, x ∈ unsure) : π'.Fits T site c unsure where
  result := hr
  sees := h.sees.grow g hi fun _ _ hx hn => hk.not_new hx (fun hm => hx.1 (hu _ hm)) hn
  receives := h.receives.grow g fun _ hc => hk.receiver_not_new hc

/-- A block in a scope of its own, which jump code does not open. -/
theorem nested_passes {block code : Block} (hk : T.Known site c) (hs : Supplies site spilled c c')
    (h : Walks T site spilled unsure depth c code c' block block) (span : Span) :
    Passes T T.terms (Closes T span) site spilled unsure (Onward T site c' (unsure ++ spilled))
      depth c code c' (nested (T.source.callees.block block (!site.loopEnds.isEmpty))) := by
  intro target before after π w v hblock hnodup hdepth hw hfits
  have hmark : w.stack.scopeMark = π.outer.length + 1 := hw.source.mark
  have hinner : π.enterBlock.Fits T site c unsure :=
    ⟨hfits.result, fun x hx => hfits.sees x hx, hfits.receives⟩
  have hlead := h target before after π.enterBlock w.pushScope v hblock hnodup hdepth
    hw.enterBlock hinner
  have hwide := hfits.mono fun x hx => List.mem_append_left spilled hx
  unfold nested
  rw [hmark]
  refine (hlead.congr (T.source.block_same block _ w.pushScope).symm).andThen Iff.rfl id ?_ ?_
  · intro w' r Z hpost
    cases r with
    | ok flow =>
      obtain ⟨v', flow', ⟨hsends, π', g, hw', hr, -⟩, rfl⟩ := hpost
      have hgrows := Pose.grows_leaveBlock g
      refine .done ⟨v', flow', ⟨hsends, _, hgrows, hw'.leaveBlock g, hr, fun hflow => ?_⟩, rfl⟩
      have hleft := hwide.grow hk hgrows rfl (hr hflow)
        fun x hx => List.mem_append_right _ hx
      exact hleft.sees.onward hs fun x hx => List.mem_append_right _ hx
    | error u =>
      obtain ⟨v', u', ⟨hc, π', g, hw', hr⟩, rfl⟩ := hpost
      exact .done ⟨v', u', ⟨hc.closes span, _, Pose.grows_leaveBlock g, hw'.leaveBlock g, hr⟩, rfl⟩
  · rintro - w' u hu w'' r hr
    cases hr
    exact ⟨u, rfl, .inl hu⟩

section Jumps

variable {block before after : List Stmt}

/-- A condition of the source against a branch of the target. -/
theorem branch_leads {γ : Type} {x : Bool → Exec γ} {test : Expr} {label : String}
    {scopes : Renaming} {R : World → Except Unwind γ → (Nat → Run Flow) → Prop}
    (hcall : Callable T π) (hsees : π.Sees (naming site scopes) (T.Usable unsure))
    (he : ∀ y ∈ test.locals, T.Usable unsure y) (h : π.Holds T w v)
    (hyes : ∀ w v, π.Holds T w v → Leads T.terms (x true w) (route T.target block after v) R)
    (hno : ∀ w v, π.Holds T w v →
      Leads T.terms (x false w) (land T.target block after (.jump label) v) R)
    (herr : ∀ w u v u', Closes T span u u' → π.Holds T w v → R w (.error u) (halted v u')) :
    Leads T.terms ((evalCondition T.source.code.program T.source.call test >>= x) w)
      (route T.target block (.branch (render site scopes test) label span :: after) v) R := by
  have hcond := (evalCondition_steady hcall hsees test he) w _
    (h.arriveTarget (.branch (render site scopes test) label span))
  refine Leads.bind (Leads.ofPart (R := fun w r Z => match r with
    | .ok b => ∃ v, π.Holds T w v ∧ Z = concluding T.target block after
        (.branch (render site scopes test) label span)
        (if b then pure .next else pure (.jump label)) v
    | .error u => ∃ v u', (Closes T span u u' ∧ π.Holds T w v) ∧ Z = halted v u') h.gate' rfl
    hcond ?_ ?_) ?_ ?_
  · rintro w a v b ⟨rfl, hw⟩
    exact ⟨v, hw, rfl⟩
  · exact fun w u v u' hc hw => ⟨v, u', ⟨hc, hw⟩, rfl⟩
  · rintro w b Z ⟨v, hw, rfl⟩
    have hobserved := hw.observeTarget false (.branch (render site scopes test) label span)
    cases b with
    | true =>
      rw [concluding_ok rfl]
      exact hyes w _ hobserved
    | false =>
      rw [concluding_ok rfl]
      exact hno w _ hobserved
  · rintro w u Z ⟨v, u', ⟨hc, hw⟩, rfl⟩
    exact herr w u v u' hc hw

/-- Code may end further on, if the target alone gets there. -/
theorem Leads.goOn {t : Terms} {C : Unwind → Unwind → Prop} {new : String → Prop}
    {next : Pose → Prop} {x : Run Flow} {Y : Nat → Run Flow} {rest : List Stmt}
    (h : Leads t x Y (Post T C new π next site block rest))
    (hway : ∀ (π' : Pose) w v, π'.Holds T w v → ∃ d v', Reaches d (route T.target block rest v)
      (route T.target block after v') ∧ π'.Holds T w v') :
    Leads t x Y (Post T C new π next site block after) := by
  refine h.thenReaches ?_
  intro w r Z hpost
  cases r with
  | error u => exact ⟨0, Z, .refl Z, hpost⟩
  | ok flow =>
    obtain ⟨v, flow', ⟨hs, π', g, hw, hr, hn⟩, rfl⟩ := hpost
    by_cases hflow : flow = .next
    · subst hflow
      cases hs
      obtain ⟨d, v', hreach, hw'⟩ := hway π' w v hw
      exact ⟨d, _, hreach, v', .next, ⟨.next, π', g, hw', hr, hn⟩, rfl⟩
    · exact ⟨0, _, .refl _, v, flow', ⟨hs, π', g, hw, hr, hn⟩,
        land_of_ne_next hs hflow after v⟩

/-- The target jumps to a label further on and past it. -/
theorem Pose.Holds.passTo {label : String} (h : π.Holds T w v)
    (hl : Block.fromLabel? label block = some (mark label :: after)) (rest : List Stmt) :
    ∃ v', Reaches 1 (land T.target block rest (.jump label) v) (route T.target block after v') ∧
      π.Holds T w v' := by
  rw [land_jump hl]
  exact h.passLabel block label Span.blank after

end Jumps

section Conditions

variable {test : Expr} {yes no yes' no' : Block} {label endLabel : String}

/-- Further labels may be handed out. -/
theorem Tie.Known.moreLabels {n : Nat} (h : T.Known site c) (hn : c.labels ≤ n) :
    T.Known site { c with labels := n } :=
  h.later (Supplies.ofScopes hn (Nat.le_refl _) rfl : Supplies site [] c { c with labels := n })

/-- A condition without `else`. -/
theorem cond_none_passes (hscene : Scene T depth nesting site) (hk : T.Known site c) {n : Nat}
    (hn : c.labels ≤ n) (he : ∀ y ∈ test.locals, T.Usable unsure y)
    (hs : Supplies site spilled { c with labels := n } c')
    (hyes : Walks T site spilled unsure depth { c with labels := n } yes' c' yes yes) :
    Passes T T.terms (Closes T span) site spilled unsure (Onward T site c' (unsure ++ spilled))
      depth c (.branch (render site c.scopes test) label span :: yes' ++ [mark label]) c'
      (T.source.execute T.source.callees (!site.loopEnds.isEmpty) (.cond test yes none span)) := by
  intro block before after π w v hblock hnodup hdepth hw hfits
  have hcode : .branch (render site c.scopes test) label span :: yes' ++ [mark label] ++ after =
      .branch (render site c.scopes test) label span :: (yes' ++ mark label :: after) := by
    simp
  rw [hcode] at hblock ⊢
  have hbody : block = (before ++ [.branch (render site c.scopes test) label span]) ++
      (yes' ++ mark label :: after) := by
    rw [hblock, List.append_assoc, List.singleton_append]
  have hend : Block.fromLabel? label block = some (mark label :: after) := by
    rw [← List.append_assoc] at hbody
    rw [hbody] at hnodup ⊢
    exact Block.fromLabel?_append hnodup
  refine branch_leads (hscene.calls π hdepth) hfits.sees he hw ?_ ?_ ?_
  · intro w v hw
    refine (nested_passes (hk.moreLabels hn) hs hyes span block _ _ π w v hbody hnodup hdepth hw
      (hfits.congr rfl)).goOn ?_
    exact fun π' w v hw => ⟨1, hw.passLabel block label Span.blank after⟩
  · intro w v hw
    obtain ⟨v', hreach, hw'⟩ := hw.passTo hend (yes' ++ mark label :: after)
    refine Leads.after hreach (.done ⟨v', .next, ⟨.next, π, .refl π, hw', fun _ => hfits.result,
      fun _ => ?_⟩, rfl⟩)
    have hwide : π.Fits T site { c with labels := n } (unsure ++ spilled) :=
      (hfits.mono fun x hx => List.mem_append_left spilled hx).congr rfl
    exact hwide.sees.onward hs fun x hx => List.mem_append_right _ hx
  · exact fun w u v u' hc hw => ⟨v, u', ⟨hc, π, .refl π, hw, hfits.result⟩, rfl⟩

/-- A condition with `else`. -/
theorem cond_some_passes {spilled' : List String} (hscene : Scene T depth nesting site)
    (hk : T.Known site c) {n : Nat} (hn : c.labels ≤ n)
    (he : ∀ y ∈ test.locals, T.Usable unsure y)
    (hs₁ : Supplies site spilled { c with labels := n } c₁) (hs₂ : Supplies site spilled' c₁ c')
    (hyes : Walks T site spilled unsure depth { c with labels := n } yes' c₁ yes yes)
    (hno : Walks T site spilled' (unsure ++ spilled) depth c₁ no' c' no no) :
    Passes T T.terms (Closes T span) site (spilled ++ spilled') unsure
      (Onward T site c' (unsure ++ (spilled ++ spilled'))) depth c
      (.branch (render site c.scopes test) label span :: yes' ++
        jump endLabel :: mark label :: no' ++ [mark endLabel]) c'
      (T.source.execute T.source.callees (!site.loopEnds.isEmpty)
        (.cond test yes (some no) span)) := by
  intro block before after π w v hblock hnodup hdepth hw hfits
  have hcode : .branch (render site c.scopes test) label span :: yes' ++
        jump endLabel :: mark label :: no' ++ [mark endLabel] ++ after =
      .branch (render site c.scopes test) label span :: (yes' ++ (jump endLabel :: mark label ::
        (no' ++ mark endLabel :: after))) := by
    simp
  rw [hcode] at hblock ⊢
  have hbody : block = (before ++ [.branch (render site c.scopes test) label span]) ++
      (yes' ++ (jump endLabel :: mark label :: (no' ++ mark endLabel :: after))) := by
    rw [hblock, List.append_assoc, List.singleton_append]
  have hother : block = (before ++ .branch (render site c.scopes test) label span ::
      (yes' ++ [jump endLabel, mark label])) ++ (no' ++ mark endLabel :: after) := by
    rw [hblock]
    simp
  have helse : Block.fromLabel? label block =
      some (mark label :: (no' ++ mark endLabel :: after)) := by
    have hsplit : block = (before ++ .branch (render site c.scopes test) label span ::
        (yes' ++ [jump endLabel])) ++ mark label :: (no' ++ mark endLabel :: after) := by
      rw [hblock]
      simp
    rw [hsplit] at hnodup ⊢
    exact Block.fromLabel?_append hnodup
  have hend : Block.fromLabel? endLabel block = some (mark endLabel :: after) := by
    rw [← List.append_assoc] at hother
    rw [hother] at hnodup ⊢
    exact Block.fromLabel?_append hnodup
  have hwide : π.Fits T site { c with labels := n } (unsure ++ spilled) :=
    (hfits.mono fun x hx => List.mem_append_left spilled hx).congr rfl
  have hassoc : unsure ++ spilled ++ spilled' = unsure ++ (spilled ++ spilled') :=
    List.append_assoc _ _ _
  refine branch_leads (hscene.calls π hdepth) hfits.sees he hw ?_ ?_ ?_
  · intro w v hw
    have hlead := nested_passes (hk.moreLabels hn) hs₁ hyes span block _ _ π w v hbody hnodup
      hdepth hw (hfits.congr rfl)
    refine (hlead.mono fun w r Z hp => hp.mono (.refl π) (fun _ hy => hy.mono
      (fun _ => List.mem_append_left _) (Nat.le_refl _) hs₂.names) ?_ fun _ _ h => h).goOn ?_
    · intro π' _ hon
      rw [← hassoc]
      exact (Pose.Sees.mono hon fun _ hx => hx.mono fun _ => List.mem_append_left _).onward hs₂
        fun x hx => List.mem_append_right _ hx
    · intro π' w v hw
      obtain ⟨v₁, hjump, hw₁⟩ := hw.passJump block endLabel Span.blank
        (mark label :: (no' ++ mark endLabel :: after))
      obtain ⟨v₂, hpass, hw₂⟩ := hw₁.passTo hend (mark label :: (no' ++ mark endLabel :: after))
      exact ⟨_, v₂, hjump.trans hpass, hw₂⟩
  · intro w v hw
    obtain ⟨v₁, hreach, hw₁⟩ := hw.passTo helse (yes' ++ (jump endLabel :: mark label ::
      (no' ++ mark endLabel :: after)))
    have hfits₂ : π.Fits T site c₁ (unsure ++ spilled) :=
      ⟨hfits.result, hwide.sees.onward hs₁ fun x hx => List.mem_append_right _ hx, hfits.receives⟩
    have hlead := nested_passes ((hk.moreLabels hn).later hs₁) hs₂ hno span block _ _ π w v₁ hother
      hnodup hdepth hw₁ hfits₂
    rw [hassoc] at hlead
    refine Leads.after hreach ((hlead.mono fun w r Z hp => hp.mono (.refl π) (fun _ hy => hy.mono
      (fun _ => List.mem_append_right _) hs₁.names (Nat.le_refl _)) (fun _ _ h => h)
      fun _ _ h => h).goOn ?_)
    exact fun π' w v hw => ⟨1, hw.passLabel block endLabel Span.blank after⟩
  · exact fun w u v u' hc hw => ⟨v, u', ⟨hc, π, .refl π, hw, hfits.result⟩, rfl⟩

end Conditions

end Stepwise.Simulation
