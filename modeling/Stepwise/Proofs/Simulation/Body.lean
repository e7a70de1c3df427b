import Stepwise.Proofs.Simulation.Loop
import Stepwise.Proofs.Simulation.Attempt

/-!
# Bodies of methods in both programs

By induction over its statements, the code for a body does what the body
does, if that is so for the methods that it calls. The depth of the call
stack is limited, so the methods that are called too deep need not be looked
at, and by induction from there outward every body is compared well.
-/

namespace Stepwise.Simulation

open Engine
open Lowering hiding Target

variable {T : Tie} {depth nesting : Nat}

/-- A walk goes on after a statement, or the block is left. -/
theorem walk_cons_same (M : Machine) (block : Block) (inLoop : Bool) (stmt : Stmt)
    (rest : List Stmt) (w : World) :
    Run.Same (M.limit.walk block inLoop (stmt :: rest) w)
      ((M.step M.callees inLoop stmt >>= fun flow =>
        Exec.goOn (M.limit.walk block inLoop) (follow block rest flow)) w) := by
  have h := M.walk_same block inLoop (stmt :: rest) w
  rw [show (M.walkStep M.callees block inLoop (stmt :: rest) >>=
      Exec.goOn (M.limit.walk block inLoop)) = _ from Exec.bind_assoc _ _ _] at h
  exact h

/-- Control that does not go on leaves the block. -/
theorem Sends.follow {site : Site} {flow flow' : Flow} (h : Sends site flow flow')
    (hne : flow ≠ .next) (block rest : List Stmt) :
    Engine.follow block rest flow = .inr flow := by
  cases h with
  | next => exact absurd rfl hne
  | leaveLoop => rfl
  | leaveMethod => rfl

/-- A statement and the statements after it. -/
theorem Walks.cons {site : Site} {c c₁ c' : Supply} {stmt : Stmt} {block rest : List Stmt}
    {first others : Block} {spilled unsure : List String} (hk : T.Known site c)
    (hs : Supplies site stmt.spills c c₁) (hnames : c₁.names ≤ c'.names)
    (hfirst : Passes T T.strictTerms (Closed T) site stmt.spills unsure
      (Onward T site c₁ (stmt.after unsure)) depth c first c₁
      (T.source.step T.source.callees (!site.loopEnds.isEmpty) stmt))
    (hothers : Walks T site spilled (stmt.after unsure) depth c₁ others c' block rest) :
    Walks T site (stmt.spills ++ spilled) unsure depth c (first ++ others) c' block
      (stmt :: rest) := by
  intro target before after π w v hblock hnodup hdepth hw hfits
  rw [List.append_assoc] at hblock ⊢
  have hnew : ∀ y, T.New site stmt.spills c c₁ y → T.New site (stmt.spills ++ spilled) c c' y :=
    fun _ hy => hy.mono (fun _ => List.mem_append_left _) (Nat.le_refl _) hnames
  have hnew' : ∀ y, T.New site spilled c₁ c' y → T.New site (stmt.spills ++ spilled) c c' y :=
    fun _ hy => hy.mono (fun _ => List.mem_append_right _) hs.names (Nat.le_refl _)
  refine Leads.congr ?_ (walk_cons_same T.source block _ stmt rest w).symm
  refine Leads.bind (hfirst target before (others ++ after) π w v hblock hnodup hdepth hw hfits)
    ?_ ?_
  · rintro w flow Z ⟨v, flow', ⟨hsends, π₁, g₁, hw₁, hr, hon⟩, rfl⟩
    by_cases hflow : flow = .next
    · subst hflow
      cases hsends
      have hblock₁ : target = (before ++ first) ++ (others ++ after) := by
        rw [hblock, List.append_assoc]
      have hfits₁ : π₁.Fits T site c₁ (stmt.after unsure) :=
        ⟨hr nofun, hon nofun, hfits.receives.grow g₁ fun _ hc => hk.receiver_not_new hc⟩
      have hrest := hothers target _ after π₁ w v hblock₁ hnodup (by rw [g₁.below]; exact hdepth)
        hw₁ hfits₁
      exact hrest.mono fun w r Z hp => hp.mono (g₁.mono hnew) hnew' (fun _ _ _ => trivial)
        fun _ _ h => h
    · rw [hsends.follow hflow]
      exact .done ⟨v, flow', ⟨hsends, π₁, g₁.mono hnew, hw₁, hr, fun _ => trivial⟩,
        land_of_ne_next hsends hflow after v⟩
  · rintro w u Z ⟨v, u', hh, rfl⟩
    exact ⟨v, u', hh.mono (.refl π) hnew id, rfl⟩

/-- No statements. -/
theorem Walks.nil {site : Site} {c : Supply} {block : List Stmt} {spilled unsure : List String} :
    Walks T site spilled unsure depth c [] c block [] := by
  intro target before after π w v hblock hnodup hdepth hw hfits
  refine Leads.congr ?_ (T.source.walk_same block _ [] w).symm
  exact .done ⟨v, .next, ⟨.next, π, .refl π, hw, fun _ => hfits.result, fun _ => trivial⟩, rfl⟩

/-- A declaration. -/
theorem declare_passes {site : Site} {unsure : List String} {s s' : Progress} {code : Block}
    {x : String} {shape : Shape} {init : Option Expr} {span : Span} {inLoop : Bool}
    (hscene : Scene T depth nesting site) (hadm : T.Admits (.declare x shape init span))
    (hleak : (Stmt.declare x shape init span).leakFree unsure = true)
    (hk : T.Known site s.supply)
    (h : Emits (lowerDeclare T.setting (lowerBlock T.setting nesting) site x shape init span) s code
      s') :
    Passes T T.terms (Closes T span) site [x] unsure
      (Onward T site s'.supply (unsure.filter (· ≠ x))) depth s.supply code s'.supply
      (T.source.execute T.source.callees inLoop (.declare x shape init span)) := by
  rw [Stmt.leakFree, Bool.and_eq_true] at hleak
  have hu : ∀ z ∈ unsure, z ≠ x → z ∈ unsure.filter (· ≠ x) := by
    intro z hz hne
    simp [hz, hne]
  have he : ∀ e, init = some e → ∀ z ∈ e.locals, T.Usable unsure z := by
    rintro e rfl
    exact hadm.usable (by simp [Stmt.exprs]) hleak.1
  by_cases hinit : ∃ e, init = some e ∧ IsCall e
  · obtain ⟨_, rfl, method, args, callSpan, rfl⟩ := hinit
    refine lowerDeclare_call_passes hscene hk ?_ hu ?_ h
    · exact fun hs => hadm.plain hs x (by simp [Stmt.names, Stmt.binds])
    · intro z hz
      have husable := he _ rfl z (by rw [Expr.locals]; exact hz)
      refine ⟨fun hm => ?_, husable.2⟩
      rcases List.mem_append.mp hm with hm | hm
      · refine notMem_hiddenAhead (fun hzx => ?_) hm
        subst hzx
        have := hleak.2
        simp [Stmt.initAvoids, hz] at this
      · exact husable.1 hm
  · refine lowerDeclare_passes hscene hk hu ?_ he h
    exact fun e hsome hcall => hinit ⟨e, hsome, hcall⟩

/-- The code for a block hands out numbers and names as it should. -/
theorem Scene.yields {site : Site} {past : Option Span} {s s' : Progress} {block : List Stmt}
    {code : Block} (hscene : Scene T depth nesting site) (hevery : Stmt.everyAll T.Admits block)
    {site' : Site}
    (h : Emits (lowerStmts T.setting (lowerBlock T.setting nesting) site' past block) s code s') :
    Yields site' (Stmt.spillsOf block) s.supply code s'.supply :=
  lowerStmts_yields hscene.fits.structured (lowerBlock_yields hscene.fits.structured nesting) block
    (Stmt.everyAll_mono hevery fun _ ha => ha.structured) h

mutual

/-- The code for a statement does what the statement does. -/
theorem lowerStmt_passes :
    ∀ (stmt : Stmt) {site : Site} {unsure : List String} {s s' : Progress} {code : Block},
      Scene T depth nesting site → stmt.every T.Admits → stmt.leakFree unsure = true →
      T.Known site s.supply →
      Emits (lowerStmt T.setting (lowerBlock T.setting nesting) site stmt) s code s' →
      Passes T T.strictTerms (Closed T) site stmt.spills unsure
        (Onward T site s'.supply (stmt.after unsure)) depth s.supply code s'.supply
        (T.source.step T.source.callees (!site.loopEnds.isEmpty) stmt)
  | .declare x shape init span, _, _, _, _, _, hscene, hevery, hleak, hk, h => by
    rw [lowerStmt] at h
    rw [Stmt.spills, Stmt.after]
    exact (declare_passes hscene (Stmt.every_self hevery) hleak hk h).step
  | .assign target value span, _, _, _, _, _, hscene, hevery, hleak, hk, h => by
    have hadm := Stmt.every_self hevery
    rw [lowerStmt] at h
    rw [Stmt.leakFree, Bool.and_eq_true] at hleak
    simp only [Stmt.after, Stmt.spills, List.append_nil]
    exact (lowerAssign_passes hscene hk (hadm.usable (by simp [Stmt.exprs]) hleak.1)
      (hadm.usable (by simp [Stmt.exprs]) hleak.2) h).step
  | .eval e span, _, _, _, _, _, hscene, hevery, hleak, hk, h => by
    rw [lowerStmt] at h
    rw [Stmt.leakFree] at hleak
    simp only [Stmt.after, Stmt.spills, List.append_nil]
    exact (lowerEval_passes hscene hk
      ((Stmt.every_self hevery).usable (by simp [Stmt.exprs]) hleak) h).step
  | .throw value span, _, _, _, _, _, hscene, hevery, hleak, hk, h => by
    rw [Stmt.leakFree] at hleak
    simp only [Stmt.after, Stmt.spills, List.append_nil]
    exact (throw_passes hscene hk
      ((Stmt.every_self hevery).usable (by simp [Stmt.exprs]) hleak) h).step
  | .brk span, _, _, _, _, _, _, _, _, hk, h => by
    simp only [Stmt.after, Stmt.spills, List.append_nil]
    exact (brk_passes hk h).step
  | .ret none span, _, _, _, _, _, _, _, _, _, h => by
    rw [lowerStmt] at h
    exact (lowerReturn_none_passes h).step
  | .ret (some e) span, _, _, _, _, _, hscene, hevery, hleak, hk, h => by
    have hadm := Stmt.every_self hevery
    rw [lowerStmt] at h
    rw [Stmt.leakFree] at hleak
    exact (lowerReturned_passes hscene hk (hadm.usable (by simp [Stmt.exprs]) hleak)
      (hadm.returned e span rfl) h).step
  | .cond test yes none span, _, _, s, _, _, hscene, hevery, hleak, hk, h => by
    obtain ⟨s₁, yes', hs₁, hyes, rfl⟩ := emits_cond_none h
    rw [Stmt.leakFree, Bool.and_eq_true] at hleak
    have hinner := Stmt.every_cond_none hevery
    have hk₁ := hk.moreLabels (Nat.le_succ s.labels)
    have hsup := (hscene.yields hinner hyes).toSupplies
    have hwalk := lowerStmts_passes yes hscene hinner hleak.2 (by rw [hs₁]; exact hk₁) hyes yes
    rw [hs₁] at hsup hwalk
    simp only [Stmt.after, Stmt.spills]
    exact (cond_none_passes hscene hk (Nat.le_succ s.labels)
      ((Stmt.every_self hevery).usable (by simp [Stmt.exprs]) hleak.1) hsup hwalk).step
  | .cond test yes (some no) span, _, _, s, _, _, hscene, hevery, hleak, hk, h => by
    obtain ⟨s₁, yes', s₂, no', hs₁, hyes, hno, rfl⟩ := emits_cond_some h
    rw [Stmt.leakFree, Bool.and_eq_true, Bool.and_eq_true] at hleak
    obtain ⟨hinner, hinner'⟩ := Stmt.every_cond_some hevery
    have hlabels : s.labels ≤ s.labels + 2 := Nat.le_add_right _ _
    have hk₁ := hk.moreLabels hlabels
    have hsup := (hscene.yields hinner hyes).toSupplies
    have hsup' := (hscene.yields hinner' hno).toSupplies
    have hwalk := lowerStmts_passes yes hscene hinner hleak.1.2 (by rw [hs₁]; exact hk₁) hyes yes
    rw [hs₁] at hsup hwalk
    have hwalk' := lowerStmts_passes no hscene hinner' hleak.2 (hk₁.later hsup) hno no
    simp only [Stmt.after, Stmt.spills]
    exact (cond_some_passes hscene hk hlabels
      ((Stmt.every_self hevery).usable (by simp [Stmt.exprs]) hleak.1.1) hsup hsup' hwalk
      hwalk').step
  | .loop .testFirst test body span, site, _, s, _, _, hscene, hevery, hleak, hk, h => by
    obtain ⟨s₁, body', hs₁, hbody, rfl⟩ := emits_loop_first h
    rw [Stmt.leakFree, Bool.and_eq_true] at hleak
    have hinner := Stmt.every_loop hevery
    have hk₁ := (hk.moreLabels (Nat.le_add_right s.labels 2)).insideLoop (Nat.lt_succ_self _)
    have hsup := (hscene.yields hinner hbody).toSupplies.site_congr site rfl
    have hwalk := lowerStmts_passes body (hscene.insideLoop _) hinner hleak.2
      (by rw [hs₁]; exact hk₁) hbody body
    rw [hs₁] at hsup hwalk
    simp only [Stmt.after, Stmt.spills]
    exact (loop_first_passes hscene hk hk₁
      ((Stmt.every_self hevery).usable (by simp [Stmt.exprs]) hleak.1) hsup hwalk).step
  | .loop .testLast test body span, site, _, s, _, _, hscene, hevery, hleak, hk, h => by
    obtain ⟨s₁, body', s₂, hs₁, hbody, hs₂, rfl⟩ := emits_loop_last h
    rw [Stmt.leakFree, Bool.and_eq_true] at hleak
    have hinner := Stmt.every_loop hevery
    have hk₁ := (hk.moreLabels (Nat.le_add_right s.labels 2)).insideLoop (Nat.lt_succ_self _)
    have hsup := (hscene.yields hinner hbody).toSupplies.site_congr site rfl
    have hwalk := lowerStmts_passes body (hscene.insideLoop _) hinner hleak.2
      (by rw [hs₁]; exact hk₁) hbody body
    rw [hs₁] at hsup hwalk
    rw [hs₂]
    simp only [Stmt.after, Stmt.spills]
    exact (loop_last_passes hscene hk hk₁
      ((Stmt.every_self hevery).usable (by simp [Stmt.exprs]) hleak.1) hsup hwalk).step
  | .attempt body name handler span, _, _, s, _, _, hscene, hevery, hleak, hk, h => by
    have hsup := (lowerStmt_yields hscene.fits.structured
      (lowerBlock_yields hscene.fits.structured nesting) _
      (fun part hp => (hevery part hp).structured) h).toSupplies
    obtain ⟨body', s₁, name', s₂, handler', s₃, hbody, hname, hhandler, rfl, rfl⟩ :=
      emits_attempt h
    rw [Stmt.leakFree, Bool.and_eq_true] at hleak
    obtain ⟨hinner, hinner'⟩ := Stmt.every_attempt hevery
    have hyields := hscene.yields hinner hbody
    have hk₁ := (hk.later hyields.toSupplies.inScope).push.later hname.supplies
    have hwalk := lowerStmts_passes body hscene hinner hleak.1 hk.push hbody body
    have hwalk' := lowerStmts_passes handler hscene hinner' hleak.2 hk₁ hhandler handler
    simp only [Stmt.spills] at hsup
    simp only [Stmt.after, Stmt.spills, List.append_nil]
    exact (attempt_passes hk hsup hyields hwalk hname (hscene.yields hinner' hhandler).marked
      hwalk').step
  | .branch .., _, _, _, _, _, _, hevery, _, _, _ | .label .., _, _, _, _, _, _, hevery, _, _, _
  | .goto .., _, _, _, _, _, _, hevery, _, _, _ => by
    have := (Stmt.every_self hevery).structured
    cases this

/-- The code for statements does what the statements do. -/
theorem lowerStmts_passes :
    ∀ (rest : List Stmt) {site : Site} {unsure : List String} {past : Option Span}
      {s s' : Progress} {code : Block}, Scene T depth nesting site → Stmt.everyAll T.Admits rest →
      Stmt.leakFreeAll unsure rest = true → T.Known site s.supply →
      Emits (lowerStmts T.setting (lowerBlock T.setting nesting) site past rest) s code s' →
      ∀ block : Block, Walks T site (Stmt.spillsOf rest) unsure depth s.supply code s'.supply block
        rest
  | [], _, _, _, _, _, _, _, _, _, _, h, block => by
    unfold lowerStmts at h
    obtain ⟨rfl, rfl⟩ := emits_pure.mp h
    exact .nil
  | stmt :: rest, _, _, _, _, _, _, hscene, hevery, hleak, hk, h, block => by
    obtain ⟨s₁, first, s₂, others, hs₁, hfirst, hothers, rfl⟩ := emits_lowerStmts_cons h
    obtain ⟨hstmt, hrest⟩ := Stmt.everyAll_cons.mp hevery
    rw [Stmt.leakFreeAll, Bool.and_eq_true] at hleak
    rw [← hs₁] at hk ⊢
    have hsplice : SpliceYields (lowerBlock T.setting nesting) :=
      lowerBlock_yields hscene.fits.structured nesting
    have hy₁ := lowerStmt_yields hscene.fits.structured hsplice stmt
      (fun part hp => (hstmt part hp).structured) hfirst
    rw [Stmt.spillsOf]
    exact Walks.cons hk hy₁.toSupplies (hscene.yields hrest hothers).names
      (lowerStmt_passes stmt hscene hstmt hleak.1 hk hfirst)
      (lowerStmts_passes rest hscene hrest hleak.2 (hk.later hy₁.toSupplies) hothers block)

end

/-- A body is compared well if the bodies one frame further in are. -/
theorem bodySim_of_next (hfits : T.Fits)
    (h : depth + 1 < T.source.code.limits.maxCallDepth → BodySim T (depth + 1)) :
    BodySim T depth := by
  intro nesting site m s s' code hample hm hloops hk hemits
  obtain ⟨nesting, rfl⟩ := Nat.exists_eq_add_of_lt hample.pos
  rw [Nat.zero_add] at hample hemits
  have hwalk := lowerStmts_passes m.body ⟨hfits, h, hample⟩ (hfits.admits m hm)
    (hfits.leakFree m hm) hk hemits m.body
  simpa [Walks, hloops] using hwalk

/-- All bodies of methods are compared well. -/
theorem bodySim (hfits : T.Fits) (depth : Nat) : BodySim T depth := by
  -- by induction on the number of frames that the limit still allows
  generalize hleft : T.source.code.limits.maxCallDepth - depth = left
  induction left generalizing depth with
  | zero => exact bodySim_of_next hfits fun hlt => by omega
  | succ left ih => exact bodySim_of_next hfits fun _ => ih (depth + 1) (by omega)

end Stepwise.Simulation
