import Stepwise.Proofs.Simulation.Hoist

/-!
# Statements without blocks

Statements that have no statements inside them, one kind after the other.
Most stay as they are but for the names in them. A call that is the value of
an assignment or the initial value of a declaration, or that stands alone,
may have become a copy of the callee. A return puts its value into the frame
on both sides, or into the receiver of the copy it stands in.
-/

namespace Stepwise.Simulation

open Engine
open Lowering hiding Target

variable {T : Tie} {π π' : Pose} {w v w' v' : World} {site : Site} {c c' : Supply}
  {unsure : List String} {depth nesting : Nat}

/-- Names that are safe to use denote the same on both sides. -/
def Onward (T : Tie) (site : Site) (c : Supply) (unsure : List String) (π : Pose) : Prop :=
  π.Sees (naming site c.scopes) (T.Usable unsure)

/-- Fewer names denote the same. -/
theorem Pose.Sees.mono {names : Naming} {ok ok' : String → Prop} (h : π.Sees names ok)
    (hok : ∀ x, ok' x → ok x) : π.Sees names ok' :=
  fun x hx => h x (hok x hx)

/-- A name stays safe if fewer names are unsafe. -/
theorem Tie.Usable.mono {unsure' : List String} {x : String} (h : T.Usable unsure' x)
    (hs : ∀ y ∈ unsure, y ∈ unsure') : T.Usable unsure x :=
  ⟨fun hx => h.1 (hs x hx), h.2⟩

/-- A statement is passed if what it does is. -/
theorem Passes.step {stmt : Stmt} {inLoop : Bool} {spilled : List String} {next : Pose → Prop}
    {code : Block}
    (h : Passes T T.terms (Closes T stmt.span) site spilled unsure next depth c code c'
      (T.source.execute T.source.callees inLoop stmt)) :
    Passes T T.strictTerms (Closed T) site spilled unsure next depth c code c'
      (T.source.step T.source.callees inLoop stmt) := by
  intro block before after π w v hblock hnodup hdepth hw hfits
  exact Leads.stepSource hw.gate
    (h block before after π _ v hblock hnodup hdepth (hw.arriveSource stmt) hfits)

/-- A step that goes on, if it ends well, to what follows. -/
def Goes (x : Exec Flow) : Prop := ∀ w w' flow, x w = .done w' (.ok flow) → flow = .next

theorem Goes.next : Goes (pure .next) := by
  intro w w' flow h
  cases h
  rfl

theorem Goes.fail (f : Fault) : Goes (Exec.fail f) := by
  intro w w' flow h
  cases h

theorem Goes.bind {α : Type} {x : Exec α} {f : α → Exec Flow} (h : ∀ a, Goes (f a)) :
    Goes (x >>= f) := by
  intro w w' flow hx
  obtain ⟨w₁, a, -, h₂⟩ | ⟨u, -, h₂⟩ := Exec.bind_eq_done.mp hx
  · exact h a w₁ w' flow h₂
  · cases h₂

namespace Standing

variable {spilled : List String}

/-- Control goes on after code that declares nothing. -/
theorem next (h : Standing T site c unsure depth π w v) (hs : c'.scopes = c.scopes)
    (hl : Later T c.names c'.names π π') (hw : π'.Holds T w' v') :
    Flows T (T.New site spilled c c') π (Onward T site c' unsure) site w' .next v' .next := by
  refine ⟨.next, π', hl.grows site spilled, hw, fun _ => hl.result.trans h.fits.result, fun _ => ?_⟩
  rw [Onward, hs]
  exact hl.sees h.known h.fits.sees

/-- An early end while new names are taken is one of the code. -/
theorem halts {C : Unwind → Unwind → Prop} {u u' : Unwind}
    (hh : Halts T C (T.Fresh c.names c'.names) π w u v u') :
    Halts T C (T.New site spilled c c') π w u v u' :=
  hh.mono (.refl π) (fun _ hy => .inr hy) id

/-- The rest of a statement does the same on both sides. -/
theorem rest (h : Standing T site c unsure depth π w v) (hs : c'.scopes = c.scopes)
    (hl : Later T c.names c'.names π π') (hw : π'.Holds T w' v') {x z : Exec Flow}
    (hx : Steady T π' x z) (hgoes : Goes x) {stmt : Stmt} {span : Span}
    (hspan : T.sharp → stmt.span = span) (block after : List Stmt) :
    Leads T.terms (x w') (concluding T.target block after stmt z v')
      (Post T (Closes T span) (T.New site spilled c c') π (Onward T site c' unsure) site block
        after) := by
  have hlead : Leads T.terms (x w') (concluding T.target block after stmt z v') fun w r Z =>
      byOutcome (fun flow => ∃ v, π'.Holds T w v ∧ Z = land T.target block after flow v)
        (fun u => ∃ v u', Halts T (Closes T span) (T.New site spilled c c') π w u v u' ∧
          Z = halted v u') r := by
    refine Leads.ofRest (hx w' v' hw) ?_ ?_
    · rintro w flow v _ ⟨rfl, hw⟩
      exact ⟨_, hw.observeTarget false stmt, rfl⟩
    · exact fun w u v u' hc hw => ⟨v, u', ⟨hc.respan hspan, π', hl.grows site spilled, hw,
        hl.result.trans h.fits.result⟩, rfl⟩
  refine hlead.observe.mono ?_
  rintro w r Z ⟨hend, hr⟩
  cases r with
  | error u => exact hr
  | ok flow =>
    obtain rfl := hgoes w' w flow hend
    obtain ⟨v, hw, hz⟩ := hr
    exact ⟨v, .next, h.next hs hl hw, hz⟩

/-- A statement that stays as it is does the same on both sides. -/
theorem same (h : Standing T site c unsure depth π w v) {x : Exec Flow} {stmt : Stmt}
    (hx : Steady T π x (T.target.execute T.target.callees false stmt)) (hgoes : Goes x)
    (block after : List Stmt) :
    Leads T.terms (x w) (route T.target block (stmt :: after) v)
      (Post T (Closes T stmt.span) (T.New site spilled c c) π (Onward T site c unsure) site block
        after) :=
  Leads.after (route_concluding h.holds.gate')
    (h.rest rfl (.refl _ π) (h.holds.arriveTarget stmt) hx hgoes (fun _ => rfl) block after)

end Standing

/-- What is no call has its value in any case. -/
theorem valueOf_eq {p : Program} {wary : Bool} {call : Caller} {e : Expr} (h : ¬ IsCall e) :
    valueOf p wary call e = eval p call e := by
  cases e with
  | call method args span => exact absurd ⟨method, args, span, rfl⟩ h
  | _ => rfl

/-- Other names make no calls. -/
theorem isCall_of_render {scopes : Renaming} {e : Expr} (h : IsCall (render site scopes e)) :
    IsCall e := by
  obtain ⟨method, args, span, h⟩ := h
  cases e with
  | call method args span => exact ⟨method, args, span, rfl⟩
  | var =>
    rw [render_var] at h
    cases h
  | _ =>
    rw [render] at h
    split at h <;> cases h

/-- What is no call has the same value in a statement of either program. -/
theorem valueOf_steady (hcall : Callable T π) {e : Expr}
    (hsees : π.Sees (naming site c.scopes) (T.Usable unsure)) (hnot : ¬ IsCall e)
    (he : ∀ x ∈ e.locals, T.Usable unsure x) :
    Steady T π (valueOf T.source.code.program T.source.wary T.source.call e)
      (valueOf T.target.code.program T.target.wary T.target.call (render site c.scopes e)) := by
  rw [valueOf_eq hnot, valueOf_eq fun h => hnot (isCall_of_render h)]
  exact eval_steady hcall hsees e he

section Values

variable {span : Span} {s s' : Progress} {code : Block} {inLoop : Bool}

/-- A call with safe names, up to the point where the target uses its value. -/
theorem Standing.call (hscene : Scene T depth nesting site) {method : String} {args : List Expr}
    {dest : Option Expr} {callSpan : Span} {block before after : List Stmt}
    (h : Standing T site c unsure depth π w v) (hnames : s.names = c.names)
    (hargs : ∀ x ∈ Expr.listLocals args, T.Usable unsure x)
    (hemits : Emits (emitCall T.setting (lowerBlock T.setting nesting) site method
      (renderList site c.scopes args) dest callSpan span) s code s')
    (hblock : block = before ++ (code ++ after)) (hnodup : (Block.labels block).Nodup) :
    Leads T.terms
      (valueOf T.source.code.program T.source.wary T.source.call (.call method args callSpan) w)
      (route T.target block (code ++ after) v)
      (Returned T c.names s'.names π block after (storing T dest) span) := by
  have hfed := h.fits.fed h.known (by rw [h.depth]; exact hscene.calls)
    (T.source.code.program.heeded T.source.wary method) hargs
  rw [← hnames] at hfed ⊢
  rw [valueOf]
  exact emitCall_leads hscene hemits hblock hnodup h.depth hfed h.holds h.fits.result

/-- The statements of a call draw on the supply. -/
theorem Scene.draws (hscene : Scene T depth nesting site) {method : String} {args : List Expr}
    {dest : Option Expr} {callSpan : Span}
    (hemits : Emits (emitCall T.setting (lowerBlock T.setting nesting) site method args dest
      callSpan span) s code s') : Draws s.supply code s'.supply :=
  emitCall_draws hscene.fits.structured (lowerBlock_yields hscene.fits.structured nesting) hemits

/-- An expression that stands alone. -/
theorem lowerEval_passes (hscene : Scene T depth nesting site) (hk : T.Known site s.supply)
    {e : Expr} (he : ∀ x ∈ e.locals, T.Usable unsure x)
    (hemits : Emits (lowerEval T.setting (lowerBlock T.setting nesting) site e span) s code s') :
    Passes T T.terms (Closes T span) site [] unsure (Onward T site s'.supply unsure) depth s.supply
      code s'.supply (T.source.execute T.source.callees inLoop (.eval e span)) := by
  intro block before after π w v hblock hnodup hdepth hw hfits
  have hst : Standing T site s.supply unsure depth π w v := ⟨hk, hfits, hdepth, hw⟩
  by_cases hcall : IsCall e
  · obtain ⟨method, args, callSpan, rfl⟩ := hcall
    obtain ⟨s₁, hs₁, hemit⟩ := emits_lowerCall hemits
    rw [Expr.locals] at he
    have hdraws := hscene.draws hemit
    rw [hs₁] at hdraws
    have hlead := hst.call hscene (congrArg Supply.names hs₁) he hemit hblock hnodup
    refine Leads.bind hlead ?_ ?_
    · rintro w value Z ⟨v, π', stmt, hl, hw', -, rfl⟩
      rw [concluding_ok (rfl : storing T none value v = .done v (.ok .next))]
      exact .done ⟨_, .next, hst.next hdraws.scopes hl (hw'.observeTarget false stmt), rfl⟩
    · rintro w u Z ⟨v, u', hh, rfl⟩
      exact ⟨v, u', Standing.halts hh, rfl⟩
  · obtain ⟨hs, rfl⟩ := emits_lowerEval hcall hemits
    rw [hs]
    have hsteady := valueOf_steady (hscene.calls π hdepth) hfits.sees hcall he
    exact hst.same (hsteady.bind fun _ => .ret Flow.next) (.bind fun _ => .next) block after

/-- An assignment. -/
theorem lowerAssign_passes (hscene : Scene T depth nesting site) (hk : T.Known site s.supply)
    {target value : Expr} (ht : ∀ x ∈ target.locals, T.Usable unsure x)
    (he : ∀ x ∈ value.locals, T.Usable unsure x)
    (hemits : Emits (lowerAssign T.setting (lowerBlock T.setting nesting) site target value span) s
      code s') :
    Passes T T.terms (Closes T span) site [] unsure (Onward T site s'.supply unsure) depth s.supply
      code s'.supply (T.source.execute T.source.callees inLoop (.assign target value span)) := by
  intro block before after π w v hblock hnodup hdepth hw hfits
  have hst : Standing T site s.supply unsure depth π w v := ⟨hk, hfits, hdepth, hw⟩
  by_cases hcall : IsCall value
  · obtain ⟨method, args, callSpan, rfl⟩ := hcall
    obtain ⟨s₁, hs₁, hemit⟩ := emits_lowerAssign_call hemits
    rw [Expr.locals] at he
    have hdraws := hscene.draws hemit
    rw [hs₁] at hdraws
    have hlead := hst.call hscene (congrArg Supply.names hs₁) he hemit hblock hnodup
    refine Leads.bind hlead ?_ ?_
    · rintro w a Z ⟨v, π', stmt, hl, hw', hspan, rfl⟩
      have hsteady := assign_steady (hscene.calls π' (by rw [hl.below]; exact hdepth))
        (hl.sees hk hfits.sees) target ht a
      exact hst.rest hdraws.scopes hl hw' (hsteady.bind fun _ => .ret Flow.next)
        (.bind fun _ => .next) hspan block after
    · rintro w u Z ⟨v, u', hh, rfl⟩
      exact ⟨v, u', Standing.halts hh, rfl⟩
  · obtain ⟨hs, rfl⟩ := emits_lowerAssign hcall hemits
    rw [hs]
    have hsteady := (valueOf_steady (hscene.calls π hdepth) hfits.sees hcall he).bind fun a =>
      (assign_steady (hscene.calls π hdepth) hfits.sees target ht a).bind fun _ =>
        .ret Flow.next
    exact hst.same hsteady (.bind fun _ => .bind fun _ => .next) block after

/-- A thrown value. -/
theorem throw_passes (hscene : Scene T depth nesting site) (hk : T.Known site s.supply)
    {value : Expr} (he : ∀ x ∈ value.locals, T.Usable unsure x)
    (hemits : Emits (lowerStmt T.setting (lowerBlock T.setting nesting) site (.throw value span)) s
      code s') :
    Passes T T.terms (Closes T span) site [] unsure (Onward T site s'.supply unsure) depth s.supply
      code s'.supply (T.source.execute T.source.callees inLoop (.throw value span)) := by
  intro block before after π w v hblock hnodup hdepth hw hfits
  have hst : Standing T site s.supply unsure depth π w v := ⟨hk, hfits, hdepth, hw⟩
  obtain ⟨hs, rfl⟩ := emits_throw hemits
  rw [hs]
  refine hst.same (Steady.bind (eval_steady (hscene.calls π hdepth) hfits.sees value he) ?_) ?_
    block after
  · intro a
    cases a <;> exact .fail rfl
  · refine .bind fun a => ?_
    cases a <;> exact .fail _

/-- Leaving a loop. -/
theorem brk_passes (hk : T.Known site s.supply) {splice : Splice}
    (hemits : Emits (lowerStmt T.setting splice site (.brk span)) s code s') :
    Passes T T.terms (Closes T span) site [] unsure (Onward T site s'.supply unsure) depth s.supply
      code s'.supply (T.source.execute T.source.callees (!site.loopEnds.isEmpty) (.brk span)) := by
  intro block before after π w v hblock hnodup hdepth hw hfits
  have hst : Standing T site s.supply unsure depth π w v := ⟨hk, hfits, hdepth, hw⟩
  obtain ⟨hs, hcode⟩ := emits_brk hemits
  rw [hs]
  cases hends : site.loopEnds with
  | nil =>
    rw [hends] at hcode
    rw [hcode]
    have hfail : Mild .breakOutsideLoop := rfl
    exact hst.same (.fail hfail) (.fail _) block after
  | cons label others =>
    rw [hends] at hcode
    rw [hcode]
    obtain ⟨v', hreach, hw'⟩ := hw.passJump block label span after
    refine Leads.after hreach (.done ⟨v', .jump label, ?_, rfl⟩)
    exact ⟨.leaveLoop (by rw [hends]; rfl), π, .refl π, hw', fun _ => hfits.result,
      fun _ => hfits.sees⟩

end Values

/-- The names that a variable declared ahead of its value hides from the value.
In a copy these are none, since the variable has a name of its own. -/
def hiddenAhead (site : Site) (x : String) : List String := if site.copy.isNone then [x] else []

/-- Only the declared name is hidden. -/
theorem notMem_hiddenAhead {x z : String} (h : z ≠ x) : z ∉ hiddenAhead site x := by
  unfold hiddenAhead
  split <;> simp [h]

/-- What a declaration at a site gives: a name of the target that nothing else denotes. -/
structure Named (T : Tie) (site : Site) (c : Supply) (x y : String) (c' : Supply) : Prop where
  /-- Only the declared name gets another name. -/
  supplies : Supplies site [x] c c'
  /-- The declared name gets its name. -/
  self : naming site c'.scopes x = some y
  /-- Other names have other names; in a copy, what the name meant before has another one, too. -/
  apart : ∀ z y', z ∉ hiddenAhead site x → naming site c.scopes z = some y' → y' ≠ y
  /-- The receiver of the copy has another name. -/
  receiver : ∀ target, site.copy = some target → target.receiver ≠ y
  /-- The name is new in the target. -/
  new : T.New site [x] c c' y
  /-- The name is not handed out again. -/
  taken : ∀ high, (¬ T.sharp → Plain x) → ¬ T.Fresh c'.names high y
  /-- Only in copies is the name another one. -/
  name : y = x ∨ T.lax

/-- Declarations of lowered code are such. -/
theorem Tie.Known.named {x y : String} {s s' : Progress} (hk : T.Known site s.supply)
    (h : Emits (declareName site x) s y s') : Named T site s.supply x y s'.supply := by
  have hsupplies := h.declareName
  cases hc : site.copy with
  | none =>
    obtain ⟨rfl, rfl⟩ := emits_declareName_top (by simp [hc]) h
    have hnaming : naming site s'.supply.scopes = some := by simp [naming, hc]
    refine ⟨hsupplies, by rw [hnaming], ?_, ?_, .inl ⟨hc, List.mem_singleton_self _⟩, ?_, .inl rfl⟩
    · intro z y' hz hn
      rw [hnaming] at hn
      cases hn
      rintro rfl
      exact hz (by simp [hiddenAhead, hc])
    · intro target ht
      rw [hc] at ht
      cases ht
    · exact fun high hp hf => not_between_of_plain (hp hf.1) hf.2
  | some target =>
    obtain ⟨rfl, rfl⟩ := emits_declareName_copy (by simp [hc]) h
    have hlax : T.lax := hk.lax (by simp [hc])
    have hnaming : ∀ scopes, naming site scopes = scopes.lookup? := by simp [naming, hc]
    -- Names handed out before have smaller numbers.
    have hne : ∀ y', UpTo s.names y' → y' ≠ Lowering.fresh x (s.names + 1) := by
      rintro y' ⟨recalled, n, hn, rfl⟩ he
      have := fresh_number he
      omega
    refine ⟨hsupplies, ?_, ?_, ?_, .inr ⟨Tie.not_sharp hlax, x, s.names + 1, ?_⟩, ?_, .inr hlax⟩
    · rw [hnaming]
      exact (lookup?_bind _ _ _ _).trans (if_pos rfl)
    · intro z y' hz hn
      rw [hnaming] at hn
      exact hne y' (hk.names z y' hn)
    · exact fun target ht => hne _ (hk.copy target ht).1
    · exact ⟨Nat.lt_succ_self _, Nat.le_refl _, rfl⟩
    · exact fun high _ => Tie.not_fresh_of_upTo ⟨x, s.names + 1, Nat.le_refl _, rfl⟩

namespace Named

variable {x y : String}

/-- Variables of the two names may be linked. -/
theorem twins (h : Named T site c x y c') (shape : Shape) (value : Val) :
    Twins (¬ T.lax) ⟨x, shape, value⟩ ⟨y, shape, value⟩ :=
  ⟨rfl, rfl, fun hl => h.name.resolve_right hl⟩

/-- Both sides refuse a value that does not fit. -/
theorem refused {α β : Type} (h : Named T site c x y c') (hw : π.Holds T w v) (shape : Shape)
    (value : Val) {Q : World → α → World → β → Prop} :
    Mirrors T.terms (.done w (.error (.failed ⟨.shapeMismatch value.typeName shape x, none, none⟩)))
      (.done v (.error (.failed ⟨.shapeMismatch value.typeName shape y, none, none⟩))) Q
      (KeptError T π) := by
  rcases h.name with rfl | hlax
  · exact .error ⟨⟨rfl, rfl, fun _ => rfl⟩, hw⟩
  · exact .spoiled hlax (.inr ⟨_, rfl, (T.fatal_shape hlax).1⟩)

/-- After the declaration its name is safe, too. -/
theorem onward {unsure' : List String} {i j : Nat} (h : Named T site c x y c')
    (hs : π.Sees (naming site c.scopes) (T.Usable unsure)) (hfind : π'.find x = some i)
    (hfind' : π'.find' y = some j) (hlink : (i, j) ∈ π'.links)
    (hlinks : ∀ p ∈ π.links, p ∈ π'.links) (hsame : ∀ z, z ≠ x → π'.find z = π.find z)
    (hsame' : ∀ z, z ≠ y → π'.find' z = π.find' z)
    (hu : ∀ z ∈ unsure, z ≠ x → z ∈ unsure') : Onward T site c' unsure' π' := by
  refine hs.declare h.self hfind hfind' hlink hlinks hsame
    (fun z y' hz _ hn => hsame' y' (h.apart z y' (notMem_hiddenAhead hz) hn)) fun z hz hok => ?_
  refine ⟨⟨fun hm => hok.1 (hu z hm hz), hok.2⟩, Supplies.naming_eq h.supplies ?_⟩
  simpa using hz

/-- Both sides declare a variable that holds the same value. -/
theorem declare {unsure' : List String} (h : Named T site c x y c') (hw : π.Holds T w v)
    (hfits : π.Fits T site c unsure) (hu : ∀ z ∈ unsure, z ≠ x → z ∈ unsure') (shape : Shape)
    (value : Val) :
    ∃ π', Grows T (T.New site [x] c c') π π' ∧
      π'.Holds T (w.declare ⟨x, shape, value⟩) (v.declare ⟨y, shape, value⟩) ∧
      π'.Fits T site c' unsure' := by
  have hg := hw.grows_declareBoth (x := x) h.new
  refine ⟨_, hg, hw.declareBoth (h.twins shape value), hfits.result, ?_, ?_⟩
  · exact h.onward hfits.sees (search_bind_self _ _ _ _) (search_bind_self _ _ _ _)
      List.mem_cons_self (fun p hp => List.mem_cons_of_mem _ hp)
      (fun z hz => search_bind_ne _ _ _ hz) (fun z hz => search_bind_ne _ _ _ hz) hu
  · have hreceives := hfits.receives
    unfold Pose.Receives at hreceives ⊢
    cases hc : site.copy with
    | none =>
      rw [hc] at hreceives
      exact hreceives
    | some target =>
      rw [hc] at hreceives
      obtain ⟨j, hslot, hfind⟩ := hreceives
      exact ⟨j, hslot, (search_bind_ne _ _ _ (h.receiver target hc)).trans hfind⟩

end Named

section Declarations

variable {span : Span} {s s' : Progress} {code : Block} {inLoop : Bool} {x y : String}

/-- Both sides declare a variable. -/
theorem declare_leads {unsure' : List String} (hst : Standing T site c unsure depth π w v)
    (hn : Named T site c x y c') (hu : ∀ z ∈ unsure, z ≠ x → z ∈ unsure') (shape : Shape)
    (value : Val) {stmt : Stmt} (hspan : T.sharp → stmt.span = span) (block after : List Stmt) :
    Leads T.terms
      ((newVariable World.declare x shape value >>= fun _ => (pure .next : Exec Flow)) w)
      (concluding T.target block after stmt
        (newVariable World.declare y shape value >>= fun _ => (pure .next : Exec Flow)) v)
      (Post T (Closes T span) (T.New site [x] c c') π (Onward T site c' unsure') site block
        after) := by
  have hboth : Mirrors T.terms
      ((newVariable World.declare x shape value >>= fun _ => (pure .next : Exec Flow)) w)
      ((newVariable World.declare y shape value >>= fun _ => (pure .next : Exec Flow)) v)
      (Flows T (T.New site [x] c c') π (Onward T site c' unsure') site) (KeptError T π) := by
    by_cases hfit : shape.accepts value = true
    · rw [newVariable_ok hfit, newVariable_ok hfit]
      obtain ⟨π', hg, hw, hf⟩ := hn.declare hst.holds hst.fits hu shape value
      exact .ok ⟨.next, π', hg, hw, fun _ => hf.result, fun _ => hf.sees⟩
    · rw [newVariable_error hfit, newVariable_error hfit]
      exact hn.refused hst.holds shape value
  refine Leads.ofRest hboth ?_ ?_
  · rintro w flow v flow' ⟨hs, π', g, hw, hr, ho⟩
    exact ⟨_, flow', ⟨hs, π', g, hw.observeTarget false stmt, hr, ho⟩, rfl⟩
  · exact fun w u v u' hc hw => ⟨v, u', ⟨hc.respan hspan, π, .refl π, hw, hst.fits.result⟩, rfl⟩

/-- An optional initial value that is no call is the same on both sides. -/
theorem valueOfOption_steady (hcall : Callable T π)
    (hsees : π.Sees (naming site c.scopes) (T.Usable unsure)) (init : Option Expr)
    (hnot : ∀ e, init = some e → ¬ IsCall e)
    (he : ∀ e, init = some e → ∀ x ∈ e.locals, T.Usable unsure x) :
    Steady T π (valueOfOption T.source.code.program T.source.wary T.source.call init)
      (valueOfOption T.target.code.program T.target.wary T.target.call
        (init.map (render site c.scopes))) := by
  cases init with
  | none => exact .ret _
  | some e => exact valueOf_steady hcall hsees (hnot e rfl) (he e rfl)

/-- A declaration whose initial value is no call. -/
theorem lowerDeclare_passes (hscene : Scene T depth nesting site) (hk : T.Known site s.supply)
    {unsure' : List String} (hu : ∀ z ∈ unsure, z ≠ x → z ∈ unsure') {shape : Shape}
    {init : Option Expr} (hinit : ∀ e, init = some e → ¬ IsCall e)
    (he : ∀ e, init = some e → ∀ x ∈ e.locals, T.Usable unsure x)
    (hemits : Emits (lowerDeclare T.setting (lowerBlock T.setting nesting) site x shape init span) s
      code s') :
    Passes T T.terms (Closes T span) site [x] unsure (Onward T site s'.supply unsure') depth
      s.supply code s'.supply (T.source.execute T.source.callees inLoop
        (.declare x shape init span)) := by
  intro block before after π w v hblock hnodup hdepth hw hfits
  obtain ⟨s₁, y, hs₁, hy, rfl⟩ := emits_lowerDeclare hinit hemits
  rw [← hs₁] at hk hfits ⊢
  have hsteady := valueOfOption_steady (hscene.calls π hdepth) hfits.sees init hinit he
  have hn := hk.named hy
  rw [show s.scopes = s₁.supply.scopes from (congrArg Supply.scopes hs₁).symm]
  refine Leads.bind (hsteady.returned hw hfits.result rfl s₁.names block after) ?_ ?_
  · rintro w value Z ⟨v, π', stmt, hl, hw', hspan, rfl⟩
    have hst : Standing T site s₁.supply unsure depth π' w v :=
      ⟨hk, hl.fits hk hfits, by rw [hl.below]; exact hdepth, hw'⟩
    refine (declare_leads hst hn hu shape value hspan block after).mono fun w r Z hp => ?_
    exact hp.mono ((hl.mono (Nat.le_refl _) hn.supplies.names).grows site [x]) (fun _ hy => hy)
      (fun _ _ h => h) fun _ _ h => h
  · rintro w u Z ⟨v, u', hh, rfl⟩
    exact ⟨v, u', hh.mono (.refl π) (fun _ hy => .inr (hy.mono (Nat.le_refl _) hn.supplies.names))
      id, rfl⟩

/-- A variable of the target whose value is known becomes the partner of a new one of the
source. -/
theorem Grows.adopt {new : String → Prop} {more : List (Nat × Cell)} {i j : Nat}
    (g : Grows T new π π') (hbase : T.base ≤ i) (hi : i ∉ π.links.map (·.1)) :
    Grows T new π { π' with
      links := (i, j) :: π'.links
      pins := more ++ π.pins
      inner := Scope.bind x i π'.inner } :=
  { g with
    links := fun p hp => List.mem_cons_of_mem _ (g.links p hp)
    pins := ⟨more, rfl⟩
    fresh := by
      intro e he
      rcases Scope.mem_bind he with rfl | he
      · exact .inr ⟨hbase, hi⟩
      · exact g.fresh e he }

/-- The target declares a variable before the source does: a name that it hides is of no use
until then. -/
theorem declare_ahead (hst : Standing T site c unsure depth π w v) (hn : Named T site c x y c')
    (block : List Stmt) (shape : Shape) (span : Span) (rest : List Stmt) :
    ∃ v' π' j, Reaches 1 (route T.target block (.declare y shape none span :: rest) v)
        (route T.target block rest v') ∧
      Standing T site ⟨c'.labels, c'.names, c.scopes⟩ (hiddenAhead site x ++ unsure) depth π' w v' ∧
      Grows T (Eq y) π π' ∧ π'.pins = (j, ⟨y, shape, .null⟩) :: π.pins ∧
      π'.find' y = some j := by
  obtain ⟨v', hreach, hw⟩ := route_declare hst.holds block y shape span rest
  have hgrows : Grows T (Eq y) π _ := hst.holds.grows_declarePinned y rfl shape .null
  have hbefore : π.Sees (naming site c.scopes) (T.Usable (hiddenAhead site x ++ unsure)) :=
    hst.fits.sees.mono fun z hz => hz.mono fun _ => List.mem_append_right _
  have hsees := hbefore.grow hgrows rfl fun z y' hz hnz he =>
    hn.apart z y' (fun hm => hz.1 (List.mem_append_left _ hm)) hnz he.symm
  have hreceives := hst.fits.receives.grow hgrows fun target hc he =>
    hn.receiver target hc he.symm
  have hknown : T.Known site ⟨c'.labels, c'.names, c.scopes⟩ :=
    hst.known.later (Supplies.ofScopes hn.supplies.labels hn.supplies.names rfl :
      Supplies site [] c ⟨c'.labels, c'.names, c.scopes⟩)
  refine ⟨v', _, _, hreach, ?_, hgrows, rfl, search_bind_self _ _ _ _⟩
  exact ⟨hknown, ⟨hst.fits.result, hsees, hreceives⟩, hst.depth, hw⟩

/-- The value of a call goes to a variable of the target that was declared ahead of the source. -/
theorem adopt_leads {unsure' : List String} {more : List (Nat × Cell)} {j : Nat}
    {c'' : Supply} (hn : Named T site c x y c') (hu : ∀ z ∈ unsure, z ≠ x → z ∈ unsure')
    {shape : Shape} (value : Val)
    (hsees : π'.Sees (naming site c.scopes) (T.Usable (hiddenAhead site x ++ unsure)))
    (hg : Grows T (T.New site [x] c c'') π π') (hr : π'.result = none)
    (hs : c''.scopes = c'.scopes)
    (hpins : π'.pins = more ++ (j, ⟨y, shape, .null⟩) :: π.pins) (hfind : π'.find' y = some j)
    (hw : π'.Holds T w v) {stmt : Stmt} (hspan : T.sharp → stmt.span = span)
    (block after : List Stmt) :
    Leads T.terms
      ((newVariable World.declare x shape value >>= fun _ => (pure .next : Exec Flow)) w)
      (concluding T.target block after stmt (storing T (some (localVar y span)) value) v)
      (Post T (Closes T span) (T.New site [x] c c'') π (Onward T site c'' unsure') site block
        after) := by
  have hboth : Mirrors T.terms
      ((newVariable World.declare x shape value >>= fun _ => (pure .next : Exec Flow)) w)
      (storing T (some (localVar y span)) value v)
      (Flows T (T.New site [x] c c'') π (Onward T site c'' unsure') site) (KeptError T π') := by
    by_cases hfit : shape.accepts value = true
    · have hkeeps : (⟨y, shape, .null⟩ : Cell).store value = .ok ⟨y, shape, value⟩ := if_pos hfit
      obtain ⟨hstore, hholds⟩ := storeVariable_pinned hw hpins hfind hkeeps
      have hadopted := hholds.declareAdopted rfl (hn.twins shape value)
      have hnot : w.memory.cells.size ∉ π.links.map (·.1) := fun hm =>
        hw.memory.next_notMem (List.map_subset _ hg.links hm)
      rw [newVariable_ok hfit, show storing T (some (localVar y span)) value v = .done _ (.ok .next)
        from Exec.bind_of_ok hstore]
      refine .ok ⟨.next, _, hg.adopt hw.memory.base_le hnot, hadopted, fun _ => hr, fun _ => ?_⟩
      rw [Onward, hs]
      exact hn.onward hsees (search_bind_self _ _ _ _) hfind List.mem_cons_self
        (fun p hp => List.mem_cons_of_mem _ hp) (fun z hz => search_bind_ne _ _ _ hz)
        (fun _ _ => rfl) fun z hz hne =>
          hu z ((List.mem_append.mp hz).resolve_left (notMem_hiddenAhead hne)) hne
    · have hmem : (j, ⟨y, shape, .null⟩) ∈ π'.pins := by rw [hpins]; simp
      obtain ⟨hlookup, hcell⟩ := hw.pinnedCell hfind hmem
      have hstore : storeVariable y false value v =
          .done v (.error (.failed ⟨.shapeMismatch value.typeName shape y, none, none⟩)) := by
        unfold storeVariable
        simp only [hlookup, hcell, Cell.store, Cell.holding, hfit]
        rfl
      rw [newVariable_error hfit, show storing T (some (localVar y span)) value v = _ from
        Exec.bind_of_error hstore]
      exact hn.refused hw shape value
  refine Leads.ofRest hboth ?_ ?_
  · rintro w flow v flow' ⟨hs, π', g, hw, hr, ho⟩
    exact ⟨_, flow', ⟨hs, π', g, hw.observeTarget false stmt, hr, ho⟩, rfl⟩
  · exact fun w u v u' hc hw => ⟨v, u', ⟨hc.respan hspan, π', hg, hw, hr⟩, rfl⟩

/-- A declaration whose initial value is a call: the target declares its variable first. -/
theorem lowerDeclare_call_passes (hscene : Scene T depth nesting site) (hk : T.Known site s.supply)
    (hplain : ¬ T.sharp → Plain x) {unsure' : List String}
    (hu : ∀ z ∈ unsure, z ≠ x → z ∈ unsure') {shape : Shape} {method : String} {args : List Expr}
    {callSpan : Span}
    (hargs : ∀ z ∈ Expr.listLocals args, T.Usable (hiddenAhead site x ++ unsure) z)
    (hemits : Emits (lowerDeclare T.setting (lowerBlock T.setting nesting) site x shape
      (some (.call method args callSpan)) span) s code s') :
    Passes T T.terms (Closes T span) site [x] unsure (Onward T site s'.supply unsure') depth
      s.supply code s'.supply (T.source.execute T.source.callees inLoop
        (.declare x shape (some (.call method args callSpan)) span)) := by
  intro block before after π w v hblock hnodup hdepth hw hfits
  obtain ⟨s₁, y, s₂, call, hs₁, hy, hemit, rfl⟩ := emits_lowerDeclare_call hemits
  rw [show s.scopes = s₁.supply.scopes from (congrArg Supply.scopes hs₁).symm] at hemit
  rw [← hs₁] at hk hfits ⊢
  have hn := hk.named hy
  have hdraws := hscene.draws hemit
  obtain ⟨v₁, π₁, j, hreach, hst₁, hdeclared, hpins, hfind⟩ :=
    declare_ahead ⟨hk, hfits, hdepth, hw⟩ hn block shape span (call ++ after)
  have hgrows₁ : Grows T (T.New site [x] s₁.supply s'.supply) π π₁ := by
    refine hdeclared.mono ?_
    rintro _ rfl
    exact hn.new.mono (fun _ h => h) (Nat.le_refl _) hdraws.names
  have hblock₁ : block = (before ++ [.declare y shape none span]) ++ (call ++ after) := by
    rw [hblock, List.append_assoc, List.singleton_append, List.cons_append]
  refine Leads.after hreach (Leads.bind (hst₁.call hscene rfl hargs hemit hblock₁ hnodup) ?_ ?_)
  · rintro w value Z ⟨v, π₂, stmt, hl, hw₂, hspan, rfl⟩
    obtain ⟨more, hmore⟩ := hl.pins
    rw [hpins] at hmore
    refine adopt_leads hn hu value (hl.sees hst₁.known hst₁.fits.sees) (hgrows₁.trans
      (hl.toGrows.mono fun _ hf => .inr (hf.mono hn.supplies.names (Nat.le_refl _))))
      (hl.result.trans hst₁.fits.result) hdraws.scopes hmore
      ((hl.find'_eq (hn.taken _ hplain)).trans hfind) hw₂ hspan block after
  · rintro w u Z ⟨v, u', hh, rfl⟩
    exact ⟨v, u', hh.mono hgrows₁ (fun _ hf => .inr (hf.mono hn.supplies.names (Nat.le_refl _))) id,
      rfl⟩

end Declarations

section Results

/-- The result of a method goes to both frames. -/
theorem Pose.Holds.setResult (h : π.Holds T w v) (hslot : π.slot = none) (value : Val) :
    Pose.Holds T { π with result := some value }
      { w with stack := w.stack.setResult value } { v with stack := v.stack.setResult value } :=
  { h with
    shares := { h.shares with }
    memory := by
      have hown : ({ π with result := some value } : Pose).own = π.own := by
        simp only [Pose.own, Pose.held, hslot]
      rw [hown]
      exact h.memory
    source := h.source.setResult value
    target := by
      have hanswer : ({ π with result := some value } : Pose).answer = some value := by
        simp only [Pose.answer, hslot]
      rw [hanswer]
      exact h.target.setResult value }

/-- The result of a method goes to the frame of the source; the slot holds it already. -/
theorem Pose.Holds.noteResult (h : π.Holds T w v) {name : String} {j : Nat} {value : Val}
    (hslot : π.slot = some (name, j)) (hvalue : π.result.getD .null = value) :
    Pose.Holds T { π with result := some value } { w with stack := w.stack.setResult value } v :=
  { h with
    shares := { h.shares with }
    memory := by
      have hown : ({ π with result := some value } : Pose).own = π.own := by
        simp only [Pose.own, Pose.held, hslot, hvalue, Option.getD_some]
      rw [hown]
      exact h.memory
    source := h.source.setResult value
    target := by
      have hanswer : ({ π with result := some value } : Pose).answer = π.answer := by
        simp only [Pose.answer, hslot]
      rw [hanswer]
      exact h.target }

/-- The result of a method goes to the frame of the source and to the slot. -/
theorem Pose.Holds.storeResult (h : π.Holds T w v) {name : String} {j : Nat}
    (hslot : π.slot = some (name, j)) (value : Val) :
    Pose.Holds T { π with result := some value } { w with stack := w.stack.setResult value }
      { v with memory := v.memory.setCell j ⟨name, .dynamic, value⟩ } :=
  { h with
    shares := { h.shares with }
    memory := by
      have hown : π.own = π.pins ++ (j, ⟨name, .dynamic, π.result.getD .null⟩) :: [] := by
        simp only [Pose.own, Pose.held, hslot]
      have hown' : ({ π with result := some value } : Pose).own =
          π.pins ++ (j, ⟨name, .dynamic, value⟩) :: [] := by
        simp only [Pose.own, Pose.held, hslot, Option.getD_some]
      rw [hown']
      exact h.memory.storeOwned hown ⟨name, .dynamic, value⟩
    source := h.source.setResult value
    target := by
      have hanswer : ({ π with result := some value } : Pose).answer = π.answer := by
        simp only [Pose.answer, hslot]
      rw [hanswer]
      exact h.target }

/-- What the target finds in the slot. -/
theorem Pose.Holds.slotCell (h : π.Holds T w v) {name : String} {j : Nat}
    (hslot : π.slot = some (name, j)) (hfind : π.find' name = some j) (hr : π.result = none) :
    v.lookup? name false = some j ∧ v.memory.cell j = ⟨name, .dynamic, .null⟩ := by
  have hlookup : v.stack.lookup? name = π.find' name := h.target.lookup name
  refine ⟨by simp [World.lookup?, hlookup, hfind], ?_⟩
  refine (h.memory.owned j ⟨name, .dynamic, .null⟩ ?_).2.2
  simp only [Pose.own, Pose.held, hslot, hr, Option.getD_none]
  exact List.mem_append_right _ (List.mem_singleton_self _)

/-- What the source does with a returned value. -/
def giving (value : Val) : Exec Flow := do
  Exec.change fun w => { w with stack := w.stack.setResult value }
  pure .leaveMethod

variable {span : Span} {s s' : Progress} {code : Block} {inLoop : Bool} {next : Pose → Prop}
  {spilled : List String}

/-- A value that is found later is found. -/
theorem Returned.later {α : Type} {low mid high : Nat} {block after : List Stmt}
    {use : α → Exec Flow} {r : Except Unwind α} {Z : Nat → Run Flow} (hl : Later T low mid π π')
    (h : Returned T mid high π' block after use span w r Z) (hh : mid ≤ high) :
    Returned T low high π block after use span w r Z := by
  cases r with
  | ok value =>
    obtain ⟨v, π'', stmt, hl', hw, hspan, hz⟩ := h
    exact ⟨v, π'', stmt, hl.trans hl', hw, hspan, hz⟩
  | error u =>
    obtain ⟨v, u', hhalts, hz⟩ := h
    exact ⟨v, u', hhalts.mono (hl.mono (Nat.le_refl _) hh).toGrows
      (fun _ hy => hy.mono hl.bounds (Nat.le_refl _)) id, hz⟩

/-- Control leaves the method on both sides. -/
theorem Later.leave {value : Val} (hl : Later T c.names c'.names π π')
    (hw : Pose.Holds T { π' with result := some value } w v) :
    Flows T (T.New site spilled c c') π next site w .leaveMethod v (leaving site) :=
  ⟨.leaveMethod, _, (hl.grows site spilled).withResult _, hw, fun h => absurd rfl h,
    fun h => absurd rfl h⟩

/-- Inside a copy a returned value goes to the receiver, and control to the end of the copy. -/
theorem receive_leads {target : Lowering.Target} (hc : site.copy = some target) {value : Val}
    {stmt : Stmt} (hl : Later T c.names c'.names π π') (hr : π'.result = none)
    (hreceives : π'.Receives site) (hw : π'.Holds T w v) (block after : List Stmt) :
    Leads T.terms (giving value w) (concluding T.target block
        (.goto target.endLabel span :: after) stmt
        (storing T (some (localVar target.receiver span)) value) v)
      (Post T (Closes T span) (T.New site spilled c c') π next site block after) := by
  rw [Pose.Receives, hc] at hreceives
  obtain ⟨j, hslot, hfind⟩ := hreceives
  obtain ⟨hlookup, hcell⟩ := hw.slotCell hslot hfind hr
  have hstore : storeVariable target.receiver false value v =
      .done { v with memory := v.memory.setCell j ⟨target.receiver, .dynamic, value⟩ }
        (.ok ()) := by
    unfold storeVariable
    simp only [hlookup, hcell]
    rfl
  have hstoring : storing T (some (localVar target.receiver span)) value v = .done _ (.ok .next) :=
    Exec.bind_of_ok hstore
  have hwr := (hw.storeResult hslot value).observeTarget false stmt
  rw [concluding_ok hstoring]
  obtain ⟨v', hreach, hwj⟩ := hwr.passJump block target.endLabel span after
  refine Leads.after hreach (.done ⟨v', leaving site, hl.leave hwj, ?_⟩)
  rw [leaving, hc]

/-- A returned expression, up to the point where the target uses its value. -/
theorem Standing.hoisted (hscene : Scene T depth nesting site) {e e' : Expr}
    (hst : Standing T site s.supply unsure depth π w v) (he : ∀ x ∈ e.locals, T.Usable unsure x)
    (hsettles : T.settles e) {stmt : Stmt} (hspan : stmt.span = span) {use : Val → Exec Flow}
    (hexec : T.target.execute T.target.callees false stmt =
      (eval T.target.code.program T.target.call e' >>= use))
    (hemits : Emits (hoist T.setting (lowerBlock T.setting nesting) site e) s (code, e') s')
    {block before after : List Stmt} (hblock : block = before ++ (code ++ stmt :: after))
    (hnodup : (Block.labels block).Nodup) :
    Leads T.terms (T.source.returned T.source.call e w)
      (route T.target block (code ++ stmt :: after) v)
      (Returned T s.names s'.names π block after use span) := by
  rw [T.source_returned _ _ hsettles]
  refine hoist_moves hscene hnodup e hemits he (fun hs => T.sharp_settles hs e hsettles)
    hblock hst ?_ fun w u v u' hh => ⟨v, u', hh, rfl⟩
  intro a w v π' hl hst' hstable
  have hfound := (hstable s'.names π' (.refl _ π')).returned hst'.holds hst'.fits.result hexec
    s'.names block after
  rw [hspan] at hfound
  exact hfound.mono fun w r Z hr => hr.later hl (Nat.le_refl _)

/-- A call whose arguments have no calls in them is made at once. -/
theorem settled_call {p : Program} {wary : Bool} {call : Caller} {method : String}
    {args : List Expr} (h : Expr.listCallFree p args = true) (callSpan : Span) :
    settled p wary call (.call method args callSpan) =
      valueOf p wary call (.call method args callSpan) := by
  simp only [settled, settle, settleList_eq_of_callFree _ args _ h, valueOf, calling]
  cases hm : p.method? method with
  | none => rfl
  | some callee =>
    cases ha : callee.isAsync with
    | true => simp only [ha, if_true]
    | false =>
      simp only [ha, callOrSpawn, Bool.false_eq_true, if_false]
      exact congrArg (evalFor p call _ args >>= ·) (funext fun values => Exec.bind_pure _)

/-- A return without a value. -/
theorem lowerReturn_none_passes {splice : Splice}
    (hemits : Emits (lowerReturn T.setting splice site none span) s code s') :
    Passes T T.terms (Closes T span) site spilled unsure next depth s.supply code s'.supply
      (T.source.execute T.source.callees inLoop (.ret none span)) := by
  intro block before after π w v hblock hnodup hdepth hw hfits
  have hreceives := hfits.receives
  rw [Pose.Receives] at hreceives
  obtain ⟨rfl, ⟨hc, rfl⟩ | ⟨target, hc, rfl⟩⟩ := emits_lowerReturn_none hemits
  · rw [hc] at hreceives
    have hstep : T.target.step T.target.callees false (.ret none span) v =
      .done _ (.ok .leaveMethod) := step_ok hw.gate' rfl
    have hwr := ((hw.arriveTarget (.ret none span)).setResult hreceives .null).observeTarget false
      (.ret none span)
    have hleave : leaving site = .leaveMethod := by rw [leaving, hc]
    refine Leads.after (route_step hstep) (.done ⟨_, leaving site, (Later.refl _ π).leave hwr, ?_⟩)
    exact congrArg (land T.target block after · _) hleave.symm
  · rw [hc] at hreceives
    obtain ⟨j, hslot, -⟩ := hreceives
    have hnoted : Pose.Holds T { π with result := some .null } _ v :=
      hw.noteResult hslot (by rw [hfits.result]; rfl)
    obtain ⟨v', hreach, hw'⟩ := hnoted.passJump block target.endLabel span after
    refine Leads.after hreach (.done ⟨v', leaving site, (Later.refl _ π).leave hw', ?_⟩)
    rw [leaving, hc]

/-- The return of a value. -/
theorem lowerReturned_passes (hscene : Scene T depth nesting site) (hk : T.Known site s.supply)
    {e : Expr} (he : ∀ x ∈ e.locals, T.Usable unsure x) (hsettles : T.settles e)
    (hemits : Emits (lowerReturned T.setting (lowerBlock T.setting nesting) site e span) s code
      s') :
    Passes T T.terms (Closes T span) site spilled unsure next depth s.supply code s'.supply
      (T.source.execute T.source.callees inLoop (.ret (some e) span)) := by
  intro block before after π w v hblock hnodup hdepth hw hfits
  have hst : Standing T site s.supply unsure depth π w v := ⟨hk, hfits, hdepth, hw⟩
  have hexec : T.source.execute T.source.callees inLoop (.ret (some e) span) =
      (T.source.returned T.source.call e >>= giving) := rfl
  rw [hexec]
  cases hc : site.copy with
  | none =>
    obtain ⟨first, e', hemit, rfl⟩ := emits_lowerReturned_top hc hemits
    rw [List.append_assoc, List.singleton_append] at hblock ⊢
    have htarget : T.target.execute T.target.callees false (.ret (some e') span) =
        (eval T.target.code.program T.target.call e' >>= giving) := by
      rw [← T.target_returned]
      rfl
    have hslot := hfits.receives
    rw [Pose.Receives, hc] at hslot
    refine Leads.bind (hst.hoisted hscene he hsettles rfl htarget hemit hblock hnodup) ?_ ?_
    · rintro w value Z ⟨v, π', stmt, hl, hw', -, rfl⟩
      rw [concluding_ok (rfl : giving value v = .done _ (.ok .leaveMethod))]
      refine .done ⟨_, leaving site, hl.leave ((hw'.setResult (hl.slot.trans hslot)
        value).observeTarget false stmt), ?_⟩
      rw [leaving, hc]
    · rintro w u Z ⟨v, u', hh, rfl⟩
      exact ⟨v, u', Standing.halts hh, rfl⟩
  | some target =>
    obtain ⟨method, args, callSpan, call, rfl, hemit, rfl⟩ | ⟨-, first, e', hemit, rfl⟩ :=
      emits_lowerReturned_copy hc hemits
    · obtain ⟨s₁, hs₁, hemit⟩ := emits_lowerCall hemit
      rw [List.append_assoc, List.singleton_append] at hblock ⊢
      rw [Expr.locals] at he
      have hlead := hst.call hscene (congrArg Supply.names hs₁) he hemit hblock hnodup
      rw [T.source_returned _ _ hsettles, settled_call (T.lax_settles (hk.lax (by simp [hc])) _ _ _
        hsettles), ← T.source_program]
      refine Leads.bind hlead ?_ ?_
      · rintro w value Z ⟨v, π', stmt, hl, hw', -, rfl⟩
        have hfits' := hl.fits hk hfits
        exact receive_leads hc hl hfits'.result hfits'.receives hw' block after
      · rintro w u Z ⟨v, u', hh, rfl⟩
        exact ⟨v, u', Standing.halts hh, rfl⟩
    · rw [List.append_assoc, List.cons_append, List.singleton_append] at hblock ⊢
      have htarget : T.target.execute T.target.callees false
          (.assign (localVar target.receiver span) e' span) =
          (eval T.target.code.program T.target.call e' >>=
            storing T (some (localVar target.receiver span))) := by
        rw [← valueOf_false, ← Tie.target_wary_of_lax (hk.lax (by simp [hc]))]
        rfl
      refine Leads.bind (hst.hoisted hscene he hsettles rfl htarget hemit hblock hnodup) ?_ ?_
      · rintro w value Z ⟨v, π', stmt, hl, hw', -, rfl⟩
        have hfits' := hl.fits hk hfits
        exact receive_leads hc hl hfits'.result hfits'.receives hw' block after
      · rintro w u Z ⟨v, u', hh, rfl⟩
        exact ⟨v, u', Standing.halts hh, rfl⟩

end Results

end Stepwise.Simulation
