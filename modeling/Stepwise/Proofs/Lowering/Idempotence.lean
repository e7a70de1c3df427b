import Stepwise.Proofs.Lowering.Wellformed

/-!
# Lowering jump code again

Without copies, what lowering gives out has a final form: no conditions and
loops, no declarations that start with a call, and no calls left in a returned
value that could be moved in front of it. Lowering leaves statements in that
form as they are and uses up neither labels nor names. So lowering a program
twice is lowering it once, even if the mark of lowered programs is taken away
in between.
-/

namespace Stepwise

mutual

/-- No synchronous call is left to be moved in front of the expression. What
stands to the right of a short-circuit operator is never moved. -/
def Expr.isHoisted (isSync : String → Bool) : Expr → Bool
  | .literal .. | .var .. | .staticProperty .. => true
  | .property object _ _ => object.isHoisted isSync
  | .index target position _ => target.isHoisted isSync && position.isHoisted isSync
  | .binary op left right _ =>
    left.isHoisted isSync && (op.isShortCircuit || right.isHoisted isSync)
  | .unary _ operand _ => operand.isHoisted isSync
  | .call method args _ => !isSync method && Expr.listHoisted isSync args
  | .callStatic _ _ args _ => Expr.listHoisted isSync args
  | .callOn object _ args _ => Expr.listHoisted isSync args && object.isHoisted isSync
  | .create _ args _ => Expr.listHoisted isSync args
  | .array items _ => Expr.listHoisted isSync items

/-- No synchronous call is left to be moved in front of the expressions. -/
def Expr.listHoisted (isSync : String → Bool) : List Expr → Bool
  | [] => true
  | e :: rest => e.isHoisted isSync && Expr.listHoisted isSync rest

end

/-- Statements that no rule of lowering rewrites outside of loops and copies. -/
def Stmt.isFinal (isSync : String → Bool) : Stmt → Bool
  | .declare _ _ (some (.call ..)) _ => false
  | .cond .. | .loop .. => false
  | .ret (some value) _ => value.isHoisted isSync
  | _ => true

namespace Lowering

/-- All statements of a block, at any depth, are in final form. -/
abbrev Final (setting : Setting) (code : Block) : Prop :=
  Stmt.everyAll (·.isFinal (isSynchronous setting) = true) code

variable {setting : Setting} {splice : Splice} {site : Site} {s s' : Progress}

theorem final_cons {stmt : Stmt} {rest : Block} (hblocks : stmt.blocks = [])
    (hstmt : stmt.isFinal (isSynchronous setting) = true) (hrest : Final setting rest) :
    Final setting (stmt :: rest) :=
  (Stmt.everyAll_leaf hblocks).mpr ⟨hstmt, hrest⟩

theorem final_one {stmt : Stmt} (hblocks : stmt.blocks = [])
    (hstmt : stmt.isFinal (isSynchronous setting) = true) : Final setting [stmt] :=
  final_cons hblocks hstmt Stmt.everyAll_nil

theorem final_append {a b : Block} (ha : Final setting a) (hb : Final setting b) :
    Final setting (a ++ b) :=
  Stmt.everyAll_append.mpr ⟨ha, hb⟩

section Reaching

/-! ### Without copies, code is given out in final form -/

/-- A call stays a call where copies are not wanted. -/
theorem emitCall_kept (hinline : setting.options.inline = false) {name : String}
    {args : List Expr} {dest : Option Expr} {callSpan span : Span} {code : Block}
    (h : Emits (emitCall setting splice site name args dest callSpan span) s code s') :
    code = keptCall name args dest callSpan span ∧ s'.supply = s.supply := by
  rcases emits_emitCall h with hkept | ⟨callee, hcallee, -⟩
  · exact hkept
  · have := hcallee.inline
    rw [hinline] at this
    cases this

/-- A call by itself or with a destination is in final form. -/
theorem final_keptCall (name : String) (args : List Expr) (dest : Option Expr)
    (callSpan span : Span) : Final setting (keptCall name args dest callSpan span) := by
  cases dest <;> exact final_one rfl rfl

/-- Outside of copies expressions stay as they are. -/
theorem render_top (hcopy : site.copy = none) (scopes : Renaming) (e : Expr) :
    render site scopes e = e := by
  rw [render, hcopy]
  rfl

theorem renderList_top (hcopy : site.copy = none) (scopes : Renaming) (es : List Expr) :
    renderList site scopes es = es := by
  rw [renderList, hcopy]
  rfl

mutual

/-- Hoisting gives statements in final form and leaves no call to hoist. -/
theorem hoist_final (hinline : setting.options.inline = false) :
    ∀ (e : Expr) {s s' : Progress} {before : Block} {e' : Expr},
      Emits (hoist setting splice site e) s (before, e') s' →
      Final setting before ∧ e'.isHoisted (isSynchronous setting) = true
  | .call method args span, s, s', before, e', h => by
    obtain ⟨b, as, s₁, hargs, hcall⟩ := emits_hoist_call h
    obtain ⟨hb, has⟩ := hoistList_final hinline args hargs
    rcases hcall with ⟨-, code, hcode, rfl, rfl⟩ | ⟨hasync, -, rfl, rfl⟩
    · obtain ⟨rfl, -⟩ := emitCall_kept hinline hcode
      refine ⟨final_append hb (final_cons rfl rfl ?_), ?_⟩
      · exact final_keptCall method as _ span span
      · rw [localVar, Expr.isHoisted]
    · refine ⟨hb, ?_⟩
      rw [Expr.isHoisted, hasync, has]
      rfl
  | .callStatic typeName method args span, s, s', before, e', h => by
    rw [hoist] at h
    obtain ⟨as, hargs, rfl⟩ := emits_hoist_list (.callStatic typeName method · span) h
    rw [Expr.isHoisted]
    exact hoistList_final hinline args hargs
  | .callOn object method args span, s, s', before, e', h => by
    obtain ⟨b₁, as, s₁, b₂, o, hargs, hobject, rfl, rfl⟩ := emits_hoist_callOn h
    obtain ⟨hb₁, has⟩ := hoistList_final hinline args hargs
    obtain ⟨hb₂, ho⟩ := hoist_final hinline object hobject
    rw [Expr.isHoisted, has, ho]
    exact ⟨final_append hb₁ hb₂, rfl⟩
  | .binary op left right span, s, s', before, e', h => by
    obtain ⟨b₁, a₁, s₁, hleft, hright⟩ := emits_hoist_binary h
    obtain ⟨hb₁, ha₁⟩ := hoist_final hinline left hleft
    rcases hright with ⟨hop, -, rfl, rfl⟩ | ⟨-, b₂, a₂, hright, rfl, rfl⟩
    · rw [Expr.isHoisted, ha₁, hop]
      exact ⟨hb₁, rfl⟩
    · obtain ⟨hb₂, ha₂⟩ := hoist_final hinline right hright
      rw [Expr.isHoisted, ha₁, ha₂, Bool.or_true]
      exact ⟨final_append hb₁ hb₂, rfl⟩
  | .unary op operand span, s, s', before, e', h => by
    rw [hoist] at h
    obtain ⟨a, ha, rfl⟩ := emits_hoist_one (.unary op · span) h
    rw [Expr.isHoisted]
    exact hoist_final hinline operand ha
  | .index target position span, s, s', before, e', h => by
    rw [hoist] at h
    obtain ⟨b₁, a₁, s₁, b₂, a₂, htarget, hposition, rfl, rfl⟩ :=
      emits_hoist_two (.index · · span) h
    obtain ⟨hb₁, ha₁⟩ := hoist_final hinline target htarget
    obtain ⟨hb₂, ha₂⟩ := hoist_final hinline position hposition
    rw [Expr.isHoisted, ha₁, ha₂]
    exact ⟨final_append hb₁ hb₂, rfl⟩
  | .property object name span, s, s', before, e', h => by
    rw [hoist] at h
    obtain ⟨a, ha, rfl⟩ := emits_hoist_one (.property · name span) h
    rw [Expr.isHoisted]
    exact hoist_final hinline object ha
  | .create typeName args span, s, s', before, e', h => by
    rw [hoist] at h
    obtain ⟨as, hargs, rfl⟩ := emits_hoist_list (.create typeName · span) h
    rw [Expr.isHoisted]
    exact hoistList_final hinline args hargs
  | .array items span, s, s', before, e', h => by
    rw [hoist] at h
    obtain ⟨as, hargs, rfl⟩ := emits_hoist_list (.array · span) h
    rw [Expr.isHoisted]
    exact hoistList_final hinline items hargs
  | .literal value span, s, s', before, e', h => by
    rw [hoist] at h
    obtain ⟨rfl, rfl, -⟩ := emits_hoist_leaf h
    rw [render_literal, Expr.isHoisted]
    exact ⟨Stmt.everyAll_nil, rfl⟩
  | .var name isGlobal span, s, s', before, e', h => by
    rw [hoist] at h
    obtain ⟨rfl, rfl, -⟩ := emits_hoist_leaf h
    rw [render_var, Expr.isHoisted]
    exact ⟨Stmt.everyAll_nil, rfl⟩
  | .staticProperty typeName name span, s, s', before, e', h => by
    rw [hoist] at h
    obtain ⟨hpair, -⟩ := emits_pure.mp h
    cases hpair
    rw [Expr.isHoisted]
    exact ⟨Stmt.everyAll_nil, rfl⟩

theorem hoistList_final (hinline : setting.options.inline = false) :
    ∀ (es : List Expr) {s s' : Progress} {before : Block} {es' : List Expr},
      Emits (hoistList setting splice site es) s (before, es') s' →
      Final setting before ∧ Expr.listHoisted (isSynchronous setting) es' = true
  | [], s, s', before, es', h => by
    rw [hoistList] at h
    obtain ⟨hpair, -⟩ := emits_pure.mp h
    cases hpair
    rw [Expr.listHoisted]
    exact ⟨Stmt.everyAll_nil, rfl⟩
  | e :: rest, s, s', before, es', h => by
    obtain ⟨b₁, a, s₁, b₂, as, hfirst, hrest, rfl, rfl⟩ := emits_hoistList_cons h
    obtain ⟨hb₁, ha⟩ := hoist_final hinline e hfirst
    obtain ⟨hb₂, has⟩ := hoistList_final hinline rest hrest
    rw [Expr.listHoisted, ha, has]
    exact ⟨final_append hb₁ hb₂, rfl⟩

end

/-- A declaration outside of copies keeps its name; a call as initial value is
assigned behind it. -/
theorem lowerDeclare_final (hinline : setting.options.inline = false) (hcopy : site.copy = none)
    {name : String} {shape : Shape} {init : Option Expr} {span : Span} {code : Block}
    (h : Emits (lowerDeclare setting splice site name shape init span) s code s') :
    Final setting code := by
  by_cases hcall : ∃ e, init = some e ∧ IsCall e
  · obtain ⟨_, rfl, method, args, callSpan, rfl⟩ := hcall
    obtain ⟨s₁, y, s₂, call, -, -, hemit, rfl⟩ := emits_lowerDeclare_call h
    obtain ⟨rfl, -⟩ := emitCall_kept hinline hemit
    exact final_cons rfl rfl (final_keptCall _ _ _ _ _)
  · have hnone : ∀ e, init = some e → ¬ IsCall e := fun e he hc => hcall ⟨e, he, hc⟩
    obtain ⟨s₁, y, -, -, rfl⟩ := emits_lowerDeclare hnone h
    refine final_one rfl ?_
    cases init with
    | none => rfl
    | some e =>
      rw [Option.map_some, render_top hcopy]
      cases e with
      | call method args callSpan => exact absurd ⟨method, args, callSpan, rfl⟩ (hnone _ rfl)
      | _ => rfl

theorem lowerReturn_final (hinline : setting.options.inline = false) (hcopy : site.copy = none)
    {value : Option Expr} {span : Span} {code : Block}
    (h : Emits (lowerReturn setting splice site value span) s code s') : Final setting code := by
  cases value with
  | none =>
    rw [lowerReturn, hcopy] at h
    obtain ⟨rfl, -⟩ := emits_pure.mp h
    exact final_one rfl rfl
  | some value =>
    obtain ⟨before, e', hhoist, rfl⟩ := emits_lowerReturned_top hcopy h
    obtain ⟨hbefore, he'⟩ := hoist_final hinline value hhoist
    exact final_append hbefore (final_one rfl he')

mutual

/-- Without copies a statement is lowered to statements in final form. -/
theorem lowerStmt_final (hinline : setting.options.inline = false) :
    ∀ (stmt : Stmt) {site : Site} {s s' : Progress} {code : Block}, site.copy = none →
      Emits (lowerStmt setting splice site stmt) s code s' → Final setting code
  | .declare name shape init span, site, s, s', code, hcopy, h => by
    rw [lowerStmt] at h
    exact lowerDeclare_final hinline hcopy h
  | .assign target value span, site, s, s', code, hcopy, h => by
    rw [lowerStmt] at h
    by_cases hcall : IsCall value
    · obtain ⟨method, args, callSpan, rfl⟩ := hcall
      obtain ⟨s₁, -, hemit⟩ := emits_lowerAssign_call h
      obtain ⟨rfl, -⟩ := emitCall_kept hinline hemit
      exact final_keptCall _ _ _ _ _
    · obtain ⟨-, rfl⟩ := emits_lowerAssign hcall h
      exact final_one rfl rfl
  | .eval e span, site, s, s', code, hcopy, h => by
    rw [lowerStmt] at h
    by_cases hcall : IsCall e
    · obtain ⟨method, args, callSpan, rfl⟩ := hcall
      rw [lowerEval] at h
      obtain ⟨s₁, -, hemit⟩ := emits_lowerCall h
      obtain ⟨rfl, -⟩ := emitCall_kept hinline hemit
      exact final_keptCall _ _ _ _ _
    · obtain ⟨-, rfl⟩ := emits_lowerEval hcall h
      exact final_one rfl rfl
  | .cond test yes none span, site, s, s', code, hcopy, h => by
    obtain ⟨s₁, yes', -, hyes, rfl⟩ := emits_cond_none h
    have hfinal := lowerStmts_final hinline yes hcopy hyes
    exact final_cons rfl rfl (final_append hfinal (final_one rfl rfl))
  | .cond test yes (some no) span, site, s, s', code, hcopy, h => by
    obtain ⟨s₁, yes', s₂, no', -, hyes, hno, rfl⟩ := emits_cond_some h
    have hfinal := lowerStmts_final hinline yes hcopy hyes
    have hfinal' := lowerStmts_final hinline no hcopy hno
    refine final_append (final_append ?_ ?_) ?_
    · exact final_cons rfl rfl hfinal
    · exact final_cons rfl rfl (final_cons rfl rfl hfinal')
    · exact final_one rfl rfl
  | .loop .testFirst test body span, site, s, s', code, hcopy, h => by
    obtain ⟨s₁, body', -, hbody, rfl⟩ := emits_loop_first h
    have hinside : (site.insideLoop (Label.name (s.labels + 1))).copy = none := hcopy
    have hfinal := lowerStmts_final hinline body hinside hbody
    refine final_append ?_ ?_
    · exact final_cons rfl rfl (final_cons rfl rfl hfinal)
    · exact final_cons rfl rfl (final_one rfl rfl)
  | .loop .testLast test body span, site, s, s', code, hcopy, h => by
    obtain ⟨s₁, body', s₂, -, hbody, -, rfl⟩ := emits_loop_last h
    have hinside : (site.insideLoop (Label.name (s.labels + 1))).copy = none := hcopy
    have hfinal := lowerStmts_final hinline body hinside hbody
    refine final_append (final_cons rfl rfl hfinal) ?_
    exact final_cons rfl rfl (final_cons rfl rfl (final_one rfl rfl))
  | .brk span, site, s, s', code, hcopy, h => by
    obtain ⟨-, rfl⟩ := emits_brk h
    cases site.loopEnds <;> exact final_one rfl rfl
  | .ret value span, site, s, s', code, hcopy, h => by
    rw [lowerStmt] at h
    exact lowerReturn_final hinline hcopy h
  | .throw value span, site, s, s', code, hcopy, h => by
    obtain ⟨-, rfl⟩ := emits_throw h
    exact final_one rfl rfl
  | .attempt body catchVar handler span, site, s, s', code, hcopy, h => by
    obtain ⟨body', s₁, catchVar', s₂, handler', s₃, hbody, -, hhandler, -, rfl⟩ :=
      emits_attempt h
    exact Stmt.everyAll_attempt rfl (lowerStmts_final hinline body hcopy hbody)
      (lowerStmts_final hinline handler hcopy hhandler)
  | .branch test target span, site, s, s', code, hcopy, h => by
    rw [lowerStmt] at h
    obtain ⟨rfl, -⟩ := emits_pure.mp h
    exact final_one rfl rfl
  | .label name span, site, s, s', code, hcopy, h => by
    rw [lowerStmt] at h
    obtain ⟨rfl, -⟩ := emits_pure.mp h
    exact final_one rfl rfl
  | .goto target span, site, s, s', code, hcopy, h => by
    rw [lowerStmt] at h
    obtain ⟨rfl, -⟩ := emits_pure.mp h
    exact final_one rfl rfl

theorem lowerStmts_final (hinline : setting.options.inline = false) :
    ∀ (block : List Stmt) {site : Site} {after : Option Span} {s s' : Progress} {code : Block},
      site.copy = none → Emits (lowerStmts setting splice site after block) s code s' →
      Final setting code
  | [], site, after, s, s', code, hcopy, h => by
    rw [lowerStmts] at h
    obtain ⟨rfl, -⟩ := emits_pure.mp h
    exact Stmt.everyAll_nil
  | stmt :: rest, site, after, s, s', code, hcopy, h => by
    obtain ⟨s₁, first, s₂, others, -, hfirst, hrest, rfl⟩ := emits_lowerStmts_cons h
    exact final_append (lowerStmt_final hinline stmt hcopy hfirst)
      (lowerStmts_final hinline rest hcopy hrest)

end

end Reaching

section Resting

/-! ### Code in final form stays as it is -/

mutual

/-- Where no call is left to hoist, nothing is hoisted. -/
theorem hoist_rests (hcopy : site.copy = none) :
    ∀ (e : Expr) {s s' : Progress} {before : Block} {e' : Expr},
      e.isHoisted (isSynchronous setting) = true →
      Emits (hoist setting splice site e) s (before, e') s' →
      before = [] ∧ e' = e ∧ s'.supply = s.supply
  | .call method args span, s, s', before, e', hfinal, h => by
    rw [Expr.isHoisted, Bool.and_eq_true, Bool.not_eq_true'] at hfinal
    obtain ⟨b, as, s₁, hargs, hcall⟩ := emits_hoist_call h
    obtain ⟨rfl, rfl, hs₁⟩ := hoistList_rests hcopy args hfinal.2 hargs
    rcases hcall with ⟨hsync, -⟩ | ⟨-, hs', rfl, rfl⟩
    · rw [hfinal.1] at hsync
      cases hsync
    · exact ⟨rfl, rfl, hs'.trans hs₁⟩
  | .callStatic typeName method args span, s, s', before, e', hfinal, h => by
    rw [Expr.isHoisted] at hfinal
    rw [hoist] at h
    obtain ⟨as, hargs, rfl⟩ := emits_hoist_list (.callStatic typeName method · span) h
    obtain ⟨rfl, rfl, hs⟩ := hoistList_rests hcopy args hfinal hargs
    exact ⟨rfl, rfl, hs⟩
  | .callOn object method args span, s, s', before, e', hfinal, h => by
    rw [Expr.isHoisted, Bool.and_eq_true] at hfinal
    obtain ⟨b₁, as, s₁, b₂, o, hargs, hobject, rfl, rfl⟩ := emits_hoist_callOn h
    obtain ⟨rfl, rfl, hs₁⟩ := hoistList_rests hcopy args hfinal.1 hargs
    obtain ⟨rfl, rfl, hs₂⟩ := hoist_rests hcopy object hfinal.2 hobject
    exact ⟨rfl, rfl, hs₂.trans hs₁⟩
  | .binary op left right span, s, s', before, e', hfinal, h => by
    rw [Expr.isHoisted, Bool.and_eq_true, Bool.or_eq_true] at hfinal
    obtain ⟨b₁, a₁, s₁, hleft, hright⟩ := emits_hoist_binary h
    obtain ⟨rfl, rfl, hs₁⟩ := hoist_rests hcopy left hfinal.1 hleft
    rcases hright with ⟨-, hs', rfl, rfl⟩ | ⟨hop, b₂, a₂, hright, rfl, rfl⟩
    · rw [render_top hcopy]
      exact ⟨rfl, rfl, hs'.trans hs₁⟩
    · have hmoved := hfinal.2.resolve_left (by rw [hop]; exact Bool.false_ne_true)
      obtain ⟨rfl, rfl, hs₂⟩ := hoist_rests hcopy right hmoved hright
      exact ⟨rfl, rfl, hs₂.trans hs₁⟩
  | .unary op operand span, s, s', before, e', hfinal, h => by
    rw [Expr.isHoisted] at hfinal
    rw [hoist] at h
    obtain ⟨a, ha, rfl⟩ := emits_hoist_one (.unary op · span) h
    obtain ⟨rfl, rfl, hs⟩ := hoist_rests hcopy operand hfinal ha
    exact ⟨rfl, rfl, hs⟩
  | .index target position span, s, s', before, e', hfinal, h => by
    rw [Expr.isHoisted, Bool.and_eq_true] at hfinal
    rw [hoist] at h
    obtain ⟨b₁, a₁, s₁, b₂, a₂, htarget, hposition, rfl, rfl⟩ :=
      emits_hoist_two (.index · · span) h
    obtain ⟨rfl, rfl, hs₁⟩ := hoist_rests hcopy target hfinal.1 htarget
    obtain ⟨rfl, rfl, hs₂⟩ := hoist_rests hcopy position hfinal.2 hposition
    exact ⟨rfl, rfl, hs₂.trans hs₁⟩
  | .property object name span, s, s', before, e', hfinal, h => by
    rw [Expr.isHoisted] at hfinal
    rw [hoist] at h
    obtain ⟨a, ha, rfl⟩ := emits_hoist_one (.property · name span) h
    obtain ⟨rfl, rfl, hs⟩ := hoist_rests hcopy object hfinal ha
    exact ⟨rfl, rfl, hs⟩
  | .create typeName args span, s, s', before, e', hfinal, h => by
    rw [Expr.isHoisted] at hfinal
    rw [hoist] at h
    obtain ⟨as, hargs, rfl⟩ := emits_hoist_list (.create typeName · span) h
    obtain ⟨rfl, rfl, hs⟩ := hoistList_rests hcopy args hfinal hargs
    exact ⟨rfl, rfl, hs⟩
  | .array items span, s, s', before, e', hfinal, h => by
    rw [Expr.isHoisted] at hfinal
    rw [hoist] at h
    obtain ⟨as, hargs, rfl⟩ := emits_hoist_list (.array · span) h
    obtain ⟨rfl, rfl, hs⟩ := hoistList_rests hcopy items hfinal hargs
    exact ⟨rfl, rfl, hs⟩
  | .literal value span, s, s', before, e', _, h => by
    rw [hoist] at h
    obtain ⟨rfl, rfl, hs⟩ := emits_hoist_leaf h
    exact ⟨rfl, render_top hcopy _ _, hs⟩
  | .var name isGlobal span, s, s', before, e', _, h => by
    rw [hoist] at h
    obtain ⟨rfl, rfl, hs⟩ := emits_hoist_leaf h
    exact ⟨rfl, render_top hcopy _ _, hs⟩
  | .staticProperty typeName name span, s, s', before, e', _, h => by
    rw [hoist] at h
    obtain ⟨hpair, rfl⟩ := emits_pure.mp h
    cases hpair
    exact ⟨rfl, rfl, rfl⟩

theorem hoistList_rests (hcopy : site.copy = none) :
    ∀ (es : List Expr) {s s' : Progress} {before : Block} {es' : List Expr},
      Expr.listHoisted (isSynchronous setting) es = true →
      Emits (hoistList setting splice site es) s (before, es') s' →
      before = [] ∧ es' = es ∧ s'.supply = s.supply
  | [], s, s', before, es', _, h => by
    rw [hoistList] at h
    obtain ⟨hpair, rfl⟩ := emits_pure.mp h
    cases hpair
    exact ⟨rfl, rfl, rfl⟩
  | e :: rest, s, s', before, es', hfinal, h => by
    rw [Expr.listHoisted, Bool.and_eq_true] at hfinal
    obtain ⟨b₁, a, s₁, b₂, as, hfirst, hrest, rfl, rfl⟩ := emits_hoistList_cons h
    obtain ⟨rfl, rfl, hs₁⟩ := hoist_rests hcopy e hfinal.1 hfirst
    obtain ⟨rfl, rfl, hs₂⟩ := hoistList_rests hcopy rest hfinal.2 hrest
    exact ⟨rfl, rfl, hs₂.trans hs₁⟩

end

/-- A name outside of copies is declared as it is. -/
theorem CatchName.rests (hcopy : site.copy = none) {name name' : Option String}
    (h : CatchName site name name' s s') : name' = name ∧ s' = s := by
  cases name with
  | none =>
    cases name' with
    | none => exact ⟨rfl, h⟩
    | some y => cases h
  | some x =>
    cases name' with
    | none => cases h
    | some y =>
      obtain ⟨rfl, rfl⟩ := emits_declareName_top (by rw [hcopy]; rfl) h
      exact ⟨rfl, rfl⟩

/-- The declaration of a variable without a call as initial value stays. -/
theorem lowerDeclare_rests (hcopy : site.copy = none) {name : String} {shape : Shape}
    {init : Option Expr} {span : Span} {code : Block}
    (hfinal : (Stmt.declare name shape init span).isFinal (isSynchronous setting) = true)
    (h : Emits (lowerDeclare setting splice site name shape init span) s code s') :
    code = [.declare name shape init span] ∧ s'.supply = s.supply := by
  have hnone : ∀ e, init = some e → ¬ IsCall e := by
    rintro e rfl ⟨method, args, callSpan, rfl⟩
    cases hfinal
  obtain ⟨s₁, y, hs₁, hy, rfl⟩ := emits_lowerDeclare hnone h
  obtain ⟨rfl, rfl⟩ := emits_declareName_top (by rw [hcopy]; rfl) hy
  refine ⟨?_, hs₁⟩
  rw [show render site s.scopes = id from funext (render_top hcopy s.scopes), Option.map_id, id]

/-- A returned value without calls to hoist stays. -/
theorem lowerReturn_rests (hcopy : site.copy = none) {value : Option Expr} {span : Span}
    {code : Block} (hfinal : (Stmt.ret value span).isFinal (isSynchronous setting) = true)
    (h : Emits (lowerReturn setting splice site value span) s code s') :
    code = [.ret value span] ∧ s'.supply = s.supply := by
  cases value with
  | none =>
    rw [lowerReturn, hcopy] at h
    obtain ⟨rfl, rfl⟩ := emits_pure.mp h
    exact ⟨rfl, rfl⟩
  | some value =>
    obtain ⟨before, e', hhoist, rfl⟩ := emits_lowerReturned_top hcopy h
    obtain ⟨rfl, rfl, hs⟩ := hoist_rests hcopy value hfinal hhoist
    exact ⟨rfl, hs⟩

mutual

/-- A statement in final form that stands in no loop and no copy stays as it
is, and lowering it uses up nothing. -/
theorem lowerStmt_rests (hinline : setting.options.inline = false) (hcopy : site.copy = none)
    (hloops : site.loopEnds = []) :
    ∀ (stmt : Stmt) {s s' : Progress} {code : Block},
      stmt.every (·.isFinal (isSynchronous setting) = true) →
      Emits (lowerStmt setting splice site stmt) s code s' →
      code = [stmt] ∧ s'.supply = s.supply
  | .declare name shape init span, s, s', code, hfinal, h => by
    rw [lowerStmt] at h
    exact lowerDeclare_rests hcopy (Stmt.every_self hfinal) h
  | .assign target value span, s, s', code, _, h => by
    rw [lowerStmt] at h
    by_cases hcall : IsCall value
    · obtain ⟨method, args, callSpan, rfl⟩ := hcall
      obtain ⟨s₁, hs₁, hemit⟩ := emits_lowerAssign_call h
      obtain ⟨rfl, hs'⟩ := emitCall_kept hinline hemit
      rw [render_top hcopy, renderList_top hcopy]
      exact ⟨rfl, hs'.trans hs₁⟩
    · obtain ⟨hs', rfl⟩ := emits_lowerAssign hcall h
      rw [render_top hcopy, render_top hcopy]
      exact ⟨rfl, hs'⟩
  | .eval e span, s, s', code, _, h => by
    rw [lowerStmt] at h
    by_cases hcall : IsCall e
    · obtain ⟨method, args, callSpan, rfl⟩ := hcall
      rw [lowerEval] at h
      obtain ⟨s₁, hs₁, hemit⟩ := emits_lowerCall h
      obtain ⟨rfl, hs'⟩ := emitCall_kept hinline hemit
      rw [renderList_top hcopy]
      exact ⟨rfl, hs'.trans hs₁⟩
    · obtain ⟨hs', rfl⟩ := emits_lowerEval hcall h
      rw [render_top hcopy]
      exact ⟨rfl, hs'⟩
  | .cond .., _, _, _, hfinal, _ => by cases Stmt.every_self hfinal
  | .loop .., _, _, _, hfinal, _ => by cases Stmt.every_self hfinal
  | .brk span, s, s', code, _, h => by
    obtain ⟨hs', rfl⟩ := emits_brk h
    rw [hloops]
    exact ⟨rfl, hs'⟩
  | .ret value span, s, s', code, hfinal, h => by
    rw [lowerStmt] at h
    exact lowerReturn_rests hcopy (Stmt.every_self hfinal) h
  | .throw value span, s, s', code, _, h => by
    obtain ⟨hs', rfl⟩ := emits_throw h
    rw [render_top hcopy]
    exact ⟨rfl, hs'⟩
  | .attempt body catchVar handler span, s, s', code, hfinal, h => by
    obtain ⟨hbody, hhandler⟩ := Stmt.every_attempt hfinal
    obtain ⟨body', s₁, catchVar', s₂, handler', s₃, hb, hcatch, hh, rfl, rfl⟩ := emits_attempt h
    obtain ⟨rfl, hs₁⟩ := lowerStmts_rests hinline hcopy hloops body hbody hb
    obtain ⟨rfl, rfl⟩ := hcatch.rests hcopy
    obtain ⟨rfl, hs₃⟩ := lowerStmts_rests hinline hcopy hloops handler hhandler hh
    refine ⟨rfl, ?_⟩
    -- The scopes that were opened and closed around both blocks are gone again.
    simp only [Progress.supply, Supply.mk.injEq] at hs₁ hs₃ ⊢
    obtain ⟨hlabels, hnames, hscopes⟩ := hs₁
    obtain ⟨hlabels', hnames', hscopes'⟩ := hs₃
    rw [hlabels', hnames', hscopes', hlabels, hnames, hscopes]
    exact ⟨rfl, rfl, rfl⟩
  | .branch test target span, s, s', code, _, h => by
    rw [lowerStmt] at h
    obtain ⟨rfl, rfl⟩ := emits_pure.mp h
    exact ⟨rfl, rfl⟩
  | .label name span, s, s', code, _, h => by
    rw [lowerStmt] at h
    obtain ⟨rfl, rfl⟩ := emits_pure.mp h
    exact ⟨rfl, rfl⟩
  | .goto target span, s, s', code, _, h => by
    rw [lowerStmt] at h
    obtain ⟨rfl, rfl⟩ := emits_pure.mp h
    exact ⟨rfl, rfl⟩

theorem lowerStmts_rests (hinline : setting.options.inline = false) (hcopy : site.copy = none)
    (hloops : site.loopEnds = []) :
    ∀ (block : List Stmt) {after : Option Span} {s s' : Progress} {code : Block},
      Final setting block → Emits (lowerStmts setting splice site after block) s code s' →
      code = block ∧ s'.supply = s.supply
  | [], after, s, s', code, _, h => by
    rw [lowerStmts] at h
    obtain ⟨rfl, rfl⟩ := emits_pure.mp h
    exact ⟨rfl, rfl⟩
  | stmt :: rest, after, s, s', code, hfinal, h => by
    obtain ⟨hstmt, hrest⟩ := Stmt.everyAll_cons.mp hfinal
    obtain ⟨s₁, first, s₂, others, hs₁, hf, hr, rfl⟩ := emits_lowerStmts_cons h
    obtain ⟨rfl, hs₂⟩ := lowerStmt_rests hinline hcopy hloops stmt hstmt hf
    obtain ⟨rfl, hs'⟩ := lowerStmts_rests hinline hcopy hloops rest hrest hr
    exact ⟨rfl, hs'.trans (hs₂.trans hs₁)⟩

end

/-- Methods in final form stay as they are. -/
theorem lowerMethods_rests (hinline : setting.options.inline = false) :
    ∀ {ms ms' : List Method} {s s' : Progress}, (∀ m ∈ ms, Final setting m.body) →
      Emits (lowerMethods setting ms) s ms' s' → ms' = ms ∧ s'.supply = s.supply
  | [], ms', s, s', _, h => emits_pure.mp h |>.imp_right fun hs => by rw [hs]
  | m :: rest, ms', s, s', hfinal, h => by
    obtain ⟨hm, hrest⟩ := List.forall_mem_cons.mp hfinal
    obtain ⟨code, s₁, rest', hbody, hrest', rfl⟩ := emits_lowerMethods_cons h
    obtain ⟨rfl, hs'⟩ := lowerMethods_rests hinline hrest hrest'
    rw [Setting.depth, lowerBlock] at hbody
    obtain ⟨rfl, hs₁⟩ := lowerStmts_rests hinline rfl rfl m.body hm hbody
    refine ⟨rfl, hs'.trans ?_⟩
    simp only [Progress.supply, Supply.mk.injEq] at hs₁ ⊢
    exact ⟨hs₁.1, hs₁.2.1, trivial⟩

end Resting

/-- Which calls wait for their result does not change by lowering. -/
theorem isSynchronous_lower {p : Program} (hp : p.lowered = false) (options again : Options) :
    isSynchronous ⟨(p.lower options).program, again⟩ = isSynchronous ⟨p, options⟩ := by
  funext name
  have hfind := lower_method? hp options name
  unfold isSynchronous
  cases hm : p.method? name with
  | none =>
    rw [hm] at hfind
    rw [show (p.lower options).program.method? name = none from hfind]
  | some m =>
    rw [hm] at hfind
    obtain ⟨m', hm', _, code, _, -, -, rfl⟩ := hfind
    rw [hm']
    rfl

/-- Without copies, the methods of a lowered program are in final form. -/
theorem lower_final {p : Program} (hp : p.lowered = false) {options : Options}
    (hinline : options.inline = false) (again : Options) :
    ∀ m ∈ (p.lower options).program.methods,
      Final ⟨(p.lower options).program, again⟩ m.body := by
  intro m' hm'
  obtain ⟨m, -, s, code, s', hcode, -, rfl⟩ :=
    exists_of_loweredFrom (lower_methods hp options) m' hm'
  rw [Setting.depth, lowerBlock] at hcode
  have hfinal := lowerStmts_final hinline m.body rfl hcode
  unfold Final at hfinal ⊢
  rw [isSynchronous_lower hp options again]
  exact hfinal

/-- A program in final form stays as it is but for the mark, and lowering it
uses up nothing. -/
theorem lowerProgram_rests {p : Program} {options : Options} (hinline : options.inline = false)
    (hfinal : ∀ m ∈ p.methods, Final ⟨p, options⟩ m.body) {s s' : Progress} {q : Program}
    (h : Emits (lowerProgram ⟨p, options⟩) s q s') :
    q = { p with lowered := true } ∧ s'.supply = s.supply := by
  obtain ⟨methods, s₁, s₂, hs₁, hms, hs₂, rfl⟩ := emits_lowerProgram h
  obtain ⟨rfl, hs⟩ := lowerMethods_rests hinline hfinal hms
  exact ⟨rfl, hs₂.trans (hs.trans hs₁)⟩

end Lowering

open Lowering

/-- The program without the mark that keeps lowering from it. -/
def Program.unmarked (p : Program) : Program := { p with lowered := false }

/-- What one run of lowering without copies gives out, a second run leaves as
it is, whether or not the program is marked: the program is the same, and the
second run uses up no label and no name. -/
theorem Program.lower_unmarked {p : Program} (hp : p.lowered = false) (limit again : Nat) :
    ((p.lower ⟨false, limit⟩).program.unmarked.lower ⟨false, again⟩).program =
        (p.lower ⟨false, limit⟩).program ∧
      ∃ progress, Emits (lowerProgram ⟨(p.lower ⟨false, limit⟩).program.unmarked, ⟨false, again⟩⟩)
          {} (p.lower ⟨false, limit⟩).program progress ∧
        progress.labels = 0 ∧ progress.names = 0 := by
  have hmark : (p.lower ⟨false, limit⟩).program.lowered = true := by
    obtain ⟨methods, _, _, -, -, hprogram⟩ := lower_program hp ⟨false, limit⟩
    rw [hprogram]
  generalize hq : (p.lower ⟨false, limit⟩).program = q at hmark
  have hfinal : ∀ m ∈ q.unmarked.methods, Final ⟨q.unmarked, ⟨false, again⟩⟩ m.body := by
    have hplain : (⟨false, limit⟩ : Options).inline = false := rfl
    rw [← hq]
    exact lower_final hp hplain ⟨false, again⟩
  obtain ⟨r, progress, hrun⟩ : ∃ r s', Emits (lowerProgram ⟨q.unmarked, ⟨false, again⟩⟩) {} r s' :=
    ⟨_, _, rfl⟩
  obtain ⟨rfl, hsupply⟩ := lowerProgram_rests rfl hfinal hrun
  have hsame : ({ q.unmarked with lowered := true } : Program) = q := by
    rw [← hmark]
    rfl
  rw [hsame] at hrun
  refine ⟨?_, progress, hrun, congrArg Supply.labels hsupply, congrArg Supply.names hsupply⟩
  exact congrArg Prod.fst hrun

/-- A method with every kind of statement that lowering rewrites, a `break`
that leaves nothing and a label of its own. -/
def Program.tangled : Program :=
  Program.empty.addMethod ((Method.start "Tangle").withParam "n" .scalar |>.withBody
    [.scalarVar "x" (some (.invoke "Tangle" [.named "n"])),
      .doWhile [.tryCatch [.ifThen (.named "n") [.leave]] (some "e") [.leave]] (.named "x"),
      .label "A" Span.blank,
      .leave,
      .giveBack (some (.op .add (.invoke "Tangle" [.invoke "Tangle" [.named "x"]])
        (.op .or (.named "n") (.invoke "Tangle" [.named "x"]))))])

/-- A second run finds nothing to do in what the first one made of it. -/
theorem Program.tangled_lower_unmarked :
    Program.tangled.lowered = false ∧
      ((Program.tangled.lower ⟨false, 2⟩).program.unmarked.lower ⟨false, 2⟩).program =
        (Program.tangled.lower ⟨false, 2⟩).program ∧
      ∃ progress, Emits
          (lowerProgram ⟨(Program.tangled.lower ⟨false, 2⟩).program.unmarked, ⟨false, 2⟩⟩)
          {} (Program.tangled.lower ⟨false, 2⟩).program progress ∧
        progress.labels = 0 ∧ progress.names = 0 :=
  ⟨rfl, Program.lower_unmarked rfl 2 2⟩

/-- A program that is marked as lowered without being so is not lowered by the
first run, and the second run, which finds it unmarked, rewrites it. -/
theorem Program.markedTooEarly_lowered_late :
    ((Program.markedTooEarly.lower ⟨false, 2⟩).program.unmarked.lower ⟨false, 2⟩).program.methods ≠
      (Program.markedTooEarly.lower ⟨false, 2⟩).program.unmarked.methods := by
  intro h
  have hlength := congrArg (List.map fun m : Method => m.body.length) h
  revert hlength
  decide

end Stepwise
