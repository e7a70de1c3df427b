import Stepwise.Lowering.Program
import Stepwise.Proofs.Program.Calls
import Stepwise.Proofs.Program.Jumps

/-!
# What lowering finds

The errors and warnings of lowering can be read off the program itself: the
wrong calls of each expression in the order of evaluation, breaks outside of
loops and statements that are never reached, method by method, and then the
wrong calls of the globals. Whether callees are copied makes no difference;
copies report nothing, and notes about refused copies do not count here.
-/

namespace Stepwise

/-- Errors and warnings, as opposed to notes. -/
def Diagnostic.isGrave (d : Diagnostic) : Bool := d.problem.severity != .info

/-- Errors are grave. -/
theorem Diagnostic.isGrave_of_isError {d : Diagnostic} (h : d.isError = true) :
    d.isGrave = true := by
  unfold isError at h
  unfold isGrave
  rw [eq_of_beq h]
  rfl

namespace Stmt

mutual

/-- What is wrong in a statement, inside a loop or not, in the order found. -/
def findings (p : Program) (inLoop : Bool) : Stmt → List Diagnostic
  | .declare _ _ init _ => init.toList.flatMap (·.callProblems p)
  | .assign target value _ => target.callProblems p ++ value.callProblems p
  | .cond test yes none _ => test.callProblems p ++ findingsOf p inLoop none yes
  | .cond test yes (some no) _ =>
    test.callProblems p ++ (findingsOf p inLoop none yes ++ findingsOf p inLoop none no)
  | .loop .testFirst test body _ => test.callProblems p ++ findingsOf p true none body
  | .loop .testLast test body _ => findingsOf p true none body ++ test.callProblems p
  | .ret value _ => value.toList.flatMap (·.callProblems p)
  | .brk span => if inLoop then [] else [⟨span, .breakOutsideLoop⟩]
  | .throw value _ => value.callProblems p
  | .attempt body _ handler _ => findingsOf p inLoop none body ++ findingsOf p inLoop none handler
  | .eval e _ => e.callProblems p
  | .branch .. | .label .. | .goto .. => []

/-- What is wrong in a block; `after` is the place of the statement in front
of it if that one never goes on. -/
def findingsOf (p : Program) (inLoop : Bool) (after : Option Span) :
    List Stmt → List Diagnostic
  | [] => []
  | stmt :: rest =>
    Lowering.unreachable after stmt ++
      (stmt.findings p inLoop ++ findingsOf p inLoop (Lowering.terminal? stmt) rest)

end

mutual

/-- A `break` outside of loops is found. -/
theorem strays_findings {p : Program} {span : Span} :
    ∀ stmt : Stmt, span ∈ stmt.strays → ⟨span, .breakOutsideLoop⟩ ∈ stmt.findings p false
  | .brk .., h => by
    rw [strays, List.mem_singleton] at h
    simp [findings, h]
  | .cond _ yes none _, h => by
    rw [strays] at h
    rw [findings]
    exact List.mem_append_right _ (straysAll_findings yes none h)
  | .cond _ yes (some no) _, h => by
    rw [strays, List.mem_append] at h
    rw [findings]
    exact List.mem_append_right _ (List.mem_append.mpr
      (h.imp (straysAll_findings yes none) (straysAll_findings no none)))
  | .attempt body _ handler _, h => by
    rw [strays, List.mem_append] at h
    rw [findings]
    exact List.mem_append.mpr
      (h.imp (straysAll_findings body none) (straysAll_findings handler none))
  | .declare .., h | .assign .., h | .branch .., h | .loop .., h | .ret .., h | .throw .., h
  | .eval .., h | .label .., h | .goto .., h => by simp [strays] at h

/-- Breaks outside of loops are found. -/
theorem straysAll_findings {p : Program} {span : Span} :
    ∀ (block : List Stmt) (after : Option Span), span ∈ straysAll block →
      ⟨span, .breakOutsideLoop⟩ ∈ findingsOf p false after block
  | [], _, h => by simp [straysAll] at h
  | stmt :: rest, _, h => by
    rw [straysAll, List.mem_append] at h
    rw [findingsOf]
    exact List.mem_append_right _ (List.mem_append.mpr
      (h.imp (strays_findings stmt) (straysAll_findings rest _)))

end

section Calls

variable {p : Program} {part : Stmt} {e : Expr} {d : Diagnostic}

mutual

/-- What is wrong with a call in a structured statement is found. -/
theorem calls_findings (he : e ∈ part.exprs) (hd : d ∈ e.callProblems p) :
    ∀ (stmt : Stmt) (inLoop : Bool), stmt.every (·.isJumpCode = false) → part ∈ stmt.parts →
      d ∈ stmt.findings p inLoop
  | .cond test yes none _, inLoop, h, hm => by
    rw [parts, List.mem_cons] at hm
    rw [findings, List.mem_append]
    rcases hm with rfl | hm
    · exact .inl (List.mem_singleton.mp he ▸ hd)
    · exact .inr (callsAll_findings he hd yes inLoop none (every_cond_none h) hm)
  | .cond test yes (some no) _, inLoop, h, hm => by
    rw [parts, List.mem_cons, List.mem_append] at hm
    rw [findings, List.mem_append, List.mem_append]
    rcases hm with rfl | hm | hm
    · exact .inl (List.mem_singleton.mp he ▸ hd)
    · exact .inr (.inl (callsAll_findings he hd yes inLoop none (every_cond_some h).1 hm))
    · exact .inr (.inr (callsAll_findings he hd no inLoop none (every_cond_some h).2 hm))
  | .loop .testFirst test body _, inLoop, h, hm => by
    rw [parts, List.mem_cons] at hm
    rw [findings, List.mem_append]
    rcases hm with rfl | hm
    · exact .inl (List.mem_singleton.mp he ▸ hd)
    · exact .inr (callsAll_findings he hd body true none (every_loop h) hm)
  | .loop .testLast test body _, inLoop, h, hm => by
    rw [parts, List.mem_cons] at hm
    rw [findings, List.mem_append]
    rcases hm with rfl | hm
    · exact .inr (List.mem_singleton.mp he ▸ hd)
    · exact .inl (callsAll_findings he hd body true none (every_loop h) hm)
  | .attempt body _ handler _, inLoop, h, hm => by
    rw [parts, List.mem_cons, List.mem_append] at hm
    rw [findings, List.mem_append]
    rcases hm with rfl | hm | hm
    · exact absurd he List.not_mem_nil
    · exact .inl (callsAll_findings he hd body inLoop none (every_attempt h).1 hm)
    · exact .inr (callsAll_findings he hd handler inLoop none (every_attempt h).2 hm)
  | .declare .., _, _, hm | .ret .., _, _, hm => by
    simp only [parts, List.mem_singleton] at hm
    subst hm
    rw [findings]
    exact List.mem_flatMap.mpr ⟨e, he, hd⟩
  | .assign .., _, _, hm => by
    simp only [parts, List.mem_singleton] at hm
    subst hm
    rw [findings, List.mem_append]
    rcases List.mem_cons.mp he with rfl | he
    · exact .inl hd
    · exact .inr (List.mem_singleton.mp he ▸ hd)
  | .throw .., _, _, hm | .eval .., _, _, hm => by
    simp only [parts, List.mem_singleton] at hm
    subst hm
    rw [findings]
    exact List.mem_singleton.mp he ▸ hd
  | .brk .., _, _, hm => by
    simp only [parts, List.mem_singleton] at hm
    subst hm
    exact absurd he List.not_mem_nil
  | .branch .., _, h, _ | .label .., _, h, _ | .goto .., _, h, _ => by cases every_self h

/-- What is wrong with a call in structured statements is found. -/
theorem callsAll_findings (he : e ∈ part.exprs) (hd : d ∈ e.callProblems p) :
    ∀ (block : List Stmt) (inLoop : Bool) (after : Option Span), structuredAll block →
      part ∈ partsOf block → d ∈ findingsOf p inLoop after block
  | [], _, _, _, hm => by
    rw [partsOf] at hm
    exact absurd hm List.not_mem_nil
  | stmt :: rest, inLoop, _, h, hm => by
    rw [partsOf, List.mem_append] at hm
    rw [findingsOf]
    exact List.mem_append_right _ (List.mem_append.mpr
      (hm.imp (calls_findings he hd stmt inLoop (everyAll_cons.mp h).1)
        (callsAll_findings he hd rest inLoop _ (everyAll_cons.mp h).2)))

end

end Calls

end Stmt

/-- What is wrong in the first values of globals. -/
def Global.findings (p : Program) (g : Global) : List Diagnostic :=
  g.init.toList.flatMap (·.callProblems p)

/-- What is wrong in a program. -/
def Program.findings (p : Program) : List Diagnostic :=
  Lowering.duplicates [] p.methods ++
    (p.methods.flatMap (fun m => Stmt.findingsOf p false none m.body) ++
      p.globals.flatMap (Global.findings p))

namespace Lowering

variable {α β : Type}

/-- The errors and warnings so far. -/
def Progress.grave (s : Progress) : List Diagnostic := s.diagnostics.filter (·.isGrave)

/-- The errors and warnings that a site reports. Copies report nothing. -/
def Site.noted (site : Site) (found : List Diagnostic) : List Diagnostic :=
  if site.copy.isNone then found.filter (·.isGrave) else []

@[simp] theorem Site.noted_nil (site : Site) : site.noted [] = [] := by
  unfold noted
  split <;> rfl

@[simp] theorem Site.noted_append (site : Site) (a b : List Diagnostic) :
    site.noted (a ++ b) = site.noted a ++ site.noted b := by
  unfold noted
  split
  · exact List.filter_append ..
  · rfl

/-- A step of lowering reports these findings and gives such a value. -/
def Notes (site : Site) (found : List Diagnostic) (Q : α → Prop) (x : Lower α) : Prop :=
  ∀ s, Q (x.run s).1 ∧ (x.run s).2.grave = s.grave ++ site.noted found

section Steps

variable {site : Site} {found found' : List Diagnostic} {Q R : α → Prop}

theorem notes_pure {a : α} (h : Q a) : Notes site [] Q (pure a) :=
  fun s => ⟨h, by rw [Site.noted_nil, List.append_nil]; rfl⟩

theorem Notes.bind {x : Lower α} {f : α → Lower β} {R : β → Prop} (hx : Notes site found Q x)
    (hf : ∀ a, Q a → Notes site found' R (f a)) : Notes site (found ++ found') R (x >>= f) := by
  intro s
  obtain ⟨hq, hx⟩ := hx s
  obtain ⟨hr, hf⟩ := hf _ hq (x.run s).2
  refine ⟨hr, hf.trans ?_⟩
  rw [hx, Site.noted_append, List.append_assoc]

/-- A step after one that reports nothing. -/
theorem Notes.andThen {x : Lower α} {f : α → Lower β} {R : β → Prop} (hx : Notes site [] Q x)
    (hf : ∀ a, Q a → Notes site found R (f a)) : Notes site found R (x >>= f) :=
  hx.bind hf

/-- A step before one that reports nothing. -/
theorem Notes.andPure {x : Lower α} {f : α → Lower β} {R : β → Prop} (hx : Notes site found Q x)
    (hf : ∀ a, Q a → Notes site [] R (f a)) : Notes site found R (x >>= f) := by
  have h := hx.bind hf
  rwa [List.append_nil] at h

/-- A step that reports nothing does so at every site. -/
theorem Notes.atSite {site' : Site} {x : Lower α} (h : Notes site' [] Q x) : Notes site [] Q x :=
  fun s => by simpa using h s

/-- A loop reports like what stands around it. -/
theorem Notes.leaveLoop {endLabel : String} {x : Lower α}
    (h : Notes (site.insideLoop endLabel) found Q x) : Notes site found Q x :=
  fun s => h s

/-- A change of state that reports nothing. -/
theorem notes_modify {f : Progress → Progress} (h : ∀ s, (f s).grave = s.grave) :
    Notes site [] (fun _ => True) (modify f : Lower PUnit) :=
  fun s => ⟨trivial, (h s).trans (by simp)⟩

/-- The names of the copy are changed. -/
theorem notes_setScopes (scopes : Progress → Renaming) :
    Notes site [] (fun _ => True) (modify fun s => { s with scopes := scopes s } : Lower PUnit) :=
  notes_modify fun _ => rfl

theorem notes_get : Notes site [] (fun _ => True) (get : Lower Progress) :=
  fun s => ⟨trivial, by rw [Site.noted_nil, List.append_nil]; rfl⟩

theorem notes_nextLabel : Notes site [] (fun _ => True) nextLabel :=
  fun s => ⟨trivial, by rw [Site.noted_nil, List.append_nil]; rfl⟩

theorem notes_freshName (recalled : String) : Notes site [] (fun _ => True) (freshName recalled) :=
  fun s => ⟨trivial, by rw [Site.noted_nil, List.append_nil]; rfl⟩

theorem notes_report : Notes site found (fun _ => True) (report site found) := by
  intro s
  unfold report Site.noted
  cases site.copy.isNone with
  | true => exact ⟨trivial, List.filter_append ..⟩
  | false => exact ⟨trivial, (List.append_nil _).symm⟩

theorem notes_noteRefusal (callee : Method) (limit : Nat) (span : Span) :
    Notes site [] (fun _ => True) (noteRefusal callee limit span) := by
  refine notes_modify fun s => ?_
  split
  · rfl
  · show (s.diagnostics ++ _).filter _ = s.diagnostics.filter _
    rw [List.filter_append]
    exact List.append_nil _

theorem notes_declareName (name : String) :
    Notes site [] (fun _ => True) (declareName site name) := by
  unfold declareName
  split
  · exact notes_pure trivial
  · exact (notes_freshName name).andThen fun _ _ =>
      (notes_setScopes _).andThen fun _ _ => notes_pure trivial

theorem Notes.inScope {step : Lower α} (h : Notes site found Q step) :
    Notes site found Q (inScope step) :=
  (notes_setScopes _).andThen fun _ _ => h.andPure fun _ hq =>
    (notes_setScopes _).andThen fun _ _ => notes_pure hq

theorem Notes.withRenaming {scopes : Renaming} {step : Lower α} (h : Notes site found Q step) :
    Notes site found Q (withRenaming scopes step) :=
  notes_get.andThen fun _ _ => (notes_setScopes _).andThen fun _ _ =>
    h.andPure fun _ hq => (notes_setScopes _).andThen fun _ _ => notes_pure hq

end Steps

section Functions

variable {setting : Setting} {splice : Splice} {site : Site}

theorem notes_lowerExpr (p : Program) (e : Expr) :
    Notes site (e.callProblems p) (fun _ => True) (lowerExpr p site e) := by
  refine notes_report.andPure fun _ _ => ?_
  split
  · exact notes_pure trivial
  · exact notes_get.andThen fun _ _ => notes_pure trivial

theorem notes_lowerArgs (p : Program) (args : List Expr) :
    Notes site (Expr.listProblems p args) (fun as => as.length = args.length)
      (lowerArgs p site args) := by
  refine notes_report.andPure fun _ _ => ?_
  split
  · exact notes_pure rfl
  · exact notes_get.andThen fun _ _ => notes_pure (Expr.length_renameList _ _)

/-- A callee to copy is looked for, and the call is checked. -/
theorem notes_inlinee (name : String) (given : Nat) (span : Span) :
    Notes site (setting.program.callProblem name given span) (fun _ => True)
      (inlinee? setting site name given span) := by
  unfold inlinee? Program.callProblem
  cases setting.program.resolve name given with
  | error problem => exact notes_report.andPure fun _ _ => notes_pure trivial
  | ok callee =>
    dsimp only
    split
    · exact notes_pure trivial
    · split
      · exact (notes_noteRefusal _ _ _).andThen fun _ _ => notes_pure trivial
      · exact notes_pure trivial

theorem notes_bindParams (span : Span) :
    ∀ (params : List Param) (args : List Expr),
      Notes site [] (fun _ => True) (bindParams span params args)
  | [], _ => notes_pure trivial
  | _ :: _, [] => notes_pure trivial
  | param :: params, _ :: args =>
    (notes_freshName param.name).andThen fun _ _ =>
      (notes_bindParams span params args).andThen fun _ _ => notes_pure trivial

/-- Copies report nothing. -/
def Quiet (splice : Splice) : Prop :=
  ∀ site block, site.copy.isNone = false → Notes site [] (fun _ => True) (splice site block)

/-- The call itself is checked. -/
theorem notes_emitCall (hsplice : Quiet splice) (name : String) (args : List Expr)
    (dest : Option Expr) (callSpan span : Span) :
    Notes site (setting.program.callProblem name args.length callSpan) (fun _ => True)
      (emitCall setting splice site name args dest callSpan span) := by
  refine (notes_inlinee name args.length callSpan).andPure fun r _ => ?_
  cases r with
  | none => cases dest <;> exact notes_pure trivial
  | some callee =>
    have hbody : ∀ target, Notes site [] (fun _ => True)
        (splice (site.insideCopy callee target) callee.body) :=
      fun target => (hsplice (site.insideCopy callee target) callee.body rfl).atSite
    exact notes_nextLabel.andThen fun _ _ => notes_nextLabel.andThen fun _ _ =>
      (notes_freshName _).andThen fun _ _ => (notes_bindParams span _ _).andThen fun _ _ =>
        (hbody _).withRenaming.andThen fun _ _ => notes_pure trivial

/-- The arguments are checked, then the call itself. -/
theorem notes_lowerCall (hsplice : Quiet splice) (name : String) (args : List Expr)
    (dest : Option Expr) (callSpan span : Span) :
    Notes site ((Expr.call name args callSpan).callProblems setting.program) (fun _ => True)
      (lowerCall setting splice site name args dest callSpan span) := by
  rw [Expr.callProblems]
  refine (notes_lowerArgs setting.program args).bind fun as has => ?_
  rw [← has]
  exact notes_emitCall hsplice name as dest callSpan span

mutual

/-- Moving calls in front of an expression reports what is wrong with its calls. -/
theorem notes_hoist (hsplice : Quiet splice) :
    ∀ e : Expr, Notes site (e.callProblems setting.program) (fun _ => True)
      (hoist setting splice site e)
  | .call method args span => by
    rw [hoist, Expr.callProblems]
    refine (notes_hoistList hsplice args).bind fun (before, as) has => ?_
    rw [← show as.length = args.length from has]
    dsimp only
    split
    · exact (notes_freshName _).andThen fun _ _ =>
        (notes_emitCall hsplice method as _ span span).andPure fun _ _ => notes_pure trivial
    · rw [show as.length = args.length from has]
      exact notes_report.andPure fun _ _ => notes_pure trivial
  | .callStatic _ _ args _ => by
    rw [hoist, Expr.callProblems]
    exact (notes_hoistList hsplice args).andPure fun _ _ => notes_pure trivial
  | .callOn object _ args _ => by
    rw [hoist, Expr.callProblems]
    exact (notes_hoistList hsplice args).bind fun _ _ =>
      (notes_hoist hsplice object).andPure fun _ _ => notes_pure trivial
  | .binary op left right _ => by
    rw [hoist, Expr.callProblems]
    refine (notes_hoist hsplice left).bind fun _ _ => ?_
    dsimp only
    split
    · exact (notes_lowerExpr _ right).andPure fun _ _ => notes_pure trivial
    · exact (notes_hoist hsplice right).andPure fun _ _ => notes_pure trivial
  | .unary _ operand _ => by
    rw [hoist, Expr.callProblems]
    exact (notes_hoist hsplice operand).andPure fun _ _ => notes_pure trivial
  | .index target position _ => by
    rw [hoist, Expr.callProblems]
    exact (notes_hoist hsplice target).bind fun _ _ =>
      (notes_hoist hsplice position).andPure fun _ _ => notes_pure trivial
  | .property object _ _ => by
    rw [hoist, Expr.callProblems]
    exact (notes_hoist hsplice object).andPure fun _ _ => notes_pure trivial
  | .create _ args _ => by
    rw [hoist, Expr.callProblems]
    exact (notes_hoistList hsplice args).andPure fun _ _ => notes_pure trivial
  | .array items _ => by
    rw [hoist, Expr.callProblems]
    exact (notes_hoistList hsplice items).andPure fun _ _ => notes_pure trivial
  | .literal .. => by
    rw [hoist]
    exact (notes_lowerExpr _ _).andPure fun _ _ => notes_pure trivial
  | .var .. => by
    rw [hoist]
    exact (notes_lowerExpr _ _).andPure fun _ _ => notes_pure trivial
  | .staticProperty .. => by
    rw [hoist, Expr.callProblems]
    exact notes_pure trivial

/-- Moving calls in front of expressions reports what is wrong with their
calls, and keeps the number of expressions. -/
theorem notes_hoistList (hsplice : Quiet splice) :
    ∀ es : List Expr, Notes site (Expr.listProblems setting.program es)
      (fun r => r.2.length = es.length) (hoistList setting splice site es)
  | [] => by
    rw [hoistList, Expr.listProblems]
    exact notes_pure rfl
  | e :: rest => by
    rw [hoistList, Expr.listProblems]
    exact (notes_hoist hsplice e).bind fun _ _ =>
      (notes_hoistList hsplice rest).andPure fun _ hr => notes_pure (congrArg Nat.succ hr)

end

theorem notes_lowerReturn (hsplice : Quiet splice) (value : Option Expr) (span : Span) :
    Notes site ((Stmt.ret value span).findings setting.program (!site.loopEnds.isEmpty))
      (fun _ => True) (lowerReturn setting splice site value span) := by
  rw [Stmt.findings]
  unfold lowerReturn
  cases value with
  | none => cases site.copy <;> exact notes_pure trivial
  | some value =>
    rw [Option.toList_some, List.flatMap_singleton]
    dsimp only
    unfold lowerReturned
    split
    · exact (notes_hoist hsplice value).andPure fun _ _ => notes_pure trivial
    · dsimp only
      split
      · exact (notes_lowerCall hsplice _ _ _ _ span).andPure fun _ _ => notes_pure trivial
      · exact (notes_hoist hsplice value).andPure fun _ _ => notes_pure trivial

theorem notes_lowerDeclare (hsplice : Quiet splice) (name : String) (shape : Shape)
    (init : Option Expr) (span : Span) :
    Notes site ((Stmt.declare name shape init span).findings setting.program
      (!site.loopEnds.isEmpty)) (fun _ => True)
      (lowerDeclare setting splice site name shape init span) := by
  rw [Stmt.findings]
  unfold lowerDeclare
  split
  · next method args callSpan =>
    rw [Option.toList_some, List.flatMap_singleton, Expr.callProblems]
    refine (notes_lowerArgs setting.program args).bind fun as has => ?_
    rw [← has]
    exact (notes_declareName _).andThen fun _ _ =>
      (notes_emitCall hsplice method as _ callSpan span).andPure fun _ _ => notes_pure trivial
  · next value _ =>
    rw [Option.toList_some, List.flatMap_singleton]
    exact (notes_lowerExpr _ value).andPure fun _ _ =>
      (notes_declareName _).andThen fun _ _ => notes_pure trivial
  · exact (notes_declareName _).andThen fun _ _ => notes_pure trivial

theorem notes_lowerAssign (hsplice : Quiet splice) (target value : Expr) (span : Span) :
    Notes site ((Stmt.assign target value span).findings setting.program
      (!site.loopEnds.isEmpty)) (fun _ => True)
      (lowerAssign setting splice site target value span) := by
  rw [Stmt.findings]
  refine (notes_lowerExpr _ target).bind fun _ _ => ?_
  split
  · exact notes_lowerCall hsplice _ _ _ _ span
  · exact (notes_lowerExpr _ value).andPure fun _ _ => notes_pure trivial

theorem notes_lowerEval (hsplice : Quiet splice) (e : Expr) (span : Span) :
    Notes site ((Stmt.eval e span).findings setting.program (!site.loopEnds.isEmpty))
      (fun _ => True) (lowerEval setting splice site e span) := by
  rw [Stmt.findings]
  unfold lowerEval
  split
  · exact notes_lowerCall hsplice _ _ _ _ span
  · exact (notes_lowerExpr _ e).andPure fun _ _ => notes_pure trivial

mutual

/-- Lowering a statement reports what is wrong in it. -/
theorem notes_lowerStmt (hsplice : Quiet splice) :
    ∀ (stmt : Stmt) (site : Site),
      Notes site (stmt.findings setting.program (!site.loopEnds.isEmpty)) (fun _ => True)
        (lowerStmt setting splice site stmt)
  | .declare name shape init span, site => by
    rw [lowerStmt]
    exact notes_lowerDeclare hsplice name shape init span
  | .assign target value span, site => by
    rw [lowerStmt]
    exact notes_lowerAssign hsplice target value span
  | .eval e span, site => by
    rw [lowerStmt]
    exact notes_lowerEval hsplice e span
  | .ret value span, site => by
    rw [lowerStmt]
    exact notes_lowerReturn hsplice value span
  | .cond test yes none span, site => by
    rw [lowerStmt, Stmt.findings]
    exact (notes_lowerExpr _ test).bind fun _ _ => notes_nextLabel.andThen fun _ _ =>
      (notes_lowerStmts hsplice yes site none).andPure fun _ _ => notes_pure trivial
  | .cond test yes (some no) span, site => by
    rw [lowerStmt, Stmt.findings]
    exact (notes_lowerExpr _ test).bind fun _ _ => notes_nextLabel.andThen fun _ _ =>
      notes_nextLabel.andThen fun _ _ =>
        (notes_lowerStmts hsplice yes site none).bind fun _ _ =>
          (notes_lowerStmts hsplice no site none).andPure fun _ _ => notes_pure trivial
  | .loop .testFirst test body span, site => by
    rw [lowerStmt, Stmt.findings]
    exact notes_nextLabel.andThen fun _ _ => notes_nextLabel.andThen fun endLabel _ =>
      (notes_lowerExpr _ test).bind fun _ _ =>
        (notes_lowerStmts hsplice body (site.insideLoop endLabel) none).leaveLoop.andPure
          fun _ _ => notes_pure trivial
  | .loop .testLast test body span, site => by
    rw [lowerStmt, Stmt.findings]
    exact notes_nextLabel.andThen fun _ _ => notes_nextLabel.andThen fun endLabel _ =>
      (notes_lowerStmts hsplice body (site.insideLoop endLabel) none).leaveLoop.bind fun _ _ =>
        (notes_lowerExpr _ test).andPure fun _ _ => notes_pure trivial
  | .brk span, site => by
    rw [lowerStmt, Stmt.findings]
    cases site.loopEnds with
    | nil => exact notes_report.andPure fun _ _ => notes_pure trivial
    | cons endLabel rest => exact notes_pure trivial
  | .throw value span, site => by
    rw [lowerStmt, Stmt.findings]
    exact (notes_lowerExpr _ value).andPure fun _ _ => notes_pure trivial
  | .attempt body name handler span, site => by
    rw [lowerStmt, Stmt.findings]
    have hhandler (catchVar : Option String) :=
      (notes_lowerStmts hsplice handler site none).andPure (R := fun _ => True)
        (f := fun code => pure (catchVar, code)) fun _ _ => notes_pure trivial
    refine (notes_lowerStmts hsplice body site none).inScope.bind fun _ _ => ?_
    cases name with
    | none => exact (hhandler none).inScope.andPure fun _ _ => notes_pure trivial
    | some name =>
      exact ((notes_declareName name).andThen fun name _ => hhandler (some name)).inScope.andPure
        fun _ _ => notes_pure trivial
  | .branch .., site => by
    rw [lowerStmt, Stmt.findings]
    exact notes_pure trivial
  | .label .., site => by
    rw [lowerStmt, Stmt.findings]
    exact notes_pure trivial
  | .goto .., site => by
    rw [lowerStmt, Stmt.findings]
    exact notes_pure trivial

/-- Lowering statements reports what is wrong in them. -/
theorem notes_lowerStmts (hsplice : Quiet splice) :
    ∀ (block : List Stmt) (site : Site) (after : Option Span),
      Notes site (Stmt.findingsOf setting.program (!site.loopEnds.isEmpty) after block)
        (fun _ => True) (lowerStmts setting splice site after block)
  | [], site, after => by
    rw [lowerStmts, Stmt.findingsOf]
    exact notes_pure trivial
  | stmt :: rest, site, after => by
    rw [lowerStmts, Stmt.findingsOf]
    exact notes_report.bind fun _ _ => (notes_lowerStmt hsplice stmt site).bind fun _ _ =>
      (notes_lowerStmts hsplice rest site (terminal? stmt)).andPure fun _ _ => notes_pure trivial

end

/-- However deep copies may nest, they report nothing. -/
theorem lowerBlock_quiet (setting : Setting) (depth : Nat) : Quiet (lowerBlock setting depth) := by
  induction depth with
  | zero => exact fun _ _ _ => notes_pure trivial
  | succ depth ih =>
    intro site block hcopy s
    have h : Notes site _ (fun _ => True) (lowerBlock setting (depth + 1) site block) :=
      notes_lowerStmts ih block site none
    refine ⟨trivial, (h s).2.trans ?_⟩
    rw [Site.noted_nil, Site.noted, hcopy]
    rfl

/-- Lowering methods reports what is wrong in each of them. -/
theorem notes_lowerMethods (setting : Setting) :
    ∀ ms : List Method, Notes Site.top
      (ms.flatMap fun m => Stmt.findingsOf setting.program false none m.body) (fun _ => True)
      (lowerMethods setting ms)
  | [] => notes_pure trivial
  | m :: ms => by
    rw [List.flatMap_cons]
    refine Notes.bind (Q := fun _ => True) ?_ fun _ _ =>
      (notes_lowerMethods setting ms).andPure fun _ _ => notes_pure trivial
    exact (notes_lowerStmts (lowerBlock_quiet setting _) m.body Site.top none).withRenaming.andPure
      fun _ _ => notes_pure trivial

/-- Checking globals reports what is wrong in their first values. -/
theorem notes_checkGlobals (p : Program) :
    ∀ gs : List Global, Notes Site.top (gs.flatMap (Global.findings p)) (fun _ => True)
      (checkGlobals p gs)
  | [] => notes_pure trivial
  | g :: gs => by
    rw [List.flatMap_cons, checkGlobals, Global.findings]
    cases g.init with
    | none => exact notes_checkGlobals p gs
    | some init =>
      rw [Option.toList_some, List.flatMap_singleton]
      exact notes_report.bind fun _ _ => notes_checkGlobals p gs

end Functions

/-- The errors and warnings of lowering are what is wrong in the program. -/
theorem grave_diagnostics {p : Program} (hp : p.lowered = false) (options : Options) :
    (p.lower options).diagnostics.filter (·.isGrave) = p.findings.filter (·.isGrave) := by
  have hnotes : Notes Site.top p.findings (fun _ => True) (lowerProgram ⟨p, options⟩) :=
    notes_report.bind fun _ _ => (notes_lowerMethods ⟨p, options⟩ p.methods).bind fun _ _ =>
      (notes_checkGlobals p p.globals).andPure fun _ _ => notes_pure trivial
  unfold Program.lower
  rw [hp]
  exact (hnotes {}).2

/-- A program without errors has no errors among what is wrong in it. -/
theorem findings_of_hasErrors {p : Program} (hp : p.lowered = false) {options : Options}
    (h : (p.lower options).hasErrors = false) : ∀ d ∈ p.findings, d.isError = false := by
  intro d hd
  cases herror : d.isError with
  | false => rfl
  | true =>
    have hgrave : d ∈ p.findings.filter (·.isGrave) :=
      List.mem_filter.mpr ⟨hd, Diagnostic.isGrave_of_isError herror⟩
    rw [← grave_diagnostics hp options] at hgrave
    exact absurd herror (List.any_eq_false.mp h d (List.mem_filter.mp hgrave).1)

end Lowering

end Stepwise
