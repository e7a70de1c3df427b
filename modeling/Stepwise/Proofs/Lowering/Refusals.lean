import Mathlib.Data.List.Forall2
import Stepwise.Proofs.Lowering.Findings

/-!
# Refused copies

Lowering changes its state in three ways: it uses up labels and names, it
reports errors and warnings, and it notes that a copy was refused. What each
of these keeps is kept by lowering a whole program. In particular there is at
most one note for each number of a method, and every note is about a method of
the program.
-/

namespace Stepwise

/-- What is wrong with a call by itself is no note. -/
theorem Program.isGrave_of_callProblem {p : Program} {name : String} {given : Nat} {span : Span} :
    ∀ d ∈ p.callProblem name given span, d.isGrave = true :=
  fun _ hd => Diagnostic.isGrave_of_isError (isError_of_callProblem hd)

namespace Lowering

variable {α β : Type}

/-- A property of the state of lowering that every elementary change keeps. -/
structure Steady (setting : Setting) (I : Progress → Prop) : Prop where
  /-- It does not depend on labels and names. -/
  supply : ∀ {s : Progress} (labels names : Nat) (scopes : Renaming),
    I s → I { s with labels, names, scopes }
  /-- Errors and warnings keep it. -/
  grave : ∀ {s : Progress} {found : List Diagnostic}, (∀ d ∈ found, d.isGrave = true) →
    I s → I { s with diagnostics := s.diagnostics ++ found }
  /-- Notes about refused copies keep it. -/
  refusal : ∀ {s : Progress} {callee : Method} (span : Span), callee ∈ setting.program.methods →
    I s → I ((noteRefusal callee setting.options.recursionLimit span).run s).2

/-- A step of lowering keeps a property of the state. -/
def Keeps (I : Progress → Prop) (x : Lower α) : Prop := ∀ s, I s → I (x.run s).2

section Steps

variable {I : Progress → Prop}

theorem keeps_pure (a : α) : Keeps I (pure a) := fun _ hs => hs

theorem keeps_get : Keeps I (get : Lower Progress) := fun _ hs => hs

theorem Keeps.bind {x : Lower α} {f : α → Lower β} (hx : Keeps I x) (hf : ∀ a, Keeps I (f a)) :
    Keeps I (x >>= f) :=
  fun s hs => hf _ _ (hx s hs)

/-- A step before a value is put together. -/
theorem Keeps.andPure {x : Lower α} (hx : Keeps I x) (f : α → β) :
    Keeps I (x >>= fun a => pure (f a)) :=
  hx.bind fun a => keeps_pure (f a)

namespace Steady

variable {setting : Setting} (h : Steady setting I)

include h

theorem setScopes (scopes : Progress → Renaming) :
    Keeps I (modify fun s => { s with scopes := scopes s } : Lower PUnit) :=
  fun s hs => h.supply s.labels s.names (scopes s) hs

theorem nextLabel : Keeps I nextLabel :=
  fun s hs => h.supply (s.labels + 1) s.names s.scopes hs

theorem freshName (recalled : String) : Keeps I (freshName recalled) :=
  fun s hs => h.supply s.labels (s.names + 1) s.scopes hs

theorem report (site : Site) {found : List Diagnostic} (hfound : ∀ d ∈ found, d.isGrave = true) :
    Keeps I (report site found) := by
  unfold Lowering.report
  split
  · exact fun s hs => h.grave hfound hs
  · exact keeps_pure ()

theorem declareName (site : Site) (name : String) : Keeps I (declareName site name) := by
  unfold Lowering.declareName
  split
  · exact keeps_pure name
  · exact (h.freshName name).bind fun _ => (h.setScopes _).bind fun _ => keeps_pure _

theorem inScope {step : Lower α} (hstep : Keeps I step) : Keeps I (inScope step) :=
  (h.setScopes _).bind fun _ => hstep.bind fun _ => (h.setScopes _).bind fun _ => keeps_pure _

theorem withRenaming {step : Lower α} (hstep : Keeps I step) (scopes : Renaming) :
    Keeps I (withRenaming scopes step) :=
  keeps_get.bind fun _ => (h.setScopes _).bind fun _ => hstep.bind fun _ =>
    (h.setScopes _).bind fun _ => keeps_pure _

theorem lowerExpr (site : Site) (p : Program) (e : Expr) : Keeps I (lowerExpr p site e) := by
  refine (h.report site fun d hd =>
    Diagnostic.isGrave_of_isError (Expr.isError_of_callProblems e d hd)).bind fun _ => ?_
  split
  · exact keeps_pure e
  · exact keeps_get.andPure _

theorem lowerArgs (site : Site) (p : Program) (args : List Expr) :
    Keeps I (lowerArgs p site args) := by
  refine (h.report site fun d hd =>
    Diagnostic.isGrave_of_isError (Expr.isError_of_listProblems args d hd)).bind fun _ => ?_
  split
  · exact keeps_pure args
  · exact keeps_get.andPure _

theorem inlinee (site : Site) (name : String) (given : Nat) (span : Span) :
    Keeps I (inlinee? setting site name given span) := by
  have hproblem : ∀ d ∈ setting.program.callProblem name given span, d.isGrave = true :=
    Program.isGrave_of_callProblem
  unfold inlinee?
  unfold Program.callProblem at hproblem
  cases hresolve : setting.program.resolve name given with
  | error problem =>
    rw [hresolve] at hproblem
    exact (h.report site hproblem).bind fun _ => keeps_pure none
  | ok callee =>
    have hmem : callee ∈ setting.program.methods := by
      unfold Program.resolve at hresolve
      split at hresolve
      · cases hresolve
      · next m hm =>
        split at hresolve <;> cases hresolve
        exact Program.mem_of_method?_eq_some hm
    dsimp only
    split
    · exact keeps_pure none
    · split
      · have hnote : Keeps I (noteRefusal callee setting.options.recursionLimit span) :=
          fun _ hs => h.refusal span hmem hs
        exact hnote.bind fun _ => keeps_pure none
      · exact keeps_pure (some callee)

theorem bindParams (span : Span) :
    ∀ (params : List Param) (args : List Expr), Keeps I (bindParams span params args)
  | [], _ => keeps_pure _
  | _ :: _, [] => keeps_pure _
  | param :: params, _ :: args =>
    (h.freshName param.name).bind fun _ => (bindParams span params args).bind fun _ =>
      keeps_pure _

end Steady

end Steps

section Functions

/-- Copies keep a property of the state. -/
def SpliceKeeps (I : Progress → Prop) (splice : Splice) : Prop :=
  ∀ site block, Keeps I (splice site block)

variable {I : Progress → Prop} {setting : Setting} {splice : Splice}

theorem Steady.emitCall (h : Steady setting I) (hsplice : SpliceKeeps I splice)
    (site : Site) (name : String) (args : List Expr) (dest : Option Expr)
    (callSpan span : Span) :
    Keeps I (emitCall setting splice site name args dest callSpan span) := by
  refine (h.inlinee site name args.length callSpan).bind fun callee => ?_
  cases callee with
  | none => cases dest <;> exact keeps_pure _
  | some callee =>
    exact h.nextLabel.bind fun _ => h.nextLabel.bind fun _ => (h.freshName _).bind fun _ =>
      (h.bindParams span _ _).bind fun _ => (h.withRenaming (hsplice _ _) _).bind fun _ =>
        keeps_pure _

theorem Steady.lowerCall (h : Steady setting I) (hsplice : SpliceKeeps I splice)
    (site : Site) (name : String) (args : List Expr) (dest : Option Expr)
    (callSpan span : Span) :
    Keeps I (lowerCall setting splice site name args dest callSpan span) :=
  (h.lowerArgs site _ args).bind fun args => h.emitCall hsplice site name args dest callSpan span

mutual

theorem Steady.hoist (h : Steady setting I) (hsplice : SpliceKeeps I splice)
    (site : Site) : ∀ e : Expr, Keeps I (hoist setting splice site e)
  | .call method args span => by
    rw [Lowering.hoist]
    refine (Steady.hoistList h hsplice site args).bind fun _ => ?_
    dsimp only
    split
    · exact (h.freshName _).bind fun _ =>
        (h.emitCall hsplice site method _ _ span span).bind fun _ => keeps_pure _
    · exact (h.report site Program.isGrave_of_callProblem).bind fun _ => keeps_pure _
  | .callStatic _ _ args _ => by
    rw [Lowering.hoist]
    exact (Steady.hoistList h hsplice site args).bind fun _ => keeps_pure _
  | .callOn object _ args _ => by
    rw [Lowering.hoist]
    exact (Steady.hoistList h hsplice site args).bind fun _ =>
      (Steady.hoist h hsplice site object).bind fun _ => keeps_pure _
  | .binary op left right _ => by
    rw [Lowering.hoist]
    refine (Steady.hoist h hsplice site left).bind fun _ => ?_
    dsimp only
    split
    · exact (h.lowerExpr site _ right).bind fun _ => keeps_pure _
    · exact (Steady.hoist h hsplice site right).bind fun _ => keeps_pure _
  | .unary _ operand _ => by
    rw [Lowering.hoist]
    exact (Steady.hoist h hsplice site operand).bind fun _ => keeps_pure _
  | .index target position _ => by
    rw [Lowering.hoist]
    exact (Steady.hoist h hsplice site target).bind fun _ =>
      (Steady.hoist h hsplice site position).bind fun _ => keeps_pure _
  | .property object _ _ => by
    rw [Lowering.hoist]
    exact (Steady.hoist h hsplice site object).bind fun _ => keeps_pure _
  | .create _ args _ => by
    rw [Lowering.hoist]
    exact (Steady.hoistList h hsplice site args).bind fun _ => keeps_pure _
  | .array items _ => by
    rw [Lowering.hoist]
    exact (Steady.hoistList h hsplice site items).bind fun _ => keeps_pure _
  | .literal .. => by
    rw [Lowering.hoist]
    exact (h.lowerExpr site _ _).bind fun _ => keeps_pure _
  | .var .. => by
    rw [Lowering.hoist]
    exact (h.lowerExpr site _ _).bind fun _ => keeps_pure _
  | .staticProperty .. => by
    rw [Lowering.hoist]
    exact keeps_pure _

theorem Steady.hoistList (h : Steady setting I) (hsplice : SpliceKeeps I splice)
    (site : Site) :
    ∀ es : List Expr, Keeps I (hoistList setting splice site es)
  | [] => by
    rw [Lowering.hoistList]
    exact keeps_pure _
  | e :: rest => by
    rw [Lowering.hoistList]
    exact (Steady.hoist h hsplice site e).bind fun _ =>
      (Steady.hoistList h hsplice site rest).bind fun _ => keeps_pure _

end

theorem Steady.lowerReturn (h : Steady setting I) (hsplice : SpliceKeeps I splice)
    (site : Site) (value : Option Expr) (span : Span) :
    Keeps I (lowerReturn setting splice site value span) := by
  unfold Lowering.lowerReturn
  cases value with
  | none => cases site.copy <;> exact keeps_pure _
  | some value =>
    dsimp only
    unfold Lowering.lowerReturned
    split
    · exact (h.hoist hsplice site value).bind fun _ => keeps_pure _
    · dsimp only
      split
      · exact (h.lowerCall hsplice site _ _ _ _ span).bind fun _ => keeps_pure _
      · exact (h.hoist hsplice site value).bind fun _ => keeps_pure _

theorem Steady.lowerDeclare (h : Steady setting I) (hsplice : SpliceKeeps I splice)
    (site : Site) (name : String) (shape : Shape) (init : Option Expr)
    (span : Span) : Keeps I (lowerDeclare setting splice site name shape init span) := by
  unfold Lowering.lowerDeclare
  split
  · exact (h.lowerArgs site _ _).bind fun _ => (h.declareName site name).bind fun _ =>
      (h.emitCall hsplice site _ _ _ _ span).bind fun _ => keeps_pure _
  · exact (h.lowerExpr site _ _).bind fun _ => (h.declareName site name).bind fun _ =>
      keeps_pure _
  · exact (h.declareName site name).bind fun _ => keeps_pure _

theorem Steady.lowerAssign (h : Steady setting I) (hsplice : SpliceKeeps I splice)
    (site : Site) (target value : Expr) (span : Span) :
    Keeps I (lowerAssign setting splice site target value span) := by
  refine (h.lowerExpr site _ target).bind fun _ => ?_
  split
  · exact h.lowerCall hsplice site _ _ _ _ span
  · exact (h.lowerExpr site _ value).bind fun _ => keeps_pure _

theorem Steady.lowerEval (h : Steady setting I) (hsplice : SpliceKeeps I splice)
    (site : Site) (e : Expr) (span : Span) :
    Keeps I (lowerEval setting splice site e span) := by
  unfold Lowering.lowerEval
  split
  · exact h.lowerCall hsplice site _ _ _ _ span
  · exact (h.lowerExpr site _ e).bind fun _ => keeps_pure _

mutual

/-- Lowering a statement keeps what every elementary change keeps. -/
theorem Steady.lowerStmt (h : Steady setting I) (hsplice : SpliceKeeps I splice) :
    ∀ (stmt : Stmt) (site : Site), Keeps I (lowerStmt setting splice site stmt)
  | .declare name shape init span, site => by
    rw [Lowering.lowerStmt]
    exact h.lowerDeclare hsplice site name shape init span
  | .assign target value span, site => by
    rw [Lowering.lowerStmt]
    exact h.lowerAssign hsplice site target value span
  | .eval e span, site => by
    rw [Lowering.lowerStmt]
    exact h.lowerEval hsplice site e span
  | .ret value span, site => by
    rw [Lowering.lowerStmt]
    exact h.lowerReturn hsplice site value span
  | .cond test yes none span, site => by
    rw [Lowering.lowerStmt]
    exact (h.lowerExpr site _ test).bind fun _ => h.nextLabel.bind fun _ =>
      (Steady.lowerStmts h hsplice yes site none).bind fun _ => keeps_pure _
  | .cond test yes (some no) span, site => by
    rw [Lowering.lowerStmt]
    exact (h.lowerExpr site _ test).bind fun _ => h.nextLabel.bind fun _ =>
      h.nextLabel.bind fun _ => (Steady.lowerStmts h hsplice yes site none).bind fun _ =>
        (Steady.lowerStmts h hsplice no site none).bind fun _ => keeps_pure _
  | .loop .testFirst test body span, site => by
    rw [Lowering.lowerStmt]
    exact h.nextLabel.bind fun _ => h.nextLabel.bind fun _ =>
      (h.lowerExpr site _ test).bind fun _ =>
        (Steady.lowerStmts h hsplice body _ none).bind fun _ => keeps_pure _
  | .loop .testLast test body span, site => by
    rw [Lowering.lowerStmt]
    exact h.nextLabel.bind fun _ => h.nextLabel.bind fun _ =>
      (Steady.lowerStmts h hsplice body _ none).bind fun _ =>
        (h.lowerExpr site _ test).bind fun _ => keeps_pure _
  | .brk span, site => by
    rw [Lowering.lowerStmt]
    cases site.loopEnds with
    | cons endLabel rest => exact keeps_pure _
    | nil =>
      have hgrave : ∀ d ∈ [(⟨span, .breakOutsideLoop⟩ : Diagnostic)], d.isGrave = true := by
        simp [Diagnostic.isGrave, Problem.severity]
      exact (h.report site hgrave).bind fun _ => keeps_pure _
  | .throw value span, site => by
    rw [Lowering.lowerStmt]
    exact (h.lowerExpr site _ value).bind fun _ => keeps_pure _
  | .attempt body name handler span, site => by
    rw [Lowering.lowerStmt]
    have hhandler (catchVar : Option String) :
        Keeps I (do return (catchVar, ← Lowering.lowerStmts setting splice site none handler)) :=
      (Steady.lowerStmts h hsplice handler site none).bind fun _ => keeps_pure _
    refine (h.inScope (Steady.lowerStmts h hsplice body site none)).bind fun _ => ?_
    cases name with
    | none => exact (h.inScope (hhandler none)).bind fun _ => keeps_pure _
    | some name =>
      exact (h.inScope ((h.declareName site name).bind fun name => hhandler (some name))).bind
        fun _ => keeps_pure _
  | .branch .., site => by
    rw [Lowering.lowerStmt]
    exact keeps_pure _
  | .label .., site => by
    rw [Lowering.lowerStmt]
    exact keeps_pure _
  | .goto .., site => by
    rw [Lowering.lowerStmt]
    exact keeps_pure _

/-- Lowering statements keeps what every elementary change keeps. -/
theorem Steady.lowerStmts (h : Steady setting I) (hsplice : SpliceKeeps I splice) :
    ∀ (block : List Stmt) (site : Site) (after : Option Span),
      Keeps I (lowerStmts setting splice site after block)
  | [], site, after => by
    rw [Lowering.lowerStmts]
    exact keeps_pure _
  | stmt :: rest, site, after => by
    have hunreachable : ∀ d ∈ unreachable after stmt, d.isGrave = true := by
      unfold unreachable
      split
      · split <;> simp [Diagnostic.isGrave, Problem.severity]
      · simp
    rw [Lowering.lowerStmts]
    exact (h.report site hunreachable).bind fun _ =>
      (Steady.lowerStmt h hsplice stmt site).bind fun _ =>
      (Steady.lowerStmts h hsplice rest site _).bind fun _ => keeps_pure _

end

end Functions

section Programs

variable {I : Progress → Prop} {setting : Setting} (h : Steady setting I)

include h

/-- However deep copies may nest, they keep what every elementary change keeps. -/
theorem Steady.lowerBlock (depth : Nat) (site : Site) (block : Block) :
    Keeps I (lowerBlock setting depth site block) := by
  induction depth generalizing site block with
  | zero => exact keeps_pure []
  | succ depth ih => exact h.lowerStmts ih block site none

theorem Steady.lowerMethods : ∀ ms : List Method, Keeps I (lowerMethods setting ms)
  | [] => keeps_pure []
  | m :: ms =>
    ((h.withRenaming (h.lowerBlock setting.depth Site.top m.body) []).bind fun _ =>
      keeps_pure _).bind fun _ => (Steady.lowerMethods ms).bind fun _ => keeps_pure _

theorem Steady.checkGlobals (p : Program) : ∀ gs : List Global, Keeps I (checkGlobals p gs)
  | [] => keeps_pure ()
  | g :: gs => by
    rw [Lowering.checkGlobals]
    cases g.init with
    | none => exact (keeps_pure ()).bind fun _ => Steady.checkGlobals p gs
    | some init =>
      exact (h.report Site.top fun d hd =>
        Diagnostic.isGrave_of_isError (Expr.isError_of_callProblems init d hd)).bind fun _ =>
          Steady.checkGlobals p gs

omit h in
/-- Methods whose name comes up again are errors. -/
theorem isGrave_of_duplicates :
    ∀ (ms : List Method) (seen : List String), ∀ d ∈ duplicates seen ms, d.isGrave = true
  | [], _, d, hd => by simp [duplicates] at hd
  | m :: ms, seen, d, hd => by
    rw [duplicates] at hd
    split at hd
    · rcases List.mem_cons.mp hd with rfl | hd
      · rfl
      · exact isGrave_of_duplicates ms seen d hd
    · exact isGrave_of_duplicates ms _ d hd

/-- Lowering a program keeps what every elementary change keeps. -/
theorem Steady.lowerProgram : Keeps I (lowerProgram setting) :=
  (h.report Site.top (isGrave_of_duplicates _ _)).bind fun _ =>
    (h.lowerMethods _).bind fun _ => (h.checkGlobals _ _).bind fun _ => keeps_pure _

end Programs

/-- The notes among diagnostics. -/
def notesOf (found : List Diagnostic) : List Diagnostic := found.filter (!·.isGrave)

/-- Notes about refused copies, one for each of some methods of the program,
no two of which have the same number. -/
structure NotedOnce (setting : Setting) (refused : List Method) (found : List Diagnostic) :
    Prop where
  /-- The methods belong to the program. -/
  methods : ∀ m ∈ refused, m ∈ setting.program.methods
  /-- Their numbers are different. -/
  once : (refused.map (·.id)).Nodup
  /-- Each has its note, and there are no others. -/
  notes : List.Forall₂ (fun m d => d.problem = .inlineRefused m.name setting.options.recursionLimit)
    refused (notesOf found)

/-- The state remembers the numbers of the methods that were noted. -/
def Progress.NotedOnce (setting : Setting) (s : Progress) : Prop :=
  ∃ refused : List Method, s.refused.reverse = refused.map (·.id) ∧
    Lowering.NotedOnce setting refused s.diagnostics

/-- Errors and warnings are no notes. -/
theorem notesOf_append_grave {found found' : List Diagnostic}
    (h : ∀ d ∈ found', d.isGrave = true) : notesOf (found ++ found') = notesOf found := by
  have hnone : found'.filter (!·.isGrave) = [] :=
    List.filter_eq_nil_iff.mpr fun d hd => by simp [h d hd]
  rw [notesOf, List.filter_append, hnone, List.append_nil, notesOf]

/-- A method whose number has not been noted gets its note. -/
theorem NotedOnce.concat {setting : Setting} {refused : List Method} {found : List Diagnostic}
    (h : NotedOnce setting refused found) {callee : Method}
    (hmem : callee ∈ setting.program.methods) (hnew : callee.id ∉ refused.map (·.id))
    (span : Span) :
    NotedOnce setting (refused ++ [callee])
      (found ++ [⟨span, .inlineRefused callee.name setting.options.recursionLimit⟩]) where
  methods := by
    rw [List.forall_mem_append, List.forall_mem_singleton]
    exact ⟨h.methods, hmem⟩
  once := by
    rw [List.map_append, List.map_singleton]
    exact List.nodup_append.mpr ⟨h.once, by simp, fun a ha b hb hab =>
      hnew (List.mem_singleton.mp hb ▸ hab ▸ ha)⟩
  notes := by
    rw [notesOf, List.filter_append]
    exact List.rel_append h.notes (.cons rfl .nil)

/-- Lowering notes a refused copy at most once for each number of a method. -/
theorem notedOnce_steady (setting : Setting) : Steady setting (Progress.NotedOnce setting) where
  supply := fun _ _ _ hs => hs
  grave := by
    rintro s found hfound ⟨refused, hrefused, h⟩
    refine ⟨refused, hrefused, { h with notes := ?_ }⟩
    rw [notesOf_append_grave hfound]
    exact h.notes
  refusal := by
    rintro s callee span hmem ⟨refused, hrefused, h⟩
    have hids : callee.id ∈ s.refused ↔ callee.id ∈ refused.map (·.id) := by
      rw [← hrefused, List.mem_reverse]
    show Progress.NotedOnce setting (if s.refused.contains callee.id then s else _)
    split
    · exact ⟨refused, hrefused, h⟩
    · next hknown =>
      refine ⟨refused ++ [callee], by simp [hrefused], h.concat hmem (fun hm => hknown ?_) span⟩
      exact List.contains_iff_mem.mpr (hids.mpr hm)

/-- The notes of lowering are about methods of the program with different numbers. -/
theorem lower_notedOnce {p : Program} (hp : p.lowered = false) (options : Options) :
    ∃ refused, NotedOnce ⟨p, options⟩ refused (p.lower options).diagnostics := by
  have hstart : Progress.NotedOnce ⟨p, options⟩ {} := ⟨[], rfl, nofun, .nil, .nil⟩
  obtain ⟨refused, -, h⟩ := (notedOnce_steady ⟨p, options⟩).lowerProgram {} hstart
  refine ⟨refused, ?_⟩
  unfold Program.lower
  rw [hp]
  exact h

end Lowering

end Stepwise
