import Stepwise.Program.Construct
import Stepwise.Proofs.Lowering.Refusals

/-!
# Every error is reported once

The calls, the misplaced breaks and the repeated methods of a program can be
listed without lowering it. Lowering reports each entry of these lists that is
wrong once, at its own place, however often its method is copied: the errors
are the entries in some order. Since errors and warnings can be read off the
program, they are the same for all options.
-/

namespace Stepwise

/-- A call of a program method as it stands in the source. -/
structure CallSite where
  /-- The method that it names. -/
  method : String
  /-- The number of arguments that it passes. -/
  given : Nat
  /-- Where it stands. -/
  span : Span

/-- The error of a call that names no method, or a method with another number
of parameters. -/
def CallSite.problem? (p : Program) (c : CallSite) : Option Diagnostic :=
  match p.method? c.method with
  | none => some ⟨c.span, .unresolvedMethod c.method⟩
  | some callee =>
    if callee.params.length = c.given then none
    else some ⟨c.span, .arityMismatch c.method callee.params.length c.given⟩

mutual

/-- The calls in an expression, outer ones first. -/
def Expr.callSites : Expr → List CallSite
  | .literal .. | .var .. | .staticProperty .. => []
  | .property object _ _ => object.callSites
  | .index target position _ => target.callSites ++ position.callSites
  | .binary _ left right _ => left.callSites ++ right.callSites
  | .unary _ operand _ => operand.callSites
  | .call method args span => ⟨method, args.length, span⟩ :: Expr.listCallSites args
  | .callStatic _ _ args _ | .create _ args _ => Expr.listCallSites args
  | .callOn object _ args _ => object.callSites ++ Expr.listCallSites args
  | .array items _ => Expr.listCallSites items

/-- The calls in expressions. -/
def Expr.listCallSites : List Expr → List CallSite
  | [] => []
  | e :: rest => e.callSites ++ Expr.listCallSites rest

end

/-- The calls in the expressions of the statement itself. The test of a branch
is not looked at. -/
def Stmt.ownCallSites : Stmt → List CallSite
  | .branch .. => []
  | stmt => stmt.exprs.flatMap Expr.callSites

/-- The calls in a statement, at any depth. -/
def Stmt.callSites (stmt : Stmt) : List CallSite := stmt.parts.flatMap ownCallSites

/-- The calls in a block, at any depth. -/
def Block.callSites (block : Block) : List CallSite :=
  (Stmt.partsOf block).flatMap Stmt.ownCallSites

namespace Program

/-- The calls in a program. -/
def callSites (p : Program) : List CallSite :=
  p.methods.flatMap (fun m => Block.callSites m.body) ++
    p.globals.flatMap (fun g => g.init.toList.flatMap Expr.callSites)

/-- The places of the breaks that stand in no loop of their method. -/
def strayBreaks (p : Program) : List Span := p.methods.flatMap fun m => Stmt.straysAll m.body

/-- The methods behind a method of the same name. -/
def repeatedMethods (p : Program) : List Method :=
  (p.methods.zipIdx.filter fun (m, i) => (p.methods.take i).any (·.name == m.name)).map (·.1)

/-- Every error of a program: repeated methods, wrong calls and misplaced breaks. -/
def errorList (p : Program) : List Diagnostic :=
  p.repeatedMethods.map (fun m => ⟨m.span, .duplicateMethod m.name⟩) ++
    (p.callSites.filterMap (·.problem? p) ++ p.strayBreaks.map (⟨·, .breakOutsideLoop⟩))

end Program

section Calls

variable {p : Program}

/-- The error of a call, and the problem that checking it finds. -/
theorem CallSite.toList_problem? (c : CallSite) :
    (c.problem? p).toList = p.callProblem c.method c.given c.span := by
  unfold problem? Program.callProblem Program.resolve
  cases p.method? c.method with
  | none => rfl
  | some callee =>
    by_cases h : callee.params.length = c.given <;> simp [h]

mutual

/-- Checking an expression finds each wrong call once. -/
theorem Expr.callProblems_perm :
    ∀ e : Expr, (e.callProblems p).Perm (e.callSites.filterMap (·.problem? p))
  | .literal .. | .var .. | .staticProperty .. => by
    rw [callProblems, callSites]
    exact .nil
  | .property object _ _ => by
    rw [callProblems, callSites]
    exact callProblems_perm object
  | .index target position _ => by
    rw [callProblems, callSites, List.filterMap_append]
    exact (callProblems_perm target).append (callProblems_perm position)
  | .binary _ left right _ => by
    rw [callProblems, callSites, List.filterMap_append]
    exact (callProblems_perm left).append (callProblems_perm right)
  | .unary _ operand _ => by
    rw [callProblems, callSites]
    exact callProblems_perm operand
  | .call method args span => by
    have hown := CallSite.toList_problem? (p := p) ⟨method, args.length, span⟩
    rw [callProblems, callSites, ← List.singleton_append, List.filterMap_append,
      show p.callProblem method args.length span = _ from hown.symm]
    refine List.perm_append_comm.trans (.append ?_ (listProblems_perm args))
    cases h : CallSite.problem? p ⟨method, args.length, span⟩ <;> simp [h]
  | .callStatic _ _ args _ | .create _ args _ => by
    rw [callProblems, callSites]
    exact listProblems_perm args
  | .callOn object _ args _ => by
    rw [callProblems, callSites, List.filterMap_append]
    exact List.perm_append_comm.trans ((callProblems_perm object).append (listProblems_perm args))
  | .array items _ => by
    rw [callProblems, callSites]
    exact listProblems_perm items

/-- Checking expressions finds each wrong call once. -/
theorem Expr.listProblems_perm :
    ∀ es : List Expr, (listProblems p es).Perm ((listCallSites es).filterMap (·.problem? p))
  | [] => by
    rw [listProblems, listCallSites]
    exact .nil
  | e :: rest => by
    rw [listProblems, listCallSites, List.filterMap_append]
    exact (callProblems_perm e).append (listProblems_perm rest)

end

/-- Every problem of a call is an error, so the errors among them are all of them. -/
theorem Expr.count_errors (d : Diagnostic) (e : Expr) :
    ((e.callProblems p).filter (·.isError)).count d =
      (e.callSites.filterMap (·.problem? p)).count d := by
  rw [List.filter_eq_self.mpr (isError_of_callProblems e)]
  exact (callProblems_perm e).count_eq d

end Calls

namespace Stmt

section Sites

variable (test value : Expr) (yes no body handler rest : List Stmt) (span : Span)

theorem callSites_cond_none :
    (Stmt.cond test yes none span).callSites = test.callSites ++ Block.callSites yes := by
  simp [callSites, Block.callSites, parts, ownCallSites, exprs]

theorem callSites_cond_some :
    (Stmt.cond test yes (some no) span).callSites =
      test.callSites ++ (Block.callSites yes ++ Block.callSites no) := by
  simp [callSites, Block.callSites, parts, ownCallSites, exprs]

theorem callSites_loop (kind : LoopKind) :
    (Stmt.loop kind test body span).callSites = test.callSites ++ Block.callSites body := by
  simp [callSites, Block.callSites, parts, ownCallSites, exprs]

theorem callSites_attempt (name : Option String) :
    (Stmt.attempt body name handler span).callSites =
      Block.callSites body ++ Block.callSites handler := by
  simp [callSites, Block.callSites, parts, ownCallSites, exprs]

theorem callSites_cons (stmt : Stmt) :
    Block.callSites (stmt :: rest) = stmt.callSites ++ Block.callSites rest := by
  simp [callSites, Block.callSites, partsOf]

end Sites

/-- A warning is no error. -/
theorem filter_unreachable (after : Option Span) (stmt : Stmt) :
    (Lowering.unreachable after stmt).filter (·.isError) = [] := by
  unfold Lowering.unreachable
  split
  · split <;> rfl
  · rfl

/-- The errors of misplaced breaks, unless a loop is around them. -/
def breakErrors (inLoop : Bool) (places : List Span) : List Diagnostic :=
  if inLoop then [] else places.map (⟨·, .breakOutsideLoop⟩)

theorem breakErrors_append (inLoop : Bool) (a b : List Span) :
    breakErrors inLoop (a ++ b) = breakErrors inLoop a ++ breakErrors inLoop b := by
  cases inLoop <;> simp [breakErrors]

theorem breakErrors_nil (inLoop : Bool) : breakErrors inLoop [] = [] := by
  cases inLoop <;> rfl

variable {p : Program}

mutual

/-- Every error of a statement is found once. -/
theorem count_findings (d : Diagnostic) :
    ∀ (stmt : Stmt) (inLoop : Bool), ((stmt.findings p inLoop).filter (·.isError)).count d =
      (stmt.callSites.filterMap (·.problem? p)).count d +
        (breakErrors inLoop stmt.strays).count d
  | .cond test yes none _, inLoop => by
    have hyes := countAll_findings d yes inLoop none
    have htest := test.count_errors (p := p) d
    rw [findings, callSites_cond_none, strays]
    simp only [List.filter_append, List.filterMap_append, List.count_append]
    omega
  | .cond test yes (some no) _, inLoop => by
    have hyes := countAll_findings d yes inLoop none
    have hno := countAll_findings d no inLoop none
    have htest := test.count_errors (p := p) d
    rw [findings, callSites_cond_some, strays, breakErrors_append]
    simp only [List.filter_append, List.filterMap_append, List.count_append]
    omega
  | .loop .testFirst test body _, inLoop => by
    have hbody := countAll_findings d body true none
    have htest := test.count_errors (p := p) d
    rw [findings, callSites_loop, strays, breakErrors_nil]
    simp only [List.filter_append, List.filterMap_append, List.count_append, breakErrors,
      if_true, List.count_nil] at hbody ⊢
    omega
  | .loop .testLast test body _, inLoop => by
    have hbody := countAll_findings d body true none
    have htest := test.count_errors (p := p) d
    rw [findings, callSites_loop, strays, breakErrors_nil]
    simp only [List.filter_append, List.filterMap_append, List.count_append, breakErrors,
      if_true, List.count_nil] at hbody ⊢
    omega
  | .attempt body _ handler _, inLoop => by
    have hbody := countAll_findings d body inLoop none
    have hhandler := countAll_findings d handler inLoop none
    rw [findings, callSites_attempt, strays, breakErrors_append]
    simp only [List.filter_append, List.filterMap_append, List.count_append]
    omega
  | .declare _ _ none _, inLoop | .ret none _, inLoop => by
    simp [findings, callSites, parts, ownCallSites, exprs, strays, breakErrors_nil]
  | .declare _ _ (some e) _, inLoop | .ret (some e) _, inLoop | .throw e _, inLoop
  | .eval e _, inLoop => by
    simp [findings, callSites, parts, ownCallSites, exprs, strays, breakErrors_nil,
      e.count_errors (p := p) d]
  | .assign target value _, inLoop => by
    simp [findings, callSites, parts, ownCallSites, exprs, strays, breakErrors_nil,
      target.count_errors (p := p) d, value.count_errors (p := p) d]
  | .brk span, inLoop => by
    cases inLoop <;>
      simp [findings, callSites, parts, ownCallSites, exprs, strays, breakErrors,
        Diagnostic.isError, Problem.severity]
  | .branch .., inLoop | .label .., inLoop | .goto .., inLoop => by
    simp [findings, callSites, parts, ownCallSites, exprs, strays, breakErrors_nil]

/-- Every error of a block is found once. -/
theorem countAll_findings (d : Diagnostic) :
    ∀ (block : List Stmt) (inLoop : Bool) (after : Option Span),
      ((findingsOf p inLoop after block).filter (·.isError)).count d =
        ((Block.callSites block).filterMap (·.problem? p)).count d +
          (breakErrors inLoop (straysAll block)).count d
  | [], inLoop, after => by
    simp [findingsOf, Block.callSites, partsOf, straysAll, breakErrors_nil]
  | stmt :: rest, inLoop, after => by
    have hfirst := count_findings d stmt inLoop
    have hrest := countAll_findings d rest inLoop (Lowering.terminal? stmt)
    rw [findingsOf, callSites_cons, straysAll, breakErrors_append]
    simp only [List.filter_append, filter_unreachable, List.nil_append, List.filterMap_append,
      List.count_append]
    omega

end

end Stmt

namespace Lowering

/-- The methods whose name an earlier method has, given names seen before. -/
theorem duplicates_eq (ms : List Method) :
    ∀ (before : List Method) (seen : List String),
      (∀ name, name ∈ seen ↔ name ∈ before.map (·.name)) →
      duplicates seen ms =
        (((ms.zipIdx before.length).filter fun (m, i) =>
          ((before ++ ms).take i).any (·.name == m.name)).map (·.1)).map
            fun m => ⟨m.span, .duplicateMethod m.name⟩ := by
  induction ms with
  | nil => exact fun _ _ _ => rfl
  | cons m ms ih =>
    intro before seen hseen
    have hmem : seen.contains m.name = before.any (·.name == m.name) := by
      rw [Bool.eq_iff_iff, List.contains_iff_mem, hseen, List.any_eq_true, List.mem_map]
      simp
    have hrest := ih (before ++ [m])
    rw [List.length_append, List.length_singleton, List.append_assoc, List.singleton_append]
      at hrest
    rw [duplicates, List.zipIdx_cons, List.filter_cons]
    simp only [List.take_left', hmem]
    cases hknown : before.any (·.name == m.name) with
    | true =>
      rw [if_pos rfl, if_pos rfl, List.map_cons, List.map_cons, hrest seen ?_]
      intro name
      rw [hseen, List.map_append, List.mem_append, or_iff_left_of_imp]
      intro hname
      rw [List.map_singleton, List.mem_singleton] at hname
      rw [hname, ← hseen, ← List.contains_iff_mem, hmem, hknown]
    | false =>
      rw [if_neg (by simp), if_neg (by simp), hrest (m.name :: seen) ?_]
      intro name
      rw [List.mem_cons, hseen, List.map_append, List.mem_append, List.map_singleton,
        List.mem_singleton, or_comm]

section Programs

variable {p : Program}

/-- Every error of methods is found once. -/
theorem count_methods (d : Diagnostic) (ms : List Method) :
    ((ms.flatMap fun m => Stmt.findingsOf p false none m.body).filter (·.isError)).count d =
      ((ms.flatMap fun m => Block.callSites m.body).filterMap (·.problem? p)).count d +
        ((ms.flatMap fun m => Stmt.straysAll m.body).map (⟨·, .breakOutsideLoop⟩)).count d := by
  induction ms with
  | nil => simp
  | cons m ms ih =>
    have hbody := Stmt.countAll_findings (p := p) d m.body false none
    simp only [Stmt.breakErrors, Bool.false_eq_true, if_false] at hbody
    simp only [List.flatMap_cons, List.filter_append, List.filterMap_append, List.map_append,
      List.count_append]
    omega

/-- Every error of globals is found once. -/
theorem count_globals (d : Diagnostic) (gs : List Global) :
    ((gs.flatMap (Global.findings p)).filter (·.isError)).count d =
      ((gs.flatMap fun g => g.init.toList.flatMap Expr.callSites).filterMap
        (·.problem? p)).count d := by
  induction gs with
  | nil => simp
  | cons g gs ih =>
    simp only [List.flatMap_cons, List.filter_append, List.filterMap_append, List.count_append,
      ih, Global.findings]
    cases g.init with
    | none => simp
    | some init => simp [init.count_errors (p := p) d]

/-- Every error of a program is found once. -/
theorem findings_perm_errorList :
    (p.findings.filter (·.isError)).Perm p.errorList := by
  have hduplicates : duplicates [] p.methods =
      p.repeatedMethods.map fun m => ⟨m.span, .duplicateMethod m.name⟩ :=
    duplicates_eq p.methods [] [] (by simp)
  have herrors : ∀ d ∈ p.repeatedMethods.map fun m =>
      (⟨m.span, .duplicateMethod m.name⟩ : Diagnostic), d.isError = true := by
    intro d hd
    obtain ⟨m, -, rfl⟩ := List.mem_map.mp hd
    rfl
  rw [List.perm_iff_count]
  intro d
  have hmethods := count_methods (p := p) d p.methods
  have hglobals := count_globals (p := p) d p.globals
  unfold Program.findings Program.errorList Program.callSites Program.strayBreaks
  rw [hduplicates, List.filter_append, List.filter_append, List.filter_eq_self.mpr herrors]
  simp only [List.filterMap_append, List.count_append]
  omega

end Programs

end Lowering

/-- Errors and warnings do not depend on the options; every repeated method,
every wrong call outside of branches and every misplaced break is reported
once, at its own place; and refused copies are noted at most once for each
number of a method. -/
theorem Program.diagnosed_once {p : Program} (hp : p.lowered = false)
    (options options' : Lowering.Options) :
    (p.lower options).diagnostics.filter (·.isGrave) =
        (p.lower options').diagnostics.filter (·.isGrave) ∧
      (p.lower options).errors.Perm p.errorList ∧
      ∃ refused, Lowering.NotedOnce ⟨p, options⟩ refused (p.lower options).diagnostics := by
  have hgrave := Lowering.grave_diagnostics hp
  refine ⟨(hgrave options).trans (hgrave options').symm, ?_, Lowering.lower_notedOnce hp options⟩
  -- Errors are grave, so that they can be picked out after notes were left out.
  have herrors : ∀ found : List Diagnostic,
      (found.filter (·.isGrave)).filter (·.isError) = found.filter (·.isError) := by
    intro found
    rw [List.filter_filter]
    refine List.filter_congr fun d _ => ?_
    cases herror : d.isError with
    | false => rfl
    | true => rw [Diagnostic.isGrave_of_isError herror]; rfl
  unfold Lowering.Result.errors
  rw [← herrors, hgrave options, herrors]
  exact Lowering.findings_perm_errorList

/-- Two methods of one name, of which the first breaks outside of a loop, calls
what is not there, and calls itself with too few arguments, in a program whose
entry calls both itself and the first method, twice. -/
def Program.faulty : Program :=
  ((Program.empty.addMethod ((Method.start "Work").withParam "n" .scalar |>.withBody
      [.perform (.invoke "Missing" [.invoke "Work" []]), .leave])).addMethod
    ((Method.start "Main").withBody
      [.perform (.invoke "Work" [.ofLiteral (.int 1)]),
        .perform (.invoke "Work" [.ofLiteral (.int 2)]), .perform (.invoke "Main" [])])).addMethod
    (Method.start "Work")

/-- Each of the four errors is reported once, although two of the methods are
copied, and one note tells that the recursion is not copied for ever. -/
theorem Program.faulty_diagnosed_once :
    Program.faulty.lowered = false ∧
      Program.faulty.errorList.map (·.problem) =
        [.duplicateMethod "Work", .unresolvedMethod "Missing", .arityMismatch "Work" 1 0,
          .breakOutsideLoop] ∧
      (Lowering.notesOf (Program.faulty.lower ⟨true, 2⟩).diagnostics).map (·.problem) =
        [.inlineRefused "Main" 2] ∧
      (Program.faulty.lower ⟨true, 2⟩).diagnostics.filter (·.isGrave) =
        (Program.faulty.lower ⟨false, 0⟩).diagnostics.filter (·.isGrave) ∧
      (Program.faulty.lower ⟨true, 2⟩).errors.Perm Program.faulty.errorList ∧
      ∃ refused, Lowering.NotedOnce ⟨.faulty, ⟨true, 2⟩⟩ refused
        (Program.faulty.lower ⟨true, 2⟩).diagnostics :=
  ⟨rfl, by decide +kernel, by decide +kernel,
    Program.diagnosed_once (p := .faulty) rfl ⟨true, 2⟩ ⟨false, 0⟩⟩

end Stepwise
