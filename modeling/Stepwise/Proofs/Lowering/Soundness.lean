import Stepwise.Program.Construct
import Stepwise.Proofs.Engine.Checked
import Stepwise.Proofs.Engine.Observation
import Stepwise.Proofs.Lowering.Wellformed

/-!
# Sound diagnostics

If lowering a structured program reports no error, the lowered program is
checked: every call of it, also in copies and behind calls that were moved
out of expressions, is a call of the program and was found right there, all
jumps land, and no `break` is left. Hence no run of it raises a fault that
the diagnostics are there to prevent.
-/

namespace Stepwise

namespace Lowering

variable {p : Program} {options : Options}

/-- Nothing is wrong with calls if no errors are among what is wrong. -/
theorem callProblems_of_no_errors {found : List Diagnostic} {e : Expr}
    (hfound : ∀ d ∈ found, d.isError = false) (he : ∀ d ∈ e.callProblems p, d ∈ found) :
    e.callProblems p = [] := by
  refine List.eq_nil_iff_forall_not_mem.mpr fun d hd => ?_
  have herror := Expr.isError_of_callProblems e d hd
  rw [hfound d (he d hd)] at herror
  cases herror

/-- The calls of structured methods are right if no errors are reported. -/
theorem calls_of_no_errors (hp : p.lowered = false) (hstructured : p.Structured)
    (h : (p.lower options).hasErrors = false) :
    ∀ m ∈ p.methods, Stmt.everyAll (Stmt.CallsOnly p.Answers) m.body := by
  intro m hm part hpart e he
  refine (Expr.callProblems_eq_nil e).mp (callProblems_of_no_errors (findings_of_hasErrors hp h) ?_)
  exact fun d hd =>
    mem_findings hm (Stmt.callsAll_findings he hd m.body false none (hstructured m hm) hpart)

/-- The calls in first values of globals are right if no errors are reported. -/
theorem globals_of_no_errors (hp : p.lowered = false) (h : (p.lower options).hasErrors = false)
    {g : Global} (hg : g ∈ p.globals) {e : Expr} (he : e ∈ g.init) : e.callProblems p = [] := by
  refine callProblems_of_no_errors (findings_of_hasErrors hp h) fun d hd => ?_
  have hmem : d ∈ Global.findings p g := List.mem_flatMap.mpr ⟨e, Option.mem_toList.mpr he, hd⟩
  exact List.mem_append_right _ (List.mem_append_right _ (List.mem_flatMap.mpr ⟨g, hg, hmem⟩))

/-- A call that is right is right in the lowered program. -/
theorem lower_answers (hp : p.lowered = false) (options : Options) {call : String × Nat}
    (h : p.Answers call) : (p.lower options).program.Answers call := by
  obtain ⟨callee, hcallee⟩ := h
  have hlow := lower_method? hp options call.1
  unfold Program.resolve at hcallee
  cases hm : p.method? call.1 with
  | none =>
    rw [hm] at hcallee
    cases hcallee
  | some m =>
    simp only [hm] at hcallee hlow
    obtain ⟨m', hm', _, _, _, -, -, rfl⟩ := hlow
    by_cases hlen : (m.params.length == call.2) = true
    · exact ⟨_, by simp only [Program.resolve, hm', hlen]; rfl⟩
    · rw [if_neg hlen] at hcallee
      cases hcallee

/-- Lowering keeps the globals. -/
theorem lower_globals (hp : p.lowered = false) (options : Options) :
    (p.lower options).program.globals = p.globals := by
  obtain ⟨methods, s, s', -, -, hprogram⟩ := lower_program hp options
  rw [hprogram]

/-- Expressions whose calls are right have nothing wrong in the lowered program. -/
theorem lower_callProblems (hp : p.lowered = false) (options : Options) {e : Expr}
    (h : ∀ call ∈ e.calls, p.Answers call) : e.callProblems (p.lower options).program = [] :=
  (Expr.callProblems_eq_nil e).mpr fun call hc => lower_answers hp options (h call hc)

/-- The lowered form of a structured program without errors is checked. -/
theorem lower_checked (hp : p.lowered = false) (hstructured : p.Structured)
    (h : (p.lower options).hasErrors = false) : (p.lower options).program.Checked where
  bodies := by
    intro m' hm'
    have hcalls := calls_of_no_errors hp hstructured h
    obtain ⟨m, hm, n, n', hfragment⟩ := lower_fragment_of_mem hp options hcalls hm'
    refine ⟨hfragment.everyAll ?_ ?_, (lower_jumpsResolve hp hstructured options).lands m' hm', ?_⟩
    · exact fun stmt _ hstmt e he => lower_callProblems hp options (hstmt e he)
    · exact fun _ _ _ _ e he => absurd he List.not_mem_nil
    · refine .inr (List.eq_nil_iff_forall_not_mem.mpr fun span hs => ?_)
      cases findings_of_hasErrors hp h _ (stray_findings hp options hm' hs)
  flat := fun m' hm' => lower_flat hp options hm'
  globals := by
    intro g hg e he
    rw [lower_globals hp options] at hg
    exact lower_callProblems hp options
      ((Expr.callProblems_eq_nil e).mp (globals_of_no_errors hp h hg he))

end Lowering

/-- If lowering a structured program reports no error, then whatever is run of
the lowered program, from any world and under any limits, raises no fault that
the diagnostics are there to prevent. -/
theorem Program.Structured.lower_runsClear {p : Program} (hstructured : p.Structured)
    (hp : p.lowered = false) {options : Lowering.Options}
    (h : (p.lower options).hasErrors = false) (limits : Limits) (fuel : Nat) (w : World) :
    Engine.RunsClear ⟨(p.lower options).program, limits⟩ fuel w :=
  Engine.RunsClear.of_checked (Lowering.lower_checked hp hstructured h) fuel w

/-- A loop that is left from inside an `attempt` statement, which starts one
method with the value of another. A global gets its first value by a call. -/
def Program.relaying : Program :=
  (((Program.empty.addGlobal "seed" .scalar (some (.invoke "Twice" [.ofLiteral (.int 3)]))).addMethod
    ((Method.start "Twice").withParam "n" .scalar |>.withBody
      [.giveBack (some (.op .add (.named "n") (.named "n")))])).addMethod
    ((Method.start "Log").withParam "n" .scalar |>.asAsync.withBody
      [.perform (.invoke "Twice" [.named "n"])])).addMethod
    ((Method.start "Main").withParam "n" .scalar |>.withBody
      [.whileLoop (.op .gt (.named "n") (.ofLiteral (.int 0)))
        [.tryCatch [.perform (.invoke "Log" [.invoke "Twice" [.named "n"]]), .leave] (some "e")
          [.giveBack none]],
        .giveBack (some (.invoke "Twice" [.named "n"]))])

/-- Calls that are copied, moved, kept and started are all right. -/
theorem Program.relaying_runsClear :
    Program.relaying.Structured ∧ Program.relaying.lowered = false ∧
      (Program.relaying.lower {}).hasErrors = false ∧
      Engine.RunsClear ⟨(Program.relaying.lower {}).program, {}⟩ 20 {} ∧
      (((Program.relaying.lower {}).program.method? "Main").bind fun m =>
        (Engine.invokeOn ⟨(Program.relaying.lower {}).program, {}⟩ 20 0 m [.int 2] {}).integer?) =
          some 4 := by
  have hstructured : Program.relaying.Structured := by
    show ∀ m ∈ Program.relaying.methods, ∀ part ∈ Stmt.partsOf m.body, part.isJumpCode = false
    decide
  have herrors : (Program.relaying.lower {}).hasErrors = false := by decide +kernel
  exact ⟨hstructured, rfl, herrors, hstructured.lower_runsClear rfl herrors {} 20 {},
    by decide +kernel⟩

end Stepwise
