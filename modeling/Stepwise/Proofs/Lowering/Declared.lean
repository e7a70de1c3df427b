import Stepwise.Program.Construct
import Stepwise.Proofs.Engine.Ahead
import Stepwise.Proofs.Program.Calls
import Stepwise.Proofs.Simulation.Program

/-!
# Declarations whose initial value is a call

Such a declaration is taken apart: the variable is declared empty, and the
call or a copy of the callee comes behind, with the variable as destination.
The arguments of the call are meant for the scope from before. In a copy the
variable has a new name, which hides nothing. Elsewhere it keeps its name, and
arguments that mention the name find the empty variable in place of the older
one. Where they do not, the code does what the declaration does.
-/

namespace Stepwise

open Engine Lowering Simulation

namespace Lowering

/-- A declaration whose initial value is a call. -/
structure CallDeclaration where
  /-- The name that is declared. -/
  name : String
  /-- The shape of the variable. -/
  shape : Shape
  /-- The method that is called. -/
  method : String
  /-- The arguments of the call. -/
  args : List Expr
  /-- Where the call stands. -/
  callSpan : Span
  /-- Where the declaration stands. -/
  span : Span

namespace CallDeclaration

/-- The call, with arguments as they stand somewhere. -/
def call (d : CallDeclaration) (args : List Expr) : Expr := .call d.method args d.callSpan

/-- The declaration as a statement. -/
def stmt (d : CallDeclaration) : Stmt := .declare d.name d.shape (some (d.call d.args)) d.span

/-- The arguments as they stand at a site. -/
def argsAt (d : CallDeclaration) (site : Site) (scopes : Renaming) : List Expr :=
  renderList site scopes d.args

/-- The code for a declaration, in which its variable is called `y`, sees the
scope from before and does what the declaration does. -/
structure SeesBefore (d : CallDeclaration) (setting : Setting) (nesting : Nat) (site : Site)
    (s : Progress) (y : String) (code : Block) (s' : Progress) : Prop where
  /-- Outside of copies the variable keeps its name. -/
  name : site.copy = none → y = d.name
  /-- The variable is declared first. A call follows that stores its value
  there, or else the callee can be copied. -/
  form : ∃ rest, code = .declare y d.shape none d.span :: rest ∧
    (rest = [.assign (localVar y d.span) (d.call (d.argsAt site s.scopes)) d.span] ∨
      ∃ callee, Inlinable setting site d.method d.args.length callee)
  /-- To the arguments every name denotes what it did before the declaration. -/
  args : ∀ w : World, w.Tidy → w.stack.frames ≠ [] → ∀ c : Cell, c.name = y →
    ∀ z ∈ Expr.listLocals (d.argsAt site s.scopes),
      (w.declare c).lookup? z false = w.lookup? z false
  /-- A call that is kept may be made before or after the variable is declared:
  whatever program runs, the two ways go side by side and leave the same variables. -/
  kept : ∀ (code : Code) (fuel : Nat) (inLoop : Bool) (w : World), w.Tidy → w.stack.frames ≠ [] →
    Run.Matches (.ahead y d.shape w.memory.cells.size) (World.SameVariables y)
      (execute code.program (calleesAt code fuel) inLoop
        (.declare y d.shape (some (d.call (d.argsAt site s.scopes))) d.span) w)
      ((execute code.program (calleesAt code fuel) inLoop (.declare y d.shape none d.span) >>=
        fun _ => execute code.program (calleesAt code fuel) inLoop
          (.assign (localVar y d.span) (d.call (d.argsAt site s.scopes)) d.span)) w)
  /-- With the call or with a copy of the callee, the code does in the lowered
  program what the declaration does in the program, if the methods of the program
  can be compared at all. -/
  passes : ∀ T : Tie, T.setting = setting → T.Fits → T.Known site s.supply →
    Ample setting site (nesting + 1) → ∀ (unsure : List String) (depth : Nat) (inLoop : Bool),
    (¬ T.sharp → Plain d.name) → (∀ z ∈ Expr.listLocals d.args, T.Usable unsure z) →
    Passes T T.strictTerms (Closed T) site [d.name] unsure
      (Onward T site s'.supply (unsure.filter (· ≠ d.name))) depth s.supply code s'.supply
      (T.source.step T.source.callees inLoop d.stmt)

end CallDeclaration

end Lowering

/-- Other names denote what they did before a variable was declared. -/
theorem World.Tidy.lookup?_declare_ne {w : World} (hw : w.Tidy) (hcall : w.stack.frames ≠ [])
    {c : Cell} {z : String} (hz : z ≠ c.name) :
    (w.declare c).lookup? z false = w.lookup? z false := by
  obtain ⟨f, below, hf⟩ := List.exists_cons_of_ne_nil hcall
  obtain ⟨scope, outer, hs⟩ := List.exists_cons_of_ne_nil (hw.scopes f (hf ▸ List.mem_cons_self))
  have hlocal : (w.stack.mapCurrent (·.bind c.name w.memory.cells.size)).lookup? z =
      w.stack.lookup? z := by
    simp only [CallStack.lookup?, CallStack.current?, CallStack.frames_mapCurrent hf, hf,
      List.head?_cons, Option.bind_some, Frame.lookup?, Frame.bind, hs, List.findSome?_cons,
      Scope.lookup_bind_ne _ _ hz]
  have hglobal : (w.memory.alloc c).2.global? z = w.memory.global? z := by
    have hold : ∀ g ∈ w.memory.globals, (w.memory.alloc c).2.cell g = w.memory.cell g := by
      intro g hg
      rw [Memory.cell_alloc, if_neg (Nat.ne_of_lt (hw.known g (List.mem_append_right _ hg)))]
    show w.memory.globals.find? _ = w.memory.globals.find? _
    generalize w.memory.globals = gs at hold
    induction gs with
    | nil => rfl
    | cons g gs ih =>
      simp only [List.find?_cons]
      rw [hold g List.mem_cons_self, ih fun g hg => hold g (List.mem_cons_of_mem _ hg)]
  unfold World.declare World.lookup?
  simp only [Memory.fst_alloc, hw.declare?_eq hf, hlocal, hglobal]

namespace Lowering

/-- A declaration with a call as initial value sees the scope from before the
new name, at every site, whether the call is kept or copied: in copies always,
and elsewhere if its arguments do not mention the name. -/
theorem call_declaration_sees_before {setting : Setting} {nesting : Nat} {site : Site}
    {d : CallDeclaration} {s s' : Progress} {code : Block}
    (hemits : Emits (lowerStmt setting (lowerBlock setting nesting) site d.stmt) s code s')
    (hnames : ∀ z y, s.scopes.lookup? z = some y → UpTo s.names y)
    (hbefore : site.copy = none → d.name ∉ Expr.listLocals d.args) :
    ∃ y, d.SeesBefore setting nesting site s y code s' := by
  rw [CallDeclaration.stmt, CallDeclaration.call, lowerStmt] at hemits
  obtain ⟨s₁, y, s₂, rest, hs₁, hy, hrest, hcode⟩ := emits_lowerDeclare_call hemits
  have hname : site.copy = none → y = d.name := fun hc =>
    (emits_declareName_top (by rw [hc]; rfl) hy).1
  -- The arguments have names from before, and the variable has one of its own.
  have hargs : y ∉ Expr.listLocals (d.argsAt site s.scopes) := by
    rw [CallDeclaration.argsAt, listLocals_renderList, List.mem_filterMap]
    rintro ⟨z, hz, hn⟩
    cases hc : site.copy with
    | none =>
      simp only [naming, hc, Option.isNone_none, if_true, Option.some.injEq] at hn
      exact hbefore hc (hname hc ▸ hn ▸ hz)
    | some target =>
      obtain ⟨hfresh, -⟩ := emits_declareName_copy (by rw [hc]; rfl) hy
      simp only [naming, hc, Option.isNone_some, Bool.false_eq_true, if_false] at hn
      obtain ⟨recalled, n, hle, hold⟩ := hnames z y hn
      have hnumber := fresh_number (hold.symm.trans hfresh)
      have hsame : s₁.names = s.names := congrArg Supply.names hs₁
      omega
  refine ⟨y, hname, ⟨rest, hcode, ?_⟩, ?_, ?_, ?_⟩
  · obtain ⟨hkept, -⟩ | ⟨callee, hcallee, -⟩ := emits_emitCall hrest
    · exact .inl hkept
    · have hlength : (renderList site s.scopes d.args).length = d.args.length := by
        unfold renderList
        split
        · rfl
        · exact Expr.length_renameList _ _
      exact .inr ⟨callee, hlength ▸ hcallee⟩
  · rintro w hw hcall c rfl z hz
    exact hw.lookup?_declare_ne hcall fun he => hargs (he ▸ hz)
  · intro code fuel inLoop w hw hcall
    refine declare_ahead_matches code fuel inLoop d.shape d.span ?_ hw hcall
    rwa [CallDeclaration.call, Expr.locals]
  · rintro T rfl hfits hk hample unsure depth inLoop hplain husable
    have hscene : Scene T depth nesting site := ⟨hfits, fun _ => bodySim hfits _, hample⟩
    refine (lowerDeclare_call_passes hscene hk hplain ?_ ?_ hemits).step
    · intro z hz hne
      simp [hz, hne]
    · intro z hz
      refine ⟨fun hm => ?_, (husable z hz).2⟩
      rcases List.mem_append.mp hm with hm | hm
      · cases hc : site.copy with
        | none =>
          rw [hiddenAhead, hc] at hm
          exact hbefore hc (List.mem_singleton.mp hm ▸ hz)
        | some target =>
          rw [hiddenAhead, hc] at hm
          cases hm
      · exact (husable z hz).1 hm

end Lowering

/-- A method that tests for five, and one that calls it with a variable that
holds five, to declare a variable with the answer. -/
def Program.handing (y : String) : Program :=
  (Program.empty.addMethod ((Method.start "Test").withParam "n" .scalar |>.withBody
      [.ifThen (.op .eq (.named "n") (.ofLiteral (.int 5)))
          [.giveBack (some (.ofLiteral (.int 1)))],
        .giveBack (some (.ofLiteral (.int 0)))])).addMethod
    ((Method.start "Main").withBody
      [.scalarVar "x" (some (.ofLiteral (.int 5))),
        .scalarVar y (some (.invoke "Test" [.named "x"])), .giveBack (some (.named y))])

/-- The declaration with the call. -/
def Lowering.CallDeclaration.handing (y : String) : CallDeclaration :=
  ⟨y, .scalar, "Test", [.named "x"], Span.blank, Span.blank⟩

/-- Under another name the declaration sees what it should. -/
theorem Program.handing_sees_before :
    ∃ code s', Emits (lowerStmt ⟨.handing "z", {}⟩ (lowerBlock ⟨.handing "z", {}⟩ 4) Site.top
        (CallDeclaration.handing "z").stmt) {} code s' ∧
      (∃ y, (CallDeclaration.handing "z").SeesBefore ⟨.handing "z", {}⟩ 4 Site.top {} y code s') ∧
      ∃ T : Tie, T.setting = ⟨.handing "z", {}⟩ ∧ T.Fits ∧
        T.Known Site.top ({} : Progress).supply ∧ Ample T.setting Site.top 5 ∧
        ∀ z ∈ Expr.listLocals (CallDeclaration.handing "z").args, T.Usable [] z := by
  let p := Program.handing "z"
  refine ⟨_, _, rfl, call_declaration_sees_before rfl nofun (by decide), ?_⟩
  have hstructured : p.Structured := by
    show ∀ m ∈ p.methods, ∀ part ∈ Stmt.partsOf m.body, part.isJumpCode = false
    decide
  have hleak : p.LeakFree := by
    show ∀ m ∈ p.methods, m.LeakFree
    decide
  have hplain : p.PlainNames := by
    show ∀ m ∈ p.methods, (∀ param ∈ m.params, Plain param.name) ∧
      ∀ part ∈ Stmt.partsOf m.body, ∀ x ∈ part.names, Plain x
    decide
  have hreturns : p.Returns (·.callFree p = true) := by
    show ∀ m ∈ p.methods, ∀ part ∈ Stmt.partsOf m.body, ∀ e ∈ part.returned?, e.callFree p = true
    decide
  let T := Tie.withCopies ((Machine.engine ⟨p, {}⟩).watched refusalsAndDepth) ⟨p, {}⟩ rfl rfl 0
    (·.callFree p = true) (fun _ _ he => (settled_eq_of_callFree he).symm)
    (fun _ _ _ he => by
      rw [Expr.callFree, Bool.and_eq_true] at he
      exact he.2) rfl
  refine ⟨T, rfl, Tie.fits_of rfl hstructured hleak (fun _ => hplain) hreturns, known_top T rfl,
    Ample.top _, ?_⟩
  show ∀ z ∈ ["x"], z ∉ [] ∧ (¬ False → Plain z)
  decide

/-- Under the name of the argument itself, the lowered program tests an empty
variable, with copies and without. -/
theorem Program.handing_itself_empty :
    (Program.handing "x").lowered = false ∧ (Program.handing "x").Structured ∧
      ((Program.handing "x").lower {}).hasErrors = false ∧
      (((Program.handing "x").method? "Main").bind fun m =>
        (invokeOn ⟨.handing "x", {}⟩ 20 0 m [] {}).integer?) = some 1 ∧
      ((((Program.handing "x").lower ⟨false, 2⟩).program.method? "Main").bind fun m =>
        (invokeOn ⟨((Program.handing "x").lower ⟨false, 2⟩).program, {}⟩ 20 0 m []
          {}).integer?) = some 0 ∧
      ((((Program.handing "x").lower ⟨true, 2⟩).program.method? "Main").bind fun m =>
        (invokeOn ⟨((Program.handing "x").lower ⟨true, 2⟩).program, {}⟩ 20 0 m []
          {}).integer?) = some 0 := by
  refine ⟨rfl, ?_, by decide +kernel, by decide +kernel, by decide +kernel, by decide +kernel⟩
  show ∀ m ∈ (Program.handing "x").methods, ∀ part ∈ Stmt.partsOf m.body, part.isJumpCode = false
  decide

end Stepwise
