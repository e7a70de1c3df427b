import Stepwise.Engine.Task
import Stepwise.Proofs.Engine.Observation
import Stepwise.Proofs.Engine.Veil
import Stepwise.Proofs.Lowering.Mentions

/-!
# Names that copies could capture

A new name is an old one with a dollar sign and a number, and names of the
source may look like that, too. Where none of them has a number that is handed
out, no new name is a name of the program, and a copy has nothing to do with
variables of its caller but for the arguments and the destination of the call:
it does not name them, and running it neither looks at them nor changes them.
Otherwise a copy may declare a variable of its caller once more.
-/

namespace Stepwise

open Engine Lowering

namespace Program

/-- The names of all variables of a program: of globals, parameters, local
variables and exceptions. -/
def allNames (p : Program) : List String :=
  (p.globals.flatMap fun g => g.name :: g.init.toList.flatMap Expr.locals) ++
    p.methods.flatMap fun m => m.params.map (·.name) ++ Block.allNames m.body

/-- No name of the program is one that is handed out when it is lowered. -/
def AvoidsNew (p : Program) (options : Options) : Prop :=
  ∀ x ∈ p.allNames, ¬ Between 0 (p.namesDrawn options) x

end Program

/-- The names in the lowered form of a method. -/
def Method.OnlyNew (p : Program) (options : Options) (m m' : Method) : Prop :=
  ∀ y ∈ Block.allNames m'.body,
    y ∈ Block.allNames m.body ∨ y ∈ p.unrenamed options ∨ y ∉ p.allNames

namespace Lowering

/-- The code that stands for a call, where so many names were handed out before
it and so many after it, has to do with its arguments and its destination only. -/
structure MindsItself (p : Program) (options : Options) (args : List Expr) (dest : Option Expr)
    (before after : Nat) (code : Block) : Prop where
  /-- Names of variables: of the arguments, of the destination, of the test of a
  branch of the source, or new. -/
  names : ∀ y ∈ Block.allNames code, y ∈ Expr.listLocals args ∨ (∃ e ∈ dest, y ∈ e.locals) ∨
    y ∈ p.unrenamed options ∨ (Between before after y ∧ y ∉ p.allNames)
  /-- Names that are declared or stored to: of the destination, or new. -/
  writes : ∀ stmt ∈ Stmt.partsOf code, ∀ y ∈ stmt.writes,
    (∃ e ∈ dest, y ∈ e.stored) ∨ (Between before after y ∧ y ∉ p.allNames)
  /-- Running the code neither looks at nor changes other variables of the program,
  nor those that were introduced before or will be later. -/
  ignores : ∀ y, y ∉ Expr.listLocals args → (∀ e ∈ dest, y ∉ e.locals) →
    y ∉ p.unrenamed options → y ∈ p.allNames ∨ ¬ Between before after y → code.Ignores y

end Lowering

/-- Code that keeps to the names of its call and to new ones, none of which is
one of the program. -/
theorem Lowering.MindsItself.of_recites {p : Program} {options : Options} {args : List Expr}
    {dest : Option Expr} {c c' : Supply} {code : Block}
    (h : Recites (· ∈ p.unrenamed options)
      (fun y => y ∈ Expr.listLocals args ∨ ∃ e ∈ dest, y ∈ e.locals)
      (fun y => ∃ e ∈ dest, y ∈ e.stored) c code [] c')
    (happart : ∀ y, Between c.names c'.names y → y ∉ p.allNames) :
    MindsItself p options args dest c.names c'.names code := by
  have hnames : ∀ y ∈ Block.allNames code, y ∈ Expr.listLocals args ∨
      (∃ e ∈ dest, y ∈ e.locals) ∨ y ∈ p.unrenamed options ∨
        (Between c.names c'.names y ∧ y ∉ p.allNames) := by
    intro y hy
    obtain ⟨stmt, hs, hy⟩ := List.mem_flatMap.mp hy
    rcases (h.code stmt hs).names y hy with ((hy | hy) | hy) | hy
    · exact .inl hy
    · exact .inr (.inl hy)
    · exact .inr (.inr (.inr ⟨hy, happart y hy⟩))
    · exact .inr (.inr (.inl hy))
  refine ⟨hnames, fun stmt hs y hy => ?_, fun y hargs hdest hkept hold => ?_⟩
  · rcases (h.code stmt hs).writes y hy with hy | hy
    · exact .inl hy
    · exact .inr ⟨hy, happart y hy⟩
  · refine Block.ignores_of_notMem fun hy => ?_
    rcases hnames y hy with hy | ⟨e, he, hy⟩ | hy | ⟨hy, hy'⟩
    · exact hargs hy
    · exact hdest e he hy
    · exact hkept hy
    · exact hold.elim hy' fun h => h hy

/-- If no name of the program is one that is handed out, no name that lowering
introduces is one of the program, and the code for a call neither names nor
touches variables around it but those of the call. -/
theorem Program.AvoidsNew.captures_nothing {p : Program} {options : Options}
    (hnew : p.AvoidsNew options) :
    List.Forall₂ (Method.OnlyNew p options) p.methods (p.lower options).program.methods ∧
      ∀ {depth : Nat} {site : Site} {name : String} {args : List Expr} {dest : Option Expr}
        {callSpan span : Span} {s s' : Progress} {code : Block},
        Emits (emitCall ⟨p, options⟩ (lowerBlock ⟨p, options⟩ depth) site name args dest callSpan
          span) s code s' → s'.names ≤ p.namesDrawn options →
        MindsItself p options args dest s.names s'.names code := by
  refine ⟨?_, ?_⟩
  · cases hp : p.lowered with
    | true =>
      rw [Program.lower, hp]
      exact List.forall₂_same.mpr fun m _ y hy => .inl hy
    | false =>
      refine (p.lower_speaks hp options).imp fun m m' hspeaks y hy => ?_
      obtain ⟨stmt, hs, hy⟩ := List.mem_flatMap.mp hy
      rcases (hspeaks stmt hs).names y hy with (hy | hy) | hy
      · exact .inl hy
      · exact .inr (.inr fun hm => hnew y hm hy)
      · exact .inr (.inl hy)
  · intro depth site name args dest callSpan span s s' code h hdrawn
    have hrecites : Recites (· ∈ p.unrenamed options)
        (fun y => y ∈ Expr.listLocals args ∨ ∃ e ∈ dest, y ∈ e.locals)
        (fun y => ∃ e ∈ dest, y ∈ e.stored) s.supply code [] s'.supply :=
      emitCall_recites ⟨p.keptInCopies options, lowerBlock_mentions (p.keptInCopies options) depth⟩
        (fun y hy => .inl hy) (fun e he y hy => .inr ⟨e, he, hy⟩) (fun e he y hy => ⟨e, he, hy⟩) h
    refine .of_recites hrecites fun y hy hm => ?_
    exact hnew y hm (hy.mono (Nat.zero_le _) hdrawn)

/-- A method that returns its parameter, and one that calls it between
declaring a variable and returning that one. -/
def Program.bystanding (x : String) : Program :=
  (Program.empty.addMethod ((Method.start "Helper").withParam "n" .scalar |>.withBody
      [.giveBack (some (.named "n"))])).addMethod
    ((Method.start "Main").withBody
      [.scalarVar x (some (.ofLiteral (.int 5))),
        .perform (.invoke "Helper" [.ofLiteral (.int 7)]),
        .giveBack (some (.named x))])

/-- The call, lowered from the beginning on. -/
def Program.bystandingCall (x : String) : Lower Block :=
  emitCall ⟨.bystanding x, {}⟩ (lowerBlock ⟨.bystanding x, {}⟩ 4) Site.top "Helper"
    [.ofLiteral (.int 7)] none Span.blank Span.blank

/-- Two names are handed out for the copy, so that a variable with number nine
is left alone. -/
theorem Program.bystanding_captures_nothing :
    (Program.bystanding "n$9").AvoidsNew {} ∧ (Program.bystanding "n$9").unrenamed {} = [] ∧
      List.Forall₂ (Method.OnlyNew (.bystanding "n$9") {}) (Program.bystanding "n$9").methods
        ((Program.bystanding "n$9").lower {}).program.methods ∧
      ∃ code s', Emits (Program.bystandingCall "n$9") {} code s' ∧ s'.names = 2 ∧
        s'.names ≤ (Program.bystanding "n$9").namesDrawn {} ∧
        MindsItself (.bystanding "n$9") {} [.ofLiteral (.int 7)] none 0 s'.names code ∧
        code.Ignores "n$9" := by
  have hdrawn : (Program.bystanding "n$9").namesDrawn {} = 2 := by decide +kernel
  have hnew : (Program.bystanding "n$9").AvoidsNew {} := by
    intro x hx
    rw [hdrawn]
    have hx : x = "n" ∨ x = "n$9" := by
      have : ∀ x ∈ (Program.bystanding "n$9").allNames, x = "n" ∨ x = "n$9" := by decide +kernel
      exact this x hx
    rcases hx with rfl | rfl
    · exact not_between_of_plain (by decide)
    · rintro ⟨recalled, n, -, hn, he⟩
      have := fresh_number (show fresh "n" 9 = fresh recalled n from he)
      omega
  obtain ⟨hmethods, hcalls⟩ := hnew.captures_nothing
  obtain ⟨code, s', h⟩ : ∃ code s', Emits (Program.bystandingCall "n$9") {} code s' :=
    ⟨_, _, rfl⟩
  have hs' : s'.names = 2 :=
    (congrArg (fun r => r.2.names) h).symm.trans (by decide +kernel)
  have hle : s'.names ≤ (Program.bystanding "n$9").namesDrawn {} :=
    Nat.le_of_eq (hs'.trans hdrawn.symm)
  have hkept : (Program.bystanding "n$9").unrenamed {} = [] := by decide +kernel
  have hminds := hcalls h hle
  refine ⟨hnew, hkept, hmethods, code, s', h, hs', hle, hminds, ?_⟩
  refine hminds.ignores "n$9" (by decide) nofun (by rw [hkept]; exact List.not_mem_nil) (.inl ?_)
  decide +kernel

/-- A method with a branch on its parameter, and one that calls it while it has
a variable of that name. -/
def Program.peeking : Program :=
  (Program.empty.addMethod ((Method.start "Pick").withParam "x" .scalar |>.withBody
      [.branch (.op .eq (.named "x") (.ofLiteral (.int 1))) "other" Span.blank,
        .giveBack (some (.ofLiteral (.int 10))),
        .label "other" Span.blank,
        .giveBack (some (.ofLiteral (.int 20)))])).addMethod
    ((Method.start "Main").withBody
      [.scalarVar "x" (some (.ofLiteral (.int 2))),
        .giveBack (some (.invoke "Pick" [.ofLiteral (.int 1)]))])

/-- A variable of the caller with number two is declared once more for the
parameter of a copy, which then stores its argument there; and a copied branch
looks at a variable of the caller. -/
theorem Program.copies_capture :
    ("n$2" ∈ (Program.bystanding "n$2").allNames ∧
      (((Program.bystanding "n$2").method? "Main").map fun m =>
        (Stmt.declaredIn m.body).count "n$2") = some 1 ∧
      ((((Program.bystanding "n$2").lower {}).program.method? "Main").map fun m =>
        (Stmt.declaredIn m.body).count "n$2") = some 2 ∧
      (((Program.bystanding "n$2").method? "Main").bind fun m =>
        (invokeOn ⟨.bystanding "n$2", {}⟩ 20 0 m [] {}).integer?) = some 5 ∧
      ((((Program.bystanding "n$2").lower {}).program.method? "Main").bind fun m =>
        (invokeOn ⟨((Program.bystanding "n$2").lower {}).program, {}⟩ 20 0 m [] {}).integer?) =
          some 7) ∧
    ((Program.peeking.method? "Main").bind fun m =>
        (invokeOn ⟨.peeking, {}⟩ 20 0 m [] {}).integer?) = some 10 ∧
      (((Program.peeking.lower {}).program.method? "Main").bind fun m =>
        (invokeOn ⟨(Program.peeking.lower {}).program, {}⟩ 20 0 m [] {}).integer?) = some 20 := by
  refine ⟨⟨?_, ?_, ?_, ?_, ?_⟩, ?_, ?_⟩ <;> decide +kernel

end Stepwise
