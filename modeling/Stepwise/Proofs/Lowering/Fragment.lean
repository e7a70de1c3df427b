import Stepwise.Proofs.Lowering.Methods
import Stepwise.Proofs.Program.Calls

/-!
# Code by rules

The code that lowering gives out for the statements of a block is built from
a few forms: statements without jumps, copies between two labels, jumps
behind a copy or a loop, and the labels and branches of conditions and loops.
The rules of `Fragment` say which forms these are, and lowering follows them.
A property of all lowered code then needs one case for each rule.
-/

namespace Stepwise

/-- Statements with neither jumps nor blocks in them. -/
def Stmt.isSimple : Stmt → Bool
  | .declare .. | .assign .. | .ret .. | .throw .. | .eval .. => true
  | _ => false

namespace Lowering

/-- Code that lowering gives out for a block at a site, if labels up to one
number were handed out before and up to another one after it. Calls are of a
given kind. Code that comes from inside an expression counts as code for the
empty block. -/
inductive Fragment (setting : Setting) (C : String × Nat → Prop) :
    Site → List Stmt → Nat → Block → Nat → Prop
  | nil {site : Site} {n : Nat} : Fragment setting C site [] n [] n
  | append {site : Site} {a b : List Stmt} {n n₁ n₂ : Nat} {code code' : Block}
      (first : Fragment setting C site a n code n₁)
      (second : Fragment setting C site b n₁ code' n₂) :
      Fragment setting C site (a ++ b) n (code ++ code') n₂
  /-- A statement without jumps. -/
  | emit {site : Site} {n : Nat} {stmt : Stmt} (simple : stmt.isSimple = true)
      (calls : stmt.CallsOnly C) : Fragment setting C site [] n [stmt] n
  /-- A copy of a callee. -/
  | copy {site : Site} {name receiver : String} {given n n' : Nat} {callee : Method} {body : Block}
      (called : C (name, given)) (inlinable : Inlinable setting site name given callee)
      (inside : Fragment setting C (site.insideCopy callee ⟨receiver, Label.name (n + 1)⟩)
        callee.body (n + 2) body n') :
      Fragment setting C site [] n (mark (Label.name n) :: body ++ [mark (Label.name (n + 1))]) n'
  /-- A jump behind a copy. -/
  | leave {site : Site} {target : Target} {n : Nat} {span : Span}
      (inside : site.copy = some target) :
      Fragment setting C site [] n [.goto target.endLabel span] n
  /-- A statement of the source without jumps. -/
  | simple {site : Site} {stmt : Stmt} {n n' : Nat} {code : Block} (simple : stmt.isSimple = true)
      (inside : Fragment setting C site [] n code n') :
      Fragment setting C site [stmt] n code n'
  /-- A jump behind a loop. -/
  | breakLoop {site : Site} {endLabel : String} {rest : List String} {n : Nat} {span : Span}
      (inside : site.loopEnds = endLabel :: rest) :
      Fragment setting C site [.brk span] n [.goto endLabel span] n
  /-- A `break` outside of loops. -/
  | breakNothing {site : Site} {n : Nat} {span : Span} (outside : site.loopEnds = []) :
      Fragment setting C site [.brk span] n [.brk span] n
  /-- A condition with one branch. -/
  | condOne {site : Site} {test test' : Expr} {yes : List Stmt} {yes' : Block} {n n' : Nat}
      {span : Span} (calls : ∀ c ∈ test'.calls, C c)
      (inside : Fragment setting C site yes (n + 1) yes' n') :
      Fragment setting C site [.cond test yes none span] n
        (.branch test' (Label.name n) span :: yes' ++ [mark (Label.name n)]) n'
  /-- A condition with two branches. -/
  | condTwo {site : Site} {test test' : Expr} {yes no : List Stmt} {yes' no' : Block}
      {n n₁ n' : Nat} {span : Span} (calls : ∀ c ∈ test'.calls, C c)
      (first : Fragment setting C site yes (n + 2) yes' n₁)
      (second : Fragment setting C site no n₁ no' n') :
      Fragment setting C site [.cond test yes (some no) span] n
        (.branch test' (Label.name n) span :: yes' ++ jump (Label.name (n + 1)) ::
          mark (Label.name n) :: no' ++ [mark (Label.name (n + 1))]) n'
  /-- A loop that tests first. -/
  | loopFirst {site : Site} {test test' : Expr} {body : List Stmt} {body' : Block} {n n' : Nat}
      {span : Span} (calls : ∀ c ∈ test'.calls, C c)
      (inside : Fragment setting C (site.insideLoop (Label.name (n + 1))) body (n + 2) body' n') :
      Fragment setting C site [.loop .testFirst test body span] n
        (mark (Label.name n) :: .branch test' (Label.name (n + 1)) span :: body' ++
          [jump (Label.name n), mark (Label.name (n + 1))]) n'
  /-- A loop that tests last. -/
  | loopLast {site : Site} {test test' : Expr} {body : List Stmt} {body' : Block} {n n' : Nat}
      {span : Span} (calls : ∀ c ∈ test'.calls, C c)
      (inside : Fragment setting C (site.insideLoop (Label.name (n + 1))) body (n + 2) body' n') :
      Fragment setting C site [.loop .testLast test body span] n
        (mark (Label.name n) :: body' ++ [.branch test' (Label.name (n + 1)) span,
          jump (Label.name n), mark (Label.name (n + 1))]) n'
  /-- An `attempt` statement. -/
  | attempt {site : Site} {body handler : List Stmt} {body' handler' : Block}
      {name name' : Option String} {n n₁ n' : Nat} {span : Span}
      (first : Fragment setting C site body n body' n₁)
      (second : Fragment setting C site handler n₁ handler' n') :
      Fragment setting C site [.attempt body name handler span] n
        [.attempt body' name' handler' span] n'
  /-- Jump code of the source. -/
  | keep {site : Site} {stmt : Stmt} {n : Nat} (jumps : stmt.isJumpCode = true)
      (calls : stmt.CallsOnly C) : Fragment setting C site [stmt] n [stmt] n

namespace Fragment

variable {setting : Setting} {C : String × Nat → Prop} {site : Site} {a b : List Stmt}
  {n n₁ n' : Nat} {code code' : Block}

/-- Code from inside expressions before other such code. -/
theorem before (first : Fragment setting C site [] n code n₁)
    (second : Fragment setting C site b n₁ code' n') :
    Fragment setting C site b n (code ++ code') n' :=
  first.append second

/-- Code from inside expressions after other code. -/
theorem thenCode (first : Fragment setting C site a n code n₁)
    (second : Fragment setting C site [] n₁ code' n') :
    Fragment setting C site a n (code ++ code') n' := by
  have h := first.append second
  rwa [List.append_nil] at h

/-- The declaration of a variable without a value. -/
theorem emitDeclare (name : String) (shape : Shape) (span : Span) :
    Fragment setting C site [] n [.declare name shape none span] n :=
  emit rfl fun _ he => absurd he List.not_mem_nil

/-- Statements without jumps. -/
theorem emitAll (h : ∀ stmt ∈ code, stmt.isSimple = true ∧ stmt.CallsOnly C) :
    Fragment setting C site [] n code n := by
  induction code with
  | nil => exact .nil
  | cons stmt rest ih =>
    have hstmt := h stmt List.mem_cons_self
    exact (emit hstmt.1 hstmt.2).before (ih fun s hs => h s (List.mem_cons_of_mem _ hs))

end Fragment

section Following

variable {setting : Setting} {C : String × Nat → Prop} {site : Site} {s s' : Progress}

/-- An expression at a site has the calls that it has in the source. -/
theorem calls_render (scopes : Renaming) (e : Expr) : (render site scopes e).calls = e.calls := by
  unfold render
  split
  · rfl
  · exact Expr.calls_rename scopes e

/-- Copies follow the rules, as long as they may still be nested so deep. -/
def SpliceFragments (setting : Setting) (C : String × Nat → Prop) (depth : Nat) : Prop :=
  ∀ {site : Site} {block code : Block} {s s' : Progress}, Ample setting site depth →
    Stmt.everyAll (Stmt.CallsOnly C) block →
    Emits (lowerBlock setting depth site block) s code s' →
    Fragment setting C site block s.labels code s'.labels

/-- What all calls of the program are like. -/
structure Rules (setting : Setting) (C : String × Nat → Prop) (depth : Nat) : Prop where
  /-- The calls of all methods are of some kind. -/
  methods : ∀ m ∈ setting.program.methods, Stmt.everyAll (Stmt.CallsOnly C) m.body
  /-- Copies follow the rules. -/
  splice : SpliceFragments setting C depth

variable {depth : Nat}

/-- Declarations of parameters have the calls of the arguments. -/
theorem declarations_simple (span : Span) (n : Nat) (params : List Param) {args : List Expr}
    (hargs : ∀ c ∈ Expr.listCalls args, C c) :
    ∀ stmt ∈ declarations span n params args, stmt.isSimple = true ∧ stmt.CallsOnly C := by
  induction params generalizing n args with
  | nil => exact fun _ h => absurd h List.not_mem_nil
  | cons param params ih =>
    cases args with
    | nil => exact fun _ h => absurd h List.not_mem_nil
    | cons arg args =>
      rw [Expr.listCalls, List.forall_mem_append] at hargs
      intro stmt hs
      rcases List.mem_cons.mp hs with rfl | hs
      · exact ⟨rfl, by simpa [Stmt.CallsOnly, Stmt.exprs] using hargs.1⟩
      · exact ih (n + 1) hargs.2 stmt hs

/-- The statements of a call follow the rules. -/
theorem emitCall_fragment (rules : Rules setting C depth) (hsite : Ample setting site (depth + 1))
    {name : String} {args : List Expr} {dest : Option Expr} {callSpan span : Span} {code : Block}
    (hcall : ∀ c ∈ (Expr.call name args callSpan).calls, C c)
    (hdest : ∀ e ∈ dest, ∀ c ∈ e.calls, C c)
    (h : Emits (emitCall setting (lowerBlock setting depth) site name args dest callSpan span)
      s code s') : Fragment setting C site [] s.labels code s'.labels := by
  obtain ⟨rfl, hs⟩ | ⟨callee, hi, s₀, hs₀, s₁, body, s₂, hs₁, hbody, hs', rfl⟩ :=
    emits_emitCall h
  · rw [show s'.labels = s.labels from congrArg Supply.labels hs]
    refine .emitAll fun stmt hstmt => ?_
    unfold keptCall at hstmt
    split at hstmt
    · next target =>
      rw [List.mem_singleton] at hstmt
      subst hstmt
      refine ⟨rfl, fun e he => ?_⟩
      rcases List.mem_cons.mp he with rfl | he
      · exact hdest e rfl
      · rw [List.mem_singleton.mp he]
        exact hcall
    · rw [List.mem_singleton] at hstmt
      subst hstmt
      refine ⟨rfl, fun e he => ?_⟩
      rw [List.mem_singleton.mp he]
      exact hcall
  · rw [Expr.calls, List.forall_mem_append, List.forall_mem_singleton] at hcall
    have hinside := rules.splice (hsite.insideCopy hi _)
      (rules.methods callee (Program.mem_of_method?_eq_some hi.found)) hbody
    have hlabels : s₀.labels = s.labels := congrArg Supply.labels hs₀
    rw [show s₁.labels = s₀.labels + 2 from congrArg Supply.labels hs₁, hlabels] at hinside
    rw [show s'.labels = s₂.labels from congrArg Supply.labels hs', hlabels]
    have hresult : ∀ stmt ∈ passResult (fresh (callee.name ++ ".return") (s₀.names + 1)) dest span,
        stmt.isSimple = true ∧ stmt.CallsOnly C := by
      cases dest with
      | none => exact fun _ h => absurd h List.not_mem_nil
      | some target =>
        intro stmt hstmt
        rw [passResult, List.mem_singleton] at hstmt
        subst hstmt
        refine ⟨rfl, ?_⟩
        simpa [Stmt.CallsOnly, Stmt.exprs, localVar, Expr.calls] using hdest target rfl
    have hparams := declarations_simple span (s₀.names + 1) callee.params hcall.1
    have hcode := ((Fragment.emitAll hparams).before
      ((Fragment.emitDeclare (fresh (callee.name ++ ".return") (s₀.names + 1)) .dynamic span).before
        (Fragment.copy hcall.2 hi hinside))).thenCode (.emitAll hresult)
    simpa only [List.append_assoc, List.cons_append, List.nil_append] using hcode

/-- A call with its arguments as they stand at the site. -/
theorem lowerCall_fragment (rules : Rules setting C depth) (hsite : Ample setting site (depth + 1))
    {name : String} {args : List Expr} {dest : Option Expr} {callSpan span : Span} {code : Block}
    (hcall : ∀ c ∈ (Expr.call name args callSpan).calls, C c)
    (hdest : ∀ e ∈ dest, ∀ c ∈ e.calls, C c)
    (h : Emits (lowerCall setting (lowerBlock setting depth) site name args dest callSpan span)
      s code s') : Fragment setting C site [] s.labels code s'.labels := by
  obtain ⟨s₁, hs₁, hemit⟩ := emits_lowerCall h
  rw [← show s₁.labels = s.labels from congrArg Supply.labels hs₁]
  refine emitCall_fragment rules hsite ?_ hdest hemit
  rwa [← render_call, calls_render]

/-- What moving calls in front of an expression leaves of it. -/
structure Hoisted (setting : Setting) (C : String × Nat → Prop) (site : Site) (n : Nat)
    (before : Block) (calls : List (String × Nat)) (n' : Nat) : Prop where
  /-- The code in front. -/
  code : Fragment setting C site [] n before n'
  /-- The calls that stay. -/
  calls : ∀ c ∈ calls, C c

mutual

/-- Moving the calls of an expression in front of it follows the rules. -/
theorem hoist_fragment (rules : Rules setting C depth) (hsite : Ample setting site (depth + 1)) :
    ∀ (e : Expr) {s s' : Progress} {before : Block} {e' : Expr}, (∀ c ∈ e.calls, C c) →
      Emits (hoist setting (lowerBlock setting depth) site e) s (before, e') s' →
      Hoisted setting C site s.labels before e'.calls s'.labels
  | .call method args span, s, s', before, e', hc, h => by
    obtain ⟨b, as, s₁, hb, hcall⟩ := emits_hoist_call h
    rw [Expr.calls, List.forall_mem_append, List.forall_mem_singleton] at hc
    obtain ⟨hargs, hlen⟩ := hoistList_fragment rules hsite args hc.1 hb
    have hkept : ∀ c ∈ (Expr.call method as span).calls, C c := by
      rw [Expr.calls, List.forall_mem_append, List.forall_mem_singleton, hlen]
      exact ⟨hargs.calls, hc.2⟩
    obtain ⟨-, call, hemit, rfl, rfl⟩ | ⟨-, hs, rfl, rfl⟩ := hcall
    · have hd := emitCall_fragment rules hsite hkept
        (by simp [localVar, Expr.calls]) hemit
      exact ⟨hargs.code.before ((Fragment.emitDeclare _ .dynamic span).before hd),
        by simp [localVar, Expr.calls]⟩
    · rw [show s'.labels = s₁.labels from congrArg Supply.labels hs]
      exact ⟨hargs.code, hkept⟩
  | .callStatic typeName method args span, s, s', before, e', hc, h => by
    unfold hoist at h
    obtain ⟨as, hb, rfl⟩ := emits_hoist_list (.callStatic typeName method · span) h
    rw [Expr.calls] at hc ⊢
    exact (hoistList_fragment rules hsite args hc hb).1
  | .callOn object method args span, s, s', before, e', hc, h => by
    obtain ⟨b₁, as, s₁, b₂, o, h₁, h₂, rfl, rfl⟩ := emits_hoist_callOn h
    rw [Expr.calls, List.forall_mem_append] at hc
    have hargs := (hoistList_fragment rules hsite args hc.1 h₁).1
    have hobject := hoist_fragment rules hsite object hc.2 h₂
    rw [Expr.calls]
    exact ⟨hargs.code.before hobject.code,
      List.forall_mem_append.mpr ⟨hargs.calls, hobject.calls⟩⟩
  | .binary op left right span, s, s', before, e', hc, h => by
    obtain ⟨b₁, a₁, s₁, h₁, hright⟩ := emits_hoist_binary h
    rw [Expr.calls, List.forall_mem_append] at hc
    have hl := hoist_fragment rules hsite left hc.1 h₁
    obtain ⟨-, hs, rfl, rfl⟩ | ⟨-, b₂, a₂, h₂, rfl, rfl⟩ := hright
    · rw [show s'.labels = s₁.labels from congrArg Supply.labels hs, Expr.calls, calls_render]
      exact ⟨hl.code, List.forall_mem_append.mpr ⟨hl.calls, hc.2⟩⟩
    · have hr := hoist_fragment rules hsite right hc.2 h₂
      rw [Expr.calls]
      exact ⟨hl.code.before hr.code, List.forall_mem_append.mpr ⟨hl.calls, hr.calls⟩⟩
  | .unary op operand span, s, s', before, e', hc, h => by
    unfold hoist at h
    obtain ⟨a, hb, rfl⟩ := emits_hoist_one (.unary op · span) h
    rw [Expr.calls] at hc ⊢
    exact hoist_fragment rules hsite operand hc hb
  | .index target position span, s, s', before, e', hc, h => by
    unfold hoist at h
    obtain ⟨b₁, a₁, s₁, b₂, a₂, h₁, h₂, rfl, rfl⟩ := emits_hoist_two (.index · · span) h
    rw [Expr.calls, List.forall_mem_append] at hc
    have ht := hoist_fragment rules hsite target hc.1 h₁
    have hp := hoist_fragment rules hsite position hc.2 h₂
    rw [Expr.calls]
    exact ⟨ht.code.before hp.code, List.forall_mem_append.mpr ⟨ht.calls, hp.calls⟩⟩
  | .property object name span, s, s', before, e', hc, h => by
    unfold hoist at h
    obtain ⟨a, hb, rfl⟩ := emits_hoist_one (.property · name span) h
    rw [Expr.calls] at hc ⊢
    exact hoist_fragment rules hsite object hc hb
  | .create typeName args span, s, s', before, e', hc, h => by
    unfold hoist at h
    obtain ⟨as, hb, rfl⟩ := emits_hoist_list (.create typeName · span) h
    rw [Expr.calls] at hc ⊢
    exact (hoistList_fragment rules hsite args hc hb).1
  | .array items span, s, s', before, e', hc, h => by
    unfold hoist at h
    obtain ⟨as, hb, rfl⟩ := emits_hoist_list (.array · span) h
    rw [Expr.calls] at hc ⊢
    exact (hoistList_fragment rules hsite items hc hb).1
  | .literal .., s, s', before, e', hc, h => by
    unfold hoist at h
    obtain ⟨rfl, rfl, hs⟩ := emits_hoist_leaf h
    rw [show s'.labels = s.labels from congrArg Supply.labels hs, calls_render]
    exact ⟨.nil, hc⟩
  | .var .., s, s', before, e', hc, h => by
    unfold hoist at h
    obtain ⟨rfl, rfl, hs⟩ := emits_hoist_leaf h
    rw [show s'.labels = s.labels from congrArg Supply.labels hs, calls_render]
    exact ⟨.nil, hc⟩
  | .staticProperty .., s, s', before, e', hc, h => by
    unfold hoist at h
    obtain ⟨hpair, rfl⟩ := emits_pure.mp h
    cases hpair
    exact ⟨.nil, hc⟩

/-- Moving the calls of expressions in front of them follows the rules, and
leaves as many expressions. -/
theorem hoistList_fragment (rules : Rules setting C depth)
    (hsite : Ample setting site (depth + 1)) :
    ∀ (es : List Expr) {s s' : Progress} {before : Block} {es' : List Expr},
      (∀ c ∈ Expr.listCalls es, C c) →
      Emits (hoistList setting (lowerBlock setting depth) site es) s (before, es') s' →
      Hoisted setting C site s.labels before (Expr.listCalls es') s'.labels ∧
        es'.length = es.length
  | [], s, s', before, es', _, h => by
    unfold hoistList at h
    obtain ⟨hpair, rfl⟩ := emits_pure.mp h
    cases hpair
    exact ⟨⟨.nil, by simp [Expr.listCalls]⟩, rfl⟩
  | e :: rest, s, s', before, es', hc, h => by
    obtain ⟨b₁, a, s₁, b₂, as, h₁, h₂, rfl, rfl⟩ := emits_hoistList_cons h
    rw [Expr.listCalls, List.forall_mem_append] at hc
    have he := hoist_fragment rules hsite e hc.1 h₁
    obtain ⟨hrest, hlen⟩ := hoistList_fragment rules hsite rest hc.2 h₂
    rw [Expr.listCalls]
    exact ⟨⟨he.code.before hrest.code, List.forall_mem_append.mpr ⟨he.calls, hrest.calls⟩⟩,
      congrArg Nat.succ hlen⟩

end

/-- Naming a declaration takes no labels. -/
theorem labels_declareName {x y : String} (h : Emits (declareName site x) s y s') :
    s'.labels = s.labels := by
  cases hc : site.copy.isNone with
  | true =>
    obtain ⟨-, rfl⟩ := emits_declareName_top hc h
    rfl
  | false =>
    obtain ⟨-, rfl⟩ := emits_declareName_copy hc h
    rfl

/-- Naming the exception of a handler takes no labels. -/
theorem CatchName.labels {name name' : Option String} (h : CatchName site name name' s s') :
    s'.labels = s.labels := by
  unfold CatchName at h
  split at h
  · exact labels_declareName h
  · rw [h]
  · exact h.elim

section Statements

variable {code : Block} {span : Span}

/-- Lowering a declaration follows the rules. -/
theorem lowerDeclare_fragment (rules : Rules setting C depth)
    (hsite : Ample setting site (depth + 1)) {x : String} {shape : Shape} {init : Option Expr}
    (hc : (Stmt.declare x shape init span).CallsOnly C)
    (h : Emits (lowerDeclare setting (lowerBlock setting depth) site x shape init span) s code s') :
    Fragment setting C site [] s.labels code s'.labels := by
  by_cases hinit : ∀ e, init = some e → ¬ IsCall e
  · obtain ⟨s₁, y, hs₁, hy, rfl⟩ := emits_lowerDeclare hinit h
    rw [labels_declareName hy, show s₁.labels = s.labels from congrArg Supply.labels hs₁]
    refine .emit rfl fun e he => ?_
    cases init with
    | none => exact absurd he List.not_mem_nil
    | some value =>
      rw [List.mem_singleton.mp (show e ∈ [render site s.scopes value] from he), calls_render]
      exact hc value List.mem_cons_self
  · simp only [not_forall, not_not] at hinit
    obtain ⟨_, rfl, method, args, callSpan, rfl⟩ := hinit
    obtain ⟨s₁, y, s₂, call, hs₁, hy, hcall, rfl⟩ := emits_lowerDeclare_call h
    have hlabels : s₂.labels = s.labels :=
      (labels_declareName hy).trans (congrArg Supply.labels hs₁)
    rw [← hlabels]
    refine (Fragment.emitDeclare y shape span).before
      (emitCall_fragment rules hsite ?_ (by simp [localVar, Expr.calls]) hcall)
    rw [← render_call, calls_render]
    exact hc _ List.mem_cons_self

/-- Lowering an assignment follows the rules. -/
theorem lowerAssign_fragment (rules : Rules setting C depth)
    (hsite : Ample setting site (depth + 1)) {target value : Expr}
    (hc : (Stmt.assign target value span).CallsOnly C)
    (h : Emits (lowerAssign setting (lowerBlock setting depth) site target value span) s code s') :
    Fragment setting C site [] s.labels code s'.labels := by
  have htarget : ∀ c ∈ target.calls, C c := hc target List.mem_cons_self
  have hvalue : ∀ c ∈ value.calls, C c := hc value (List.mem_cons_of_mem _ List.mem_cons_self)
  by_cases hv : IsCall value
  · obtain ⟨method, args, callSpan, rfl⟩ := hv
    obtain ⟨s₁, hs₁, hcall⟩ := emits_lowerAssign_call h
    rw [← show s₁.labels = s.labels from congrArg Supply.labels hs₁]
    refine emitCall_fragment rules hsite ?_ ?_ hcall
    · rwa [← render_call, calls_render]
    · rintro e ⟨⟩
      rwa [calls_render]
  · obtain ⟨hs, rfl⟩ := emits_lowerAssign hv h
    rw [show s'.labels = s.labels from congrArg Supply.labels hs]
    refine .emit rfl fun e he => ?_
    rcases List.mem_cons.mp he with rfl | he
    · rwa [calls_render]
    · rw [List.mem_singleton.mp he]
      rwa [calls_render]

/-- Lowering an expression statement follows the rules. -/
theorem lowerEval_fragment (rules : Rules setting C depth)
    (hsite : Ample setting site (depth + 1)) {e : Expr} (hc : (Stmt.eval e span).CallsOnly C)
    (h : Emits (lowerEval setting (lowerBlock setting depth) site e span) s code s') :
    Fragment setting C site [] s.labels code s'.labels := by
  have he : ∀ c ∈ e.calls, C c := hc e List.mem_cons_self
  by_cases hcall : IsCall e
  · obtain ⟨method, args, callSpan, rfl⟩ := hcall
    exact lowerCall_fragment rules hsite he (by simp) h
  · obtain ⟨hs, rfl⟩ := emits_lowerEval hcall h
    rw [show s'.labels = s.labels from congrArg Supply.labels hs]
    refine .emit rfl fun e' he' => ?_
    rw [List.mem_singleton.mp he']
    rwa [calls_render]

/-- Lowering the return of a value follows the rules. -/
theorem lowerReturned_fragment (rules : Rules setting C depth)
    (hsite : Ample setting site (depth + 1)) {value : Expr} (hc : ∀ c ∈ value.calls, C c)
    (h : Emits (lowerReturned setting (lowerBlock setting depth) site value span) s code s') :
    Fragment setting C site [] s.labels code s'.labels := by
  cases hcopy : site.copy with
  | none =>
    obtain ⟨before, e', hb, rfl⟩ := emits_lowerReturned_top hcopy h
    have hvalue := hoist_fragment rules hsite value hc hb
    refine hvalue.code.thenCode (.emit rfl fun e he => ?_)
    rw [List.mem_singleton.mp he]
    exact hvalue.calls
  | some target =>
    obtain ⟨method, args, callSpan, call, rfl, hcall, rfl⟩ | ⟨-, before, e', hb, rfl⟩ :=
      emits_lowerReturned_copy hcopy h
    · exact (lowerCall_fragment rules hsite hc (by simp [localVar, Expr.calls]) hcall).thenCode
        (.leave hcopy)
    · have hvalue := hoist_fragment rules hsite value hc hb
      refine hvalue.code.thenCode ((Fragment.emit rfl fun e he => ?_).before (.leave hcopy))
      rcases List.mem_cons.mp he with rfl | he
      · simp [localVar, Expr.calls]
      · rw [List.mem_singleton.mp he]
        exact hvalue.calls

/-- Lowering a return follows the rules. -/
theorem lowerReturn_fragment (rules : Rules setting C depth)
    (hsite : Ample setting site (depth + 1)) {value : Option Expr}
    (hc : (Stmt.ret value span).CallsOnly C)
    (h : Emits (lowerReturn setting (lowerBlock setting depth) site value span) s code s') :
    Fragment setting C site [] s.labels code s'.labels := by
  cases value with
  | some value => exact lowerReturned_fragment rules hsite (hc value List.mem_cons_self) h
  | none =>
    obtain ⟨rfl, ⟨-, rfl⟩ | ⟨target, hcopy, rfl⟩⟩ := emits_lowerReturn_none h
    · exact .emit rfl fun _ he => absurd he List.not_mem_nil
    · exact .leave hcopy

end Statements

mutual

/-- Lowering a statement follows the rules. -/
theorem lowerStmt_fragment (rules : Rules setting C depth) :
    ∀ (stmt : Stmt) {site : Site} {s s' : Progress} {code : Block},
      Ample setting site (depth + 1) → stmt.every (Stmt.CallsOnly C) →
      Emits (lowerStmt setting (lowerBlock setting depth) site stmt) s code s' →
      Fragment setting C site [stmt] s.labels code s'.labels
  | .declare .., site, s, s', code, hsite, hc, h => by
    rw [lowerStmt] at h
    exact .simple rfl (lowerDeclare_fragment rules hsite (Stmt.every_self hc) h)
  | .assign .., site, s, s', code, hsite, hc, h => by
    rw [lowerStmt] at h
    exact .simple rfl (lowerAssign_fragment rules hsite (Stmt.every_self hc) h)
  | .eval .., site, s, s', code, hsite, hc, h => by
    rw [lowerStmt] at h
    exact .simple rfl (lowerEval_fragment rules hsite (Stmt.every_self hc) h)
  | .ret .., site, s, s', code, hsite, hc, h => by
    rw [lowerStmt] at h
    exact .simple rfl (lowerReturn_fragment rules hsite (Stmt.every_self hc) h)
  | .throw value span, site, s, s', code, hsite, hc, h => by
    obtain ⟨hs, rfl⟩ := emits_throw h
    rw [show s'.labels = s.labels from congrArg Supply.labels hs]
    refine .simple rfl (.emit rfl fun e he => ?_)
    rw [List.mem_singleton.mp he, calls_render]
    exact Stmt.every_self hc value List.mem_cons_self
  | .cond test yes none span, site, s, s', code, hsite, hc, h => by
    obtain ⟨s₁, yes', hs₁, hyes, rfl⟩ := emits_cond_none h
    have hinside := lowerStmts_fragment rules yes hsite (Stmt.every_cond_none hc) hyes
    rw [show s₁.labels = s.labels + 1 from congrArg Supply.labels hs₁] at hinside
    refine .condOne ?_ hinside
    rw [calls_render]
    exact Stmt.every_self hc test List.mem_cons_self
  | .cond test yes (some no) span, site, s, s', code, hsite, hc, h => by
    obtain ⟨s₁, yes', s₂, no', hs₁, hyes, hno, rfl⟩ := emits_cond_some h
    have hfirst := lowerStmts_fragment rules yes hsite (Stmt.every_cond_some hc).1 hyes
    have hsecond := lowerStmts_fragment rules no hsite (Stmt.every_cond_some hc).2 hno
    rw [show s₁.labels = s.labels + 2 from congrArg Supply.labels hs₁] at hfirst
    refine .condTwo ?_ hfirst hsecond
    rw [calls_render]
    exact Stmt.every_self hc test List.mem_cons_self
  | .loop .testFirst test body span, site, s, s', code, hsite, hc, h => by
    obtain ⟨s₁, body', hs₁, hbody, rfl⟩ := emits_loop_first h
    have hinside := lowerStmts_fragment rules body (hsite.insideLoop _) (Stmt.every_loop hc) hbody
    rw [show s₁.labels = s.labels + 2 from congrArg Supply.labels hs₁] at hinside
    refine .loopFirst ?_ hinside
    rw [calls_render]
    exact Stmt.every_self hc test List.mem_cons_self
  | .loop .testLast test body span, site, s, s', code, hsite, hc, h => by
    obtain ⟨s₁, body', s₂, hs₁, hbody, hs', rfl⟩ := emits_loop_last h
    have hinside := lowerStmts_fragment rules body (hsite.insideLoop _) (Stmt.every_loop hc) hbody
    rw [show s₁.labels = s.labels + 2 from congrArg Supply.labels hs₁] at hinside
    rw [show s'.labels = s₂.labels from congrArg Supply.labels hs']
    refine .loopLast ?_ hinside
    rw [calls_render]
    exact Stmt.every_self hc test List.mem_cons_self
  | .brk span, site, s, s', code, hsite, hc, h => by
    obtain ⟨hs, rfl⟩ := emits_brk h
    rw [show s'.labels = s.labels from congrArg Supply.labels hs]
    cases hends : site.loopEnds with
    | nil => exact .breakNothing hends
    | cons endLabel rest => exact .breakLoop hends
  | .attempt body name handler span, site, s, s', code, hsite, hc, h => by
    obtain ⟨body', s₁, name', s₂, handler', s₃, hbody, hname, hhandler, rfl, rfl⟩ :=
      emits_attempt h
    have hfirst := lowerStmts_fragment rules body hsite (Stmt.every_attempt hc).1 hbody
    have hsecond := lowerStmts_fragment rules handler hsite (Stmt.every_attempt hc).2 hhandler
    rw [show s₂.labels = s₁.labels from hname.labels] at hsecond
    exact .attempt hfirst hsecond
  | .branch .., site, s, s', code, hsite, hc, h | .label .., site, s, s', code, hsite, hc, h
  | .goto .., site, s, s', code, hsite, hc, h => by
    rw [lowerStmt] at h
    obtain ⟨rfl, rfl⟩ := emits_pure.mp h
    exact .keep rfl (Stmt.every_self hc)

/-- Lowering statements follows the rules. -/
theorem lowerStmts_fragment (rules : Rules setting C depth) :
    ∀ (block : List Stmt) {site : Site} {after : Option Span} {s s' : Progress} {code : Block},
      Ample setting site (depth + 1) → Stmt.everyAll (Stmt.CallsOnly C) block →
      Emits (lowerStmts setting (lowerBlock setting depth) site after block) s code s' →
      Fragment setting C site block s.labels code s'.labels
  | [], site, after, s, s', code, _, _, h => by
    unfold lowerStmts at h
    obtain ⟨rfl, rfl⟩ := emits_pure.mp h
    exact .nil
  | stmt :: rest, site, after, s, s', code, hsite, hc, h => by
    obtain ⟨s₁, first, s₂, others, hs₁, hfirst, hothers, rfl⟩ := emits_lowerStmts_cons h
    obtain ⟨hstmt, hrest⟩ := Stmt.everyAll_cons.mp hc
    have h₁ := lowerStmt_fragment rules stmt hsite hstmt hfirst
    rw [show s₁.labels = s.labels from congrArg Supply.labels hs₁] at h₁
    exact h₁.append (lowerStmts_fragment rules rest hsite hrest hothers)

end

/-- Lowering a block follows the rules, as long as copies may still be nested so deep. -/
theorem lowerBlock_fragment
    (hmethods : ∀ m ∈ setting.program.methods, Stmt.everyAll (Stmt.CallsOnly C) m.body)
    (depth : Nat) : SpliceFragments setting C depth := by
  induction depth with
  | zero => exact fun hsite _ _ => absurd hsite.pos (Nat.lt_irrefl 0)
  | succ depth ih => exact fun hsite hc h => lowerStmts_fragment ⟨hmethods, ih⟩ _ hsite hc h

/-- The body of a lowered method follows the rules. -/
theorem LoweredFrom.fragment
    (hmethods : ∀ m ∈ setting.program.methods, Stmt.everyAll (Stmt.CallsOnly C) m.body)
    {m m' : Method} (hm : m ∈ setting.program.methods) (h : LoweredFrom setting m m') :
    ∃ n n', Fragment setting C Site.top m.body n m'.body n' := by
  obtain ⟨s, code, s', hbody, -, rfl⟩ := h
  exact ⟨_, _, lowerBlock_fragment hmethods _ (.top setting) (hmethods m hm) hbody⟩

/-- The bodies of lowered methods, one after the other, follow the rules. -/
theorem lowerMethods_fragment
    (hmethods : ∀ m ∈ setting.program.methods, Stmt.everyAll (Stmt.CallsOnly C) m.body) :
    ∀ {ms ms' : List Method} {s s' : Progress}, (∀ m ∈ ms, m ∈ setting.program.methods) →
      Emits (lowerMethods setting ms) s ms' s' →
      Fragment setting C Site.top (ms.flatMap (·.body)) s.labels (ms'.flatMap (·.body)) s'.labels
  | [], ms', s, s', _, h => by
    obtain ⟨rfl, rfl⟩ := emits_pure.mp h
    exact .nil
  | m :: ms, ms', s, s', hms, h => by
    obtain ⟨code, s₁, rest, hbody, hrest, rfl⟩ := emits_lowerMethods_cons h
    have hfirst := lowerBlock_fragment hmethods _ (.top setting)
      (hmethods m (hms m List.mem_cons_self)) hbody
    have hsecond := lowerMethods_fragment hmethods
      (fun k hk => hms k (List.mem_cons_of_mem _ hk)) hrest
    rw [List.flatMap_cons, List.flatMap_cons]
    exact hfirst.append hsecond

end Following

end Lowering

end Stepwise
