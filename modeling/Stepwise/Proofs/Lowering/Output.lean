import Stepwise.Proofs.Lowering.Fresh
import Stepwise.Proofs.Lowering.Render
import Stepwise.Proofs.Program.Scoping

/-!
# What lowering gives out

Each step of lowering is described by what it gives and by the state before
and after it. Diagnostics play no part in that: the code depends on the
supply of labels and names and on the names of the copy only.
-/

namespace Stepwise.Lowering

variable {α β : Type}

/-- A step of lowering, from one state to another, that gives a value. -/
def Emits (x : Lower α) (s : Progress) (a : α) (s' : Progress) : Prop := x.run s = (a, s')

/-- What code depends on: labels and names handed out, and names of the copy. -/
structure Supply where
  /-- Labels handed out. -/
  labels : Nat
  /-- New names handed out. -/
  names : Nat
  /-- Names of the innermost copy. -/
  scopes : Renaming

/-- The supply in a state of lowering. -/
def Progress.supply (s : Progress) : Supply := ⟨s.labels, s.names, s.scopes⟩

section Steps

variable {s s' : Progress}

theorem emits_pure {a b : α} : Emits (pure a) s b s' ↔ b = a ∧ s' = s := by
  constructor
  · intro h
    cases h
    exact ⟨rfl, rfl⟩
  · rintro ⟨rfl, rfl⟩
    rfl

theorem emits_bind {x : Lower α} {f : α → Lower β} {b : β} :
    Emits (x >>= f) s b s' ↔ ∃ a s₁, Emits x s a s₁ ∧ Emits (f a) s₁ b s' := by
  constructor
  · intro h
    exact ⟨(x.run s).1, (x.run s).2, rfl, h⟩
  · rintro ⟨a, s₁, hx, hf⟩
    show (f (x.run s).1).run (x.run s).2 = _
    rw [show x.run s = (a, s₁) from hx]
    exact hf

theorem emits_map {x : Lower α} {f : α → β} {b : β} :
    Emits (f <$> x) s b s' ↔ ∃ a, Emits x s a s' ∧ b = f a := by
  constructor
  · intro h
    cases h
    exact ⟨(x.run s).1, rfl, rfl⟩
  · rintro ⟨a, hx, rfl⟩
    show (f (x.run s).1, (x.run s).2) = _
    rw [show x.run s = (a, s') from hx]

theorem emits_get {a : Progress} : Emits get s a s' ↔ a = s ∧ s' = s := by
  constructor
  · intro h
    cases h
    exact ⟨rfl, rfl⟩
  · rintro ⟨rfl, rfl⟩
    rfl

theorem emits_modify {f : Progress → Progress} {u : PUnit} :
    Emits (modify f) s u s' ↔ s' = f s := by
  constructor
  · intro h
    cases h
    rfl
  · rintro rfl
    rfl

theorem emits_nextLabel {l : String} :
    Emits nextLabel s l s' ↔ l = Label.name s.labels ∧ s' = { s with labels := s.labels + 1 } := by
  constructor
  · intro h
    cases h
    exact ⟨rfl, rfl⟩
  · rintro ⟨rfl, rfl⟩
    rfl

theorem emits_freshName {recalled x : String} :
    Emits (freshName recalled) s x s' ↔
      x = fresh recalled (s.names + 1) ∧ s' = { s with names := s.names + 1 } := by
  constructor
  · intro h
    cases h
    exact ⟨rfl, rfl⟩
  · rintro ⟨rfl, rfl⟩
    rfl

/-- Reporting changes no supply. -/
theorem emits_report {site : Site} {found : List Diagnostic} {u : Unit}
    (h : Emits (report site found) s u s') : s'.supply = s.supply := by
  unfold report at h
  split at h
  · rw [emits_modify] at h
    subst h
    rfl
  · rw [emits_pure] at h
    rw [h.2]

/-- Noting a refusal changes no supply. -/
theorem emits_noteRefusal {callee : Method} {limit : Nat} {span : Span} {u : Unit}
    (h : Emits (noteRefusal callee limit span) s u s') : s'.supply = s.supply := by
  unfold noteRefusal at h
  rw [emits_modify] at h
  subst h
  split <;> rfl

end Steps

section Functions

variable {setting : Setting} {splice : Splice} {site : Site} {s s' : Progress}

/-- Checking an expression gives it as it stands at the site. -/
theorem emits_lowerExpr {p : Program} {e e' : Expr} (h : Emits (lowerExpr p site e) s e' s') :
    e' = render site s.scopes e ∧ s'.supply = s.supply := by
  unfold lowerExpr at h
  obtain ⟨_, s₁, hr, h⟩ := emits_bind.mp h
  have hs := emits_report hr
  have hscopes : s₁.scopes = s.scopes := congrArg Supply.scopes hs
  unfold render
  cases hc : site.copy.isNone with
  | true =>
    rw [hc] at h
    obtain ⟨rfl, rfl⟩ := emits_pure.mp h
    exact ⟨rfl, hs⟩
  | false =>
    rw [hc] at h
    obtain ⟨s₂, s₃, hg, h⟩ := emits_bind.mp h
    obtain ⟨rfl, rfl⟩ := emits_get.mp hg
    obtain ⟨rfl, rfl⟩ := emits_pure.mp h
    exact ⟨by rw [hscopes]; rfl, hs⟩

/-- Checking arguments gives them as they stand at the site. -/
theorem emits_lowerArgs {p : Program} {es es' : List Expr}
    (h : Emits (lowerArgs p site es) s es' s') :
    es' = renderList site s.scopes es ∧ s'.supply = s.supply := by
  unfold lowerArgs at h
  obtain ⟨_, s₁, hr, h⟩ := emits_bind.mp h
  have hs := emits_report hr
  have hscopes : s₁.scopes = s.scopes := congrArg Supply.scopes hs
  unfold renderList
  cases hc : site.copy.isNone with
  | true =>
    rw [hc] at h
    obtain ⟨rfl, rfl⟩ := emits_pure.mp h
    exact ⟨rfl, hs⟩
  | false =>
    rw [hc] at h
    obtain ⟨s₂, s₃, hg, h⟩ := emits_bind.mp h
    obtain ⟨rfl, rfl⟩ := emits_get.mp hg
    obtain ⟨rfl, rfl⟩ := emits_pure.mp h
    exact ⟨by rw [hscopes]; rfl, hs⟩

/-- The name of a declaration outside of copies. -/
theorem emits_declareName_top {x y : String} (hc : site.copy.isNone = true)
    (h : Emits (declareName site x) s y s') : y = x ∧ s' = s := by
  unfold declareName at h
  rw [hc] at h
  exact emits_pure.mp h

/-- The name of a declaration inside a copy. -/
theorem emits_declareName_copy {x y : String} (hc : site.copy.isNone = false)
    (h : Emits (declareName site x) s y s') :
    y = fresh x (s.names + 1) ∧
      s' = { s with names := s.names + 1, scopes := s.scopes.bind x y } := by
  unfold declareName at h
  rw [hc] at h
  obtain ⟨z, s₁, hf, h⟩ := emits_bind.mp h
  obtain ⟨rfl, rfl⟩ := emits_freshName.mp hf
  obtain ⟨_, s₂, hm, h⟩ := emits_bind.mp h
  rw [emits_modify] at hm
  subst hm
  obtain ⟨rfl, rfl⟩ := emits_pure.mp h
  exact ⟨rfl, rfl⟩

/-- A step in a scope of its own. -/
theorem emits_inScope {step : Lower α} {a : α} (h : Emits (inScope step) s a s') :
    ∃ s₁, Emits step { s with scopes := s.scopes.push } a s₁ ∧
      s' = { s₁ with scopes := s₁.scopes.pop } := by
  unfold inScope at h
  obtain ⟨_, s₁, hm, h⟩ := emits_bind.mp h
  rw [emits_modify] at hm
  subst hm
  obtain ⟨b, s₂, hb, h⟩ := emits_bind.mp h
  obtain ⟨_, s₃, hm, h⟩ := emits_bind.mp h
  rw [emits_modify] at hm
  subst hm
  obtain ⟨rfl, rfl⟩ := emits_pure.mp h
  exact ⟨s₂, hb, rfl⟩

/-- A step with the names of another copy. -/
theorem emits_withRenaming {scopes : Renaming} {step : Lower α} {a : α}
    (h : Emits (withRenaming scopes step) s a s') :
    ∃ s₁, Emits step { s with scopes } a s₁ ∧ s' = { s₁ with scopes := s.scopes } := by
  unfold withRenaming at h
  obtain ⟨s₀, s₁, hg, h₁⟩ := emits_bind.mp h
  obtain ⟨rfl, rfl⟩ := emits_get.mp hg
  dsimp only at h₁
  obtain ⟨_, s₂, hm, h₂⟩ := emits_bind.mp h₁
  rw [emits_modify] at hm
  subst hm
  obtain ⟨b, s₃, hb, h₃⟩ := emits_bind.mp h₂
  obtain ⟨_, s₄, hm, h₄⟩ := emits_bind.mp h₃
  rw [emits_modify] at hm
  subst hm
  obtain ⟨rfl, rfl⟩ := emits_pure.mp h₄
  exact ⟨s₃, hb, rfl⟩

/-- A callee is copied only if the call is right, copies are wanted, the callee
is synchronous and its copies are not nested too deep. -/
structure Inlinable (setting : Setting) (site : Site) (name : String) (given : Nat)
    (callee : Method) : Prop where
  /-- The method is found. -/
  found : setting.program.method? name = some callee
  /-- The number of arguments is right. -/
  given : callee.params.length = given
  /-- Copies are wanted. -/
  inline : setting.options.inline = true
  /-- Calls wait for the result. -/
  waits : callee.isAsync = false
  /-- Not too many copies are nested. -/
  nested : site.active.count callee.id < setting.options.recursionLimit

/-- The choice of a callee to copy. -/
theorem emits_inlinee {name : String} {given : Nat} {span : Span} {r : Option Method}
    (h : Emits (inlinee? setting site name given span) s r s') :
    s'.supply = s.supply ∧
      ∀ callee, r = some callee → Inlinable setting site name given callee := by
  unfold inlinee? at h
  split at h
  · obtain ⟨_, s₁, hr, h⟩ := emits_bind.mp h
    obtain ⟨rfl, rfl⟩ := emits_pure.mp h
    exact ⟨emits_report hr, fun _ hc => by cases hc⟩
  · next callee hres =>
    have hfound : setting.program.method? name = some callee ∧
        callee.params.length = given := by
      unfold Program.resolve at hres
      split at hres
      · cases hres
      · next m hm =>
        split at hres
        · next hlen =>
          cases hres
          exact ⟨hm, by simpa using hlen⟩
        · cases hres
    split at h
    · obtain ⟨rfl, rfl⟩ := emits_pure.mp h
      exact ⟨rfl, fun _ hc => by cases hc⟩
    · next hopt =>
      split at h
      · obtain ⟨_, s₁, hr, h⟩ := emits_bind.mp h
        obtain ⟨rfl, rfl⟩ := emits_pure.mp h
        exact ⟨emits_noteRefusal hr, fun _ hc => by cases hc⟩
      · next hcount =>
        obtain ⟨rfl, rfl⟩ := emits_pure.mp h
        refine ⟨rfl, fun m hc => ?_⟩
        cases hc
        simp only [Bool.or_eq_true, Bool.not_eq_true', not_or, Bool.not_eq_false,
          Bool.not_eq_true] at hopt
        exact ⟨hfound.1, hfound.2, hopt.1, hopt.2, Nat.lt_of_not_le hcount⟩

/-- The declarations of the parameters of a copy. -/
def declarations (span : Span) (n : Nat) : List Param → List Expr → List Stmt
  | param :: params, arg :: args =>
    .declare (fresh param.name (n + 1)) param.shape (some arg) span ::
      declarations span (n + 1) params args
  | _, _ => []

/-- The names of the parameters of a copy. -/
def paramTable (n : Nat) : List Param → List Expr → List (String × String)
  | param :: params, _ :: args =>
    paramTable (n + 1) params args ++ [(param.name, fresh param.name (n + 1))]
  | _, _ => []

/-- Binding parameters uses one new name for each. -/
theorem emits_bindParams {span : Span} {params : List Param} {args : List Expr}
    {r : List (String × String) × List Stmt} (hlen : params.length = args.length)
    (h : Emits (bindParams span params args) s r s') :
    r = (paramTable s.names params args, declarations span s.names params args) ∧
      s' = { s with names := s.names + params.length } := by
  induction params generalizing args s s' r with
  | nil =>
    obtain ⟨rfl, rfl⟩ := emits_pure.mp h
    exact ⟨rfl, rfl⟩
  | cons param params ih =>
    cases args with
    | nil => cases hlen
    | cons arg args =>
      unfold bindParams at h
      obtain ⟨x, s₁, hf, h₁⟩ := emits_bind.mp h
      obtain ⟨rfl, rfl⟩ := emits_freshName.mp hf
      obtain ⟨r₁, s₂, hr, h₂⟩ := emits_bind.mp h₁
      obtain ⟨rfl, rfl⟩ := ih (Nat.succ.inj hlen) hr
      obtain ⟨rfl, rfl⟩ := emits_pure.mp h₂
      refine ⟨rfl, ?_⟩
      simp only [List.length_cons]
      congr 1
      omega

/-- The statements for a call that stays a call. -/
def keptCall (name : String) (args : List Expr) (dest : Option Expr) (callSpan span : Span) :
    Block :=
  match dest with
  | some target => [.assign target (.call name args callSpan) span]
  | none => [.eval (.call name args callSpan) span]

/-- The statement that passes the result of a copy on. -/
def passResult (receiver : String) (dest : Option Expr) (span : Span) : Block :=
  match dest with
  | some target => [.assign target (localVar receiver span) span]
  | none => []

/-- The parts of a copy of a callee in a caller. -/
structure Copied (setting : Setting) (splice : Splice) (site : Site) (callee : Method)
    (args : List Expr) (dest : Option Expr) (span : Span) (s : Progress) (code : Block)
    (s' : Progress) : Prop where
  /-- The copy of the body, between the two labels. -/
  split : ∃ s₁ body s₂,
    s₁.supply = ⟨s.labels + 2, s.names + 1 + callee.params.length,
      [paramTable (s.names + 1) callee.params args]⟩ ∧
    Emits (splice (site.insideCopy callee ⟨fresh (callee.name ++ ".return") (s.names + 1),
      Label.name (s.labels + 1)⟩) callee.body) s₁ body s₂ ∧
    s'.supply = ⟨s₂.labels, s₂.names, s.scopes⟩ ∧
    code = declarations span (s.names + 1) callee.params args ++
      .declare (fresh (callee.name ++ ".return") (s.names + 1)) .dynamic none span ::
      mark (Label.name s.labels) :: body ++
      mark (Label.name (s.labels + 1)) ::
      passResult (fresh (callee.name ++ ".return") (s.names + 1)) dest span

/-- A call either stays a call or is replaced by a copy. -/
theorem emits_emitCall {name : String} {args : List Expr} {dest : Option Expr}
    {callSpan span : Span} {code : Block}
    (h : Emits (emitCall setting splice site name args dest callSpan span) s code s') :
    (code = keptCall name args dest callSpan span ∧ s'.supply = s.supply) ∨
    ∃ callee, Inlinable setting site name args.length callee ∧
      ∃ s₀, s₀.supply = s.supply ∧ Copied setting splice site callee args dest span s₀ code s' := by
  unfold emitCall at h
  obtain ⟨r, s₁, hi, h₁⟩ := emits_bind.mp h
  obtain ⟨hs, hcallee⟩ := emits_inlinee hi
  cases r with
  | none =>
    left
    cases dest with
    | none =>
      obtain ⟨rfl, rfl⟩ := emits_pure.mp h₁
      exact ⟨rfl, hs⟩
    | some target =>
      obtain ⟨rfl, rfl⟩ := emits_pure.mp h₁
      exact ⟨rfl, hs⟩
  | some callee =>
    right
    have hc := hcallee callee rfl
    refine ⟨callee, hc, s₁, hs, ?_⟩
    obtain ⟨l, s₂, hl, h₂⟩ := emits_bind.mp h₁
    obtain ⟨rfl, rfl⟩ := emits_nextLabel.mp hl
    obtain ⟨l', s₃, hl', h₃⟩ := emits_bind.mp h₂
    obtain ⟨rfl, rfl⟩ := emits_nextLabel.mp hl'
    obtain ⟨x, s₄, hx, h₄⟩ := emits_bind.mp h₃
    obtain ⟨rfl, rfl⟩ := emits_freshName.mp hx
    obtain ⟨r, s₅, hr, h₅⟩ := emits_bind.mp h₄
    obtain ⟨rfl, rfl⟩ := emits_bindParams hc.given hr
    dsimp only at h₅
    obtain ⟨body, s₆, hb, h₆⟩ := emits_bind.mp h₅
    obtain ⟨s₇, hbody, rfl⟩ := emits_withRenaming hb
    obtain ⟨rfl, rfl⟩ := emits_pure.mp h₆
    refine ⟨_, body, s₇, rfl, hbody, rfl, ?_⟩
    cases dest <;> rfl

/-- A call with its arguments as they stand at the site. -/
theorem emits_lowerCall {name : String} {args : List Expr} {dest : Option Expr}
    {callSpan span : Span} {code : Block}
    (h : Emits (lowerCall setting splice site name args dest callSpan span) s code s') :
    ∃ s₁, s₁.supply = s.supply ∧
      Emits (emitCall setting splice site name (renderList site s.scopes args) dest callSpan span)
        s₁ code s' := by
  unfold lowerCall at h
  obtain ⟨args', s₁, ha, h₁⟩ := emits_bind.mp h
  obtain ⟨rfl, hs⟩ := emits_lowerArgs ha
  exact ⟨s₁, hs, h₁⟩

section Hoisting

variable {before : Block} {e' : Expr} {es' : List Expr}

/-- Moving a call in front of an expression. -/
theorem emits_hoist_call {method : String} {args : List Expr} {span : Span}
    (h : Emits (hoist setting splice site (.call method args span)) s (before, e') s') :
    ∃ b as s₁, Emits (hoistList setting splice site args) s (b, as) s₁ ∧
      ((isSynchronous setting method = true ∧ ∃ call,
          Emits (emitCall setting splice site method as
            (some (localVar (fresh "temp" (s₁.names + 1)) span)) span span)
            { s₁ with names := s₁.names + 1 } call s' ∧
          before = b ++ .declare (fresh "temp" (s₁.names + 1)) .dynamic none span :: call ∧
          e' = localVar (fresh "temp" (s₁.names + 1)) span) ∨
        (isSynchronous setting method = false ∧ s'.supply = s₁.supply ∧ before = b ∧
          e' = .call method as span)) := by
  unfold hoist at h
  obtain ⟨⟨b, as⟩, s₁, hb, h₁⟩ := emits_bind.mp h
  refine ⟨b, as, s₁, hb, ?_⟩
  dsimp only at h₁
  cases hsync : isSynchronous setting method with
  | true =>
    rw [hsync, if_pos rfl] at h₁
    obtain ⟨x, s₂, hx, h₂⟩ := emits_bind.mp h₁
    obtain ⟨rfl, rfl⟩ := emits_freshName.mp hx
    obtain ⟨call, s₃, hcall, h₃⟩ := emits_bind.mp h₂
    obtain ⟨hpair, rfl⟩ := emits_pure.mp h₃
    cases hpair
    exact .inl ⟨rfl, call, hcall, rfl, rfl⟩
  | false =>
    rw [hsync, if_neg (by decide)] at h₁
    obtain ⟨_, s₂, hr, h₂⟩ := emits_bind.mp h₁
    obtain ⟨hpair, rfl⟩ := emits_pure.mp h₂
    cases hpair
    exact .inr ⟨rfl, emits_report hr, rfl, rfl⟩

/-- Hoisting in an expression with a list of operands. -/
theorem emits_hoist_list {args : List Expr} (build : List Expr → Expr)
    (h : Emits (do
      let (before, args) ← hoistList setting splice site args
      pure (before, build args)) s (before, e') s') :
    ∃ as, Emits (hoistList setting splice site args) s (before, as) s' ∧ e' = build as := by
  obtain ⟨⟨b, as⟩, s₁, hb, h₁⟩ := emits_bind.mp h
  obtain ⟨hpair, rfl⟩ := emits_pure.mp h₁
  cases hpair
  exact ⟨as, hb, rfl⟩

/-- Hoisting in an expression with one operand. -/
theorem emits_hoist_one {operand : Expr} (build : Expr → Expr)
    (h : Emits (do
      let (before, operand) ← hoist setting splice site operand
      pure (before, build operand)) s (before, e') s') :
    ∃ a, Emits (hoist setting splice site operand) s (before, a) s' ∧ e' = build a := by
  obtain ⟨⟨b, a⟩, s₁, hb, h₁⟩ := emits_bind.mp h
  obtain ⟨hpair, rfl⟩ := emits_pure.mp h₁
  cases hpair
  exact ⟨a, hb, rfl⟩

/-- Hoisting in an expression with two operands. -/
theorem emits_hoist_two {left right : Expr} (build : Expr → Expr → Expr)
    (h : Emits (do
      let (before, left) ← hoist setting splice site left
      let (after, right) ← hoist setting splice site right
      pure (before ++ after, build left right)) s (before, e') s') :
    ∃ b₁ a₁ s₁ b₂ a₂, Emits (hoist setting splice site left) s (b₁, a₁) s₁ ∧
      Emits (hoist setting splice site right) s₁ (b₂, a₂) s' ∧ before = b₁ ++ b₂ ∧
      e' = build a₁ a₂ := by
  obtain ⟨⟨b₁, a₁⟩, s₁, hb₁, h₁⟩ := emits_bind.mp h
  obtain ⟨⟨b₂, a₂⟩, s₂, hb₂, h₂⟩ := emits_bind.mp h₁
  obtain ⟨hpair, rfl⟩ := emits_pure.mp h₂
  cases hpair
  exact ⟨b₁, a₁, s₁, b₂, a₂, hb₁, hb₂, rfl, rfl⟩

/-- Hoisting in the operands of a binary operator. -/
theorem emits_hoist_binary {op : BinaryOp} {left right : Expr} {span : Span}
    (h : Emits (hoist setting splice site (.binary op left right span)) s (before, e') s') :
    ∃ b₁ a₁ s₁, Emits (hoist setting splice site left) s (b₁, a₁) s₁ ∧
      ((op.isShortCircuit = true ∧ s'.supply = s₁.supply ∧ before = b₁ ∧
          e' = .binary op a₁ (render site s₁.scopes right) span) ∨
        (op.isShortCircuit = false ∧ ∃ b₂ a₂,
          Emits (hoist setting splice site right) s₁ (b₂, a₂) s' ∧ before = b₁ ++ b₂ ∧
          e' = .binary op a₁ a₂ span)) := by
  unfold hoist at h
  obtain ⟨⟨b₁, a₁⟩, s₁, hb₁, h₁⟩ := emits_bind.mp h
  refine ⟨b₁, a₁, s₁, hb₁, ?_⟩
  dsimp only at h₁
  cases hop : op.isShortCircuit with
  | true =>
    rw [hop, if_pos rfl] at h₁
    obtain ⟨r, s₂, hr, h₂⟩ := emits_bind.mp h₁
    obtain ⟨rfl, hs⟩ := emits_lowerExpr hr
    obtain ⟨hpair, rfl⟩ := emits_pure.mp h₂
    cases hpair
    exact .inl ⟨rfl, hs, rfl, rfl⟩
  | false =>
    rw [hop, if_neg (by decide)] at h₁
    obtain ⟨⟨b₂, a₂⟩, s₂, hb₂, h₂⟩ := emits_bind.mp h₁
    obtain ⟨hpair, rfl⟩ := emits_pure.mp h₂
    cases hpair
    exact .inr ⟨rfl, b₂, a₂, hb₂, rfl, rfl⟩

/-- Hoisting in a call on an object: the arguments come first. -/
theorem emits_hoist_callOn {object : Expr} {method : String} {args : List Expr} {span : Span}
    (h : Emits (hoist setting splice site (.callOn object method args span)) s (before, e') s') :
    ∃ b₁ as s₁ b₂ o, Emits (hoistList setting splice site args) s (b₁, as) s₁ ∧
      Emits (hoist setting splice site object) s₁ (b₂, o) s' ∧ before = b₁ ++ b₂ ∧
      e' = .callOn o method as span := by
  unfold hoist at h
  obtain ⟨⟨b₁, as⟩, s₁, hb₁, h₁⟩ := emits_bind.mp h
  obtain ⟨⟨b₂, o⟩, s₂, hb₂, h₂⟩ := emits_bind.mp h₁
  obtain ⟨hpair, rfl⟩ := emits_pure.mp h₂
  cases hpair
  exact ⟨b₁, as, s₁, b₂, o, hb₁, hb₂, rfl, rfl⟩

/-- Nothing is hoisted out of an expression without operands. -/
theorem emits_hoist_leaf {e : Expr}
    (h : Emits (do pure (([] : Block), ← lowerExpr setting.program site e)) s (before, e') s') :
    before = [] ∧ e' = render site s.scopes e ∧ s'.supply = s.supply := by
  obtain ⟨r, s₂, hr, h₂⟩ := emits_bind.mp h
  obtain ⟨rfl, hs⟩ := emits_lowerExpr hr
  obtain ⟨hpair, rfl⟩ := emits_pure.mp h₂
  cases hpair
  exact ⟨rfl, rfl, hs⟩

/-- Hoisting in a list of expressions, one after the other. -/
theorem emits_hoistList_cons {e : Expr} {rest : List Expr}
    (h : Emits (hoistList setting splice site (e :: rest)) s (before, es') s') :
    ∃ b₁ a s₁ b₂ as, Emits (hoist setting splice site e) s (b₁, a) s₁ ∧
      Emits (hoistList setting splice site rest) s₁ (b₂, as) s' ∧ before = b₁ ++ b₂ ∧
      es' = a :: as := by
  unfold hoistList at h
  obtain ⟨⟨b₁, a⟩, s₁, hb₁, h₁⟩ := emits_bind.mp h
  obtain ⟨⟨b₂, as⟩, s₂, hb₂, h₂⟩ := emits_bind.mp h₁
  obtain ⟨hpair, rfl⟩ := emits_pure.mp h₂
  cases hpair
  exact ⟨b₁, a, s₁, b₂, as, hb₁, hb₂, rfl, rfl⟩

end Hoisting

section Statements

variable {code : Block} {span : Span}

/-- Whether an expression is a call of a program method. -/
def IsCall (e : Expr) : Prop := ∃ method args callSpan, e = .call method args callSpan

/-- Lowering the return of a value outside of copies. -/
theorem emits_lowerReturned_top {value : Expr} (hc : site.copy = none)
    (h : Emits (lowerReturned setting splice site value span) s code s') :
    ∃ before e', Emits (hoist setting splice site value) s (before, e') s' ∧
      code = before ++ [.ret (some e') span] := by
  unfold lowerReturned at h
  rw [hc] at h
  obtain ⟨⟨before, e'⟩, s₁, hb, h₁⟩ := emits_bind.mp h
  obtain ⟨rfl, rfl⟩ := emits_pure.mp h₁
  exact ⟨before, e', hb, rfl⟩

/-- Lowering the return of a value inside a copy. -/
theorem emits_lowerReturned_copy {value : Expr} {target : Target} (hc : site.copy = some target)
    (h : Emits (lowerReturned setting splice site value span) s code s') :
    (∃ method args callSpan call, value = .call method args callSpan ∧
        Emits (lowerCall setting splice site method args (some (localVar target.receiver span))
          callSpan span) s call s' ∧
        code = call ++ [.goto target.endLabel span]) ∨
      (¬ IsCall value ∧ ∃ before e', Emits (hoist setting splice site value) s (before, e') s' ∧
        code = before ++
          [.assign (localVar target.receiver span) e' span, .goto target.endLabel span]) := by
  unfold lowerReturned at h
  rw [hc] at h
  dsimp only at h
  split at h
  · next method args callSpan =>
    obtain ⟨call, s₁, hcall, h₁⟩ := emits_bind.mp h
    obtain ⟨rfl, rfl⟩ := emits_pure.mp h₁
    exact .inl ⟨method, args, callSpan, call, rfl, hcall, rfl⟩
  · next hne =>
    obtain ⟨⟨before, e'⟩, s₁, hb, h₁⟩ := emits_bind.mp h
    obtain ⟨rfl, rfl⟩ := emits_pure.mp h₁
    refine .inr ⟨?_, before, e', hb, rfl⟩
    rintro ⟨method, args, callSpan, rfl⟩
    exact hne method args callSpan rfl

/-- Lowering a return without a value leaves the state alone. -/
theorem emits_lowerReturn_none (h : Emits (lowerReturn setting splice site none span) s code s') :
    s' = s ∧ ((site.copy = none ∧ code = [.ret none span]) ∨
      ∃ target, site.copy = some target ∧ code = [.goto target.endLabel span]) := by
  unfold lowerReturn at h
  cases hc : site.copy with
  | none =>
    rw [hc] at h
    obtain ⟨rfl, rfl⟩ := emits_pure.mp h
    exact ⟨rfl, .inl ⟨rfl, rfl⟩⟩
  | some target =>
    rw [hc] at h
    obtain ⟨rfl, rfl⟩ := emits_pure.mp h
    exact ⟨rfl, .inr ⟨target, rfl, rfl⟩⟩

/-- Lowering a declaration whose initial value is a call. -/
theorem emits_lowerDeclare_call {x method : String} {shape : Shape} {args : List Expr}
    {callSpan : Span}
    (h : Emits (lowerDeclare setting splice site x shape (some (.call method args callSpan)) span)
      s code s') :
    ∃ s₁ y s₂ call, s₁.supply = s.supply ∧ Emits (declareName site x) s₁ y s₂ ∧
      Emits (emitCall setting splice site method (renderList site s.scopes args)
        (some (localVar y span)) callSpan span) s₂ call s' ∧
      code = .declare y shape none span :: call := by
  unfold lowerDeclare at h
  obtain ⟨args', s₁, ha, h₁⟩ := emits_bind.mp h
  obtain ⟨rfl, hs⟩ := emits_lowerArgs ha
  obtain ⟨y, s₂, hy, h₂⟩ := emits_bind.mp h₁
  obtain ⟨call, s₃, hcall, h₃⟩ := emits_bind.mp h₂
  obtain ⟨rfl, rfl⟩ := emits_pure.mp h₃
  exact ⟨s₁, y, s₂, call, hs, hy, hcall, rfl⟩

/-- Lowering a declaration without a call as initial value. -/
theorem emits_lowerDeclare {x : String} {shape : Shape} {init : Option Expr}
    (hinit : ∀ e, init = some e → ¬ IsCall e)
    (h : Emits (lowerDeclare setting splice site x shape init span) s code s') :
    ∃ s₁ y, s₁.supply = s.supply ∧ Emits (declareName site x) s₁ y s' ∧
      code = [.declare y shape (init.map (render site s.scopes)) span] := by
  unfold lowerDeclare at h
  split at h
  · next method args callSpan => exact absurd ⟨method, args, callSpan, rfl⟩ (hinit _ rfl)
  · next value hne =>
    obtain ⟨value', s₁, hv, h₁⟩ := emits_bind.mp h
    obtain ⟨rfl, hs⟩ := emits_lowerExpr hv
    obtain ⟨y, s₂, hy, h₂⟩ := emits_bind.mp h₁
    obtain ⟨rfl, rfl⟩ := emits_pure.mp h₂
    exact ⟨s₁, y, hs, hy, rfl⟩
  · obtain ⟨y, s₂, hy, h₂⟩ := emits_bind.mp h
    obtain ⟨rfl, rfl⟩ := emits_pure.mp h₂
    exact ⟨s, y, rfl, hy, rfl⟩

/-- Lowering an assignment of a call. -/
theorem emits_lowerAssign_call {target : Expr} {method : String} {args : List Expr}
    {callSpan : Span}
    (h : Emits (lowerAssign setting splice site target (.call method args callSpan) span)
      s code s') :
    ∃ s₁, s₁.supply = s.supply ∧
      Emits (emitCall setting splice site method (renderList site s.scopes args)
        (some (render site s.scopes target)) callSpan span) s₁ code s' := by
  unfold lowerAssign at h
  obtain ⟨target', s₁, ht, h₁⟩ := emits_bind.mp h
  obtain ⟨rfl, hs⟩ := emits_lowerExpr ht
  obtain ⟨s₂, hs₂, h₂⟩ := emits_lowerCall h₁
  rw [show s₁.scopes = s.scopes from congrArg Supply.scopes hs] at h₂
  exact ⟨s₂, hs₂.trans hs, h₂⟩

/-- Lowering an assignment of anything else. -/
theorem emits_lowerAssign {target value : Expr} (hv : ¬ IsCall value)
    (h : Emits (lowerAssign setting splice site target value span) s code s') :
    s'.supply = s.supply ∧
      code = [.assign (render site s.scopes target) (render site s.scopes value) span] := by
  unfold lowerAssign at h
  obtain ⟨target', s₁, ht, h₁⟩ := emits_bind.mp h
  obtain ⟨rfl, hs⟩ := emits_lowerExpr ht
  split at h₁
  · next method args callSpan => exact absurd ⟨method, args, callSpan, rfl⟩ hv
  · obtain ⟨value', s₂, hv', h₂⟩ := emits_bind.mp h₁
    obtain ⟨rfl, hs₂⟩ := emits_lowerExpr hv'
    obtain ⟨rfl, rfl⟩ := emits_pure.mp h₂
    rw [show s₁.scopes = s.scopes from congrArg Supply.scopes hs]
    exact ⟨hs₂.trans hs, rfl⟩

/-- Lowering an expression that stands alone and is no call. -/
theorem emits_lowerEval {e : Expr} (he : ¬ IsCall e)
    (h : Emits (lowerEval setting splice site e span) s code s') :
    s'.supply = s.supply ∧ code = [.eval (render site s.scopes e) span] := by
  unfold lowerEval at h
  split at h
  · next method args callSpan => exact absurd ⟨method, args, callSpan, rfl⟩ he
  · obtain ⟨e', s₁, he', h₁⟩ := emits_bind.mp h
    obtain ⟨rfl, hs⟩ := emits_lowerExpr he'
    obtain ⟨rfl, rfl⟩ := emits_pure.mp h₁
    exact ⟨hs, rfl⟩

/-- Lowering a condition without `else`. -/
theorem emits_cond_none {test : Expr} {yes : Block}
    (h : Emits (lowerStmt setting splice site (.cond test yes none span)) s code s') :
    ∃ s₁ yes', s₁.supply = ⟨s.labels + 1, s.names, s.scopes⟩ ∧
      Emits (lowerStmts setting splice site none yes) s₁ yes' s' ∧
      code = .branch (render site s.scopes test) (Label.name s.labels) span :: yes' ++
        [mark (Label.name s.labels)] := by
  unfold lowerStmt at h
  obtain ⟨test', s₁, ht, h₁⟩ := emits_bind.mp h
  obtain ⟨rfl, hs⟩ := emits_lowerExpr ht
  obtain ⟨l, s₂, hl, h₂⟩ := emits_bind.mp h₁
  obtain ⟨rfl, rfl⟩ := emits_nextLabel.mp hl
  obtain ⟨yes', s₃, hy, h₃⟩ := emits_bind.mp h₂
  obtain ⟨rfl, rfl⟩ := emits_pure.mp h₃
  have hl : s₁.labels = s.labels := congrArg Supply.labels hs
  have hn : s₁.names = s.names := congrArg Supply.names hs
  have hsc : s₁.scopes = s.scopes := congrArg Supply.scopes hs
  exact ⟨_, yes', by simp only [Progress.supply, hl, hn, hsc], hy, by rw [hl]⟩

/-- Lowering a condition with `else`. -/
theorem emits_cond_some {test : Expr} {yes no : Block}
    (h : Emits (lowerStmt setting splice site (.cond test yes (some no) span)) s code s') :
    ∃ s₁ yes' s₂ no', s₁.supply = ⟨s.labels + 2, s.names, s.scopes⟩ ∧
      Emits (lowerStmts setting splice site none yes) s₁ yes' s₂ ∧
      Emits (lowerStmts setting splice site none no) s₂ no' s' ∧
      code = .branch (render site s.scopes test) (Label.name s.labels) span :: yes' ++
        jump (Label.name (s.labels + 1)) :: mark (Label.name s.labels) :: no' ++
        [mark (Label.name (s.labels + 1))] := by
  unfold lowerStmt at h
  obtain ⟨test', s₁, ht, h₁⟩ := emits_bind.mp h
  obtain ⟨rfl, hs⟩ := emits_lowerExpr ht
  obtain ⟨l, s₂, hl, h₂⟩ := emits_bind.mp h₁
  obtain ⟨rfl, rfl⟩ := emits_nextLabel.mp hl
  obtain ⟨l', s₃, hl', h₃⟩ := emits_bind.mp h₂
  obtain ⟨rfl, rfl⟩ := emits_nextLabel.mp hl'
  obtain ⟨yes', s₄, hy, h₄⟩ := emits_bind.mp h₃
  obtain ⟨no', s₅, hn', h₅⟩ := emits_bind.mp h₄
  obtain ⟨rfl, rfl⟩ := emits_pure.mp h₅
  have hl : s₁.labels = s.labels := congrArg Supply.labels hs
  have hn : s₁.names = s.names := congrArg Supply.names hs
  have hsc : s₁.scopes = s.scopes := congrArg Supply.scopes hs
  exact ⟨_, yes', s₄, no', by simp only [Progress.supply, hl, hn, hsc], hy, hn', by rw [hl]⟩

/-- Lowering a loop that tests first. -/
theorem emits_loop_first {test : Expr} {body : Block}
    (h : Emits (lowerStmt setting splice site (.loop .testFirst test body span)) s code s') :
    ∃ s₁ body', s₁.supply = ⟨s.labels + 2, s.names, s.scopes⟩ ∧
      Emits (lowerStmts setting splice (site.insideLoop (Label.name (s.labels + 1))) none body)
        s₁ body' s' ∧
      code = mark (Label.name s.labels) ::
        .branch (render site s.scopes test) (Label.name (s.labels + 1)) span :: body' ++
        [jump (Label.name s.labels), mark (Label.name (s.labels + 1))] := by
  unfold lowerStmt at h
  obtain ⟨l, s₁, hl, h₁⟩ := emits_bind.mp h
  obtain ⟨rfl, rfl⟩ := emits_nextLabel.mp hl
  obtain ⟨l', s₂, hl', h₂⟩ := emits_bind.mp h₁
  obtain ⟨rfl, rfl⟩ := emits_nextLabel.mp hl'
  obtain ⟨test', s₃, ht, h₃⟩ := emits_bind.mp h₂
  obtain ⟨rfl, hs⟩ := emits_lowerExpr ht
  obtain ⟨body', s₄, hb, h₄⟩ := emits_bind.mp h₃
  obtain ⟨rfl, rfl⟩ := emits_pure.mp h₄
  exact ⟨s₃, body', hs, hb, rfl⟩

/-- Lowering a loop that tests last. -/
theorem emits_loop_last {test : Expr} {body : Block}
    (h : Emits (lowerStmt setting splice site (.loop .testLast test body span)) s code s') :
    ∃ s₁ body' s₂, s₁.supply = ⟨s.labels + 2, s.names, s.scopes⟩ ∧
      Emits (lowerStmts setting splice (site.insideLoop (Label.name (s.labels + 1))) none body)
        s₁ body' s₂ ∧ s'.supply = s₂.supply ∧
      code = mark (Label.name s.labels) :: body' ++
        [.branch (render site s₂.scopes test) (Label.name (s.labels + 1)) span,
          jump (Label.name s.labels), mark (Label.name (s.labels + 1))] := by
  unfold lowerStmt at h
  obtain ⟨l, s₁, hl, h₁⟩ := emits_bind.mp h
  obtain ⟨rfl, rfl⟩ := emits_nextLabel.mp hl
  obtain ⟨l', s₂, hl', h₂⟩ := emits_bind.mp h₁
  obtain ⟨rfl, rfl⟩ := emits_nextLabel.mp hl'
  obtain ⟨body', s₃, hb, h₃⟩ := emits_bind.mp h₂
  obtain ⟨test', s₄, ht, h₄⟩ := emits_bind.mp h₃
  obtain ⟨rfl, hs⟩ := emits_lowerExpr ht
  obtain ⟨rfl, rfl⟩ := emits_pure.mp h₄
  exact ⟨_, body', s₃, rfl, hb, hs, rfl⟩

/-- Lowering a `break`. -/
theorem emits_brk (h : Emits (lowerStmt setting splice site (.brk span)) s code s') :
    s'.supply = s.supply ∧ code = match site.loopEnds with
      | endLabel :: _ => [.goto endLabel span]
      | [] => [.brk span] := by
  unfold lowerStmt at h
  cases hends : site.loopEnds with
  | cons endLabel rest =>
    rw [hends] at h
    obtain ⟨rfl, rfl⟩ := emits_pure.mp h
    exact ⟨rfl, rfl⟩
  | nil =>
    rw [hends] at h
    obtain ⟨_, s₁, hr, h₁⟩ := emits_bind.mp h
    obtain ⟨rfl, rfl⟩ := emits_pure.mp h₁
    exact ⟨emits_report hr, rfl⟩

/-- Lowering a `throw`. -/
theorem emits_throw {value : Expr}
    (h : Emits (lowerStmt setting splice site (.throw value span)) s code s') :
    s'.supply = s.supply ∧ code = [.throw (render site s.scopes value) span] := by
  unfold lowerStmt at h
  obtain ⟨e', s₁, he', h₁⟩ := emits_bind.mp h
  obtain ⟨rfl, hs⟩ := emits_lowerExpr he'
  obtain ⟨rfl, rfl⟩ := emits_pure.mp h₁
  exact ⟨hs, rfl⟩

/-- The name of the exception of a handler. -/
def CatchName (site : Site) : Option String → Option String → Progress → Progress → Prop
  | some x, some y, s, s' => Emits (declareName site x) s y s'
  | none, none, s, s' => s' = s
  | _, _, _, _ => False

/-- Lowering an `attempt` statement. -/
theorem emits_attempt {body handler : Block} {catchVar : Option String}
    (h : Emits (lowerStmt setting splice site (.attempt body catchVar handler span)) s code s') :
    ∃ body' s₁ catchVar' s₂ handler' s₃,
      Emits (lowerStmts setting splice site none body) { s with scopes := s.scopes.push } body' s₁ ∧
      CatchName site catchVar catchVar' { s₁ with scopes := s₁.scopes.pop.push } s₂ ∧
      Emits (lowerStmts setting splice site none handler) s₂ handler' s₃ ∧
      s' = { s₃ with scopes := s₃.scopes.pop } ∧
      code = [.attempt body' catchVar' handler' span] := by
  unfold lowerStmt at h
  obtain ⟨body', s₁, hb, h₁⟩ := emits_bind.mp h
  obtain ⟨s₂, hb', rfl⟩ := emits_inScope hb
  obtain ⟨⟨catchVar', handler'⟩, s₃, hh, h₃⟩ := emits_bind.mp h₁
  obtain ⟨s₄, hh', rfl⟩ := emits_inScope hh
  obtain ⟨rfl, rfl⟩ := emits_pure.mp h₃
  cases catchVar with
  | none =>
    obtain ⟨cv, s₅, hcv, h₅⟩ := emits_bind.mp hh'
    obtain ⟨rfl, rfl⟩ := emits_pure.mp hcv
    obtain ⟨handler'', s₆, hhandler, h₆⟩ := emits_bind.mp h₅
    obtain ⟨hpair, rfl⟩ := emits_pure.mp h₆
    cases hpair
    exact ⟨body', s₂, none, _, handler', s₄, hb', rfl, hhandler, rfl, rfl⟩
  | some x =>
    obtain ⟨cv, s₅, hcv, h₅⟩ := emits_bind.mp hh'
    obtain ⟨y, hy, rfl⟩ := emits_map.mp hcv
    obtain ⟨handler'', s₆, hhandler, h₆⟩ := emits_bind.mp h₅
    obtain ⟨hpair, rfl⟩ := emits_pure.mp h₆
    cases hpair
    exact ⟨body', s₂, some y, s₅, handler', s₄, hb', hy, hhandler, rfl, rfl⟩

/-- Lowering statements one after the other. -/
theorem emits_lowerStmts_cons {after : Option Span} {stmt : Stmt} {rest : List Stmt}
    (h : Emits (lowerStmts setting splice site after (stmt :: rest)) s code s') :
    ∃ s₁ first s₂ others, s₁.supply = s.supply ∧
      Emits (lowerStmt setting splice site stmt) s₁ first s₂ ∧
      Emits (lowerStmts setting splice site (terminal? stmt) rest) s₂ others s' ∧
      code = first ++ others := by
  unfold lowerStmts at h
  obtain ⟨_, s₁, hr, h₁⟩ := emits_bind.mp h
  obtain ⟨first, s₂, hf, h₂⟩ := emits_bind.mp h₁
  obtain ⟨others, s₃, ho, h₃⟩ := emits_bind.mp h₂
  obtain ⟨rfl, rfl⟩ := emits_pure.mp h₃
  exact ⟨s₁, first, s₂, others, emits_report hr, hf, ho, rfl⟩

end Statements

end Functions

end Stepwise.Lowering
