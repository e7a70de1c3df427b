import Stepwise.Proofs.Lowering.Output
import Stepwise.Proofs.Program.Jumps

/-!
# Labels and names handed out

The labels of lowered code are new ones, each of them marked once, and
lowering only ever adds to the supply. The names of a copy change for the
declared names alone. Together these facts say that a jump finds its label
and that names which were in use before are not taken again.
-/

namespace Stepwise

namespace Lowering

/-- The labels of the code have numbers from one bound up to another, and each
is marked once. -/
structure Marked (low high : Nat) (code : Block) : Prop where
  /-- No label is marked twice. -/
  nodup : (Block.labels code).Nodup
  /-- Labels have numbers within the bounds. -/
  bound : ∀ l ∈ Block.labels code, ∃ i, low ≤ i ∧ i < high ∧ l = Label.name i

namespace Marked

variable {low mid high : Nat} {a b : Block}

/-- Code without labels. -/
theorem none (h : Block.labels a = []) : Marked low high a :=
  ⟨by rw [h]; exact List.nodup_nil, by simp [h]⟩

/-- One label. -/
theorem one {i : Nat} (hl : low ≤ i) (hh : i < high) : Marked low high [mark (Label.name i)] where
  nodup := by simp [mark]
  bound := by
    intro l h
    simp only [mark, Block.labels_label, Block.labels_nil, List.mem_singleton] at h
    exact ⟨i, hl, hh, h⟩

/-- Wider bounds. -/
theorem mono {low' high' : Nat} (h : Marked low high a) (hl : low' ≤ low) (hh : high ≤ high') :
    Marked low' high' a where
  nodup := h.nodup
  bound := by
    intro l hm
    obtain ⟨i, h₁, h₂, rfl⟩ := h.bound l hm
    exact ⟨i, by omega, by omega, rfl⟩

/-- Code after code. -/
theorem append (ha : Marked low mid a) (hb : Marked mid high b) (hl : low ≤ mid)
    (hh : mid ≤ high) : Marked low high (a ++ b) where
  nodup := by
    rw [Block.labels_append, List.nodup_append]
    refine ⟨ha.nodup, hb.nodup, ?_⟩
    rintro l h₁ l' h₂ rfl
    obtain ⟨i, -, hi, hil⟩ := ha.bound l h₁
    obtain ⟨j, hj, -, hjl⟩ := hb.bound l h₂
    have := Label.name_injective (hil.symm.trans hjl)
    omega
  bound := by
    intro l h
    rw [Block.labels_append, List.mem_append] at h
    rcases h with h | h
    · exact (ha.mono (Nat.le_refl _) hh).bound l h
    · exact (hb.mono hl (Nat.le_refl _)).bound l h

/-- The order of the labels does not matter. -/
theorem perm (ha : Marked low high a) (h : (Block.labels b).Perm (Block.labels a)) :
    Marked low high b where
  nodup := h.nodup_iff.mpr ha.nodup
  bound := fun l hl => ha.bound l (h.mem_iff.mp hl)

/-- Older labels are not marked. -/
theorem notMem (ha : Marked low high a) {i : Nat} (hi : i < low) :
    Label.name i ∉ Block.labels a := by
  intro hm
  obtain ⟨j, hj, -, he⟩ := ha.bound _ hm
  have := Label.name_injective he
  omega

end Marked

/-- From one supply to a later one by lowering at a site, when the declared
names are the given ones. -/
structure Supplies (site : Site) (spilled : List String) (c c' : Supply) : Prop where
  /-- Labels are only added. -/
  labels : c.labels ≤ c'.labels
  /-- Names are only added. -/
  names : c.names ≤ c'.names
  /-- Outside of copies nothing is renamed. -/
  top : site.copy = none → c'.scopes = c.scopes
  /-- Outer scopes of a copy stay as they are. -/
  tail : c'.scopes.tail = c.scopes.tail
  /-- Only declared names get other names. -/
  same : ∀ x, x ∉ spilled → c'.scopes.lookup? x = c.scopes.lookup? x
  /-- Names of a copy have been handed out. -/
  known : (∀ x y, c.scopes.lookup? x = some y → UpTo c.names y) →
    ∀ x y, c'.scopes.lookup? x = some y → UpTo c'.names y

namespace Supplies

variable {site : Site} {spilled spilled' : List String} {c c' c'' : Supply}

/-- The names of the copy stay as they are. -/
theorem ofScopes (hl : c.labels ≤ c'.labels) (hn : c.names ≤ c'.names)
    (hs : c'.scopes = c.scopes) : Supplies site spilled c c' where
  labels := hl
  names := hn
  top := fun _ => hs
  tail := by rw [hs]
  same := fun _ _ => by rw [hs]
  known := fun h x y hx => (h x y (by rw [← hs]; exact hx)).mono hn

/-- Nothing happens. -/
theorem refl : Supplies site spilled c c := ofScopes (Nat.le_refl _) (Nat.le_refl _) rfl

/-- One step after the other. -/
theorem trans (h : Supplies site spilled c c') (h' : Supplies site spilled' c' c'') :
    Supplies site (spilled ++ spilled') c c'' where
  labels := Nat.le_trans h.labels h'.labels
  names := Nat.le_trans h.names h'.names
  top := fun hs => (h'.top hs).trans (h.top hs)
  tail := h'.tail.trans h.tail
  same := by
    intro x hx
    rw [List.mem_append, not_or] at hx
    exact (h'.same x hx.2).trans (h.same x hx.1)
  known := fun hk => h'.known (h.known hk)

/-- More names may be declared. -/
theorem mono (h : Supplies site spilled c c') (hs : ∀ x ∈ spilled, x ∈ spilled') :
    Supplies site spilled' c c' :=
  { h with same := fun x hx => h.same x fun hm => hx (hs x hm) }

/-- The loops around a site do not matter. -/
theorem site_congr (h : Supplies site spilled c c') (site' : Site)
    (hs : site.copy = site'.copy) : Supplies site' spilled c c' :=
  { h with top := fun ht => h.top (hs.trans ht) }

end Supplies

/-- The name of a copy that is bound last. -/
theorem lookup?_bind (scopes : Renaming) (x y z : String) :
    (Renaming.bind x y scopes).lookup? z = if z = x then some y else scopes.lookup? z := by
  by_cases h : z = x
  · cases scopes <;> simp [Renaming.bind, Renaming.lookup?, h]
  · have hxz : (z == x) = false := beq_eq_false_iff_ne.mpr h
    cases scopes <;>
      simp [Renaming.bind, Renaming.lookup?, List.findSome?_cons, List.lookup_cons, h, hxz]

/-- A declaration at a site binds its name and nothing else. -/
theorem Emits.declareName {site : Site} {x y : String} {s s' : Progress}
    (h : Emits (declareName site x) s y s') : Supplies site [x] s.supply s'.supply := by
  cases hc : site.copy with
  | none =>
    obtain ⟨-, rfl⟩ := emits_declareName_top (by simp [hc]) h
    exact .refl
  | some target =>
    obtain ⟨rfl, rfl⟩ := emits_declareName_copy (by simp [hc]) h
    refine ⟨Nat.le_refl _, Nat.le_succ _, ?_, ?_, ?_, ?_⟩
    · intro hn
      rw [hc] at hn
      cases hn
    · show (Renaming.bind x _ s.scopes).tail = s.scopes.tail
      cases s.scopes <;> rfl
    · intro z hz
      show (Renaming.bind x _ s.scopes).lookup? z = _
      rw [lookup?_bind, if_neg (by simpa using hz)]
      rfl
    · intro hk z y hy
      change (Renaming.bind x _ s.scopes).lookup? z = some y at hy
      rw [lookup?_bind] at hy
      split at hy
      · cases hy
        exact ⟨x, s.names + 1, Nat.le_refl _, rfl⟩
      · exact (hk z y hy).mono (Nat.le_succ _)

/-- A step in a scope of its own leaves the names as they were. -/
theorem Supplies.inScope {site : Site} {spilled : List String} {s s' : Progress}
    (h : Supplies site spilled { s with scopes := s.scopes.push }.supply s'.supply) :
    Supplies site [] s.supply { s' with scopes := s'.scopes.pop }.supply :=
  .ofScopes h.labels h.names h.tail

/-- What lowering adds without declaring names at the site. -/
structure Draws (c : Supply) (code : Block) (c' : Supply) : Prop where
  /-- Labels are only added. -/
  labels : c.labels ≤ c'.labels
  /-- Names are only added. -/
  names : c.names ≤ c'.names
  /-- The names of the copy stay as they are. -/
  scopes : c'.scopes = c.scopes
  /-- The code marks the new labels. -/
  marked : Marked c.labels c'.labels code

namespace Draws

variable {c c' c'' : Supply} {a b : Block}

/-- Nothing happens. -/
theorem refl (h : Block.labels a = []) : Draws c a c :=
  ⟨Nat.le_refl _, Nat.le_refl _, rfl, .none h⟩

/-- One step after the other. -/
theorem append (h : Draws c a c') (h' : Draws c' b c'') : Draws c (a ++ b) c'' :=
  ⟨Nat.le_trans h.labels h'.labels, Nat.le_trans h.names h'.names, h'.scopes.trans h.scopes,
    h.marked.append h'.marked h.labels h'.labels⟩

/-- The same labels in other code. -/
theorem congr (h : Draws c a c') (hl : Block.labels b = Block.labels a) : Draws c b c' :=
  { h with marked := h.marked.perm (by rw [hl]) }

/-- A name was handed out before. -/
theorem afterName {n : Nat} (h : Draws { c with names := n } a c') (hn : c.names ≤ n) :
    Draws c a c' :=
  { h with names := Nat.le_trans hn h.names }

end Draws

/-- What lowering gives at a site, when the declared names are the given ones. -/
structure Yields (site : Site) (spilled : List String) (c : Supply) (code : Block) (c' : Supply) :
    Prop extends Supplies site spilled c c' where
  /-- The code marks the new labels. -/
  marked : Marked c.labels c'.labels code

/-- Code that declares nothing at the site. -/
theorem Draws.yields {c c' : Supply} {code : Block} (h : Draws c code c') (site : Site)
    (spilled : List String) : Yields site spilled c code c' :=
  ⟨.ofScopes h.labels h.names h.scopes, h.marked⟩

/-- Copies of structured blocks are as code at a site has to be. -/
def SpliceYields (splice : Splice) : Prop :=
  ∀ {site : Site} {block code : Block} {s s' : Progress}, Stmt.structuredAll block →
    Emits (splice site block) s code s' →
    Yields site (Stmt.spillsOf block) s.supply code s'.supply

section Static

variable {setting : Setting} {splice : Splice} {site : Site} {s s' : Progress}

/-- Declarations of parameters mark nothing. -/
theorem labels_declarations (span : Span) (n : Nat) (params : List Param) (args : List Expr) :
    Block.labels (declarations span n params args) = [] := by
  induction params generalizing n args with
  | nil => rfl
  | cons param params ih =>
    cases args with
    | nil => rfl
    | cons arg args => exact ih (n + 1) args

-- The labels of code that a condition or a loop is lowered to.
@[simp] theorem labels_mark (l : String) (rest : List Stmt) :
    Block.labels (mark l :: rest) = l :: Block.labels rest := rfl

@[simp] theorem labels_branch (test : Expr) (l : String) (span : Span) (rest : List Stmt) :
    Block.labels (.branch test l span :: rest) = Block.labels rest := rfl

@[simp] theorem labels_jump (l : String) (rest : List Stmt) :
    Block.labels (jump l :: rest) = Block.labels rest := rfl

/-- Two labels around the labels of code. -/
theorem Marked.enclose {n high : Nat} {code : Block} (h : Marked (n + 2) high code)
    (hl : n + 2 ≤ high) :
    Marked n high (mark (Label.name n) :: code ++ [mark (Label.name (n + 1))]) := by
  have hstart : Marked n (n + 1) [mark (Label.name n)] := .one (Nat.le_refl _) (Nat.lt_succ_self _)
  have hend : Marked (n + 1) (n + 2) [mark (Label.name (n + 1))] :=
    .one (Nat.le_refl _) (Nat.lt_succ_self _)
  refine (hstart.append (hend.append h (Nat.le_succ _) hl) (Nat.le_succ _) (by omega)).perm ?_
  rw [List.cons_append, List.singleton_append, labels_mark, labels_mark]
  refine List.Perm.cons _ ?_
  rw [Block.labels_append, List.singleton_append]
  exact List.perm_append_comm

/-- The statements of a call draw on the supply. -/
theorem emitCall_draws (hprogram : ∀ m ∈ setting.program.methods, m.Structured)
    (hsplice : SpliceYields splice) {name : String} {args : List Expr} {dest : Option Expr}
    {callSpan span : Span} {code : Block}
    (h : Emits (emitCall setting splice site name args dest callSpan span) s code s') :
    Draws s.supply code s'.supply := by
  obtain ⟨rfl, hs⟩ | ⟨callee, hi, s₀, hs₀, s₁, body, s₂, hs₁, hbody, hs', rfl⟩ :=
    emits_emitCall h
  · rw [hs]
    refine .refl ?_
    cases dest <;> rfl
  · have hy := hsplice (hprogram callee (Program.mem_of_method?_eq_some hi.found)) hbody
    have hlabels : s.supply.labels = s₀.labels := congrArg Supply.labels hs₀.symm
    have hnames : s.supply.names = s₀.names := congrArg Supply.names hs₀.symm
    have hscopes : s.supply.scopes = s₀.scopes := congrArg Supply.scopes hs₀.symm
    have hl := hy.labels
    have hn := hy.names
    have hmarked := hy.marked
    rw [hs₁] at hl hn hmarked
    rw [hs']
    refine ⟨?_, ?_, hscopes.symm, ?_⟩
    · exact Nat.le_trans (by rw [hlabels]; exact Nat.le_add_right _ 2) hl
    · exact Nat.le_trans (by rw [hnames, Nat.add_assoc]; exact Nat.le_add_right _ _) hn
    · rw [hlabels]
      refine (Marked.enclose hmarked hl).perm (.of_eq ?_)
      have hresult : Block.labels (passResult (fresh (callee.name ++ ".return") (s₀.names + 1))
          dest span) = [] := by
        cases dest <;> rfl
      simp only [Block.labels_append, labels_declarations, labels_mark, hresult,
        Block.labels_cons (by simp : ∀ name sp, Stmt.declare _ _ _ _ ≠ .label name sp),
        List.cons_append, List.nil_append, Block.labels_nil]

mutual

/-- Moving the calls of an expression in front of it draws on the supply. -/
theorem hoist_draws (hprogram : ∀ m ∈ setting.program.methods, m.Structured)
    (hsplice : SpliceYields splice) :
    ∀ (e : Expr) {s s' : Progress} {before : Block} {e' : Expr},
      Emits (hoist setting splice site e) s (before, e') s' → Draws s.supply before s'.supply
  | .call method args span, s, s', before, e', h => by
    obtain ⟨b, as, s₁, hb, hcall⟩ := emits_hoist_call h
    have hargs := hoistList_draws hprogram hsplice args hb
    obtain ⟨-, call, hemit, rfl, -⟩ | ⟨-, hs, rfl, -⟩ := hcall
    · have hd := (emitCall_draws hprogram hsplice hemit).afterName (c := s₁.supply) (Nat.le_succ _)
      exact hargs.append (hd.congr rfl)
    · rw [hs]
      exact hargs
  | .callStatic typeName method args span, s, s', before, e', h => by
    unfold hoist at h
    obtain ⟨as, hb, -⟩ := emits_hoist_list (.callStatic typeName method · span) h
    exact hoistList_draws hprogram hsplice args hb
  | .callOn object _ args _, s, s', before, e', h => by
    obtain ⟨b₁, as, s₁, b₂, o, h₁, h₂, rfl, -⟩ := emits_hoist_callOn h
    exact (hoistList_draws hprogram hsplice args h₁).append (hoist_draws hprogram hsplice object h₂)
  | .binary _ left right _, s, s', before, e', h => by
    obtain ⟨b₁, a₁, s₁, h₁, hright⟩ := emits_hoist_binary h
    have hl := hoist_draws hprogram hsplice left h₁
    obtain ⟨-, hs, rfl, -⟩ | ⟨-, b₂, a₂, h₂, rfl, -⟩ := hright
    · rw [hs]
      exact hl
    · exact hl.append (hoist_draws hprogram hsplice right h₂)
  | .unary op operand span, s, s', before, e', h => by
    unfold hoist at h
    obtain ⟨a, hb, -⟩ := emits_hoist_one (.unary op · span) h
    exact hoist_draws hprogram hsplice operand hb
  | .index target position span, s, s', before, e', h => by
    unfold hoist at h
    obtain ⟨b₁, a₁, s₁, b₂, a₂, h₁, h₂, rfl, -⟩ := emits_hoist_two (.index · · span) h
    exact (hoist_draws hprogram hsplice target h₁).append
      (hoist_draws hprogram hsplice position h₂)
  | .property object name span, s, s', before, e', h => by
    unfold hoist at h
    obtain ⟨a, hb, -⟩ := emits_hoist_one (.property · name span) h
    exact hoist_draws hprogram hsplice object hb
  | .create typeName args span, s, s', before, e', h => by
    unfold hoist at h
    obtain ⟨as, hb, -⟩ := emits_hoist_list (.create typeName · span) h
    exact hoistList_draws hprogram hsplice args hb
  | .array items span, s, s', before, e', h => by
    unfold hoist at h
    obtain ⟨as, hb, -⟩ := emits_hoist_list (.array · span) h
    exact hoistList_draws hprogram hsplice items hb
  | .literal .., s, s', before, e', h => by
    unfold hoist at h
    obtain ⟨rfl, -, hs⟩ := emits_hoist_leaf h
    rw [hs]
    exact .refl rfl
  | .var .., s, s', before, e', h => by
    unfold hoist at h
    obtain ⟨rfl, -, hs⟩ := emits_hoist_leaf h
    rw [hs]
    exact .refl rfl
  | .staticProperty .., s, s', before, e', h => by
    unfold hoist at h
    obtain ⟨hpair, rfl⟩ := emits_pure.mp h
    cases hpair
    exact .refl rfl

/-- Moving the calls of expressions in front of them draws on the supply. -/
theorem hoistList_draws (hprogram : ∀ m ∈ setting.program.methods, m.Structured)
    (hsplice : SpliceYields splice) :
    ∀ (es : List Expr) {s s' : Progress} {before : Block} {es' : List Expr},
      Emits (hoistList setting splice site es) s (before, es') s' → Draws s.supply before s'.supply
  | [], s, s', before, es', h => by
    unfold hoistList at h
    obtain ⟨hpair, rfl⟩ := emits_pure.mp h
    cases hpair
    exact .refl rfl
  | e :: rest, s, s', before, es', h => by
    obtain ⟨b₁, a, s₁, b₂, as, h₁, h₂, rfl, -⟩ := emits_hoistList_cons h
    exact (hoist_draws hprogram hsplice e h₁).append (hoistList_draws hprogram hsplice rest h₂)

end

/-- A call with a destination draws on the supply. -/
theorem lowerCall_draws (hprogram : ∀ m ∈ setting.program.methods, m.Structured)
    (hsplice : SpliceYields splice) {name : String} {args : List Expr} {dest : Option Expr}
    {callSpan span : Span} {code : Block}
    (h : Emits (lowerCall setting splice site name args dest callSpan span) s code s') :
    Draws s.supply code s'.supply := by
  obtain ⟨s₁, hs, h₁⟩ := emits_lowerCall h
  rw [← hs]
  exact emitCall_draws hprogram hsplice h₁

/-- A return draws on the supply. -/
theorem lowerReturn_draws (hprogram : ∀ m ∈ setting.program.methods, m.Structured)
    (hsplice : SpliceYields splice) {value : Option Expr} {span : Span} {code : Block}
    (h : Emits (lowerReturn setting splice site value span) s code s') :
    Draws s.supply code s'.supply := by
  cases value with
  | none => obtain ⟨rfl, ⟨-, rfl⟩ | ⟨target, -, rfl⟩⟩ := emits_lowerReturn_none h <;> exact .refl rfl
  | some value =>
    have hclosing : ∀ {before tail : Block}, Draws s.supply before s'.supply →
        Block.labels tail = [] → Draws s.supply (before ++ tail) s'.supply :=
      fun hd ht => hd.congr (by rw [Block.labels_append, ht, List.append_nil])
    cases hc : site.copy with
    | none =>
      obtain ⟨before, e', hb, rfl⟩ := emits_lowerReturned_top hc h
      exact hclosing (hoist_draws hprogram hsplice value hb) rfl
    | some target =>
      obtain ⟨method, args, callSpan, call, -, hcall, rfl⟩ | ⟨-, before, e', hb, rfl⟩ :=
        emits_lowerReturned_copy hc h
      · exact hclosing (lowerCall_draws hprogram hsplice hcall) rfl
      · exact hclosing (hoist_draws hprogram hsplice value hb) rfl

/-- A declaration binds its name. -/
theorem lowerDeclare_yields (hprogram : ∀ m ∈ setting.program.methods, m.Structured)
    (hsplice : SpliceYields splice) {x : String} {shape : Shape} {init : Option Expr} {span : Span}
    {code : Block} (h : Emits (lowerDeclare setting splice site x shape init span) s code s') :
    Yields site [x] s.supply code s'.supply := by
  by_cases hinit : ∃ e, init = some e ∧ IsCall e
  · obtain ⟨_, rfl, method, args, callSpan, rfl⟩ := hinit
    obtain ⟨s₁, y, s₂, call, hs, hy, hcall, rfl⟩ := emits_lowerDeclare_call h
    have hd := emitCall_draws hprogram hsplice hcall
    have hname := hy.declareName
    rw [hs] at hname
    refine ⟨(hname.trans (hd.yields site []).toSupplies).mono (by simp), ?_⟩
    exact (hd.marked.mono hname.labels (Nat.le_refl _)).perm (.refl _)
  · obtain ⟨s₁, y, hs, hy, rfl⟩ :=
      emits_lowerDeclare (fun e he hc => hinit ⟨e, he, hc⟩) h
    rw [← hs]
    exact ⟨hy.declareName, .none rfl⟩

/-- The name of an exception is declared like any other. -/
theorem CatchName.supplies {name name' : Option String} (h : CatchName site name name' s s') :
    Supplies site name.toList s.supply s'.supply := by
  cases name with
  | none =>
    cases name' with
    | none =>
      rw [show s' = s from h]
      exact .refl
    | some y => cases h
  | some x =>
    cases name' with
    | none => cases h
    | some y => exact Emits.declareName h

mutual

/-- A structured statement is lowered as code at a site has to be. -/
theorem lowerStmt_yields (hprogram : ∀ m ∈ setting.program.methods, m.Structured)
    (hsplice : SpliceYields splice) :
    ∀ (stmt : Stmt) {site : Site} {s s' : Progress} {code : Block},
      stmt.every (·.isJumpCode = false) →
      Emits (lowerStmt setting splice site stmt) s code s' →
      Yields site stmt.spills s.supply code s'.supply
  | .declare .., site, s, s', code, _, h => by
    rw [lowerStmt] at h
    rw [Stmt.spills]
    exact lowerDeclare_yields hprogram hsplice h
  | .assign target value span, site, s, s', code, _, h => by
    rw [lowerStmt] at h
    by_cases hv : IsCall value
    · obtain ⟨method, args, callSpan, rfl⟩ := hv
      obtain ⟨s₁, hs, hcall⟩ := emits_lowerAssign_call h
      rw [← hs]
      exact (emitCall_draws hprogram hsplice hcall).yields site _
    · obtain ⟨hs, rfl⟩ := emits_lowerAssign hv h
      rw [hs]
      exact (Draws.refl rfl).yields site _
  | .eval e span, site, s, s', code, _, h => by
    rw [lowerStmt] at h
    by_cases he : IsCall e
    · obtain ⟨method, args, callSpan, rfl⟩ := he
      exact (lowerCall_draws hprogram hsplice h).yields site _
    · obtain ⟨hs, rfl⟩ := emits_lowerEval he h
      rw [hs]
      exact (Draws.refl rfl).yields site _
  | .cond test yes none span, site, s, s', code, hstr, h => by
    obtain ⟨s₁, yes', hs₁, hyes, rfl⟩ := emits_cond_none h
    have hy := lowerStmts_yields hprogram hsplice yes (Stmt.every_cond_none hstr) hyes
    rw [hs₁] at hy
    rw [Stmt.spills]
    refine ⟨{ hy.toSupplies with labels := Nat.le_trans (Nat.le_succ _) hy.labels }, ?_⟩
    have hend : Marked s.labels (s.labels + 1) [mark (Label.name s.labels)] :=
      .one (Nat.le_refl _) (Nat.lt_succ_self _)
    refine (hend.append hy.marked (Nat.le_succ _) hy.labels).perm ?_
    rw [List.cons_append, labels_branch, Block.labels_append, Block.labels_append]
    exact List.perm_append_comm
  | .cond test yes (some no) span, site, s, s', code, hstr, h => by
    obtain ⟨s₁, yes', s₂, no', hs₁, hyes, hno, rfl⟩ := emits_cond_some h
    have hy := lowerStmts_yields hprogram hsplice yes (Stmt.every_cond_some hstr).1 hyes
    have hn := lowerStmts_yields hprogram hsplice no (Stmt.every_cond_some hstr).2 hno
    rw [hs₁] at hy
    rw [Stmt.spills]
    have hboth := hy.toSupplies.trans hn.toSupplies
    refine ⟨{ hboth with labels := Nat.le_trans (Nat.le_add_right _ 2) hboth.labels }, ?_⟩
    have hcode := hy.marked.append hn.marked hy.labels hn.labels
    refine (hcode.enclose hboth.labels).perm ?_
    simp only [List.cons_append, List.append_assoc, labels_branch, Block.labels_append,
      labels_jump, labels_mark]
    exact List.perm_middle
  | .loop .testFirst test body span, site, s, s', code, hstr, h => by
    obtain ⟨s₁, body', hs₁, hbody, rfl⟩ := emits_loop_first h
    have hb := lowerStmts_yields hprogram hsplice body (Stmt.every_loop hstr) hbody
    rw [hs₁] at hb
    rw [Stmt.spills]
    have hsup := hb.toSupplies.site_congr site rfl
    refine ⟨{ hsup with labels := Nat.le_trans (Nat.le_add_right _ 2) hsup.labels }, ?_⟩
    refine (hb.marked.enclose hb.labels).perm (.of_eq ?_)
    simp only [List.cons_append, labels_mark, labels_branch, Block.labels_append, labels_jump]
  | .loop .testLast test body span, site, s, s', code, hstr, h => by
    obtain ⟨s₁, body', s₂, hs₁, hbody, hs', rfl⟩ := emits_loop_last h
    have hb := lowerStmts_yields hprogram hsplice body (Stmt.every_loop hstr) hbody
    rw [hs₁] at hb
    rw [Stmt.spills, hs']
    have hsup := hb.toSupplies.site_congr site rfl
    refine ⟨{ hsup with labels := Nat.le_trans (Nat.le_add_right _ 2) hsup.labels }, ?_⟩
    refine (hb.marked.enclose hb.labels).perm (.of_eq ?_)
    simp only [List.cons_append, labels_mark, labels_branch, Block.labels_append, labels_jump]
  | .brk span, site, s, s', code, _, h => by
    obtain ⟨hs, rfl⟩ := emits_brk h
    rw [hs]
    refine (Draws.refl ?_).yields site _
    cases site.loopEnds <;> rfl
  | .ret value span, site, s, s', code, _, h => by
    rw [lowerStmt] at h
    exact (lowerReturn_draws hprogram hsplice h).yields site _
  | .throw value span, site, s, s', code, _, h => by
    obtain ⟨hs, rfl⟩ := emits_throw h
    rw [hs]
    exact (Draws.refl rfl).yields site _
  | .attempt body name handler span, site, s, s', code, hstr, h => by
    obtain ⟨body', s₁, name', s₂, handler', s₃, hbody, hname, hhandler, rfl, rfl⟩ :=
      emits_attempt h
    have hb := lowerStmts_yields hprogram hsplice body (Stmt.every_attempt hstr).1 hbody
    have hh := lowerStmts_yields hprogram hsplice handler (Stmt.every_attempt hstr).2 hhandler
    have hafter := hb.toSupplies.inScope
    have hcatch := hname.supplies
    have hall := (hafter.trans ((hcatch.trans hh.toSupplies).inScope
      (s := { s₁ with scopes := s₁.scopes.pop })))
    exact ⟨hall.mono (by simp), .none rfl⟩
  | .branch .., _, _, _, _, hstr, _ | .label .., _, _, _, _, hstr, _
  | .goto .., _, _, _, _, hstr, _ => by
    have := Stmt.every_self hstr
    cases this

/-- Structured statements are lowered as code at a site has to be. -/
theorem lowerStmts_yields (hprogram : ∀ m ∈ setting.program.methods, m.Structured)
    (hsplice : SpliceYields splice) :
    ∀ (block : List Stmt) {site : Site} {after : Option Span} {s s' : Progress} {code : Block},
      Stmt.structuredAll block → Emits (lowerStmts setting splice site after block) s code s' →
      Yields site (Stmt.spillsOf block) s.supply code s'.supply
  | [], site, after, s, s', code, _, h => by
    unfold lowerStmts at h
    obtain ⟨rfl, rfl⟩ := emits_pure.mp h
    exact (Draws.refl rfl).yields site _
  | stmt :: rest, site, after, s, s', code, hstr, h => by
    obtain ⟨s₁, first, s₂, others, hs₁, hfirst, hothers, rfl⟩ := emits_lowerStmts_cons h
    obtain ⟨hstmt, hrest⟩ := Stmt.everyAll_cons.mp hstr
    have h₁ := lowerStmt_yields hprogram hsplice stmt hstmt hfirst
    have h₂ := lowerStmts_yields hprogram hsplice rest hrest hothers
    rw [hs₁] at h₁
    rw [Stmt.spillsOf]
    exact ⟨h₁.toSupplies.trans h₂.toSupplies, h₁.marked.append h₂.marked h₁.labels h₂.labels⟩

end

/-- Blocks are lowered as code at a site has to be, however deep copies may nest. -/
theorem lowerBlock_yields (hprogram : ∀ m ∈ setting.program.methods, m.Structured) (depth : Nat) :
    SpliceYields (lowerBlock setting depth) := by
  induction depth with
  | zero =>
    intro site block code s s' _ h
    obtain ⟨rfl, rfl⟩ := emits_pure.mp h
    exact (Draws.refl rfl).yields site _
  | succ depth ih =>
    intro site block code s s' hstr h
    exact lowerStmts_yields hprogram ih block hstr h

end Static

end Lowering

end Stepwise
