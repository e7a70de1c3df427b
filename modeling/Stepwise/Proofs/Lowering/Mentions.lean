import Stepwise.Proofs.Lowering.Wellformed

/-!
# Names in lowered code

Which names the code for a statement has is known from what was at hand when
the statement was lowered: the names of the statement outside of copies, the
names of the callee's variables inside of them, and the new names that have
been handed out since. A copy has the names of the arguments and of the
destination besides, and it stores to the destination only. The one exception
is a branch of the source, whose test is copied with the names it has.
-/

namespace Stepwise

/-- The local variable that is replaced when a value is stored to the expression. -/
def Expr.stored : Expr → List String
  | .var name false _ => [name]
  | _ => []

namespace Stmt

/-- The names that the statement itself declares or stores to. -/
def writes : Stmt → List String
  | .assign target _ _ => target.stored
  | stmt => stmt.binds

/-- The names that a copy of the statement itself does not rename. -/
def unrenamed : Stmt → List String
  | .branch test _ _ => test.locals
  | _ => []

/-- The names of the statement itself are of one kind, and those that it
declares or stores to are of another. -/
structure Touches (R W : String → Prop) (stmt : Stmt) : Prop where
  /-- All names. -/
  names : ∀ y ∈ stmt.names, R y
  /-- Names that are declared or stored to. -/
  writes : ∀ y ∈ stmt.writes, W y

namespace Touches

variable {R R' W W' : String → Prop} {name : String} {shape : Shape} {span : Span}

/-- More names. -/
theorem mono {stmt : Stmt} (h : stmt.Touches R W) (hR : ∀ y, R y → R' y)
    (hW : ∀ y, W y → W' y) : stmt.Touches R' W' :=
  ⟨fun y hy => hR y (h.names y hy), fun y hy => hW y (h.writes y hy)⟩

theorem declare {init : Option Expr} (hname : R name ∧ W name)
    (hinit : ∀ e ∈ init, ∀ y ∈ e.locals, R y) :
    (Stmt.declare name shape init span).Touches R W := by
  refine ⟨fun y hy => ?_, fun y hy => List.mem_singleton.mp hy ▸ hname.2⟩
  rcases List.mem_cons.mp hy with rfl | hy
  · exact hname.1
  · obtain ⟨e, he, hy⟩ := List.mem_flatMap.mp hy
    exact hinit e (Option.mem_toList.mp he) y hy

theorem assign {target value : Expr} (htarget : ∀ y ∈ target.locals, R y)
    (hstored : ∀ y ∈ target.stored, W y) (hvalue : ∀ y ∈ value.locals, R y) :
    (Stmt.assign target value span).Touches R W := by
  refine ⟨fun y hy => ?_, hstored⟩
  rcases List.mem_append.mp (show y ∈ target.locals ++ (value.locals ++ []) from hy) with hy | hy
  · exact htarget y hy
  · exact hvalue y (by rwa [List.append_nil] at hy)

/-- A statement that declares and stores nothing. -/
theorem reading {stmt : Stmt} (hbinds : stmt.binds = []) (hwrites : stmt.writes = [])
    (hexprs : ∀ e ∈ stmt.exprs, ∀ y ∈ e.locals, R y) : stmt.Touches R W := by
  refine ⟨fun y hy => ?_, by simp [hwrites]⟩
  rw [Stmt.names, hbinds, List.nil_append] at hy
  obtain ⟨e, he, hy⟩ := List.mem_flatMap.mp hy
  exact hexprs e he y hy

end Touches

end Stmt

/-- What is stored to is mentioned. -/
theorem Expr.stored_subset : ∀ (e : Expr), ∀ y ∈ e.stored, y ∈ e.locals
  | .var _ false _, _, h => by simpa [Expr.stored, Expr.locals] using h
  | .var _ true _, _, h | .literal .., _, h | .staticProperty .., _, h | .property .., _, h
  | .index .., _, h | .binary .., _, h | .unary .., _, h | .call .., _, h | .callStatic .., _, h
  | .callOn .., _, h | .create .., _, h | .array .., _, h => by simp [Expr.stored] at h

namespace Lowering

/-- The names at hand, and those handed out between two counts. -/
def Since (own : String → Prop) (low high : Nat) (y : String) : Prop := own y ∨ Between low high y

namespace Since

variable {own : String → Prop} {low mid high : Nat} {y : String}

/-- New names that were handed out before are among those handed out later. -/
theorem trans (h : Since (Since own low mid) mid high y) (hl : low ≤ mid) (hh : mid ≤ high) :
    Since own low high y := by
  rcases h with (h | h) | h
  · exact .inl h
  · exact .inr (h.mono (Nat.le_refl _) hh)
  · exact .inr (h.mono hl (Nat.le_refl _))

/-- A later count. -/
theorem later (h : Since own low mid y) (hh : mid ≤ high) : Since own low high y :=
  h.imp id fun h => h.mono (Nat.le_refl _) hh

/-- An earlier count. -/
theorem earlier (h : Since own mid high y) (hl : low ≤ mid) : Since own low high y :=
  h.imp id fun h => h.mono hl (Nat.le_refl _)

/-- The name that is handed out next. -/
theorem next (recalled : String) (h : low < high) : Since own low high (fresh recalled (low + 1)) :=
  .inr ⟨recalled, low + 1, Nat.lt_succ_self _, h, rfl⟩

end Since

/-- Code with names of one kind that declares and stores to names of another,
where tests of copied branches may have further names. -/
def Speaks (kept R W : String → Prop) (code : Block) : Prop :=
  Stmt.everyAll (Stmt.Touches (fun y => R y ∨ kept y) W) code

namespace Speaks

variable {kept R R' W W' : String → Prop} {a b : Block}

theorem nil : Speaks kept R W [] := Stmt.everyAll_nil

theorem append (ha : Speaks kept R W a) (hb : Speaks kept R W b) : Speaks kept R W (a ++ b) :=
  Stmt.everyAll_append.mpr ⟨ha, hb⟩

/-- A statement without blocks in front. -/
theorem cons {stmt : Stmt} (hblocks : stmt.blocks = [])
    (hstmt : stmt.Touches (fun y => R y ∨ kept y) W) (hb : Speaks kept R W b) :
    Speaks kept R W (stmt :: b) :=
  (Stmt.everyAll_leaf hblocks).mpr ⟨hstmt, hb⟩

/-- A label or a jump in front. -/
theorem plumbing {stmt : Stmt} (h : stmt.isPlumbing = true) (hb : Speaks kept R W b) :
    Speaks kept R W (stmt :: b) := by
  cases stmt with
  | label | goto => exact cons rfl (.reading rfl rfl nofun) hb
  | _ => cases h

/-- An `attempt` statement. -/
theorem attempt {name : Option String} {span : Span} (hname : ∀ y ∈ name, R y ∧ W y)
    (ha : Speaks kept R W a) (hb : Speaks kept R W b) :
    Speaks kept R W [.attempt a name b span] := by
  refine Stmt.everyAll_cons.mpr ⟨fun part hpart => ?_, nil⟩
  rw [Stmt.parts] at hpart
  rcases List.mem_cons.mp hpart with rfl | hpart
  · cases name with
    | none => exact .reading rfl rfl nofun
    | some x =>
      have hx := hname x rfl
      exact ⟨fun y hy => List.mem_singleton.mp hy ▸ .inl hx.1,
        fun y hy => List.mem_singleton.mp hy ▸ hx.2⟩
  · exact append ha hb part (by rwa [Stmt.partsOf_append])

/-- More names. -/
theorem mono (h : Speaks kept R W a) (hR : ∀ y, R y → R' y) (hW : ∀ y, W y → W' y) :
    Speaks kept R' W' a :=
  Stmt.everyAll_mono h fun _ ht => ht.mono (fun y hy => hy.imp (hR y) id) hW

end Speaks

/-- A new name of some copied scope. -/
def Holds (scopes : Renaming) (y : String) : Prop := ∃ table ∈ scopes, ∃ x, (x, y) ∈ table

/-- Names that are found are there. -/
theorem Holds.of_lookup? {scopes : Renaming} {x y : String} (h : scopes.lookup? x = some y) :
    Holds scopes y := by
  obtain ⟨table, ht, hx⟩ := List.exists_of_findSome?_eq_some h
  obtain ⟨before, after, rfl, -⟩ := List.lookup_eq_some_iff.mp hx
  exact ⟨_, ht, x, by simp⟩

/-- A name is bound in the innermost scope. -/
theorem Holds.of_bind {scopes : Renaming} {x y z : String} (h : Holds (scopes.bind x y) z) :
    z = y ∨ Holds scopes z := by
  obtain ⟨table, ht, x', hx⟩ := h
  cases scopes with
  | nil =>
    rw [Renaming.bind, List.mem_singleton] at ht
    subst ht
    exact .inl (congrArg Prod.snd (List.mem_singleton.mp hx))
  | cons scope rest =>
    rcases List.mem_cons.mp ht with rfl | ht
    · rcases List.mem_cons.mp hx with he | hx
      · exact .inl (congrArg Prod.snd he)
      · exact .inr ⟨scope, List.mem_cons_self, x', hx⟩
    · exact .inr ⟨table, List.mem_cons_of_mem _ ht, x', hx⟩

/-- The names that can be referred to inside of a copy are at hand. -/
structure Knows (own : String → Prop) (site : Site) (scopes : Renaming) : Prop where
  /-- The variable that takes the result. -/
  receiver : ∀ target, site.copy = some target → own target.receiver
  /-- The variables of the callee. -/
  held : site.copy ≠ none → ∀ y, Holds scopes y → own y

namespace Knows

variable {own own' : String → Prop} {site : Site} {scopes : Renaming}

/-- More names at hand. -/
theorem mono (h : Knows own site scopes) (hown : ∀ y, own y → own' y) : Knows own' site scopes :=
  ⟨fun target ht => hown _ (h.receiver target ht), fun hc y hy => hown y (h.held hc y hy)⟩

/-- Outside of copies, nothing needs to be at hand. -/
theorem top : Knows own Site.top scopes := by
  refine ⟨fun target ht => ?_, fun hc => absurd rfl hc⟩
  cases ht

/-- A new scope holds nothing. -/
theorem push (h : Knows own site scopes) : Knows own site scopes.push := by
  refine ⟨h.receiver, fun hc y hy => h.held hc y ?_⟩
  obtain ⟨table, ht, x, hx⟩ := hy
  rcases List.mem_cons.mp ht with rfl | ht
  · exact absurd hx List.not_mem_nil
  · exact ⟨table, ht, x, hx⟩

/-- A scope less. -/
theorem pop (h : Knows own site scopes) : Knows own site scopes.pop := by
  refine ⟨h.receiver, fun hc y hy => h.held hc y ?_⟩
  obtain ⟨table, ht, x, hx⟩ := hy
  exact ⟨table, List.mem_of_mem_tail ht, x, hx⟩

/-- The loops around a site do not matter. -/
theorem insideLoop (h : Knows own site scopes) (label : String) :
    Knows own (site.insideLoop label) scopes := ⟨h.receiver, h.held⟩

end Knows

/-- Of a statement at a site, the names are at hand outside of copies. Inside of
them a branch of the source is what it is. -/
structure Entitled (kept own : String → Prop) (site : Site) (stmt : Stmt) : Prop where
  /-- Names outside of copies. -/
  top : site.copy = none → ∀ y ∈ stmt.names, own y
  /-- Names that copies do not rename. -/
  unrenamed : site.copy ≠ none → ∀ y ∈ stmt.unrenamed, kept y

section Statements

variable {kept own R W : String → Prop} {site : Site} {c c' c'' : Supply}

/-- A block of statements at a site. -/
abbrev EntitledAll (kept own : String → Prop) (site : Site) (block : List Stmt) : Prop :=
  Stmt.everyAll (Entitled kept own site) block

/-- The loops around a block do not matter. -/
theorem EntitledAll.insideLoop {label : String} {block : List Stmt}
    (h : EntitledAll kept own site block) : EntitledAll kept own (site.insideLoop label) block :=
  Stmt.everyAll_mono h fun _ hs => ⟨hs.top, hs.unrenamed⟩

/-- More names at hand. -/
theorem Entitled.mono {own' : String → Prop} {stmt : Stmt} (h : Entitled kept own site stmt)
    (hown : ∀ y, own y → own' y) : Entitled kept own' site stmt :=
  ⟨fun hc y hy => hown y (h.top hc y hy), h.unrenamed⟩

/-- The expressions of a statement have names at hand, as they stand at the site. -/
theorem Knows.locals_render {scopes : Renaming} (hk : Knows own site scopes) {stmt : Stmt}
    (hs : Entitled kept own site stmt) {e : Expr} (he : e ∈ stmt.exprs) :
    ∀ y ∈ (render site scopes e).locals, own y := by
  intro y hy
  rw [Lowering.locals_render, List.mem_filterMap] at hy
  obtain ⟨x, hx, hy⟩ := hy
  cases hc : site.copy with
  | none =>
    simp only [naming, hc, Option.isNone_none, if_true, Option.some.injEq] at hy
    subst hy
    exact hs.top hc x (List.mem_append_right _ (List.mem_flatMap.mpr ⟨e, he, hx⟩))
  | some target =>
    simp only [naming, hc, Option.isNone_some, Bool.false_eq_true, if_false] at hy
    exact hk.held (by simp [hc]) y (.of_lookup? hy)

/-- The branch on the test of a condition or of a loop. -/
theorem Knows.branch {scopes : Renaming} {own' : String → Prop} (hk : Knows own site scopes)
    {stmt : Stmt} (hs : Entitled kept own site stmt) {test : Expr} (ht : test ∈ stmt.exprs)
    {label : String} {span : Span} (hown : ∀ y, own y → own' y) :
    (Stmt.branch (render site scopes test) label span).Touches (fun y => own' y ∨ kept y) own' := by
  refine .reading rfl rfl fun e he y hy => ?_
  cases List.mem_singleton.mp he
  exact .inl (hown y (hk.locals_render hs ht y hy))

/-- What lowering gives at a site, if some names were at hand: code with these
names and with new ones, after which the names at hand are known. -/
structure Mentions (kept own : String → Prop) (site : Site) (c : Supply) (code : Block)
    (c' : Supply) : Prop where
  /-- New names are only added. -/
  names : c.names ≤ c'.names
  /-- The names that can be referred to are at hand. -/
  known : Knows (Since own c.names c'.names) site c'.scopes
  /-- The code. -/
  code : Speaks kept (Since own c.names c'.names) (Since own c.names c'.names) code

namespace Mentions

variable {a b : Block}

/-- Statements without new names. -/
theorem here (hk : Knows own site c.scopes) (ha : Speaks kept own own a) :
    Mentions kept own site c a c :=
  ⟨Nat.le_refl _, hk.mono fun _ => .inl, ha.mono (fun _ => .inl) fun _ => .inl⟩

/-- One piece of code after the other. -/
theorem append (ha : Mentions kept own site c a c')
    (hb : Mentions kept (Since own c.names c'.names) site c' b c'') :
    Mentions kept own site c (a ++ b) c'' where
  names := Nat.le_trans ha.names hb.names
  known := hb.known.mono fun _ hy => hy.trans ha.names hb.names
  code := by
    refine (ha.code.mono ?_ ?_).append (hb.code.mono ?_ ?_)
    · exact fun _ hy => hy.later hb.names
    · exact fun _ hy => hy.later hb.names
    · exact fun _ hy => hy.trans ha.names hb.names
    · exact fun _ hy => hy.trans ha.names hb.names

/-- A statement in front, with names that are at hand or new. -/
theorem front (h : Mentions kept own site c a c') {stmt : Stmt} (hblocks : stmt.blocks = [])
    (hs : stmt.Touches (Since own c.names c'.names) (Since own c.names c'.names)) :
    Mentions kept own site c (stmt :: a) c' :=
  { h with code := .cons hblocks (hs.mono (fun _ => .inl) fun _ => id) h.code }

/-- The labels handed out do not matter. -/
theorem relabel {labels : Nat} (h : Mentions kept own site ⟨labels, c.names, c.scopes⟩ a c') :
    Mentions kept own site c a c' :=
  ⟨h.names, h.known, h.code⟩

/-- The loops around a site do not matter. -/
theorem ofLoop {label : String} (h : Mentions kept own (site.insideLoop label) c a c') :
    Mentions kept own site c a c' :=
  ⟨h.names, ⟨h.known.receiver, h.known.held⟩, h.code⟩

end Mentions

/-- What comes out of expressions: code with names at hand and new ones, in front
of what has such names, too. -/
structure Recites (kept R W : String → Prop) (c : Supply) (code : Block) (left : List String)
    (c' : Supply) : Prop where
  /-- New names are only added. -/
  names : c.names ≤ c'.names
  /-- The names of the copy stay as they are. -/
  scopes : c'.scopes = c.scopes
  /-- The code. -/
  code : Speaks kept (Since R c.names c'.names) (Since W c.names c'.names) code
  /-- Names that are left. -/
  rest : ∀ y ∈ left, Since R c.names c'.names y

namespace Recites

variable {a b : Block} {xs ys : List String}

/-- Nothing happens. -/
theorem refl (h : ∀ y ∈ xs, R y) : Recites kept R W c [] xs c :=
  ⟨Nat.le_refl _, rfl, .nil, fun y hy => .inl (h y hy)⟩

/-- One after the other. -/
theorem append (ha : Recites kept own own c a xs c')
    (hb : Recites kept (Since own c.names c'.names) (Since own c.names c'.names) c' b ys c'') :
    Recites kept own own c (a ++ b) (xs ++ ys) c'' where
  names := Nat.le_trans ha.names hb.names
  scopes := hb.scopes.trans ha.scopes
  code := by
    refine (ha.code.mono ?_ ?_).append (hb.code.mono ?_ ?_)
    · exact fun _ hy => hy.later hb.names
    · exact fun _ hy => hy.later hb.names
    · exact fun _ hy => hy.trans ha.names hb.names
    · exact fun _ hy => hy.trans ha.names hb.names
  rest := List.forall_mem_append.mpr
    ⟨fun y hy => (ha.rest y hy).later hb.names, fun y hy => (hb.rest y hy).trans ha.names hb.names⟩

/-- Other names are left. -/
theorem leaving (h : Recites kept R W c a xs c') (hys : ∀ y ∈ ys, Since R c.names c'.names y) :
    Recites kept R W c a ys c' :=
  { h with rest := hys }

/-- At a site nothing else changes. -/
theorem mentions (h : Recites kept own own c a xs c') (hk : Knows own site c.scopes) :
    Mentions kept own site c a c' :=
  ⟨h.names, by rw [h.scopes]; exact hk.mono fun _ => .inl, h.code⟩

end Recites

end Statements

section Following

variable {setting : Setting} {kept own R W : String → Prop} {splice : Splice} {site : Site}
  {s s' : Progress}

/-- Copies have names at hand and new ones. -/
def SpliceMentions (kept : String → Prop) (splice : Splice) : Prop :=
  ∀ {own : String → Prop} {site : Site} {block code : Block} {s s' : Progress},
    Knows own site s.scopes → EntitledAll kept own site block →
    Emits (splice site block) s code s' → Mentions kept own site s.supply code s'.supply

/-- If methods are copied, these are names that copies keep. -/
def KeptInCopies (setting : Setting) (kept : String → Prop) : Prop :=
  setting.options.inline = true → ∀ m ∈ setting.program.methods,
    Stmt.everyAll (fun stmt => ∀ y ∈ stmt.unrenamed, kept y) m.body

/-- What all copies are like. -/
structure Copying (setting : Setting) (kept : String → Prop) (splice : Splice) : Prop where
  /-- The names that a copied method keeps. -/
  methods : KeptInCopies setting kept
  /-- Copies have names at hand and new ones. -/
  splice : SpliceMentions kept splice

/-- Declarations of parameters have the names of the arguments and new ones. -/
theorem speaks_declarations {low high : Nat} (span : Span) (n : Nat) (params : List Param)
    {args : List Expr} (hargs : ∀ y ∈ Expr.listLocals args, R y) (hlow : low ≤ n)
    (hhigh : n + params.length ≤ high) :
    Speaks kept (Since R low high) (Since W low high) (declarations span n params args) := by
  induction params generalizing n args with
  | nil => exact .nil
  | cons param params ih =>
    cases args with
    | nil => exact .nil
    | cons arg args =>
      rw [Expr.listLocals, List.forall_mem_append] at hargs
      rw [List.length_cons] at hhigh
      have hnew : Between low high (fresh param.name (n + 1)) :=
        ⟨param.name, n + 1, by omega, by omega, rfl⟩
      refine .cons rfl (.declare ⟨.inl (.inr hnew), .inr hnew⟩ ?_)
        (ih (n + 1) hargs.2 (by omega) (by omega))
      rintro e ⟨⟩ y hy
      exact .inl (.inl (hargs.1 y hy))

/-- The names of the parameters of a copy are new. -/
theorem between_paramTable {n : Nat} {params : List Param} {args : List Expr} {x y : String}
    (h : (x, y) ∈ paramTable n params args) : Between n (n + params.length) y := by
  induction params generalizing n args with
  | nil => exact absurd h List.not_mem_nil
  | cons param params ih =>
    cases args with
    | nil => exact absurd h List.not_mem_nil
    | cons arg args =>
      rw [List.length_cons]
      rcases List.mem_append.mp h with h | h
      · exact (ih h).mono (by omega) (by omega)
      · cases List.mem_singleton.mp h
        exact ⟨param.name, n + 1, by omega, by omega, rfl⟩

/-- A call or a copy has the names of the arguments and of the destination,
besides new ones, and declares and stores to no names but the destination and
new ones. -/
theorem emitCall_recites (copying : Copying setting kept splice) {name : String}
    {args : List Expr} {dest : Option Expr} {callSpan span : Span} {code : Block}
    (hargs : ∀ y ∈ Expr.listLocals args, R y) (hdest : ∀ e ∈ dest, ∀ y ∈ e.locals, R y)
    (hstored : ∀ e ∈ dest, ∀ y ∈ e.stored, W y)
    (h : Emits (emitCall setting splice site name args dest callSpan span) s code s') :
    Recites kept R W s.supply code [] s'.supply := by
  obtain ⟨rfl, hs⟩ | ⟨callee, hi, s₀, hs₀, s₁, body, s₂, hs₁, hbody, hs', rfl⟩ :=
    emits_emitCall h
  · have hcall : ∀ y ∈ (Expr.call name args callSpan).locals, R y := by rwa [Expr.locals]
    rw [hs]
    refine ⟨Nat.le_refl _, rfl, ?_, nofun⟩
    cases dest with
    | none =>
      refine .cons rfl (.reading rfl rfl fun e he y hy => ?_) .nil
      cases List.mem_singleton.mp he
      exact .inl (.inl (hcall y hy))
    | some target =>
      refine .cons rfl (.assign (fun y hy => ?_) (fun y hy => ?_) fun y hy => ?_) .nil
      · exact .inl (.inl (hdest target rfl y hy))
      · exact .inl (hstored target rfl y hy)
      · exact .inl (.inl (hcall y hy))
  · have hnames : s₀.names = s.names := congrArg Supply.names hs₀
    have hfirst : s₁.names = s.names + 1 + callee.params.length := by
      rw [← hnames]
      exact congrArg Supply.names hs₁
    have hlast : s'.names = s₂.names := congrArg Supply.names hs'
    rw [hnames]
    -- In the copy, the receiver and the parameters are at hand.
    have hinside : Mentions kept (Between s.names s₁.names)
        (site.insideCopy callee ⟨fresh (callee.name ++ ".return") (s₀.names + 1),
          Label.name (s₀.labels + 1)⟩) s₁.supply body s₂.supply := by
      refine copying.splice ⟨fun target ht => ?_, fun _ y hy => ?_⟩ (fun stmt hstmt => ?_) hbody
      · cases ht
        exact ⟨_, s.names + 1, by omega, by omega, by rw [hnames]⟩
      · rw [show s₁.scopes = _ from congrArg Supply.scopes hs₁, hnames] at hy
        obtain ⟨table, ht, x, hx⟩ := hy
        rw [List.mem_singleton] at ht
        subst ht
        exact (between_paramTable hx).mono (by omega) (by omega)
      · refine ⟨nofun, fun _ => ?_⟩
        exact copying.methods hi.inline callee (Program.mem_of_method?_eq_some hi.found) stmt hstmt
    have hgrow : s₁.names ≤ s₂.names := hinside.names
    have hnew (y : String) (hy : Since (Between s.names s₁.names) s₁.names s₂.names y) :
        Between s.names s'.names y := by
      rw [hlast]
      rcases hy with hy | hy
      · exact hy.mono (Nat.le_refl _) hgrow
      · exact hy.mono (by omega) (Nat.le_refl _)
    have hreceiver : Between s.names s'.names (fresh (callee.name ++ ".return") (s.names + 1)) :=
      ⟨_, s.names + 1, by omega, by omega, rfl⟩
    refine ⟨show s.names ≤ s'.names by omega, ?_, ?_, nofun⟩
    · rw [show s'.supply.scopes = s₀.scopes from congrArg Supply.scopes hs']
      exact congrArg Supply.scopes hs₀
    · rw [List.append_assoc, List.cons_append, List.cons_append]
      refine (speaks_declarations span (s.names + 1) callee.params hargs (Nat.le_succ _)
        (show _ ≤ s'.names by omega)).append ?_
      refine .cons rfl (.declare ⟨.inl (.inr hreceiver), .inr hreceiver⟩ nofun) ?_
      refine .plumbing rfl ((hinside.code.mono ?_ ?_).append (.plumbing rfl ?_))
      · exact fun y hy => .inr (hnew y hy)
      · exact fun y hy => .inr (hnew y hy)
      · cases dest with
        | none => exact .nil
        | some target =>
          refine .cons rfl (.assign (fun y hy => ?_) (fun y hy => ?_) fun y hy => ?_) .nil
          · exact .inl (.inl (hdest target rfl y hy))
          · exact .inl (hstored target rfl y hy)
          · rw [localVar, Expr.locals, if_neg Bool.false_ne_true, List.mem_singleton] at hy
            exact .inl (.inr (hy ▸ hreceiver))

@[simp] theorem locals_localVar (y : String) (span : Span) : (localVar y span).locals = [y] := by
  rw [localVar, Expr.locals, if_neg Bool.false_ne_true]

/-- The call that is moved in front of an expression, with its variable. -/
theorem temp_recites (copying : Copying setting kept splice) {method : String} {args : List Expr}
    {span : Span} {call : Block} (hargs : ∀ y ∈ Expr.listLocals args, own y)
    (h : Emits (emitCall setting splice site method args
      (some (localVar (fresh "temp" (s.names + 1)) span)) span span)
      { s with names := s.names + 1 } call s') :
    Recites kept own own s.supply
      (.declare (fresh "temp" (s.names + 1)) .dynamic none span :: call)
      [fresh "temp" (s.names + 1)] s'.supply := by
  let own' := Since own s.names (s.names + 1)
  have htemp : own' (fresh "temp" (s.names + 1)) := .next "temp" (Nat.lt_succ_self _)
  have hcall : Recites kept own' own' ⟨s.labels, s.names + 1, s.scopes⟩ call [] s'.supply := by
    refine emitCall_recites copying (fun y hy => .inl (hargs y hy)) ?_ ?_ h
    · rintro e ⟨⟩ y hy
      rw [locals_localVar, List.mem_singleton] at hy
      exact hy ▸ htemp
    · rintro e ⟨⟩ y hy
      exact List.mem_singleton.mp hy ▸ htemp
  have hgrow : s.names + 1 ≤ s'.names := hcall.names
  have hnew (y : String) (hy : Since own' (s.names + 1) s'.names y) :
      Since own s.names s'.names y := hy.trans (Nat.le_succ _) hgrow
  have hnamed := hnew _ (.inl htemp)
  refine ⟨Nat.le_trans (Nat.le_succ _) hgrow, hcall.scopes, ?_, ?_⟩
  · exact .cons rfl (.declare ⟨.inl hnamed, hnamed⟩ nofun) (hcall.code.mono hnew hnew)
  · rintro y hy
    exact List.mem_singleton.mp hy ▸ hnamed

mutual

/-- Moving the calls of an expression in front of it leaves names at hand and new ones. -/
theorem hoist_recites (copying : Copying setting kept splice) :
    ∀ (e : Expr) {own : String → Prop} {s s' : Progress} {before : Block} {e' : Expr},
      (∀ y ∈ (render site s.scopes e).locals, own y) →
      Emits (hoist setting splice site e) s (before, e') s' →
      Recites kept own own s.supply before e'.locals s'.supply
  | .call method args span, own, s, s', before, e', hown, h => by
    obtain ⟨b, as, s₁, hb, hcall⟩ := emits_hoist_call h
    rw [render_call, Expr.locals] at hown
    have hargs := hoistList_recites copying args hown hb
    obtain ⟨-, call, hemit, rfl, rfl⟩ | ⟨-, hs, rfl, rfl⟩ := hcall
    · have hall := hargs.append (temp_recites copying hargs.rest hemit)
      rw [locals_localVar]
      exact hall.leaving fun y hy => hall.rest y (List.mem_append_right _ hy)
    · rw [hs, Expr.locals]
      exact hargs
  | .callStatic typeName method args span, own, s, s', before, e', hown, h => by
    unfold hoist at h
    obtain ⟨as, hb, rfl⟩ := emits_hoist_list (.callStatic typeName method · span) h
    rw [render_callStatic, Expr.locals] at hown
    rw [Expr.locals]
    exact hoistList_recites copying args hown hb
  | .callOn object method args span, own, s, s', before, e', hown, h => by
    obtain ⟨b₁, as, s₁, b₂, o, h₁, h₂, rfl, rfl⟩ := emits_hoist_callOn h
    rw [render_callOn, Expr.locals, List.forall_mem_append] at hown
    have hargs := hoistList_recites copying args hown.2 h₁
    have hall := hargs.append (hoist_recites copying object (fun y hy => by
      rw [show s₁.scopes = s.scopes from hargs.scopes] at hy
      exact .inl (hown.1 y hy)) h₂)
    rw [Expr.locals]
    exact hall.leaving fun y hy => hall.rest y (List.mem_append.mpr (List.mem_append.mp hy).symm)
  | .binary op left right span, own, s, s', before, e', hown, h => by
    obtain ⟨b₁, a₁, s₁, h₁, hright⟩ := emits_hoist_binary h
    rw [render_binary, Expr.locals, List.forall_mem_append] at hown
    have hl := hoist_recites copying left hown.1 h₁
    have hscopes : s₁.scopes = s.scopes := hl.scopes
    obtain ⟨-, hs, rfl, rfl⟩ | ⟨-, b₂, a₂, h₂, rfl, rfl⟩ := hright
    · rw [hs, Expr.locals, hscopes]
      exact hl.leaving (List.forall_mem_append.mpr ⟨hl.rest, fun y hy => .inl (hown.2 y hy)⟩)
    · rw [Expr.locals]
      refine hl.append (hoist_recites copying right (fun y hy => ?_) h₂)
      rw [hscopes] at hy
      exact .inl (hown.2 y hy)
  | .unary op operand span, own, s, s', before, e', hown, h => by
    unfold hoist at h
    obtain ⟨a, hb, rfl⟩ := emits_hoist_one (.unary op · span) h
    rw [render_unary, Expr.locals] at hown
    rw [Expr.locals]
    exact hoist_recites copying operand hown hb
  | .index target position span, own, s, s', before, e', hown, h => by
    unfold hoist at h
    obtain ⟨b₁, a₁, s₁, b₂, a₂, h₁, h₂, rfl, rfl⟩ := emits_hoist_two (.index · · span) h
    rw [render_index, Expr.locals, List.forall_mem_append] at hown
    have ht := hoist_recites copying target hown.1 h₁
    rw [Expr.locals]
    refine ht.append (hoist_recites copying position (fun y hy => ?_) h₂)
    rw [show s₁.scopes = s.scopes from ht.scopes] at hy
    exact .inl (hown.2 y hy)
  | .property object name span, own, s, s', before, e', hown, h => by
    unfold hoist at h
    obtain ⟨a, hb, rfl⟩ := emits_hoist_one (.property · name span) h
    rw [render_property, Expr.locals] at hown
    rw [Expr.locals]
    exact hoist_recites copying object hown hb
  | .create typeName args span, own, s, s', before, e', hown, h => by
    unfold hoist at h
    obtain ⟨as, hb, rfl⟩ := emits_hoist_list (.create typeName · span) h
    rw [render_create, Expr.locals] at hown
    rw [Expr.locals]
    exact hoistList_recites copying args hown hb
  | .array items span, own, s, s', before, e', hown, h => by
    unfold hoist at h
    obtain ⟨as, hb, rfl⟩ := emits_hoist_list (.array · span) h
    rw [render_array, Expr.locals] at hown
    rw [Expr.locals]
    exact hoistList_recites copying items hown hb
  | .literal .., own, s, s', before, e', hown, h
  | .var .., own, s, s', before, e', hown, h => by
    unfold hoist at h
    obtain ⟨rfl, rfl, hs⟩ := emits_hoist_leaf h
    rw [hs]
    exact .refl hown
  | .staticProperty .., own, s, s', before, e', hown, h => by
    unfold hoist at h
    obtain ⟨hpair, rfl⟩ := emits_pure.mp h
    cases hpair
    exact .refl (by simp [Expr.locals])

/-- Moving the calls of expressions in front of them leaves names at hand and new ones. -/
theorem hoistList_recites (copying : Copying setting kept splice) :
    ∀ (es : List Expr) {own : String → Prop} {s s' : Progress} {before : Block} {es' : List Expr},
      (∀ y ∈ Expr.listLocals (renderList site s.scopes es), own y) →
      Emits (hoistList setting splice site es) s (before, es') s' →
      Recites kept own own s.supply before (Expr.listLocals es') s'.supply
  | [], own, s, s', before, es', hown, h => by
    unfold hoistList at h
    obtain ⟨hpair, rfl⟩ := emits_pure.mp h
    cases hpair
    exact .refl (by simp [Expr.listLocals])
  | e :: rest, own, s, s', before, es', hown, h => by
    obtain ⟨b₁, a, s₁, b₂, as, h₁, h₂, rfl, rfl⟩ := emits_hoistList_cons h
    rw [renderList_cons, Expr.listLocals, List.forall_mem_append] at hown
    have he := hoist_recites copying e hown.1 h₁
    rw [Expr.listLocals]
    refine he.append (hoistList_recites copying rest (fun y hy => ?_) h₂)
    rw [show s₁.scopes = s.scopes from he.scopes] at hy
    exact .inl (hown.2 y hy)

end

/-- A declaration has a name at hand outside of copies and a new one inside. -/
theorem declareName_mentions (kept : String → Prop) {x y : String} (hk : Knows own site s.scopes)
    (hx : site.copy = none → own x) (h : Emits (declareName site x) s y s') :
    Mentions kept own site s.supply [] s'.supply ∧ Since own s.names s'.names y := by
  cases hc : site.copy with
  | none =>
    obtain ⟨rfl, rfl⟩ := emits_declareName_top (by rw [hc]; rfl) h
    exact ⟨.here hk .nil, .inl (hx hc)⟩
  | some target =>
    obtain ⟨rfl, rfl⟩ := emits_declareName_copy (by rw [hc]; rfl) h
    have hnew : Since own s.names (s.names + 1) (fresh x (s.names + 1)) :=
      .next x (Nat.lt_succ_self _)
    have hreceiver (t : Target) (ht : site.copy = some t) :
        Since own s.names (s.names + 1) t.receiver := .inl (hk.receiver t ht)
    refine ⟨⟨Nat.le_succ _, ⟨hreceiver, fun hcopy z hz => ?_⟩, .nil⟩, hnew⟩
    rcases Holds.of_bind hz with rfl | hz
    · exact hnew
    · exact .inl (hk.held hcopy z hz)

section Statements

variable {code : Block} {span : Span}

/-- A call with its arguments as they stand at the site. -/
theorem lowerCall_mentions (copying : Copying setting kept splice) {name : String}
    {args : List Expr} {dest : Option Expr} {callSpan : Span} (hk : Knows own site s.scopes)
    (hargs : ∀ y ∈ (render site s.scopes (.call name args callSpan)).locals, own y)
    (hdest : ∀ e ∈ dest, ∀ y ∈ e.locals, own y)
    (h : Emits (lowerCall setting splice site name args dest callSpan span) s code s') :
    Mentions kept own site s.supply code s'.supply := by
  obtain ⟨s₁, hs₁, hemit⟩ := emits_lowerCall h
  rw [render_call, Expr.locals] at hargs
  have hcall := emitCall_recites copying hargs hdest
    (fun e he y hy => hdest e he y (e.stored_subset y hy)) hemit
  rw [hs₁] at hcall
  exact hcall.mentions hk

/-- Lowering a declaration. -/
theorem lowerDeclare_mentions (copying : Copying setting kept splice) {x : String} {shape : Shape}
    {init : Option Expr} (hk : Knows own site s.scopes)
    (hs : Entitled kept own site (.declare x shape init span))
    (h : Emits (lowerDeclare setting splice site x shape init span) s code s') :
    Mentions kept own site s.supply code s'.supply := by
  have hx (hc : site.copy = none) : own x := hs.top hc x List.mem_cons_self
  have hinit {e : Expr} (he : init = some e) : ∀ y ∈ (render site s.scopes e).locals, own y :=
    hk.locals_render hs (show e ∈ init.toList by rw [he]; exact List.mem_cons_self)
  by_cases hcall : ∀ e, init = some e → ¬ IsCall e
  · obtain ⟨s₁, y, hs₁, hy, rfl⟩ := emits_lowerDeclare hcall h
    have hscopes : s₁.scopes = s.scopes := congrArg Supply.scopes hs₁
    obtain ⟨hname, hnew⟩ := declareName_mentions kept (hscopes ▸ hk) hx hy
    rw [hs₁] at hname
    rw [show s₁.names = s.names from congrArg Supply.names hs₁] at hnew
    refine hname.front rfl (.declare ⟨hnew, hnew⟩ fun e he y hy => ?_)
    obtain ⟨value, rfl, rfl⟩ := Option.map_eq_some_iff.mp he
    exact .inl (hinit rfl y hy)
  · simp only [not_forall, not_not] at hcall
    obtain ⟨_, rfl, method, args, callSpan, rfl⟩ := hcall
    obtain ⟨s₁, y, s₂, call, hs₁, hy, hemit, rfl⟩ := emits_lowerDeclare_call h
    have hscopes : s₁.scopes = s.scopes := congrArg Supply.scopes hs₁
    obtain ⟨hname, hnew⟩ := declareName_mentions kept (hscopes ▸ hk) hx hy
    rw [hs₁] at hname
    rw [show s₁.names = s.names from congrArg Supply.names hs₁] at hnew
    have hargs := hinit rfl
    rw [render_call, Expr.locals] at hargs
    have hdest : ∀ e ∈ some (localVar y span), ∀ z ∈ e.locals, Since own s.names s₂.names z := by
      rintro e ⟨⟩ z hz
      rw [locals_localVar, List.mem_singleton] at hz
      exact hz ▸ hnew
    have hrest := emitCall_recites copying (fun z hz => .inl (hargs z hz)) hdest
      (fun e he z hz => hdest e he z (e.stored_subset z hz)) hemit
    have hdeclared : Mentions kept own site s.supply [.declare y shape none span] s₂.supply :=
      hname.front rfl (.declare ⟨hnew, hnew⟩ nofun)
    exact hdeclared.append (hrest.mentions hname.known)

/-- Lowering an assignment. -/
theorem lowerAssign_mentions (copying : Copying setting kept splice) {target value : Expr}
    (hk : Knows own site s.scopes) (hs : Entitled kept own site (.assign target value span))
    (h : Emits (lowerAssign setting splice site target value span) s code s') :
    Mentions kept own site s.supply code s'.supply := by
  have htarget := hk.locals_render hs (e := target) List.mem_cons_self
  have hvalue := hk.locals_render hs (e := value)
    (List.mem_cons_of_mem _ List.mem_cons_self)
  by_cases hv : IsCall value
  · obtain ⟨method, args, callSpan, rfl⟩ := hv
    obtain ⟨s₁, hs₁, hemit⟩ := emits_lowerAssign_call h
    rw [render_call, Expr.locals] at hvalue
    have hdest : ∀ e ∈ some (render site s.scopes target), ∀ y ∈ e.locals, own y := by
      rintro e ⟨⟩
      exact htarget
    have hcall := emitCall_recites copying hvalue hdest
      (fun e he y hy => hdest e he y (e.stored_subset y hy)) hemit
    rw [hs₁] at hcall
    exact hcall.mentions hk
  · obtain ⟨hsupply, rfl⟩ := emits_lowerAssign hv h
    rw [hsupply]
    exact .here hk (.cons rfl (.assign (fun y hy => .inl (htarget y hy))
      (fun y hy => htarget y (Expr.stored_subset _ y hy)) fun y hy => .inl (hvalue y hy)) .nil)

/-- Lowering an expression statement. -/
theorem lowerEval_mentions (copying : Copying setting kept splice) {e : Expr}
    (hk : Knows own site s.scopes) (hs : Entitled kept own site (.eval e span))
    (h : Emits (lowerEval setting splice site e span) s code s') :
    Mentions kept own site s.supply code s'.supply := by
  have he := hk.locals_render hs (e := e) List.mem_cons_self
  by_cases hcall : IsCall e
  · obtain ⟨method, args, callSpan, rfl⟩ := hcall
    exact lowerCall_mentions copying hk he (by rintro _ ⟨⟩) h
  · obtain ⟨hsupply, rfl⟩ := emits_lowerEval hcall h
    rw [hsupply]
    refine .here hk (.cons rfl (.reading rfl rfl fun e' he' y hy => ?_) .nil)
    cases List.mem_singleton.mp he'
    exact .inl (he y hy)

/-- Lowering the return of a value. -/
theorem lowerReturned_mentions (copying : Copying setting kept splice) {value : Expr}
    (hk : Knows own site s.scopes) (hvalue : ∀ y ∈ (render site s.scopes value).locals, own y)
    (h : Emits (lowerReturned setting splice site value span) s code s') :
    Mentions kept own site s.supply code s'.supply := by
  cases hcopy : site.copy with
  | none =>
    obtain ⟨before, e', hb, rfl⟩ := emits_lowerReturned_top hcopy h
    have hhoist := hoist_recites copying value hvalue hb
    have hbefore := hhoist.mentions hk
    refine { hbefore with code := hbefore.code.append (.cons rfl (.reading rfl rfl ?_) .nil) }
    intro e he y hy
    cases List.mem_singleton.mp he
    exact .inl (hhoist.rest y hy)
  | some target =>
    have hreceiver := hk.receiver target hcopy
    obtain ⟨method, args, callSpan, call, rfl, hcall, rfl⟩ | ⟨-, before, e', hb, rfl⟩ :=
      emits_lowerReturned_copy hcopy h
    · have hbefore := lowerCall_mentions copying hk hvalue (fun e he y hy => by
        cases he
        rw [locals_localVar, List.mem_singleton] at hy
        exact hy ▸ hreceiver) hcall
      exact { hbefore with code := hbefore.code.append (.plumbing rfl .nil) }
    · have hhoist := hoist_recites copying value hvalue hb
      have hbefore := hhoist.mentions hk
      have htarget (y : String) (hy : y ∈ (localVar target.receiver span).locals) :
          Since own s.names s'.names y := by
        rw [locals_localVar, List.mem_singleton] at hy
        exact .inl (hy ▸ hreceiver)
      refine { hbefore with code := hbefore.code.append (.cons rfl (.assign ?_ ?_ ?_)
        (.plumbing rfl .nil)) }
      · exact fun y hy => .inl (htarget y hy)
      · exact fun y hy => htarget y (Expr.stored_subset _ y hy)
      · exact fun y hy => .inl (hhoist.rest y hy)

/-- Lowering a return. -/
theorem lowerReturn_mentions (copying : Copying setting kept splice) {value : Option Expr}
    (hk : Knows own site s.scopes) (hs : Entitled kept own site (.ret value span))
    (h : Emits (lowerReturn setting splice site value span) s code s') :
    Mentions kept own site s.supply code s'.supply := by
  cases value with
  | some value =>
    exact lowerReturned_mentions copying hk
      (hk.locals_render hs (e := value) List.mem_cons_self) h
  | none =>
    obtain ⟨rfl, ⟨-, rfl⟩ | ⟨target, -, rfl⟩⟩ := emits_lowerReturn_none h
    · exact .here hk (.cons rfl (.reading rfl rfl nofun) .nil)
    · exact .here hk (.plumbing rfl .nil)

/-- The name of the exception of a handler. -/
theorem CatchName.mentions (kept : String → Prop) {name name' : Option String}
    (hk : Knows own site s.scopes) (hname : site.copy = none → ∀ x ∈ name, own x)
    (h : CatchName site name name' s s') :
    Mentions kept own site s.supply [] s'.supply ∧
      ∀ y ∈ name', Since own s.names s'.names y := by
  cases name with
  | none =>
    cases name' with
    | none =>
      obtain rfl : s' = s := h
      exact ⟨.here hk .nil, nofun⟩
    | some y => exact h.elim
  | some x =>
    cases name' with
    | none => exact h.elim
    | some y =>
      obtain ⟨hnames, hy⟩ := declareName_mentions kept hk (fun hc => hname hc x rfl) h
      exact ⟨hnames, fun z hz => by cases hz; exact hy⟩

end Statements

mutual

/-- The code for a statement has the names at hand and new ones. -/
theorem lowerStmt_mentions (copying : Copying setting kept splice) :
    ∀ (stmt : Stmt) {own : String → Prop} {site : Site} {s s' : Progress} {code : Block},
      Knows own site s.scopes → stmt.every (Entitled kept own site) →
      Emits (lowerStmt setting splice site stmt) s code s' →
      Mentions kept own site s.supply code s'.supply
  | .declare .., own, site, s, s', code, hk, hs, h => by
    rw [lowerStmt] at h
    exact lowerDeclare_mentions copying hk (Stmt.every_self hs) h
  | .assign .., own, site, s, s', code, hk, hs, h => by
    rw [lowerStmt] at h
    exact lowerAssign_mentions copying hk (Stmt.every_self hs) h
  | .eval .., own, site, s, s', code, hk, hs, h => by
    rw [lowerStmt] at h
    exact lowerEval_mentions copying hk (Stmt.every_self hs) h
  | .ret .., own, site, s, s', code, hk, hs, h => by
    rw [lowerStmt] at h
    exact lowerReturn_mentions copying hk (Stmt.every_self hs) h
  | .throw value span, own, site, s, s', code, hk, hs, h => by
    obtain ⟨hsupply, rfl⟩ := emits_throw h
    have hvalue := hk.locals_render (Stmt.every_self hs) (e := value)
      List.mem_cons_self
    rw [hsupply]
    refine .here hk (.cons rfl (.reading rfl rfl fun e he y hy => ?_) .nil)
    cases List.mem_singleton.mp he
    exact .inl (hvalue y hy)
  | .cond test yes none span, own, site, s, s', code, hk, hs, h => by
    obtain ⟨s₁, yes', hs₁, hyes, rfl⟩ := emits_cond_none h
    have hinside := lowerStmts_mentions copying yes
      (by rwa [show s₁.scopes = s.scopes from congrArg Supply.scopes hs₁])
      (Stmt.every_cond_none hs) hyes
    rw [hs₁] at hinside
    exact { hinside.relabel with
      code := .append (.cons rfl (hk.branch (Stmt.every_self hs) List.mem_cons_self fun _ => .inl)
        hinside.code) (.plumbing rfl .nil) }
  | .cond test yes (some no) span, own, site, s, s', code, hk, hs, h => by
    obtain ⟨s₁, yes', s₂, no', hs₁, hyes, hno, rfl⟩ := emits_cond_some h
    have hfirst := lowerStmts_mentions copying yes
      (by rwa [show s₁.scopes = s.scopes from congrArg Supply.scopes hs₁])
      (Stmt.every_cond_some hs).1 hyes
    rw [hs₁] at hfirst
    have hsecond := lowerStmts_mentions copying no hfirst.known
      (Stmt.everyAll_mono (Stmt.every_cond_some hs).2 fun _ hs => hs.mono fun _ => .inl) hno
    have hboth := hfirst.relabel.append hsecond
    obtain ⟨hyes', hno'⟩ := Stmt.everyAll_append.mp hboth.code
    exact { hboth with
      code := .append (.append (.cons rfl (hk.branch (Stmt.every_self hs) List.mem_cons_self
        fun _ => .inl) hyes') (.plumbing rfl (.plumbing rfl hno'))) (.plumbing rfl .nil) }
  | .loop .testFirst test body span, own, site, s, s', code, hk, hs, h => by
    obtain ⟨s₁, body', hs₁, hbody, rfl⟩ := emits_loop_first h
    have hk₁ : Knows own site s₁.scopes := by
      rwa [show s₁.scopes = s.scopes from congrArg Supply.scopes hs₁]
    have hinside := (lowerStmts_mentions copying body (hk₁.insideLoop _)
      (EntitledAll.insideLoop (Stmt.every_loop hs)) hbody).ofLoop
    rw [hs₁] at hinside
    exact { hinside.relabel with
      code := .append (.plumbing rfl (.cons rfl (hk.branch (Stmt.every_self hs) List.mem_cons_self
        fun _ => .inl) hinside.code)) (.plumbing rfl (.plumbing rfl .nil)) }
  | .loop .testLast test body span, own, site, s, s', code, hk, hs, h => by
    obtain ⟨s₁, body', s₂, hs₁, hbody, hs', rfl⟩ := emits_loop_last h
    have hk₁ : Knows own site s₁.scopes := by
      rwa [show s₁.scopes = s.scopes from congrArg Supply.scopes hs₁]
    have hinside := (lowerStmts_mentions copying body (hk₁.insideLoop _)
      (EntitledAll.insideLoop (Stmt.every_loop hs)) hbody).ofLoop
    rw [hs₁] at hinside
    rw [hs']
    -- The test stands behind the body, where more names may be in use.
    have htest : Speaks kept (Since own s.names s₂.names) (Since own s.names s₂.names)
        [.branch (render site s₂.scopes test) (Label.name (s.labels + 1)) span,
          jump (Label.name s.labels), mark (Label.name (s.labels + 1))] :=
      .cons rfl (hinside.known.branch ((Stmt.every_self hs).mono fun _ => .inl) List.mem_cons_self
        fun _ => id) (.plumbing rfl (.plumbing rfl .nil))
    exact { hinside.relabel with code := .append (.plumbing rfl hinside.code) htest }
  | .brk span, own, site, s, s', code, hk, hs, h => by
    obtain ⟨hsupply, rfl⟩ := emits_brk h
    rw [hsupply]
    cases site.loopEnds with
    | nil => exact .here hk (.cons rfl (.reading rfl rfl nofun) .nil)
    | cons endLabel rest => exact .here hk (.plumbing rfl .nil)
  | .attempt body name handler span, own, site, s, s', code, hk, hs, h => by
    obtain ⟨body', s₁, name', s₂, handler', s₃, hbody, hname, hhandler, rfl, rfl⟩ :=
      emits_attempt h
    have hfirst : Mentions kept own site s.supply body'
        { s₁ with scopes := s₁.scopes.pop }.supply := by
      have hinside := lowerStmts_mentions copying body hk.push (Stmt.every_attempt hs).1 hbody
      exact ⟨hinside.names, hinside.known.pop, hinside.code⟩
    obtain ⟨hnames, hnew⟩ := hname.mentions kept hfirst.known.push fun hc x hx => .inl
      ((Stmt.every_self hs).top hc x (by cases hx; exact List.mem_cons_self))
    have hsecond := lowerStmts_mentions copying handler hnames.known
      (Stmt.everyAll_mono (Stmt.every_attempt hs).2 fun _ hs => hs.mono fun _ hy => .inl (.inl hy))
      hhandler
    have hhandled := hnames.append hsecond
    have hlast : Mentions kept (Since own s.names s₁.names) site
        { s₁ with scopes := s₁.scopes.pop }.supply handler'
        { s₃ with scopes := s₃.scopes.pop }.supply :=
      ⟨hhandled.names, hhandled.known.pop, hhandled.code⟩
    have hboth := hfirst.append hlast
    obtain ⟨hbody', hhandler'⟩ := Stmt.everyAll_append.mp hboth.code
    have hcatch (y : String) (hy : y ∈ name') : Since own s.names s₃.names y :=
      ((hnew y hy).later hsecond.names).trans hfirst.names hhandled.names
    exact { hboth with code := .attempt (fun y hy => ⟨hcatch y hy, hcatch y hy⟩) hbody' hhandler' }
  | .branch test label span, own, site, s, s', code, hk, hs, h => by
    rw [lowerStmt] at h
    obtain ⟨rfl, rfl⟩ := emits_pure.mp h
    refine .here hk (.cons rfl (.reading rfl rfl fun e he y hy => ?_) .nil)
    cases List.mem_singleton.mp he
    have hself := Stmt.every_self hs
    by_cases hc : site.copy = none
    · exact .inl (hself.top hc y (List.mem_flatMap.mpr ⟨test, List.mem_cons_self, hy⟩))
    · exact .inr (hself.unrenamed hc y hy)
  | .label .., own, site, s, s', code, hk, hs, h | .goto .., own, site, s, s', code, hk, hs, h => by
    rw [lowerStmt] at h
    obtain ⟨rfl, rfl⟩ := emits_pure.mp h
    exact .here hk (.plumbing rfl .nil)

/-- The code for statements has the names at hand and new ones. -/
theorem lowerStmts_mentions (copying : Copying setting kept splice) :
    ∀ (block : List Stmt) {own : String → Prop} {site : Site} {after : Option Span}
      {s s' : Progress} {code : Block}, Knows own site s.scopes →
      EntitledAll kept own site block →
      Emits (lowerStmts setting splice site after block) s code s' →
      Mentions kept own site s.supply code s'.supply
  | [], own, site, after, s, s', code, hk, hs, h => by
    unfold lowerStmts at h
    obtain ⟨rfl, rfl⟩ := emits_pure.mp h
    exact .here hk .nil
  | stmt :: rest, own, site, after, s, s', code, hk, hs, h => by
    obtain ⟨s₁, first, s₂, others, hs₁, hfirst, hothers, rfl⟩ := emits_lowerStmts_cons h
    obtain ⟨hstmt, hrest⟩ := Stmt.everyAll_cons.mp hs
    have h₁ := lowerStmt_mentions copying stmt
      (by rwa [show s₁.scopes = s.scopes from congrArg Supply.scopes hs₁]) hstmt hfirst
    rw [hs₁] at h₁
    exact h₁.append (lowerStmts_mentions copying rest h₁.known
      (Stmt.everyAll_mono hrest fun _ hs => hs.mono fun _ => .inl) hothers)

end

/-- The code for a block has the names at hand and new ones, however deep copies nest. -/
theorem lowerBlock_mentions (hmethods : KeptInCopies setting kept) (depth : Nat) :
    SpliceMentions kept (lowerBlock setting depth) := by
  induction depth with
  | zero =>
    intro own site block code s s' hk hs h
    obtain ⟨rfl, rfl⟩ := emits_pure.mp h
    exact .here hk .nil
  | succ depth ih => exact fun hk hs h => lowerStmts_mentions ⟨hmethods, ih⟩ _ hk hs h

/-- Lowered methods have their own names and new ones. -/
theorem lowerMethods_speaks (hmethods : KeptInCopies setting kept) {ms ms' : List Method}
    (h : Emits (lowerMethods setting ms) s ms' s') :
    s.names ≤ s'.names ∧ List.Forall₂ (fun m m' =>
      Speaks kept (Since (· ∈ Block.allNames m.body) s.names s'.names)
        (Since (· ∈ Block.allNames m.body) s.names s'.names) m'.body) ms ms' := by
  induction ms generalizing s s' ms' with
  | nil =>
    obtain ⟨rfl, rfl⟩ := emits_pure.mp h
    exact ⟨Nat.le_refl _, .nil⟩
  | cons m ms ih =>
    obtain ⟨code, s₁, rest, hbody, hrest, rfl⟩ := emits_lowerMethods_cons h
    have hfirst : Mentions kept (· ∈ Block.allNames m.body) Site.top
        { s with scopes := [] }.supply code s₁.supply := by
      refine lowerBlock_mentions hmethods _ .top ?_ hbody
      refine fun stmt hs => ⟨fun _ y hy => List.mem_flatMap.mpr ⟨stmt, hs, hy⟩, ?_⟩
      exact fun hc => absurd rfl hc
    obtain ⟨hnames, hsecond⟩ := ih hrest
    have hgrow : s.names ≤ s₁.names := hfirst.names
    refine ⟨Nat.le_trans hgrow hnames, .cons (hfirst.code.mono ?_ ?_) (hsecond.imp ?_)⟩
    · exact fun y hy => hy.later hnames
    · exact fun y hy => hy.later hnames
    · exact fun _ _ hs => hs.mono (fun y hy => hy.earlier hgrow) fun y hy => hy.earlier hgrow

end Following

end Lowering

/-- How many new names are handed out when a program is lowered. -/
def Program.namesDrawn (p : Program) (options : Lowering.Options) : Nat :=
  ((Lowering.lowerProgram ⟨p, options⟩).run {}).2.names

/-- The names in the tests of branches of the source, if methods are copied. -/
def Program.unrenamed (p : Program) (options : Lowering.Options) : List String :=
  if options.inline then p.methods.flatMap fun m => (Stmt.partsOf m.body).flatMap Stmt.unrenamed
  else []

/-- Copied methods keep those names only. -/
theorem Program.keptInCopies (p : Program) (options : Lowering.Options) :
    Lowering.KeptInCopies ⟨p, options⟩ (· ∈ p.unrenamed options) := by
  intro hinline m hm stmt hs y hy
  rw [Program.unrenamed, if_pos hinline]
  exact List.mem_flatMap.mpr ⟨m, hm, List.mem_flatMap.mpr ⟨stmt, hs, hy⟩⟩

/-- The methods of a lowered program have their own names and new ones. -/
theorem Program.lower_speaks {p : Program} (hp : p.lowered = false) (options : Lowering.Options) :
    List.Forall₂ (fun m m' => Lowering.Speaks (· ∈ p.unrenamed options)
        (Lowering.Since (· ∈ Block.allNames m.body) 0 (p.namesDrawn options))
        (Lowering.Since (· ∈ Block.allNames m.body) 0 (p.namesDrawn options)) m'.body)
      p.methods (p.lower options).program.methods := by
  obtain ⟨methods, s, s', hs, hms, hs', hprogram⟩ :=
    Lowering.emits_lowerProgram (Lowering.emits_lower hp options)
  have hfirst : s.names = 0 := congrArg Lowering.Supply.names hs
  have hlast : p.namesDrawn options = s'.names := congrArg Lowering.Supply.names hs'
  obtain ⟨-, hspeaks⟩ := Lowering.lowerMethods_speaks (p.keptInCopies options) hms
  rw [hprogram, hlast]
  rwa [hfirst] at hspeaks

end Stepwise
