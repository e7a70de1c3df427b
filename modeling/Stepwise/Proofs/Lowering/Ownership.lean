import Stepwise.Proofs.Lowering.Mentions
import Stepwise.Proofs.Lowering.Pieces

/-!
# Whose names are whose

Every new name is introduced in one place: by one copy, or by a method for a
call that it moves in front of an expression. In the order of the code the new
names have the numbers from one on, so no two of them are equal, whatever they
recall. The scopes of a copy hold only names that the copy has declared by
itself, and so its code refers to no other variables, but for those that the
caller hands to it with the arguments and the destination of the call.
-/

namespace Stepwise

namespace Lowering

/-- A name that stands for one of the source: another, new one inside of copies. -/
def Site.Renames (site : Site) (x y : String) : Prop :=
  if site.copy.isNone then y = x else ∃ n, y = fresh x n

/-- What a copy has of its callee. -/
structure Copy.Faithful (p : Program) (c : Copy) (body : List Piece) : Prop where
  /-- The callee is a method of the program. -/
  callee : c.callee ∈ p.methods
  /-- Every parameter has its argument. -/
  given : c.callee.params.length = c.args.length
  /-- The names that the callee declares are declared, each under a new name. -/
  declared : List.Forall₂ (fun x y => ∃ n, y = fresh x n) (Stmt.declaredIn c.callee.body)
    (Piece.declaredOf body)

/-- The names at hand, and those that pieces introduce. -/
def Along (own : String → Prop) (pieces : List Piece) (y : String) : Prop :=
  own y ∨ y ∈ Piece.introducedOf true pieces

theorem Along.append {own : String → Prop} {a b : List Piece} {y : String} :
    Along own (a ++ b) y ↔ Along (Along own a) b y := by
  rw [Along, Piece.introducedOf_append, List.mem_append, ← or_assoc]
  rfl

/-- Declarations under names that stand for those of the source, after so many
new names: which of them are new, and what can be referred to afterwards. -/
structure Declares (own : String → Prop) (site : Site) (n : Nat) (xs ys : List String)
    (c' : Supply) : Prop where
  /-- The names, one by one. -/
  renames : List.Forall₂ site.Renames xs ys
  /-- In copies they are new. -/
  drawn : Numbered n (if site.copy.isSome then ys else []) c'.names
  /-- The names that can be referred to afterwards. -/
  known : Knows (fun z => own z ∨ z ∈ ys) site c'.scopes

/-- How the code for statements that declare the given names is put together of
pieces, if so many names were handed out before it and some names were at hand. -/
structure Laid (setting : Setting) (kept own : String → Prop) (site : Site) (source : List String)
    (n : Nat) (code : Block) (pieces : List Piece) (c' : Supply) : Prop where
  /-- The pieces make up the code. -/
  code : Piece.codeOf pieces = code
  /-- The new names, one after the other. -/
  drawn : Numbered n (Piece.drawnOf site.copy.isSome pieces) c'.names
  /-- The names that stand for names of the source. -/
  declared : List.Forall₂ site.Renames source (Piece.declaredOf pieces)
  /-- Outside of copies in it, the code refers to names at hand and to its own. -/
  references : ∀ y ∈ Piece.referencesOf pieces, Along own pieces y ∨ kept y
  /-- The names that can be referred to afterwards. -/
  known : Knows (Along own pieces) site c'.scopes
  /-- The copies in it. -/
  copies : ∀ c ∈ Piece.copiesOf pieces, c.1.Faithful setting.program c.2 ∧ c.1.Closed kept c.2

section Laying

variable {setting : Setting} {kept own own' : String → Prop} {site : Site} {xs ys : List String}
  {n : Nat} {a b : Block} {ps qs : List Piece} {c c' c'' : Supply}

/-- No declaration. -/
theorem Declares.nil (hk : Knows own site c.scopes) :
    Declares own site c.names [] [] c :=
  ⟨.nil, by rw [ite_self]; exact .nil, hk.mono fun _ => .inl⟩

namespace Laid

/-- More names at hand. -/
theorem mono (h : Laid setting kept own site xs n a ps c') (hown : ∀ y, own y → own' y) :
    Laid setting kept own' site xs n a ps c' :=
  { h with
    references := fun y hy => (h.references y hy).imp_left (.imp_left (hown y))
    known := h.known.mono fun y => .imp_left (hown y) }

/-- One piece of code after the other. -/
theorem append (ha : Laid setting kept own site xs n a ps c')
    (hb : Laid setting kept (Along own ps) site ys c'.names b qs c'') :
    Laid setting kept own site (xs ++ ys) n (a ++ b) (ps ++ qs) c'' where
  code := by rw [Piece.codeOf_append, ha.code, hb.code]
  drawn := by
    rw [Piece.drawnOf_append]
    exact ha.drawn.append hb.drawn
  declared := by
    rw [Piece.declaredOf_append]
    exact List.rel_append ha.declared hb.declared
  references := by
    rw [Piece.referencesOf_append, List.forall_mem_append]
    refine ⟨fun y hy => ?_, fun y hy => ?_⟩
    · exact (ha.references y hy).imp_left fun hy => Along.append.mpr (.inl hy)
    · exact (hb.references y hy).imp_left Along.append.mpr
  known := hb.known.mono fun _ => Along.append.mpr
  copies := by
    rw [Piece.copiesOf_append, List.forall_mem_append]
    exact ⟨ha.copies, hb.copies⟩

/-- No code. -/
theorem nil (hk : Knows own site c.scopes) : Laid setting kept own site [] c.names [] [] c where
  code := by rw [Piece.codeOf]
  drawn := by
    rw [Piece.drawnOf]
    exact .nil
  declared := by
    rw [Piece.declaredOf]
    exact .nil
  references := by simp [Piece.referencesOf]
  known := hk.mono fun _ => .inl
  copies := by simp [Piece.copiesOf]

/-- A statement by itself. -/
theorem ofOwn {stmt : Stmt} (hnames : Declares own site n xs stmt.declared c')
    (hrefs : ∀ y ∈ stmt.references, own y ∨ kept y) :
    Laid setting kept own site xs n [stmt] [.own stmt] c' where
  code := by simp [Piece.codeOf, Piece.code]
  drawn := by
    simp only [Piece.drawnOf, Piece.drawn, List.append_nil]
    exact hnames.drawn
  declared := by
    simp only [Piece.declaredOf, Piece.declared, List.append_nil]
    exact hnames.renames
  references := by
    simp only [Piece.referencesOf, Piece.references, List.append_nil]
    exact fun y hy => (hrefs y hy).imp_left .inl
  known := by
    refine hnames.known.mono fun z hz => hz.imp_right fun hz => ?_
    rwa [Piece.introducedOf, Piece.introduced, if_pos rfl, Piece.introducedOf, List.append_nil]
  copies := by simp [Piece.copiesOf, Piece.copies]

/-- A statement that declares nothing and has no blocks. -/
theorem one {stmt : Stmt} (hblocks : stmt.blocks = []) (hbinds : stmt.binds = [])
    (hrefs : ∀ e ∈ stmt.exprs, ∀ y ∈ e.locals, own y ∨ kept y) (hk : Knows own site c.scopes) :
    Laid setting kept own site [] c.names [stmt] [.own stmt] c := by
  refine .ofOwn ?_ ?_
  · rw [Stmt.declared_leaf hblocks, hbinds]
    exact .nil hk
  · rw [Stmt.references_leaf hblocks]
    intro y hy
    obtain ⟨e, he, hy⟩ := List.mem_flatMap.mp hy
    exact hrefs e he y hy

/-- A statement that declares nothing and has no blocks, in front. -/
theorem front {scopes : Renaming} (h : Laid setting kept own site xs n a ps c') (stmt : Stmt)
    (hblocks : stmt.blocks = []) (hbinds : stmt.binds = [])
    (hrefs : ∀ e ∈ stmt.exprs, ∀ y ∈ e.locals, own y ∨ kept y) (hk : Knows own site scopes) :
    Laid setting kept own site xs n (stmt :: a) (.own stmt :: ps) c' :=
  (one (c := ⟨0, n, scopes⟩) hblocks hbinds hrefs hk).append (h.mono fun _ => .inl)

/-- A label or a jump in front. -/
theorem plumbing {scopes : Renaming} (h : Laid setting kept own site xs n a ps c') (stmt : Stmt)
    (hplumbing : stmt.isPlumbing = true) (hk : Knows own site scopes) :
    Laid setting kept own site xs n (stmt :: a) (.own stmt :: ps) c' := by
  cases stmt with
  | label | goto => exact h.front _ rfl rfl nofun hk
  | _ => cases hplumbing

/-- Labels and jumps by themselves. -/
theorem plumbings (code : Block) (hcode : ∀ stmt ∈ code, stmt.isPlumbing = true)
    (hk : Knows own site c.scopes) :
    Laid setting kept own site [] c.names code (code.map .own) c := by
  induction code with
  | nil => exact .nil hk
  | cons stmt rest ih =>
    rw [List.forall_mem_cons] at hcode
    exact (ih hcode.2).plumbing stmt hcode.1 hk

/-- Code that declares nothing behind other code. -/
theorem closing (ha : Laid setting kept own site xs n a ps c')
    (hb : Laid setting kept (Along own ps) site [] c'.names b qs c'') :
    Laid setting kept own site xs n (a ++ b) (ps ++ qs) c'' := by
  have h := ha.append hb
  rwa [List.append_nil] at h

/-- The loops around a site do not matter. -/
theorem ofLoop {label : String} (h : Laid setting kept own (site.insideLoop label) xs n a ps c') :
    Laid setting kept own site xs n a ps c' :=
  ⟨h.code, h.drawn, h.declared, h.references, ⟨h.known.receiver, h.known.held⟩, h.copies⟩

/-- The variable for a call that is moved in front of an expression. -/
theorem temp (hk : Knows own site c.scopes) (span : Span) :
    Laid setting kept own site [] c.names [.declare (fresh "temp" (c.names + 1)) .dynamic none span]
      [.temp (c.names + 1) span] ⟨c.labels, c.names + 1, c.scopes⟩ where
  code := by simp [Piece.codeOf, Piece.code]
  drawn := by
    simp only [Piece.drawnOf, Piece.drawn, List.append_nil]
    exact .one "temp" c.names
  declared := by
    simp only [Piece.declaredOf, Piece.declared, List.append_nil]
    exact .nil
  references := by simp [Piece.referencesOf, Piece.references]
  known := hk.mono fun _ => .inl
  copies := by simp [Piece.copiesOf, Piece.copies]

end Laid

/-- How the code that comes out of expressions is put together of pieces, and
what names are left in the expressions. -/
structure Moved (setting : Setting) (kept own : String → Prop) (site : Site) (c : Supply)
    (code : Block) (pieces : List Piece) (left : List String) (c' : Supply) : Prop
    extends Laid setting kept own site [] c.names code pieces c' where
  /-- The names of the copy stay as they are. -/
  scopes : c'.scopes = c.scopes
  /-- The names that are left. -/
  rest : ∀ y ∈ left, Along own pieces y

namespace Moved

/-- Nothing comes out. -/
theorem refl (hk : Knows own site c.scopes) (h : ∀ y ∈ xs, own y) :
    Moved setting kept own site c [] [] xs c :=
  ⟨.nil hk, rfl, fun y hy => .inl (h y hy)⟩

/-- One after the other. -/
theorem append (ha : Moved setting kept own site c a ps xs c')
    (hb : Moved setting kept (Along own ps) site c' b qs ys c'') :
    Moved setting kept own site c (a ++ b) (ps ++ qs) (xs ++ ys) c'' where
  toLaid := ha.toLaid.append hb.toLaid
  scopes := hb.scopes.trans ha.scopes
  rest := List.forall_mem_append.mpr
    ⟨fun y hy => Along.append.mpr (.inl (ha.rest y hy)),
      fun y hy => Along.append.mpr (hb.rest y hy)⟩

/-- Other names are left. -/
theorem leaving (h : Moved setting kept own site c a ps xs c') (hys : ∀ y ∈ ys, Along own ps y) :
    Moved setting kept own site c a ps ys c' :=
  { h with rest := hys }

end Moved

end Laying

section Following

variable {setting : Setting} {kept own : String → Prop} {site : Site} {depth : Nat}
  {s s' : Progress} {span : Span}

/-- The code of copies is put together of pieces, as long as they may still be nested so deep. -/
def SpliceLaid (setting : Setting) (kept : String → Prop) (depth : Nat) : Prop :=
  ∀ {own : String → Prop} {site : Site} {block code : Block} {s s' : Progress},
    Ample setting site depth → Knows own site s.scopes → EntitledAll kept own site block →
    Emits (lowerBlock setting depth site block) s code s' →
    ∃ pieces, Laid setting kept own site (Stmt.declaredIn block) s.names code pieces s'.supply

/-- What all copies are like. -/
structure CopiesLaid (setting : Setting) (kept : String → Prop) (depth : Nat) : Prop where
  /-- The names that a copied method keeps. -/
  methods : KeptInCopies setting kept
  /-- The code of copies is put together of pieces. -/
  splice : SpliceLaid setting kept depth

/-- The names of the parameters of a copy are the ones that are declared for them. -/
theorem mem_declared_of_paramTable {n : Nat} {params : List Param} {args : List Expr}
    {x y : String} (h : (x, y) ∈ paramTable n params args) :
    y ∈ Stmt.declaredIn (declarations span n params args) := by
  induction params generalizing n args with
  | nil => exact absurd h List.not_mem_nil
  | cons param params ih =>
    cases args with
    | nil => exact absurd h List.not_mem_nil
    | cons arg args =>
      rw [declarations, Stmt.declaredIn_cons, Stmt.declared_declare]
      rcases List.mem_append.mp h with h | h
      · exact List.mem_append_right _ (ih h)
      · cases List.mem_singleton.mp h
        exact List.mem_cons_self

/-- At the top of a copy, the receiver and the parameters are at hand. -/
theorem Copy.knows (c : Copy) (site : Site) (label : String) :
    Knows (· ∈ c.opened) (site.insideCopy c.callee ⟨c.receiver, label⟩)
      [paramTable (c.names + 1) c.callee.params c.args] := by
  refine ⟨fun target ht => ?_, fun _ y hy => ?_⟩
  · cases ht
    exact List.mem_cons_self
  · obtain ⟨table, ht, x, hx⟩ := hy
    rw [List.mem_singleton] at ht
    subst ht
    exact List.mem_cons_of_mem _ (mem_declared_of_paramTable hx)

/-- A call that is kept is a piece by itself. -/
theorem keptCall_laid {name : String} {args : List Expr} {dest : Option Expr} {callSpan : Span}
    {c : Supply} (hk : Knows own site c.scopes) (hargs : ∀ y ∈ Expr.listLocals args, own y)
    (hdest : ∀ e ∈ dest, ∀ y ∈ e.locals, own y) :
    ∃ pieces, Laid setting kept own site [] c.names (keptCall name args dest callSpan span)
      pieces c := by
  have hcall : ∀ y ∈ (Expr.call name args callSpan).locals, own y := by rwa [Expr.locals]
  cases dest with
  | none =>
    refine ⟨_, .one rfl rfl (fun e he y hy => .inl ?_) hk⟩
    cases List.mem_singleton.mp he
    exact hcall y hy
  | some target =>
    refine ⟨_, .one rfl rfl (fun e he y hy => .inl ?_) hk⟩
    rcases List.mem_cons.mp he with rfl | he
    · exact hdest e rfl y hy
    · cases List.mem_singleton.mp he
      exact hcall y hy

/-- A call or a copy refers to the variables of its arguments and of its destination. -/
theorem emitCall_moved (laid : CopiesLaid setting kept depth)
    (hsite : Ample setting site (depth + 1)) {name : String} {args : List Expr}
    {dest : Option Expr} {callSpan : Span} {code : Block} (hk : Knows own site s.scopes)
    (hargs : ∀ y ∈ Expr.listLocals args, own y) (hdest : ∀ e ∈ dest, ∀ y ∈ e.locals, own y)
    (h : Emits (emitCall setting (lowerBlock setting depth) site name args dest callSpan span)
      s code s') :
    ∃ pieces, Moved setting kept own site s.supply code pieces [] s'.supply := by
  obtain ⟨rfl, hs⟩ | ⟨callee, hi, s₀, hs₀, s₁, body, s₂, hs₁, hbody, hs', rfl⟩ :=
    emits_emitCall h
  · have hkept : ∃ pieces, Laid setting kept own site [] s.supply.names
        (keptCall name args dest callSpan span) pieces s.supply := keptCall_laid hk hargs hdest
    obtain ⟨pieces, hlaid⟩ := hkept
    rw [hs]
    exact ⟨pieces, hlaid, rfl, nofun⟩
  · let c : Copy := ⟨callee, args, dest, s₀.labels, s₀.names, span⟩
    have hscopes : s₁.scopes = [paramTable (c.names + 1) callee.params args] :=
      congrArg Supply.scopes hs₁
    -- The body starts out with the receiver and the parameters and nothing of the caller.
    have hentitled : EntitledAll kept (· ∈ c.opened)
        (site.insideCopy callee ⟨c.receiver, Label.name (s₀.labels + 1)⟩) callee.body :=
      fun stmt hstmt => ⟨nofun, fun _ =>
        laid.methods hi.inline callee (Program.mem_of_method?_eq_some hi.found) stmt hstmt⟩
    obtain ⟨pieces, hlaid⟩ := laid.splice (hsite.insideCopy hi _)
      (hscopes ▸ c.knows site (Label.name (s₀.labels + 1))) hentitled hbody
    have hnames : s₀.names = s.names := congrArg Supply.names hs₀
    have hfirst : s₁.names = c.names + 1 + callee.params.length := congrArg Supply.names hs₁
    have htaken : ∀ y ∈ c.taken, own y := by
      refine List.forall_mem_append.mpr ⟨hargs, fun y hy => ?_⟩
      obtain ⟨e, he, hy⟩ := List.mem_flatMap.mp hy
      exact hdest e (Option.mem_toList.mp he) y hy
    have hout : s'.scopes = s.scopes :=
      (congrArg Supply.scopes hs').trans (congrArg Supply.scopes hs₀)
    refine ⟨[.copy c pieces], ⟨⟨?_, ?_, ?_, ?_, ?_, ?_⟩, hout, nofun⟩⟩
    · simp only [Piece.codeOf, Piece.code, hlaid.code, Copy.opening, Copy.closing,
        Copy.parameters, List.append_nil, List.append_assoc, List.cons_append, List.nil_append]
      rfl
    · have hbodied := hlaid.drawn
      rw [hfirst] at hbodied
      rw [show s'.supply.names = s₂.names from congrArg Supply.names hs']
      simp only [Piece.drawnOf, Piece.drawn, List.append_nil]
      rw [show s.supply.names = c.names from hnames.symm]
      exact (Copy.numbered_opened hi.given).append hbodied
    · simp only [Piece.declaredOf, Piece.declared, List.append_nil]
      exact .nil
    · simp only [Piece.referencesOf, Piece.references, List.append_nil]
      exact fun y hy => .inl (.inl (htaken y hy))
    · rw [show s'.supply.scopes = s.scopes from hout]
      exact hk.mono fun _ => .inl
    · simp only [Piece.copiesOf, Piece.copies, List.append_nil, List.forall_mem_cons]
      have hclosed : c.Closed kept pieces := fun y hy =>
        (hlaid.references y hy).imp_left List.mem_append.mpr
      exact ⟨⟨⟨Program.mem_of_method?_eq_some hi.found, hi.given, hlaid.declared⟩, hclosed⟩,
        hlaid.copies⟩

/-- The call that is moved in front of an expression, with its variable. -/
theorem temp_moved (laid : CopiesLaid setting kept depth) (hsite : Ample setting site (depth + 1))
    {method : String} {args : List Expr} {call : Block} (hk : Knows own site s.scopes)
    (hargs : ∀ y ∈ Expr.listLocals args, own y)
    (h : Emits (emitCall setting (lowerBlock setting depth) site method args
      (some (localVar (fresh "temp" (s.names + 1)) span)) span span)
      { s with names := s.names + 1 } call s') :
    ∃ pieces, Moved setting kept own site s.supply
      (.declare (fresh "temp" (s.names + 1)) .dynamic none span :: call) pieces
      [fresh "temp" (s.names + 1)] s'.supply := by
  have htemp : Laid setting kept own site [] s.names
      [.declare (fresh "temp" (s.names + 1)) .dynamic none span] [.temp (s.names + 1) span]
      ⟨s.labels, s.names + 1, s.scopes⟩ := .temp (c := s.supply) hk span
  have hnew : Along own [.temp (s.names + 1) span] (fresh "temp" (s.names + 1)) :=
    .inr List.mem_cons_self
  have hdest : ∀ e ∈ some (localVar (fresh "temp" (s.names + 1)) span), ∀ y ∈ e.locals,
      Along own [.temp (s.names + 1) span] y := by
    rintro e ⟨⟩ y hy
    rw [locals_localVar, List.mem_singleton] at hy
    exact hy ▸ hnew
  obtain ⟨pieces, hcall⟩ := emitCall_moved (s := { s with names := s.names + 1 }) laid hsite
    htemp.known (fun y hy => .inl (hargs y hy)) hdest h
  refine ⟨_, htemp.append hcall.toLaid, hcall.scopes, fun y hy => ?_⟩
  rw [List.mem_singleton.mp hy]
  exact Along.append.mpr (.inl hnew)

mutual

/-- Moving the calls of an expression in front of it gives pieces, and leaves
names at hand and introduced ones. -/
theorem hoist_moved (laid : CopiesLaid setting kept depth)
    (hsite : Ample setting site (depth + 1)) :
    ∀ (e : Expr) {own : String → Prop} {s s' : Progress} {before : Block} {e' : Expr},
      Knows own site s.scopes → (∀ y ∈ (render site s.scopes e).locals, own y) →
      Emits (hoist setting (lowerBlock setting depth) site e) s (before, e') s' →
      ∃ pieces, Moved setting kept own site s.supply before pieces e'.locals s'.supply
  | .call method args span, own, s, s', before, e', hk, hown, h => by
    obtain ⟨b, as, s₁, hb, hcall⟩ := emits_hoist_call h
    rw [render_call, Expr.locals] at hown
    obtain ⟨ps, hargs⟩ := hoistList_moved laid hsite args hk hown hb
    obtain ⟨-, call, hemit, rfl, rfl⟩ | ⟨-, hs, rfl, rfl⟩ := hcall
    · obtain ⟨qs, htemp⟩ := temp_moved laid hsite hargs.known hargs.rest hemit
      have hall := hargs.append htemp
      rw [locals_localVar]
      exact ⟨_, hall.leaving fun y hy => hall.rest y (List.mem_append_right _ hy)⟩
    · rw [hs, Expr.locals]
      exact ⟨ps, hargs⟩
  | .callStatic typeName method args span, own, s, s', before, e', hk, hown, h => by
    unfold hoist at h
    obtain ⟨as, hb, rfl⟩ := emits_hoist_list (.callStatic typeName method · span) h
    rw [render_callStatic, Expr.locals] at hown
    rw [Expr.locals]
    exact hoistList_moved laid hsite args hk hown hb
  | .callOn object method args span, own, s, s', before, e', hk, hown, h => by
    obtain ⟨b₁, as, s₁, b₂, o, h₁, h₂, rfl, rfl⟩ := emits_hoist_callOn h
    rw [render_callOn, Expr.locals, List.forall_mem_append] at hown
    obtain ⟨ps, hargs⟩ := hoistList_moved laid hsite args hk hown.2 h₁
    have hscopes : s₁.scopes = s.scopes := hargs.scopes
    obtain ⟨qs, hobject⟩ := hoist_moved laid hsite object hargs.known
      (fun y hy => .inl (hown.1 y (hscopes ▸ hy))) h₂
    have hall := hargs.append hobject
    rw [Expr.locals]
    exact ⟨_, hall.leaving fun y hy =>
      hall.rest y (List.mem_append.mpr (List.mem_append.mp hy).symm)⟩
  | .binary op left right span, own, s, s', before, e', hk, hown, h => by
    obtain ⟨b₁, a₁, s₁, h₁, hright⟩ := emits_hoist_binary h
    rw [render_binary, Expr.locals, List.forall_mem_append] at hown
    obtain ⟨ps, hleft⟩ := hoist_moved laid hsite left hk hown.1 h₁
    have hscopes : s₁.scopes = s.scopes := hleft.scopes
    obtain ⟨-, hs, rfl, rfl⟩ | ⟨-, b₂, a₂, h₂, rfl, rfl⟩ := hright
    · rw [hs, Expr.locals, hscopes]
      exact ⟨ps, hleft.leaving
        (List.forall_mem_append.mpr ⟨hleft.rest, fun y hy => .inl (hown.2 y hy)⟩)⟩
    · obtain ⟨qs, hmoved⟩ := hoist_moved laid hsite right hleft.known
        (fun y hy => .inl (hown.2 y (hscopes ▸ hy))) h₂
      rw [Expr.locals]
      exact ⟨_, hleft.append hmoved⟩
  | .unary op operand span, own, s, s', before, e', hk, hown, h => by
    unfold hoist at h
    obtain ⟨a, hb, rfl⟩ := emits_hoist_one (.unary op · span) h
    rw [render_unary, Expr.locals] at hown
    rw [Expr.locals]
    exact hoist_moved laid hsite operand hk hown hb
  | .index target position span, own, s, s', before, e', hk, hown, h => by
    unfold hoist at h
    obtain ⟨b₁, a₁, s₁, b₂, a₂, h₁, h₂, rfl, rfl⟩ := emits_hoist_two (.index · · span) h
    rw [render_index, Expr.locals, List.forall_mem_append] at hown
    obtain ⟨ps, htarget⟩ := hoist_moved laid hsite target hk hown.1 h₁
    have hscopes : s₁.scopes = s.scopes := htarget.scopes
    obtain ⟨qs, hposition⟩ := hoist_moved laid hsite position htarget.known
      (fun y hy => .inl (hown.2 y (hscopes ▸ hy))) h₂
    rw [Expr.locals]
    exact ⟨_, htarget.append hposition⟩
  | .property object name span, own, s, s', before, e', hk, hown, h => by
    unfold hoist at h
    obtain ⟨a, hb, rfl⟩ := emits_hoist_one (.property · name span) h
    rw [render_property, Expr.locals] at hown
    rw [Expr.locals]
    exact hoist_moved laid hsite object hk hown hb
  | .create typeName args span, own, s, s', before, e', hk, hown, h => by
    unfold hoist at h
    obtain ⟨as, hb, rfl⟩ := emits_hoist_list (.create typeName · span) h
    rw [render_create, Expr.locals] at hown
    rw [Expr.locals]
    exact hoistList_moved laid hsite args hk hown hb
  | .array items span, own, s, s', before, e', hk, hown, h => by
    unfold hoist at h
    obtain ⟨as, hb, rfl⟩ := emits_hoist_list (.array · span) h
    rw [render_array, Expr.locals] at hown
    rw [Expr.locals]
    exact hoistList_moved laid hsite items hk hown hb
  | .literal .., own, s, s', before, e', hk, hown, h
  | .var .., own, s, s', before, e', hk, hown, h => by
    unfold hoist at h
    obtain ⟨rfl, rfl, hs⟩ := emits_hoist_leaf h
    rw [hs]
    exact ⟨[], .refl hk hown⟩
  | .staticProperty .., own, s, s', before, e', hk, hown, h => by
    unfold hoist at h
    obtain ⟨hpair, rfl⟩ := emits_pure.mp h
    cases hpair
    exact ⟨[], .refl hk (by simp [Expr.locals])⟩

/-- Moving the calls of expressions in front of them gives pieces, and leaves
names at hand and introduced ones. -/
theorem hoistList_moved (laid : CopiesLaid setting kept depth)
    (hsite : Ample setting site (depth + 1)) :
    ∀ (es : List Expr) {own : String → Prop} {s s' : Progress} {before : Block} {es' : List Expr},
      Knows own site s.scopes → (∀ y ∈ Expr.listLocals (renderList site s.scopes es), own y) →
      Emits (hoistList setting (lowerBlock setting depth) site es) s (before, es') s' →
      ∃ pieces, Moved setting kept own site s.supply before pieces (Expr.listLocals es') s'.supply
  | [], own, s, s', before, es', hk, hown, h => by
    unfold hoistList at h
    obtain ⟨hpair, rfl⟩ := emits_pure.mp h
    cases hpair
    exact ⟨[], .refl hk (by simp [Expr.listLocals])⟩
  | e :: rest, own, s, s', before, es', hk, hown, h => by
    obtain ⟨b₁, a, s₁, b₂, as, h₁, h₂, rfl, rfl⟩ := emits_hoistList_cons h
    rw [renderList_cons, Expr.listLocals, List.forall_mem_append] at hown
    obtain ⟨ps, he⟩ := hoist_moved laid hsite e hk hown.1 h₁
    have hscopes : s₁.scopes = s.scopes := he.scopes
    obtain ⟨qs, hrest⟩ := hoistList_moved laid hsite rest he.known
      (fun y hy => .inl (hown.2 y (hscopes ▸ hy))) h₂
    rw [Expr.listLocals]
    exact ⟨_, he.append hrest⟩

end

/-- One declaration. -/
theorem declareName_declares {x y : String} (hk : Knows own site s.scopes)
    (h : Emits (declareName site x) s y s') : Declares own site s.names [x] [y] s'.supply := by
  cases hc : site.copy with
  | none =>
    have htop : site.copy.isNone = true := by rw [hc]; rfl
    obtain ⟨rfl, rfl⟩ := emits_declareName_top htop h
    refine ⟨.cons ?_ .nil, ?_, hk.mono fun _ => .inl⟩
    · rw [Site.Renames, if_pos htop]
    · rw [hc]
      exact .nil
  | some target =>
    have hcopy : site.copy.isNone = false := by rw [hc]; rfl
    obtain ⟨rfl, rfl⟩ := emits_declareName_copy hcopy h
    refine ⟨.cons ?_ .nil, ?_, fun t ht => .inl (hk.receiver t ht), fun hin z hz => ?_⟩
    · rw [Site.Renames, hcopy, if_neg Bool.false_ne_true]
      exact ⟨_, rfl⟩
    · rw [hc]
      exact .one x s.names
    · rcases Holds.of_bind hz with rfl | hz
      · exact .inr List.mem_cons_self
      · exact .inl (hk.held hin z hz)

/-- The declaration of the exception of a handler. -/
theorem CatchName.declares {name name' : Option String} (hk : Knows own site s.scopes)
    (h : CatchName site name name' s s') :
    Declares own site s.names name.toList name'.toList s'.supply := by
  cases name with
  | none =>
    cases name' with
    | none =>
      obtain rfl : s' = s := h
      exact .nil (c := s'.supply) hk
    | some y => exact h.elim
  | some x =>
    cases name' with
    | none => exact h.elim
    | some y => exact declareName_declares hk h

namespace Laid

variable {n : Nat} {c' c₁ c₂ c₃ : Supply} {xs ys zs : List String} {a b : Block}
  {ps qs : List Piece}

/-- A declaration. -/
theorem declare {x y : String} {shape : Shape} {init : Option Expr}
    (hname : Declares own site n [x] [y] c') (hinit : ∀ e ∈ init, ∀ z ∈ e.locals, own z) :
    Laid setting kept own site [x] n [.declare y shape init span]
      [.own (.declare y shape init span)] c' := by
  have hblocks : (Stmt.declare y shape init span).blocks = [] := rfl
  refine .ofOwn ?_ ?_
  · rwa [Stmt.declared_declare]
  · rw [Stmt.references_leaf hblocks]
    intro z hz
    obtain ⟨e, he, hz⟩ := List.mem_flatMap.mp hz
    exact .inl (hinit e (Option.mem_toList.mp he) z hz)

/-- An `attempt` statement. -/
theorem attempt {name : Option String} (ha : Laid setting kept own site xs n a ps c₁)
    (hname : Declares (Along own ps) site c₁.names zs name.toList c₂)
    (hb : Laid setting kept (fun z => Along own ps z ∨ z ∈ name.toList) site ys c₂.names b qs c₃) :
    Laid setting kept own site (zs ++ (xs ++ ys)) n [.attempt a name b span]
      [.attempt ps name qs span] ⟨c₃.labels, c₃.names, c₃.scopes.pop⟩ := by
  -- What the body introduces stays at hand in the handler, though no scope leads to it.
  have halong : ∀ y, Along (fun z => Along own ps z ∨ z ∈ name.toList) qs y →
      Along own [.attempt ps name qs span] y := by
    intro y hy
    simp only [Along, Piece.introducedOf, Piece.introduced, if_true, List.append_nil,
      List.mem_append] at hy ⊢
    tauto
  constructor
  · simp [Piece.codeOf, Piece.code, ha.code, hb.code]
  · simp only [Piece.drawnOf, Piece.drawn, List.append_nil]
    exact (ha.drawn.append hname.drawn).append hb.drawn
  · simp only [Piece.declaredOf, Piece.declared, List.append_nil]
    exact List.rel_append hname.renames (List.rel_append ha.declared hb.declared)
  · simp only [Piece.referencesOf, Piece.references, List.append_nil, List.forall_mem_append]
    refine ⟨fun y hy => (ha.references y hy).imp_left fun hy => ?_, fun y hy => ?_⟩
    · exact halong y (.inl (.inl hy))
    · exact (hb.references y hy).imp_left (halong y)
  · exact (hb.known.mono halong).pop
  · simp only [Piece.copiesOf, Piece.copies, List.append_nil, List.forall_mem_append]
    exact ⟨ha.copies, hb.copies⟩

end Laid

section Statements

variable {code : Block}

/-- What is known depends on the scopes that a supply holds. -/
theorem Knows.same {c : Supply} (hs : s.supply = c) (hk : Knows own site c.scopes) :
    Knows own site s.scopes := by
  subst hs
  exact hk

/-- As it stands at a site, an expression of a statement refers to names at hand. -/
theorem Knows.refers {scopes : Renaming} (hk : Knows own site scopes) {stmt : Stmt}
    (hs : Entitled kept own site stmt) {e : Expr} (he : e ∈ stmt.exprs) :
    ∀ e' ∈ [render site scopes e], ∀ y ∈ e'.locals, own y ∨ kept y := by
  rw [List.forall_mem_singleton]
  exact fun y hy => .inl (hk.locals_render hs he y hy)

/-- A statement that declares nothing and has no blocks, where nothing is handed out. -/
theorem Laid.single {stmt : Stmt} (hsupply : s'.supply = s.supply) (hblocks : stmt.blocks = [])
    (hbinds : stmt.binds = []) (hrefs : ∀ e ∈ stmt.exprs, ∀ y ∈ e.locals, own y ∨ kept y)
    (hk : Knows own site s.scopes) :
    ∃ pieces, Laid setting kept own site [] s.names [stmt] pieces s'.supply := by
  rw [hsupply]
  exact ⟨_, .one (c := s.supply) hblocks hbinds hrefs hk⟩

/-- A call with its arguments as they stand at the site. -/
theorem lowerCall_laid (laid : CopiesLaid setting kept depth)
    (hsite : Ample setting site (depth + 1)) {name : String} {args : List Expr}
    {dest : Option Expr} {callSpan : Span} (hk : Knows own site s.scopes)
    (hargs : ∀ y ∈ (render site s.scopes (.call name args callSpan)).locals, own y)
    (hdest : ∀ e ∈ dest, ∀ y ∈ e.locals, own y)
    (h : Emits (lowerCall setting (lowerBlock setting depth) site name args dest callSpan span)
      s code s') :
    ∃ pieces, Laid setting kept own site [] s.names code pieces s'.supply := by
  obtain ⟨s₁, hs₁, hemit⟩ := emits_lowerCall h
  rw [render_call, Expr.locals] at hargs
  obtain ⟨pieces, hcall⟩ := emitCall_moved laid hsite (hk.same hs₁) hargs hdest hemit
  rw [hs₁] at hcall
  exact ⟨pieces, hcall.toLaid⟩

/-- Lowering a declaration. -/
theorem lowerDeclare_laid (laid : CopiesLaid setting kept depth)
    (hsite : Ample setting site (depth + 1)) {x : String} {shape : Shape} {init : Option Expr}
    (hk : Knows own site s.scopes) (hs : Entitled kept own site (.declare x shape init span))
    (h : Emits (lowerDeclare setting (lowerBlock setting depth) site x shape init span)
      s code s') :
    ∃ pieces, Laid setting kept own site [x] s.names code pieces s'.supply := by
  have hinit {e : Expr} (he : init = some e) : ∀ y ∈ (render site s.scopes e).locals, own y :=
    hk.locals_render hs (show e ∈ init.toList by rw [he]; exact List.mem_cons_self)
  by_cases hcall : ∀ e, init = some e → ¬ IsCall e
  · obtain ⟨s₁, y, hs₁, hy, rfl⟩ := emits_lowerDeclare hcall h
    have hname := declareName_declares (hk.same hs₁) hy
    rw [show s₁.names = s.names from congrArg Supply.names hs₁] at hname
    refine ⟨_, .declare hname fun e he => ?_⟩
    obtain ⟨value, hvalue, rfl⟩ := Option.map_eq_some_iff.mp he
    exact hinit hvalue
  · simp only [not_forall, not_not] at hcall
    obtain ⟨_, rfl, method, args, callSpan, rfl⟩ := hcall
    obtain ⟨s₁, y, s₂, call, hs₁, hy, hemit, rfl⟩ := emits_lowerDeclare_call h
    have hname := declareName_declares (hk.same hs₁) hy
    rw [show s₁.names = s.names from congrArg Supply.names hs₁] at hname
    have hfirst : Laid setting kept own site [x] s.names [.declare y shape none span]
        [.own (.declare y shape none span)] s₂.supply := .declare hname nofun
    have hargs := hinit rfl
    rw [render_call, Expr.locals] at hargs
    have hdest : ∀ e ∈ some (localVar y span), ∀ z ∈ e.locals,
        Along own [.own (.declare y shape none span)] z := by
      rintro e ⟨⟩ z hz
      rw [locals_localVar, List.mem_singleton] at hz
      exact .inr (by simp [Piece.introducedOf, Piece.introduced, hz])
    obtain ⟨pieces, hrest⟩ := emitCall_moved laid hsite hfirst.known
      (fun z hz => .inl (hargs z hz)) hdest hemit
    exact ⟨_, hfirst.closing hrest.toLaid⟩

/-- Lowering an assignment. -/
theorem lowerAssign_laid (laid : CopiesLaid setting kept depth)
    (hsite : Ample setting site (depth + 1)) {target value : Expr}
    (hk : Knows own site s.scopes) (hs : Entitled kept own site (.assign target value span))
    (h : Emits (lowerAssign setting (lowerBlock setting depth) site target value span)
      s code s') :
    ∃ pieces, Laid setting kept own site [] s.names code pieces s'.supply := by
  have htarget := hk.locals_render hs (e := target) List.mem_cons_self
  have hvalue := hk.locals_render hs (e := value)
    (List.mem_cons_of_mem _ List.mem_cons_self)
  by_cases hv : IsCall value
  · obtain ⟨method, args, callSpan, rfl⟩ := hv
    obtain ⟨s₁, hs₁, hemit⟩ := emits_lowerAssign_call h
    rw [render_call, Expr.locals] at hvalue
    obtain ⟨pieces, hcall⟩ := emitCall_moved laid hsite (hk.same hs₁) hvalue
      (by rintro e ⟨⟩; exact htarget) hemit
    rw [hs₁] at hcall
    exact ⟨pieces, hcall.toLaid⟩
  · obtain ⟨hsupply, rfl⟩ := emits_lowerAssign hv h
    refine Laid.single hsupply rfl rfl (fun e he y hy => .inl ?_) hk
    rcases List.mem_cons.mp he with rfl | he
    · exact htarget y hy
    · cases List.mem_singleton.mp he
      exact hvalue y hy

/-- Lowering an expression statement. -/
theorem lowerEval_laid (laid : CopiesLaid setting kept depth)
    (hsite : Ample setting site (depth + 1)) {e : Expr} (hk : Knows own site s.scopes)
    (hs : Entitled kept own site (.eval e span))
    (h : Emits (lowerEval setting (lowerBlock setting depth) site e span) s code s') :
    ∃ pieces, Laid setting kept own site [] s.names code pieces s'.supply := by
  by_cases hcall : IsCall e
  · obtain ⟨method, args, callSpan, rfl⟩ := hcall
    exact lowerCall_laid laid hsite hk (hk.locals_render hs List.mem_cons_self) (by rintro _ ⟨⟩) h
  · obtain ⟨hsupply, rfl⟩ := emits_lowerEval hcall h
    exact Laid.single hsupply rfl rfl (hk.refers hs List.mem_cons_self) hk

/-- Lowering the return of a value. -/
theorem lowerReturned_laid (laid : CopiesLaid setting kept depth)
    (hsite : Ample setting site (depth + 1)) {value : Expr} (hk : Knows own site s.scopes)
    (hvalue : ∀ y ∈ (render site s.scopes value).locals, own y)
    (h : Emits (lowerReturned setting (lowerBlock setting depth) site value span) s code s') :
    ∃ pieces, Laid setting kept own site [] s.names code pieces s'.supply := by
  cases hcopy : site.copy with
  | none =>
    obtain ⟨before, e', hb, rfl⟩ := emits_lowerReturned_top hcopy h
    obtain ⟨ps, hbefore⟩ := hoist_moved laid hsite value hk hvalue hb
    refine ⟨_, hbefore.closing (.one rfl rfl (fun e he y hy => .inl ?_) hbefore.known)⟩
    cases List.mem_singleton.mp he
    exact hbefore.rest y hy
  | some target =>
    have hreceiver : ∀ y ∈ (localVar target.receiver span).locals, own y := by
      rw [locals_localVar, List.forall_mem_singleton]
      exact hk.receiver target hcopy
    obtain ⟨method, args, callSpan, call, rfl, hcall, rfl⟩ | ⟨-, before, e', hb, rfl⟩ :=
      emits_lowerReturned_copy hcopy h
    · obtain ⟨ps, hcalled⟩ := lowerCall_laid laid hsite hk hvalue
        (by rintro e ⟨⟩; exact hreceiver) hcall
      exact ⟨_, hcalled.closing (.plumbings _ (by simp [Stmt.isPlumbing]) hcalled.known)⟩
    · obtain ⟨ps, hbefore⟩ := hoist_moved laid hsite value hk hvalue hb
      have hleave : Laid setting kept (Along own ps) site [] s'.supply.names
          [.goto target.endLabel span] [.own (.goto target.endLabel span)] s'.supply :=
        .plumbings _ (by simp [Stmt.isPlumbing]) hbefore.known
      refine ⟨_, hbefore.closing (hleave.front _ rfl rfl (fun e he y hy => .inl ?_)
        hbefore.known)⟩
      rcases List.mem_cons.mp he with rfl | he
      · exact .inl (hreceiver y hy)
      · cases List.mem_singleton.mp he
        exact hbefore.rest y hy

/-- Lowering a return. -/
theorem lowerReturn_laid (laid : CopiesLaid setting kept depth)
    (hsite : Ample setting site (depth + 1)) {value : Option Expr} (hk : Knows own site s.scopes)
    (hs : Entitled kept own site (.ret value span))
    (h : Emits (lowerReturn setting (lowerBlock setting depth) site value span) s code s') :
    ∃ pieces, Laid setting kept own site [] s.names code pieces s'.supply := by
  cases value with
  | some value =>
    exact lowerReturned_laid laid hsite hk (hk.locals_render hs (e := value) List.mem_cons_self) h
  | none =>
    obtain ⟨rfl, ⟨-, rfl⟩ | ⟨target, -, rfl⟩⟩ := emits_lowerReturn_none h <;>
      exact Laid.single rfl rfl rfl nofun hk

end Statements

mutual

/-- The code for a statement is put together of pieces. -/
theorem lowerStmt_laid (laid : CopiesLaid setting kept depth) :
    ∀ (stmt : Stmt) {own : String → Prop} {site : Site} {s s' : Progress} {code : Block},
      Ample setting site (depth + 1) → Knows own site s.scopes →
      stmt.every (Entitled kept own site) →
      Emits (lowerStmt setting (lowerBlock setting depth) site stmt) s code s' →
      ∃ pieces, Laid setting kept own site stmt.declared s.names code pieces s'.supply
  | .declare .., own, site, s, s', code, hsite, hk, hs, h => by
    rw [lowerStmt] at h
    rw [Stmt.declared_declare]
    exact lowerDeclare_laid laid hsite hk (Stmt.every_self hs) h
  | .assign .., own, site, s, s', code, hsite, hk, hs, h => by
    rw [lowerStmt] at h
    rw [Stmt.declared_leaf rfl]
    exact lowerAssign_laid laid hsite hk (Stmt.every_self hs) h
  | .eval .., own, site, s, s', code, hsite, hk, hs, h => by
    rw [lowerStmt] at h
    rw [Stmt.declared_leaf rfl]
    exact lowerEval_laid laid hsite hk (Stmt.every_self hs) h
  | .ret .., own, site, s, s', code, hsite, hk, hs, h => by
    rw [lowerStmt] at h
    rw [Stmt.declared_leaf rfl]
    exact lowerReturn_laid laid hsite hk (Stmt.every_self hs) h
  | .throw value span, own, site, s, s', code, hsite, hk, hs, h => by
    obtain ⟨hsupply, rfl⟩ := emits_throw h
    rw [Stmt.declared_leaf rfl]
    exact Laid.single hsupply rfl rfl (hk.refers (Stmt.every_self hs) List.mem_cons_self) hk
  | .cond test yes none span, own, site, s, s', code, hsite, hk, hs, h => by
    obtain ⟨s₁, yes', hs₁, hyes, rfl⟩ := emits_cond_none h
    obtain ⟨ps, hinside⟩ := lowerStmts_laid laid yes hsite (hk.same hs₁)
      (Stmt.every_cond_none hs) hyes
    rw [show s₁.names = s.names from congrArg Supply.names hs₁] at hinside
    have hbranch := hinside.front (.branch (render site s.scopes test)
      (Label.name s.labels) span) rfl rfl (hk.refers (Stmt.every_self hs) List.mem_cons_self) hk
    rw [Stmt.declared_cond_none]
    exact ⟨_, hbranch.closing (.plumbings _ (by simp [mark, Stmt.isPlumbing]) hbranch.known)⟩
  | .cond test yes (some no) span, own, site, s, s', code, hsite, hk, hs, h => by
    obtain ⟨s₁, yes', s₂, no', hs₁, hyes, hno, rfl⟩ := emits_cond_some h
    obtain ⟨ps, hfirst⟩ := lowerStmts_laid laid yes hsite (hk.same hs₁)
      (Stmt.every_cond_some hs).1 hyes
    rw [show s₁.names = s.names from congrArg Supply.names hs₁] at hfirst
    have hbranch := hfirst.front (.branch (render site s.scopes test)
      (Label.name s.labels) span) rfl rfl (hk.refers (Stmt.every_self hs) List.mem_cons_self) hk
    obtain ⟨qs, hsecond⟩ := lowerStmts_laid laid no hsite hbranch.known
      (Stmt.everyAll_mono (Stmt.every_cond_some hs).2 fun _ hs => hs.mono fun _ => .inl) hno
    have hboth := hbranch.append ((hsecond.plumbing (mark (Label.name s.labels)) rfl
      hbranch.known).plumbing (jump (Label.name (s.labels + 1))) rfl hbranch.known)
    rw [Stmt.declared_cond_some]
    exact ⟨_, hboth.closing (.plumbings _ (by simp [mark, Stmt.isPlumbing]) hboth.known)⟩
  | .loop .testFirst test body span, own, site, s, s', code, hsite, hk, hs, h => by
    obtain ⟨s₁, body', hs₁, hbody, rfl⟩ := emits_loop_first h
    obtain ⟨ps, hinside⟩ := lowerStmts_laid laid body (hsite.insideLoop _)
      ((hk.same hs₁).insideLoop _) (EntitledAll.insideLoop (Stmt.every_loop hs)) hbody
    rw [show s₁.names = s.names from congrArg Supply.names hs₁] at hinside
    have hbranch := hinside.ofLoop.front (.branch (render site s.scopes test)
      (Label.name (s.labels + 1)) span) rfl rfl
      (hk.refers (Stmt.every_self hs) List.mem_cons_self) hk
    have hmarked := hbranch.plumbing (mark (Label.name s.labels)) rfl hk
    rw [Stmt.declared_loop]
    exact ⟨_, hmarked.closing (.plumbings _ (by simp [mark, jump, Stmt.isPlumbing]) hmarked.known)⟩
  | .loop .testLast test body span, own, site, s, s', code, hsite, hk, hs, h => by
    obtain ⟨s₁, body', s₂, hs₁, hbody, hs', rfl⟩ := emits_loop_last h
    obtain ⟨ps, hinside⟩ := lowerStmts_laid laid body (hsite.insideLoop _)
      ((hk.same hs₁).insideLoop _) (EntitledAll.insideLoop (Stmt.every_loop hs)) hbody
    rw [show s₁.names = s.names from congrArg Supply.names hs₁] at hinside
    have hmarked := hinside.ofLoop.plumbing (mark (Label.name s.labels)) rfl hk
    -- The test stands behind the body, where more names may be in use.
    have htest := hmarked.known.refers (e := test) ((Stmt.every_self hs).mono fun _ => .inl)
      List.mem_cons_self
    have hback := hmarked.closing ((Laid.plumbings [jump (Label.name s.labels),
      mark (Label.name (s.labels + 1))] (by simp [mark, jump, Stmt.isPlumbing])
      hmarked.known).front (.branch (render site s₂.scopes test) (Label.name (s.labels + 1)) span)
      rfl rfl htest hmarked.known)
    rw [Stmt.declared_loop, hs']
    exact ⟨_, hback⟩
  | .brk span, own, site, s, s', code, hsite, hk, hs, h => by
    obtain ⟨hsupply, rfl⟩ := emits_brk h
    rw [Stmt.declared_leaf rfl]
    split
    · exact Laid.single hsupply rfl rfl nofun hk
    · exact Laid.single hsupply rfl rfl nofun hk
  | .attempt body name handler span, own, site, s, s', code, hsite, hk, hs, h => by
    obtain ⟨body', s₁, name', s₂, handler', s₃, hbody, hname, hhandler, rfl, rfl⟩ :=
      emits_attempt h
    obtain ⟨ps, hfirst⟩ := lowerStmts_laid laid body hsite hk.push (Stmt.every_attempt hs).1 hbody
    have hdeclares := hname.declares hfirst.known.pop.push
    obtain ⟨qs, hsecond⟩ := lowerStmts_laid laid handler hsite hdeclares.known
      (Stmt.everyAll_mono (Stmt.every_attempt hs).2 fun _ hs => hs.mono fun _ hy => .inl (.inl hy))
      hhandler
    rw [Stmt.declared_attempt]
    exact ⟨_, hfirst.attempt hdeclares hsecond⟩
  | .branch test label span, own, site, s, s', code, hsite, hk, hs, h => by
    rw [lowerStmt] at h
    obtain ⟨rfl, rfl⟩ := emits_pure.mp h
    rw [Stmt.declared_leaf rfl]
    refine Laid.single rfl rfl rfl (fun e he y hy => ?_) hk
    cases List.mem_singleton.mp he
    have hself := Stmt.every_self hs
    by_cases hc : site.copy = none
    · exact .inl (hself.top hc y (List.mem_flatMap.mpr ⟨test, List.mem_cons_self, hy⟩))
    · exact .inr (hself.unrenamed hc y hy)
  | .label .., own, site, s, s', code, hsite, hk, hs, h
  | .goto .., own, site, s, s', code, hsite, hk, hs, h => by
    rw [lowerStmt] at h
    obtain ⟨rfl, rfl⟩ := emits_pure.mp h
    rw [Stmt.declared_leaf rfl]
    exact Laid.single rfl rfl rfl nofun hk

/-- The code for statements is put together of pieces. -/
theorem lowerStmts_laid (laid : CopiesLaid setting kept depth) :
    ∀ (block : List Stmt) {own : String → Prop} {site : Site} {after : Option Span}
      {s s' : Progress} {code : Block}, Ample setting site (depth + 1) →
      Knows own site s.scopes → EntitledAll kept own site block →
      Emits (lowerStmts setting (lowerBlock setting depth) site after block) s code s' →
      ∃ pieces, Laid setting kept own site (Stmt.declaredIn block) s.names code pieces s'.supply
  | [], own, site, after, s, s', code, hsite, hk, hs, h => by
    unfold lowerStmts at h
    obtain ⟨rfl, rfl⟩ := emits_pure.mp h
    exact ⟨[], .nil (c := s'.supply) hk⟩
  | stmt :: rest, own, site, after, s, s', code, hsite, hk, hs, h => by
    obtain ⟨s₁, first, s₂, others, hs₁, hfirst, hothers, rfl⟩ := emits_lowerStmts_cons h
    obtain ⟨hstmt, hrest⟩ := Stmt.everyAll_cons.mp hs
    obtain ⟨ps, h₁⟩ := lowerStmt_laid laid stmt hsite (hk.same hs₁) hstmt hfirst
    rw [show s₁.names = s.names from congrArg Supply.names hs₁] at h₁
    obtain ⟨qs, h₂⟩ := lowerStmts_laid laid rest hsite h₁.known
      (Stmt.everyAll_mono hrest fun _ hs => hs.mono fun _ => .inl) hothers
    rw [Stmt.declaredIn_cons]
    exact ⟨_, h₁.append h₂⟩

end

/-- The code for a block is put together of pieces, however deep copies nest. -/
theorem lowerBlock_laid (hmethods : KeptInCopies setting kept) (depth : Nat) :
    SpliceLaid setting kept depth := by
  induction depth with
  | zero => exact fun hsite _ _ _ => absurd hsite.pos (Nat.lt_irrefl 0)
  | succ depth ih => exact fun hsite hk hs h => lowerStmts_laid ⟨hmethods, ih⟩ _ hsite hk hs h

/-- A method, and the pieces that its lowered body is put together of. -/
structure Part where
  /-- The method. -/
  method : Method
  /-- The pieces. -/
  pieces : List Piece

/-- The lowered method. -/
def Part.lowered (part : Part) : Method :=
  { part.method with body := Piece.codeOf part.pieces }

/-- A program method by method. -/
abbrev Layout := List Part

namespace Layout

/-- The new names in the order of the code. -/
def news (layout : Layout) : List String :=
  layout.flatMap fun part => Piece.drawnOf false part.pieces

/-- The new names outside of copies. -/
def temps (layout : Layout) : List String :=
  layout.flatMap fun part => Piece.introducedOf false part.pieces

/-- The copies with their bodies. -/
def copies (layout : Layout) : List (Copy × List Piece) :=
  layout.flatMap fun part => Piece.copiesOf part.pieces

/-- How methods come to be lowered, if so many new names were handed out before
them and so many after them. -/
structure Covers (setting : Setting) (kept : String → Prop) (layout : Layout)
    (ms ms' : List Method) (n n' : Nat) : Prop where
  /-- The methods. -/
  methods : layout.map (·.method) = ms
  /-- The lowered methods. -/
  lowered : layout.map (·.lowered) = ms'
  /-- Outside of copies, declarations keep their names. -/
  declared : ∀ part ∈ layout, Piece.declaredOf part.pieces = Stmt.declaredIn part.method.body
  /-- The new names, one after the other. -/
  drawn : Numbered n layout.news n'
  /-- The copies. -/
  copies : ∀ c ∈ layout.copies, c.1.Faithful setting.program c.2 ∧ c.1.Closed kept c.2

namespace Covers

variable {layout : Layout} {m : Method} {ms ms' : List Method} {code : Block}
  {pieces : List Piece} {n n' : Nat} {c' : Supply}

/-- One method more. -/
theorem cons (hbody : Laid setting kept own Site.top (Stmt.declaredIn m.body) n code pieces c')
    (h : layout.Covers setting kept ms ms' c'.names n') :
    Covers setting kept (⟨m, pieces⟩ :: layout) (m :: ms) ({ m with body := code } :: ms') n
      n' where
  methods := by rw [List.map_cons, h.methods]
  lowered := by rw [List.map_cons, h.lowered, Part.lowered, hbody.code]
  declared := by
    -- Outside of copies, to stand for a name is to be equal to it.
    have hsame : List.Forall₂ (fun y x => y = x) (Piece.declaredOf pieces)
        (Stmt.declaredIn m.body) := hbody.declared.flip
    rw [List.forall₂_eq_eq_eq] at hsame
    exact List.forall_mem_cons.mpr ⟨hsame, h.declared⟩
  drawn := hbody.drawn.append h.drawn
  copies := List.forall_mem_append.mpr ⟨hbody.copies, h.copies⟩

end Covers

end Layout

/-- Code that is left as it is has no new names and no copies. -/
theorem Laid.untouched (block : Block) (c : Supply) :
    Laid setting kept (fun _ => True) Site.top (Stmt.declaredIn block) c.names block
      (block.map .own) c := by
  induction block with
  | nil => exact .nil .top
  | cons stmt rest ih =>
    have hnames : Declares (fun _ => True) Site.top c.names stmt.declared stmt.declared c :=
      ⟨List.forall₂_same.mpr fun _ _ => rfl, .nil, .top⟩
    have hstmt : Laid setting kept (fun _ => True) Site.top stmt.declared c.names [stmt]
        [.own stmt] c := .ofOwn hnames fun _ _ => .inl trivial
    rw [Stmt.declaredIn_cons]
    exact hstmt.append (ih.mono fun _ _ => .inl trivial)

/-- Methods that are left as they are. -/
theorem covers_untouched (ms : List Method) (n : Nat) :
    ∃ layout : Layout, layout.Covers setting kept ms ms n n := by
  induction ms with
  | nil => exact ⟨[], rfl, rfl, nofun, .nil, nofun⟩
  | cons m ms ih =>
    obtain ⟨layout, hlayout⟩ := ih
    exact ⟨_, .cons (Laid.untouched m.body ⟨0, n, []⟩) hlayout⟩

/-- Lowering methods puts their bodies together of pieces. -/
theorem lowerMethods_covers (hmethods : KeptInCopies setting kept) {ms ms' : List Method}
    (h : Emits (lowerMethods setting ms) s ms' s') :
    ∃ layout : Layout, layout.Covers setting kept ms ms' s.names s'.names := by
  induction ms generalizing s s' ms' with
  | nil =>
    obtain ⟨rfl, rfl⟩ := emits_pure.mp h
    exact ⟨[], rfl, rfl, nofun, .nil, nofun⟩
  | cons m ms ih =>
    obtain ⟨code, s₁, rest, hbody, hrest, rfl⟩ := emits_lowerMethods_cons h
    have hentitled : EntitledAll kept (fun _ => True) Site.top m.body :=
      fun _ _ => ⟨fun _ _ _ => trivial, fun hc => absurd rfl hc⟩
    obtain ⟨pieces, hlaid⟩ := lowerBlock_laid hmethods _ (.top setting) .top hentitled hbody
    obtain ⟨layout, hlayout⟩ := ih hrest
    exact ⟨_, .cons hlaid hlayout⟩

end Following

namespace Layout

variable {setting : Setting} {kept : String → Prop} {ms ms' : List Method} {n n' : Nat}

/-- Every new name is introduced once, by one copy or outside of copies. -/
theorem news_perm (layout : Layout) :
    layout.news.Perm (layout.temps ++ layout.copies.flatMap fun c => c.1.introduced c.2) := by
  induction layout with
  | nil => exact .refl _
  | cons part rest ih =>
    have hpart := List.perm_iff_count.mp (Piece.drawnOf_perm false part.pieces)
    have hrest := List.perm_iff_count.mp ih
    rw [List.perm_iff_count]
    intro y
    have hp := hpart y
    have hr := hrest y
    simp only [news, temps, copies, List.flatMap_cons, List.flatMap_append,
      List.count_append] at hp hr ⊢
    omega

/-- Lowered methods declare what the methods declare, and the new names. -/
theorem Covers.declares {layout : Layout} (h : layout.Covers setting kept ms ms' n n') :
    (ms'.flatMap fun m => Stmt.declaredIn m.body).Perm
      ((ms.flatMap fun m => Stmt.declaredIn m.body) ++ layout.news) := by
  obtain ⟨rfl, rfl, hdeclared, -, -⟩ := h
  induction layout with
  | nil => exact .refl _
  | cons part rest ih =>
    rw [List.forall_mem_cons] at hdeclared
    have hpart := List.perm_iff_count.mp (Piece.declaredIn_codeOf false part.pieces)
    have hrest := List.perm_iff_count.mp (ih hdeclared.2)
    rw [if_neg Bool.false_ne_true, hdeclared.1] at hpart
    rw [List.perm_iff_count]
    intro y
    have hp := hpart y
    have hr := hrest y
    simp only [news, List.map_cons, List.flatMap_cons, List.count_append, Part.lowered] at hp hr ⊢
    omega

/-- The copies in a copy are among all copies. -/
theorem copies_inside {layout : Layout} {c : Copy × List Piece} (hc : c ∈ layout.copies) :
    ∀ d ∈ Piece.copiesOf c.2, d ∈ layout.copies := by
  obtain ⟨part, hpart, hc⟩ := List.mem_flatMap.mp hc
  exact fun d hd => List.mem_flatMap.mpr ⟨part, hpart, Piece.copiesOf_inside _ hc d hd⟩

end Layout

/-- The code of a copy refers to variables of the copy and to those that the
caller hands to it. -/
structure Copy.Sealed (c : Copy) (body : List Piece) : Prop where
  /-- In the opening and in the closing, these are the receiver and those of the
  arguments and of the destination of the call. -/
  edges : ∀ y ∈ Block.references (c.opening ++ c.closing), y ∈ c.taken ∨ y = c.receiver
  /-- In the body, and where copies in it take something over from the body, these
  are variables that the copy introduces by itself. -/
  inside : ∀ y ∈ Piece.referencesOf body, y ∈ c.introduced body
  /-- With the copies in it, these are new names in the copy and those of the
  arguments and of the destination of the call. -/
  whole : ∀ y ∈ Block.references (Piece.copy c body).code,
    y ∈ c.taken ∨ y ∈ (Piece.copy c body).drawn true

/-- Closed copies are sealed if no name is kept. -/
theorem Copy.Closed.isSealed {kept : String → Prop} {c : Copy} {body : List Piece}
    (h : c.Closed kept body) (hinside : ∀ d ∈ Piece.copiesOf body, d.1.Closed kept d.2)
    (hkept : ∀ y, ¬ kept y) : c.Sealed body where
  edges := by
    rw [Block.references_append, List.forall_mem_append]
    exact ⟨fun y hy => .inl (c.references_opening y hy), c.references_closing⟩
  inside := fun y hy => (h y hy).resolve_right (hkept y)
  whole := by
    intro y hy
    have hcopies : ∀ d ∈ (Piece.copy c body).copies, d.1.Closed kept d.2 := by
      rw [Piece.copies]
      exact List.forall_mem_cons.mpr ⟨h, hinside⟩
    have hy := Piece.references_code (.copy c body) hcopies hy
    rw [Piece.references] at hy
    exact hy.imp_right (·.resolve_right (hkept y))

end Lowering

/-- A branch on a condition, as it stands in jump code. -/
def Stmt.isBranch : Stmt → Bool
  | .branch .. => true
  | _ => false

/-- No method has such a branch. -/
def Program.BranchFree (p : Program) : Prop :=
  ∀ m ∈ p.methods, ∀ stmt ∈ Stmt.partsOf m.body, stmt.isBranch = false

/-- Copies keep no names of a program without branches. -/
theorem Program.BranchFree.unrenamed_eq_nil {p : Program} (h : p.BranchFree)
    (options : Lowering.Options) : p.unrenamed options = [] := by
  unfold Program.unrenamed
  split
  · refine List.flatMap_eq_nil_iff.mpr fun m hm => List.flatMap_eq_nil_iff.mpr fun stmt hs => ?_
    have hbranch := h m hm stmt hs
    cases stmt with
    | branch => cases hbranch
    | _ => rfl
  · rfl

/-- How many new names are handed out for a program. There are none if it is
in jump code already. -/
def Program.handedOut (p : Program) (options : Lowering.Options) : Nat :=
  if p.lowered then 0 else p.namesDrawn options

open Lowering

/-- How the new names are apportioned to the copies and methods of a lowered program. -/
structure Program.Apportions (p : Program) (options : Lowering.Options) (layout : Layout) :
    Prop where
  /-- Each method is taken apart, -/
  methods : layout.map (·.method) = p.methods
  /-- and this is what it is lowered to. -/
  lowered : layout.map (·.lowered) = (p.lower options).program.methods
  /-- Outside of copies, declarations keep their names. -/
  unchanged : ∀ part ∈ layout, Piece.declaredOf part.pieces = Stmt.declaredIn part.method.body
  /-- The new names are all names that are handed out, one after the other. -/
  drawn : Numbered 0 layout.news (p.handedOut options)
  /-- No two of them are equal. -/
  distinct : layout.news.Nodup
  /-- They are declared where they are handed out. All other declarations are
  those of the source outside of copies. -/
  declared : ((p.lower options).program.methods.flatMap fun m => Stmt.declaredIn m.body).Perm
    ((p.methods.flatMap fun m => Stmt.declaredIn m.body) ++ layout.news)
  /-- Each is introduced once, by one copy or outside of copies. -/
  owners : layout.news.Perm (layout.temps ++ layout.copies.flatMap fun c => c.1.introduced c.2)
  /-- Outside of copies there are new names for calls only. -/
  temps : ∀ y ∈ layout.temps, ∃ n, y = fresh "temp" n
  /-- The copies are copies of methods of the program. -/
  faithful : ∀ c ∈ layout.copies, c.1.Faithful p c.2
  /-- Without branches in the source, they refer to names of their own and to those
  that the caller hands to them. -/
  sealed : p.BranchFree → ∀ c ∈ layout.copies, c.1.Sealed c.2

/-- What covers the methods of a program apportions its new names. -/
theorem Lowering.Layout.Covers.apportions {p : Program} {options : Lowering.Options}
    {layout : Layout} (h : layout.Covers ⟨p, options⟩ (· ∈ p.unrenamed options) p.methods
      (p.lower options).program.methods 0 (p.handedOut options)) :
    p.Apportions options layout where
  methods := h.methods
  lowered := h.lowered
  unchanged := h.declared
  drawn := h.drawn
  distinct := h.drawn.nodup
  declared := h.declares
  owners := layout.news_perm
  temps := by
    intro y hy
    obtain ⟨part, -, hy⟩ := List.mem_flatMap.mp hy
    exact Piece.introducedOf_temp _ hy
  faithful := fun c hc => (h.copies c hc).1
  sealed := by
    intro hfree c hc
    refine (h.copies c hc).2.isSealed (fun d hd => ?_) fun y => ?_
    · exact (h.copies d (layout.copies_inside hc d hd)).2
    · rw [hfree.unrenamed_eq_nil]
      exact List.not_mem_nil

/-- All new names in a lowered program are different, whatever they recall. Each of
them belongs to one copy, or to a call outside of copies. If the source has no
branches, the code of a copy refers to names of the copy only, besides those
that the caller hands to it. -/
theorem Program.lower_apportions (p : Program) (options : Lowering.Options) :
    ∃ layout, p.Apportions options layout := by
  cases hp : p.lowered with
  | true =>
    have hsame : (p.lower options).program.methods = p.methods := by
      unfold Program.lower
      rw [hp]
      rfl
    have hnone : p.handedOut options = 0 := by rw [Program.handedOut, hp, if_pos rfl]
    obtain ⟨layout, hlayout⟩ := covers_untouched p.methods 0
    refine ⟨layout, Layout.Covers.apportions ?_⟩
    rw [hsame, hnone]
    exact hlayout
  | false =>
    obtain ⟨methods, s, s', hs, hms, hs', hprogram⟩ := emits_lowerProgram (emits_lower hp options)
    have hfirst : s.names = 0 := congrArg Supply.names hs
    have hlast : p.handedOut options = s'.names := by
      rw [Program.handedOut, hp, if_neg Bool.false_ne_true]
      exact congrArg Supply.names hs'
    obtain ⟨layout, hlayout⟩ := lowerMethods_covers (p.keptInCopies options) hms
    refine ⟨layout, Layout.Covers.apportions ?_⟩
    rw [hprogram, hlast, ← hfirst]
    exact hlayout

/-- A method that throws its parameter and returns what it catches, all under a
name that looks like a new one, a method that passes its parameter on to the
first, and one that calls the second. -/
def Program.lending : Program :=
  ((Program.empty.addMethod ((Method.start "Keep").withParam "x$1" .scalar |>.withBody
      [.tryCatch [.scalarVar "x$1" (some (.named "x$1")), .raise (.named "x$1")] (some "x$1")
        [.giveBack (some (.named "x$1"))]])).addMethod
    ((Method.start "Lend").withParam "x" .scalar |>.withBody
      [.giveBack (some (.invoke "Keep" [.named "x"]))])).addMethod
    ((Method.start "Main").withBody [.perform (.invoke "Lend" [.ofLiteral (.int 5)])])

/-- In a copy of a copy the exception has the last of eleven names, and it belongs
to the inner copy, which refers to no other variables than its own and its argument. -/
theorem Program.lending_apportioned :
    Program.lending.BranchFree ∧ Program.lending.handedOut {} = 11 ∧
      ∃ layout, Program.lending.Apportions {} layout ∧ layout.news.length = 11 ∧
        ∃ c ∈ layout.copies, "x$1$11" ∈ c.1.introduced c.2 ∧ c.1.Sealed c.2 := by
  have hfree : Program.lending.BranchFree := by
    show ∀ m ∈ Program.lending.methods, ∀ stmt ∈ Stmt.partsOf m.body, stmt.isBranch = false
    decide +kernel
  have hcount : Program.lending.handedOut {} = 11 := by decide +kernel
  obtain ⟨layout, hlayout⟩ := Program.lending.lower_apportions {}
  have hlength : layout.news.length = 11 := by
    have := hlayout.drawn.length
    omega
  have hnew : "x$1$11" ∈ layout.news := by
    have hmem := (hlayout.declared.mem_iff (a := "x$1$11")).mp (by decide +kernel)
    exact (List.mem_append.mp hmem).resolve_left (by decide +kernel)
  refine ⟨hfree, hcount, layout, hlayout, hlength, ?_⟩
  rcases List.mem_append.mp (hlayout.owners.mem_iff.mp hnew) with htemp | hcopy
  · obtain ⟨n, he⟩ := hlayout.temps _ htemp
    obtain rfl := fresh_number (show fresh "x$1" 11 = fresh "temp" n from he)
    exact absurd he (by decide +kernel)
  · obtain ⟨c, hc, hy⟩ := List.mem_flatMap.mp hcopy
    exact ⟨c, hc, hy, hlayout.sealed hfree c hc⟩

end Stepwise
