import Stepwise.Lowering.Basic
import Stepwise.Proofs.Program.Scoping

/-!
# Expressions at a site

Outside of copies an expression stays as it is; inside a copy its variables
get their new names. Both are the same operation on expressions for two ways
to name variables.
-/

namespace Stepwise.Lowering

/-- How names of the source stand in the target: under another name, or not at
all, in which case only a global can be meant. -/
abbrev Naming := String → Option String

/-- A variable as it is referred to in the target. -/
def Naming.refer (naming : Naming) (x : String) (isGlobal : Bool) : String × Bool :=
  if isGlobal then (x, true)
  else
    match naming x with
    | some y => (y, false)
    | none => (x, true)

/-- The names at a site of the lowering. -/
def naming (site : Site) (scopes : Renaming) : Naming :=
  if site.copy.isNone then some else scopes.lookup?

/-- An expression as it stands at a site of the lowering. -/
def render (site : Site) (scopes : Renaming) (e : Expr) : Expr :=
  if site.copy.isNone then e else e.rename scopes

/-- Expressions as they stand at a site of the lowering. -/
def renderList (site : Site) (scopes : Renaming) (es : List Expr) : List Expr :=
  if site.copy.isNone then es else Expr.renameList scopes es

section Rendering

variable (site : Site) (scopes : Renaming)

/-- Variables are referred to by their names at the site. -/
theorem render_var (x : String) (isGlobal : Bool) (s : Span) :
    render site scopes (.var x isGlobal s) =
      .var ((naming site scopes).refer x isGlobal).1 ((naming site scopes).refer x isGlobal).2
        s := by
  unfold render naming Naming.refer
  cases site.copy with
  | none => cases isGlobal <;> rfl
  | some target =>
    cases isGlobal with
    | true => rfl
    | false =>
      simp only [Option.isNone_some, Bool.false_eq_true, if_false, Expr.rename,
        Renaming.reference]
      cases scopes.lookup? x <;> rfl

@[simp] theorem render_literal (value : Literal) (s : Span) :
    render site scopes (.literal value s) = .literal value s := by
  unfold render
  split <;> rfl

@[simp] theorem render_staticProperty (typeName name : String) (s : Span) :
    render site scopes (.staticProperty typeName name s) = .staticProperty typeName name s := by
  unfold render
  split <;> rfl

@[simp] theorem render_property (object : Expr) (name : String) (s : Span) :
    render site scopes (.property object name s) =
      .property (render site scopes object) name s := by
  unfold render
  split <;> rfl

@[simp] theorem render_index (target position : Expr) (s : Span) :
    render site scopes (.index target position s) =
      .index (render site scopes target) (render site scopes position) s := by
  unfold render
  split <;> rfl

@[simp] theorem render_binary (op : BinaryOp) (left right : Expr) (s : Span) :
    render site scopes (.binary op left right s) =
      .binary op (render site scopes left) (render site scopes right) s := by
  unfold render
  split <;> rfl

@[simp] theorem render_unary (op : UnaryOp) (operand : Expr) (s : Span) :
    render site scopes (.unary op operand s) = .unary op (render site scopes operand) s := by
  unfold render
  split <;> rfl

@[simp] theorem render_call (method : String) (args : List Expr) (s : Span) :
    render site scopes (.call method args s) = .call method (renderList site scopes args) s := by
  unfold render renderList
  split <;> rfl

@[simp] theorem render_callStatic (typeName method : String) (args : List Expr) (s : Span) :
    render site scopes (.callStatic typeName method args s) =
      .callStatic typeName method (renderList site scopes args) s := by
  unfold render renderList
  split <;> rfl

@[simp] theorem render_callOn (object : Expr) (method : String) (args : List Expr) (s : Span) :
    render site scopes (.callOn object method args s) =
      .callOn (render site scopes object) method (renderList site scopes args) s := by
  unfold render renderList
  split <;> rfl

@[simp] theorem render_create (typeName : String) (args : List Expr) (s : Span) :
    render site scopes (.create typeName args s) =
      .create typeName (renderList site scopes args) s := by
  unfold render renderList
  split <;> rfl

@[simp] theorem render_array (items : List Expr) (s : Span) :
    render site scopes (.array items s) = .array (renderList site scopes items) s := by
  unfold render renderList
  split <;> rfl

@[simp] theorem renderList_nil : renderList site scopes [] = [] := by
  unfold renderList
  split <;> rfl

@[simp] theorem renderList_cons (e : Expr) (rest : List Expr) :
    renderList site scopes (e :: rest) = render site scopes e :: renderList site scopes rest := by
  unfold renderList render
  split <;> rfl

mutual

/-- The names of an expression at a site are the names that its names have there. -/
theorem locals_render :
    ∀ e : Expr, (render site scopes e).locals = e.locals.filterMap (naming site scopes)
  | .literal .. | .staticProperty .. => by simp [Expr.locals]
  | .var name true _ => by simp [render_var, Naming.refer, Expr.locals]
  | .var name false _ => by
    rw [render_var, Naming.refer]
    cases h : naming site scopes name <;> simp [Expr.locals, h]
  | .property object _ _ => by
    simpa [Expr.locals] using locals_render object
  | .unary _ operand _ => by
    simpa [Expr.locals] using locals_render operand
  | .index target position _ => by
    simp [Expr.locals, locals_render target, locals_render position]
  | .binary _ left right _ => by
    simp [Expr.locals, locals_render left, locals_render right]
  | .call _ args _ | .callStatic _ _ args _ | .create _ args _ => by
    simpa [Expr.locals] using listLocals_renderList args
  | .callOn object _ args _ => by
    simp [Expr.locals, locals_render object, listLocals_renderList args]
  | .array items _ => by
    simpa [Expr.locals] using listLocals_renderList items

/-- The names of expressions at a site are the names that their names have there. -/
theorem listLocals_renderList :
    ∀ es : List Expr, Expr.listLocals (renderList site scopes es) =
      (Expr.listLocals es).filterMap (naming site scopes)
  | [] => by simp [Expr.listLocals]
  | e :: rest => by
    simp [Expr.listLocals, locals_render e, listLocals_renderList rest]

end

end Rendering

end Stepwise.Lowering
