import Stepwise.Program.Basic

/-!
# Names inside an inlined copy

While the body of a callee is copied into its caller, every name that the
callee declares gets a new one. The body of an `attempt` statement and its
handler are scopes of their own; a name declared there is forgotten when the
scope ends. A name that the copy does not declare can only be a global, and
is marked as one so that no local variable of the caller is taken for it.
-/

namespace Stepwise

/-- New names by old names, one table a scope, innermost scope first and in
each scope the latest declaration first. -/
abbrev Renaming := List (List (String × String))

namespace Renaming

/-- The new name of a name, searching from the innermost scope outward. -/
def lookup? (scopes : Renaming) (name : String) : Option String :=
  scopes.findSome? (·.lookup name)

/-- Record a new name in the innermost scope. -/
def bind (name fresh : String) : Renaming → Renaming
  | [] => [[(name, fresh)]]
  | scope :: rest => ((name, fresh) :: scope) :: rest

/-- Open a scope. -/
def push (scopes : Renaming) : Renaming := [] :: scopes

/-- Close the innermost scope. -/
def pop (scopes : Renaming) : Renaming := scopes.tail

/-- A variable reference as it stands in the copy. -/
def reference (scopes : Renaming) (name : String) (isGlobal : Bool) (span : Span) : Expr :=
  if isGlobal then .var name true span
  else
    match scopes.lookup? name with
    | some fresh => .var fresh false span
    | none => .var name true span

end Renaming

mutual

/-- An expression as it stands in the copy. -/
def Expr.rename (scopes : Renaming) : Expr → Expr
  | .literal value span => .literal value span
  | .var name isGlobal span => scopes.reference name isGlobal span
  | .staticProperty typeName name span => .staticProperty typeName name span
  | .property object name span => .property (object.rename scopes) name span
  | .index target position span => .index (target.rename scopes) (position.rename scopes) span
  | .binary op left right span => .binary op (left.rename scopes) (right.rename scopes) span
  | .unary op operand span => .unary op (operand.rename scopes) span
  | .call method args span => .call method (Expr.renameList scopes args) span
  | .callStatic typeName method args span =>
    .callStatic typeName method (Expr.renameList scopes args) span
  | .callOn object method args span =>
    .callOn (object.rename scopes) method (Expr.renameList scopes args) span
  | .create typeName args span => .create typeName (Expr.renameList scopes args) span
  | .array items span => .array (Expr.renameList scopes items) span

/-- Expressions as they stand in the copy. -/
def Expr.renameList (scopes : Renaming) : List Expr → List Expr
  | [] => []
  | e :: rest => e.rename scopes :: Expr.renameList scopes rest

end

end Stepwise
