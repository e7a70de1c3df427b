import Stepwise.Json.Bits
import Stepwise.Program.Construct
import Stepwise.Program.Reader

/-!
# A short notation for programs

Trees without source text can be noted as lists: the name of a constructor,
then its parts, as in `["assign", ["var", "x"], ["int", 1]]`. A program is a
list of assemblies, global variables and methods, which are added one after
another. Readers take the number of levels they may descend, as those of the
interchange form do.
-/

namespace Stepwise

/-- The binary operators that have a name of their own in the short notation. -/
def BinaryOp.ofShorthand? : String → Option BinaryOp
  | "add" => some .add
  | "sub" => some .sub
  | "mul" => some .mul
  | "div" => some .div
  | "eq" => some .eq
  | "lt" => some .lt
  | "le" => some .le
  | "gt" => some .gt
  | "and" => some .and
  | "or" => some .or
  | _ => none

/-- An expression in the short notation, of at most the given number of levels. -/
def Expr.ofShorthand? : Nat → Json → Option Expr
  | 0, _ => none
  | depth + 1, j => do
    let one := Expr.ofShorthand? depth
    let many (j : Json) : Option (List Expr) := do (← j.asItems?).mapM (Expr.ofShorthand? depth)
    match ← j.asItems? with
    | [.str "null"] => some (.ofLiteral .null)
    | [.str "bool", .bool b] => some (.ofLiteral (.bool b))
    | [.str "int", n] => some (.ofLiteral (.int (← int64OfJson? n)))
    | [.str "float", x] => some (.ofLiteral (.float (← x.asFloatBits?)))
    | [.str "str", .str s] => some (.ofLiteral (.str s))
    | [.str "var", .str name] => some (.named name)
    | [.str "not", e] => some (.negated (← one e))
    | [.str "neg", e] => some (.minus (← one e))
    | [.str "array", items] => some (.arrayOf (← many items))
    | [.str "index", e, position] => some (.element (← one e) (← one position))
    | [.str "call", .str method, args] => some (.invoke method (← many args))
    | [.str "prop", e, .str name] => some (.member (← one e) name)
    | [.str "static_prop", .str owner, .str name] => some (.staticMember owner name)
    | [.str "new", .str owner, args] => some (.construct owner (← many args))
    | [.str "call_static", .str owner, .str method, args] =>
      some (.invokeStatic owner method (← many args))
    | [.str "call_method", e, .str method, args] =>
      some (.invokeOn (← one e) method (← many args))
    | [.str "binary", .str op, left, right] =>
      some (.op (← BinaryOp.ofWord? op) (← one left) (← one right))
    | [.str op, left, right] => some (.op (← BinaryOp.ofShorthand? op) (← one left) (← one right))
    | _ => none

/-- An expression in the short notation. -/
def Expr.readShorthand? (j : Json) : Option Expr := Expr.ofShorthand? j.height j

/-- An expression in the short notation, or `null` for none. -/
def Expr.readShorthandOr? : Json → Option (Option Expr)
  | .null => some none
  | j => some <$> Expr.readShorthand? j

/-- A statement in the short notation, of at most the given number of levels. -/
def Stmt.ofShorthand? : Nat → Json → Option Stmt
  | 0, _ => none
  | depth + 1, j => do
    let one := Expr.readShorthand?
    let block (j : Json) : Option Block := do (← j.asItems?).mapM (Stmt.ofShorthand? depth)
    match ← j.asItems? with
    | [.str "declare", .str name, e] => some (.scalarVar name (← Expr.readShorthandOr? e))
    | [.str "declare_array", .str name, e] => some (.arrayVar name (← Expr.readShorthandOr? e))
    | [.str "assign", target, value] => some (.store (← one target) (← one value))
    | [.str "if_then", test, yes] => some (.ifThen (← one test) (← block yes))
    | [.str "if_else", test, yes, no] => some (.ifElse (← one test) (← block yes) (← block no))
    | [.str "while", test, body] => some (.whileLoop (← one test) (← block body))
    | [.str "do_while", body, test] => some (.doWhile (← block body) (← one test))
    | [.str "ret", e] => some (.giveBack (some (← one e)))
    | [.str "ret_void"] => some (.giveBack none)
    | [.str "brk"] => some .leave
    | [.str "throw", e] => some (.raise (← one e))
    | [.str "try", body, .null, handler] =>
      some (.tryCatch (← block body) none (← block handler))
    | [.str "try", body, .str name, handler] =>
      some (.tryCatch (← block body) (some name) (← block handler))
    | [.str "expr", e] => some (.perform (← one e))
    | [.str "at_line", n, stmt] =>
      some ((← Stmt.ofShorthand? depth stmt).atLine (← n.asNatBelow? Word.count))
    | _ => none

/-- The method with what a flag in the short notation says about it. -/
def Method.applyShorthand? (m : Method) (j : Json) : Option Method := do
  match ← j.asItems? with
  | [.str "entry_point"] => some m.asEntryPoint
  | [.str "async"] => some m.asAsync
  | [.str "param", .str name] => some (m.withParam name .scalar)
  | [.str "array_param", .str name] => some (m.withParam name .array)
  | _ => none

/-- The program with one more part, given in the short notation. -/
def Program.addShorthand? (p : Program) (j : Json) : Option Program := do
  match ← j.asItems? with
  | [.str "assembly", .str name] => some (p.addAssembly name)
  | [.str "global", .str name, shape, e] =>
    some (p.addGlobal name (← Shape.ofJson? .outer shape) (← Expr.readShorthandOr? e))
  | [.str "method", .str name, flags, stmts] =>
    let m ← (← flags.asItems?).foldlM Method.applyShorthand? (Method.start name)
    let body ← (← stmts.asItems?).mapM fun j => Stmt.ofShorthand? j.height j
    some (p.addMethod (m.withBody body))
  | _ => none

/-- A program in the short notation. -/
def Program.readShorthand? (j : Json) : Option Program := do
  (← j.asItems?).foldlM Program.addShorthand? Program.empty

end Stepwise
