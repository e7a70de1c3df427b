import Stepwise.Json.Basic
import Stepwise.Program.Basic
import Stepwise.Program.Form
import Stepwise.Word

/-!
# Reading programs

The interchange form of a program is a JSON tree. Parts that do not belong to
a node are ignored. A span, a shape, a flag, the parameters and the lists
beside the methods may be left out, but not be `null`; an initial value, a
returned value, an `else` block, a catch variable and the receiver of a call
may be either. A part of a node must not be given twice. Within statements and
expressions everything has to stand for a value, also what is ignored.

Readers of nested nodes take the number of levels they may descend; the
height of the tree is always enough.
-/

namespace Stepwise

/-- The parts of a span. -/
def Span.parts : List String :=
  ["start", "end", "start_line", "start_col", "end_line", "end_col"]

/-- A span: all six parts, each an unsigned 64-bit number. -/
def Span.ofJson? (j : Json) : Option Span := do
  let members ← j.parts? Span.parts 6
  let part name := do (← Json.required? members name).asNatBelow? Word.count
  some ⟨← part "start", ← part "end", ← part "start_line", ← part "start_col",
    ← part "end_line", ← part "end_col"⟩

/-- The span of a node; a node without one has the blank span. -/
def Span.ofMembers? (members : List (String × Json)) : Option Span :=
  Json.orDefault? members "span" Span.ofJson? Span.blank

/-- A shape by its word. -/
def Shape.ofWord? : String → Option Shape
  | "scalar" => some .scalar
  | "array" => some .array
  | "dynamic" => some .dynamic
  | _ => none

/-- A shape. -/
def Shape.ofJson? (nesting : Nesting) (j : Json) : Option Shape := do
  Shape.ofWord? (← j.word? nesting)

/-- The shape of a declaration; scalar if it is left out. -/
def Shape.ofMembers? (nesting : Nesting) (members : List (String × Json)) : Option Shape :=
  Json.orDefault? members "shape" (Shape.ofJson? nesting) .scalar

/-- An integer of 64 bits. -/
def int64OfJson? : Json → Option Int64
  | .int n => Word.signed? n
  | _ => none

/-- A double; an integer is rounded to one. -/
def floatOfJson? : Json → Option Float
  | .float x => some x
  | .int n => some (if 0 ≤ n then n.toNat.toUInt64.toFloat else -(-n).toNat.toUInt64.toFloat)
  | _ => none

/-- The kinds of constants. -/
def Literal.forms : List Form :=
  ["Null", "Bool", "Int", "Float", "Str"].map fun kind => ⟨kind, ["v"], 1⟩

/-- The kind of a constant and its parts. In an object the tag is a word. -/
def Literal.open? : Json → Option (String × List (String × Json))
  | .obj members => do some (← (← Json.required? members "t").word? .inner, members)
  | j => (Form.open? Literal.forms .inner j).map fun (form, parts) => (form.kind, parts)

/-- A constant: its kind in `t`, its value in `v`. -/
def Literal.ofJson? (j : Json) : Option Literal := do
  let (kind, parts) ← Literal.open? j
  let value := Json.required? parts "v"
  match kind with
  | "Null" => (← Json.optional? parts "v").elim (some .null) fun _ => none
  | "Bool" => .bool <$> (← value).asBool?
  | "Int" => .int <$> int64OfJson? (← value)
  | "Float" => .float <$> floatOfJson? (← value)
  | "Str" => .str <$> (← value).asString?
  | _ => none

/-- A binary operator by its name. -/
def BinaryOp.ofWord? : String → Option BinaryOp
  | "Add" => some .add
  | "Sub" => some .sub
  | "Mul" => some .mul
  | "Div" => some .div
  | "Mod" => some .mod
  | "Eq" => some .eq
  | "NotEq" => some .notEq
  | "Lt" => some .lt
  | "Le" => some .le
  | "Gt" => some .gt
  | "Ge" => some .ge
  | "And" => some .and
  | "Or" => some .or
  | _ => none

/-- A unary operator by its name. -/
def UnaryOp.ofWord? : String → Option UnaryOp
  | "Neg" => some .neg
  | "Not" => some .not
  | _ => none

/-- The owner of a host member before its object has been read. -/
inductive Owner where
  /-- A type. -/
  | type (name : String)
  /-- An object expression. -/
  | object (tree : Json)

/-- The kinds of owners. -/
def Owner.forms : List Form :=
  [⟨"Static", ["type_name"], 1⟩, ⟨"Instance", ["object"], 1⟩]

/-- The owner of a host member. -/
def Owner.ofJson? (j : Json) : Option Owner := do
  let (form, parts) ← Form.open? Owner.forms .inner j
  match form.kind with
  | "Static" => .type <$> (← Json.required? parts "type_name").asString?
  | "Instance" => .object <$> Json.required? parts "object"
  | _ => none

/-- The kinds of expressions. -/
def Expr.forms : List Form :=
  [⟨"Literal", ["value", "span"], 1⟩,
    ⟨"Variable", ["name", "global", "span"], 1⟩,
    ⟨"Property", ["receiver", "name", "span"], 2⟩,
    ⟨"Index", ["target", "index", "span"], 2⟩,
    ⟨"Binary", ["op", "left", "right", "span"], 3⟩,
    ⟨"Unary", ["op", "operand", "span"], 2⟩,
    ⟨"Invoke", ["receiver", "method", "args", "span"], 3⟩,
    ⟨"Instantiate", ["type_name", "args", "span"], 2⟩,
    ⟨"ArrayCreation", ["items", "span"], 1⟩]

/-- An expression of at most the given number of levels. -/
def Expr.ofJson? : Nat → Nesting → Json → Option Expr
  | 0, _, _ => none
  | depth + 1, nesting, j => do
    let (form, parts) ← Form.open? Expr.forms nesting j
    let text name := do (← Json.required? parts name).asString?
    let word name := do (← Json.required? parts name).word? .inner
    let child name := do Expr.ofJson? depth .inner (← Json.required? parts name)
    let children name := do
      (← (← Json.required? parts name).asItems?).mapM (Expr.ofJson? depth .inner)
    let span := Span.ofMembers? parts
    match form.kind with
    | "Literal" =>
      some (.literal (← Literal.ofJson? (← Json.required? parts "value")) (← span))
    | "Variable" =>
      some (.var (← text "name") (← Json.orDefault? parts "global" Json.asBool? false) (← span))
    | "Property" =>
      match ← Owner.ofJson? (← Json.required? parts "receiver") with
      | .type owner => some (.staticProperty owner (← text "name") (← span))
      | .object tree =>
        some (.property (← Expr.ofJson? depth .inner tree) (← text "name") (← span))
    | "Index" => some (.index (← child "target") (← child "index") (← span))
    | "Binary" =>
      some (.binary (← BinaryOp.ofWord? (← word "op")) (← child "left") (← child "right")
        (← span))
    | "Unary" => some (.unary (← UnaryOp.ofWord? (← word "op")) (← child "operand") (← span))
    | "Invoke" =>
      match ← Json.optional? parts "receiver" with
      | none => some (.call (← text "method") (← children "args") (← span))
      | some receiver =>
        match ← Owner.ofJson? receiver with
        | .type owner =>
          some (.callStatic owner (← text "method") (← children "args") (← span))
        | .object tree =>
          some (.callOn (← Expr.ofJson? depth .inner tree) (← text "method")
            (← children "args") (← span))
    | "Instantiate" => some (.create (← text "type_name") (← children "args") (← span))
    | "ArrayCreation" => some (.array (← children "items") (← span))
    | _ => none

/-- An expression, standing alone or within another node. -/
def Expr.readAt? (nesting : Nesting) (j : Json) : Option Expr :=
  Expr.ofJson? j.height nesting j

/-- An expression that stands alone. -/
def Expr.read? (j : Json) : Option Expr :=
  if j.isWhole then Expr.readAt? .outer j else none

/-- An expression that may be absent. -/
def Expr.readOptional? (read : Json → Option Expr) (parts : List (String × Json))
    (name : String) : Option (Option Expr) := do
  match ← Json.optional? parts name with
  | none => some none
  | some j => some (some (← read j))

/-- The kind of a loop by its name. -/
def LoopKind.ofWord? : String → Option LoopKind
  | "PreCondition" => some .testFirst
  | "PostCondition" => some .testLast
  | _ => none

/-- The kinds of statements. -/
def Stmt.forms : List Form :=
  [⟨"Declare", ["name", "shape", "init", "span"], 3⟩,
    ⟨"Assign", ["target", "value", "span"], 2⟩,
    ⟨"Condition", ["test", "then_block", "else_block", "span"], 3⟩,
    ⟨"LabelCondition", ["test", "label", "span"], 2⟩,
    ⟨"Iteration", ["kind", "test", "body", "span"], 3⟩,
    ⟨"Return", ["value", "span"], 1⟩,
    ⟨"Break", ["span"], 0⟩,
    ⟨"Throw", ["value", "span"], 1⟩,
    ⟨"TryCatch", ["body", "catch_var", "catch_body", "span"], 3⟩,
    ⟨"Expr", ["expr", "span"], 1⟩,
    ⟨"Label", ["name", "span"], 1⟩,
    ⟨"Goto", ["label", "span"], 1⟩]

/-- A statement of at most the given number of levels. -/
def Stmt.ofJson? : Nat → Nesting → Json → Option Stmt
  | 0, _, _ => none
  | depth + 1, nesting, j => do
    let (form, parts) ← Form.open? Stmt.forms nesting j
    let text name := do (← Json.required? parts name).asString?
    let child name := do Expr.readAt? .inner (← Json.required? parts name)
    let optional := Expr.readOptional? (Expr.readAt? .inner) parts
    let statements (j : Json) := do (← j.asItems?).mapM (Stmt.ofJson? depth .inner)
    let block name := do statements (← Json.required? parts name)
    let span := Span.ofMembers? parts
    match form.kind with
    | "Declare" =>
      some (.declare (← text "name") (← Shape.ofMembers? .inner parts) (← optional "init")
        (← span))
    | "Assign" => some (.assign (← child "target") (← child "value") (← span))
    | "Condition" =>
      let otherwise ←
        match ← Json.optional? parts "else_block" with
        | none => some none
        | some j => some <$> statements j
      some (.cond (← child "test") (← block "then_block") otherwise (← span))
    | "LabelCondition" => some (.branch (← child "test") (← text "label") (← span))
    | "Iteration" =>
      let kind ← LoopKind.ofWord? (← (← Json.required? parts "kind").word? .inner)
      some (.loop kind (← child "test") (← block "body") (← span))
    | "Return" => some (.ret (← optional "value") (← span))
    | "Break" => some (.brk (← span))
    | "Throw" => some (.throw (← child "value") (← span))
    | "TryCatch" =>
      let name ←
        match ← Json.optional? parts "catch_var" with
        | none => some none
        | some j => some <$> j.asString?
      some (.attempt (← block "body") name (← block "catch_body") (← span))
    | "Expr" => some (.eval (← child "expr") (← span))
    | "Label" => some (.label (← text "name") (← span))
    | "Goto" => some (.goto (← text "label") (← span))
    | _ => none

/-- A statement that stands alone. -/
def Stmt.read? (j : Json) : Option Stmt :=
  if j.isWhole then Stmt.ofJson? j.height .outer j else none

/-- A list of statements. -/
def Block.read? (j : Json) : Option Block := do
  (← j.asItems?).mapM Stmt.read?

/-- A parameter. -/
def Param.read? (j : Json) : Option Param := do
  let parts ← j.parts? ["name", "shape"] 1
  some ⟨← (← Json.required? parts "name").asString?, ← Shape.ofMembers? .outer parts⟩

/-- A global variable. -/
def Global.read? (j : Json) : Option Global := do
  let parts ← j.parts? ["name", "shape", "init", "span"] 1
  some ⟨← (← Json.required? parts "name").asString?, ← Shape.ofMembers? .outer parts,
    ← Expr.readOptional? Expr.read? parts "init", ← Span.ofMembers? parts⟩

/-- A list whose items are all readable. -/
def listOf? {α : Type} (read : Json → Option α) (j : Json) : Option (List α) := do
  (← j.asItems?).mapM read

/-- The parts of a method. -/
def Method.parts : List String :=
  ["id", "name", "is_entry_point", "is_async", "params", "body", "span"]

/-- A method. Its number has 32 bits. -/
def Method.read? (j : Json) : Option Method := do
  let parts ← j.parts? Method.parts 6
  let flag name := Json.orDefault? parts name Json.asBool? false
  some {
    id := ← (← Json.required? parts "id").asNatBelow? Word.count32
    name := ← (← Json.required? parts "name").asString?
    isEntryPoint := ← flag "is_entry_point"
    isAsync := ← flag "is_async"
    params := ← Json.orDefault? parts "params" (listOf? Param.read?) []
    body := ← Block.read? (← Json.required? parts "body")
    span := ← Span.ofMembers? parts }

/-- A program. -/
def Program.read? (j : Json) : Option Program := do
  let parts ← j.parts? ["methods", "globals", "assemblies", "lowered"] 1
  some {
    methods := ← listOf? Method.read? (← Json.required? parts "methods")
    globals := ← Json.orDefault? parts "globals" (listOf? Global.read?) []
    assemblies := ← Json.orDefault? parts "assemblies" (listOf? Json.asString?) []
    lowered := ← Json.orDefault? parts "lowered" Json.asBool? false }

end Stepwise
