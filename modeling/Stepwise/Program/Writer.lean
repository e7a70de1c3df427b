import Stepwise.Json.Basic
import Stepwise.Program.Basic

/-!
# Writing programs

The canonical interchange form of a program. Each node lists its tag first
and then its members in a fixed order. Blank spans and the `global` flag of
ordinary variables are left out; everything else is written, absent parts as
`null`.
-/

namespace Stepwise

/-- All six parts of a span. -/
def Span.toJson (s : Span) : Json :=
  .obj [("start", .int s.start), ("end", .int s.stop), ("start_line", .int s.startLine),
    ("start_col", .int s.startCol), ("end_line", .int s.endLine), ("end_col", .int s.endCol)]

/-- The span member of a node, unless the span is blank. -/
def Span.member (s : Span) : List (String × Json) :=
  if s.isBlank then [] else [("span", s.toJson)]

/-- A shape. -/
def Shape.toJson (s : Shape) : Json := .str s.word

/-- A constant. -/
def Literal.toJson : Literal → Json
  | .null => .obj [("t", .str "Null")]
  | .bool b => .obj [("t", .str "Bool"), ("v", .bool b)]
  | .int n => .obj [("t", .str "Int"), ("v", .int n.toInt)]
  | .float x => .obj [("t", .str "Float"), ("v", .float x)]
  | .str s => .obj [("t", .str "Str"), ("v", .str s)]

/-- A node: its tag, its members, and its span. -/
def node (tag : String) (members : List (String × Json)) (span : Span) : Json :=
  .obj (("t", .str tag) :: members ++ span.member)

/-- The owner of a host member that is a type. -/
def typeOwner (name : String) : Json :=
  .obj [("t", .str "Static"), ("type_name", .str name)]

/-- The owner of a host member that is an object. -/
def objectOwner (object : Json) : Json :=
  .obj [("t", .str "Instance"), ("object", object)]

mutual

/-- An expression. -/
def Expr.toJson : Expr → Json
  | .literal value span => node "Literal" [("value", value.toJson)] span
  | .var name isGlobal span =>
    node "Variable"
      (("name", .str name) :: if isGlobal then [("global", .bool true)] else []) span
  | .staticProperty typeName name span =>
    node "Property" [("receiver", typeOwner typeName), ("name", .str name)] span
  | .property object name span =>
    node "Property" [("receiver", objectOwner object.toJson), ("name", .str name)] span
  | .index target position span =>
    node "Index" [("target", target.toJson), ("index", position.toJson)] span
  | .binary op left right span =>
    node "Binary"
      [("op", .str op.word), ("left", left.toJson), ("right", right.toJson)] span
  | .unary op operand span =>
    node "Unary" [("op", .str op.word), ("operand", operand.toJson)] span
  | .call method args span =>
    node "Invoke"
      [("receiver", .null), ("method", .str method), ("args", .arr (Expr.listToJson args))] span
  | .callStatic typeName method args span =>
    node "Invoke"
      [("receiver", typeOwner typeName), ("method", .str method),
        ("args", .arr (Expr.listToJson args))] span
  | .callOn object method args span =>
    node "Invoke"
      [("receiver", objectOwner object.toJson), ("method", .str method),
        ("args", .arr (Expr.listToJson args))] span
  | .create typeName args span =>
    node "Instantiate"
      [("type_name", .str typeName), ("args", .arr (Expr.listToJson args))] span
  | .array items span =>
    node "ArrayCreation" [("items", .arr (Expr.listToJson items))] span

/-- Expressions in order. -/
def Expr.listToJson : List Expr → List Json
  | [] => []
  | e :: rest => e.toJson :: Expr.listToJson rest

end

/-- An expression, or `null`. -/
def Expr.optionToJson : Option Expr → Json
  | none => .null
  | some e => e.toJson

/-- The name of a kind of loop. -/
def LoopKind.word : LoopKind → String
  | .testFirst => "PreCondition"
  | .testLast => "PostCondition"

mutual

/-- A statement. -/
def Stmt.toJson : Stmt → Json
  | .declare name shape init span =>
    node "Declare"
      [("name", .str name), ("shape", shape.toJson), ("init", Expr.optionToJson init)] span
  | .assign target value span =>
    node "Assign" [("target", target.toJson), ("value", value.toJson)] span
  | .cond test yes none span =>
    node "Condition"
      [("test", test.toJson), ("then_block", .arr (Stmt.listToJson yes)),
        ("else_block", .null)] span
  | .cond test yes (some no) span =>
    node "Condition"
      [("test", test.toJson), ("then_block", .arr (Stmt.listToJson yes)),
        ("else_block", .arr (Stmt.listToJson no))] span
  | .branch test mark span =>
    node "LabelCondition" [("test", test.toJson), ("label", .str mark)] span
  | .loop kind test body span =>
    node "Iteration"
      [("kind", .str kind.word), ("test", test.toJson),
        ("body", .arr (Stmt.listToJson body))] span
  | .ret value span => node "Return" [("value", Expr.optionToJson value)] span
  | .brk span => node "Break" [] span
  | .throw value span => node "Throw" [("value", value.toJson)] span
  | .attempt body catchVar handler span =>
    node "TryCatch"
      [("body", .arr (Stmt.listToJson body)), ("catch_var", catchVar.elim .null .str),
        ("catch_body", .arr (Stmt.listToJson handler))] span
  | .eval expr span => node "Expr" [("expr", expr.toJson)] span
  | .label name span => node "Label" [("name", .str name)] span
  | .goto mark span => node "Goto" [("label", .str mark)] span

/-- Statements in order. -/
def Stmt.listToJson : List Stmt → List Json
  | [] => []
  | s :: rest => s.toJson :: Stmt.listToJson rest

end

/-- A block. -/
def Block.toJson (b : Block) : Json := .arr (Stmt.listToJson b)

/-- A parameter. -/
def Param.toJson (p : Param) : Json :=
  .obj [("name", .str p.name), ("shape", p.shape.toJson)]

/-- A global variable. -/
def Global.toJson (g : Global) : Json :=
  .obj ([("name", .str g.name), ("shape", g.shape.toJson),
    ("init", Expr.optionToJson g.init)] ++ g.span.member)

/-- A method. -/
def Method.toJson (m : Method) : Json :=
  .obj ([("id", .int m.id), ("name", .str m.name), ("is_entry_point", .bool m.isEntryPoint),
    ("is_async", .bool m.isAsync), ("params", .arr (m.params.map Param.toJson)),
    ("body", Block.toJson m.body)] ++ m.span.member)

/-- A program. -/
def Program.toJson (p : Program) : Json :=
  .obj [("methods", .arr (p.methods.map Method.toJson)),
    ("globals", .arr (p.globals.map Global.toJson)),
    ("assemblies", .arr (p.assemblies.map .str)), ("lowered", .bool p.lowered)]

end Stepwise
