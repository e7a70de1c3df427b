import Stepwise.Span

/-!
# Program trees

A program is a list of methods over a list of global variables. Statements
come in two styles that may be mixed: structured ones (conditions, loops,
`break`) and jump code (labels, jumps and branches). A block is a plain list
of statements; the declarations of labels are found by position, so there is
no separate table to keep in step with the list.
-/

namespace Stepwise

/-- What a variable may hold, fixed when it is declared. -/
inductive Shape where
  /-- Anything but a collection. -/
  | scalar
  /-- Collections only. -/
  | array
  /-- Anything at all. -/
  | dynamic
deriving DecidableEq, Inhabited

/-- The word for a shape, in messages and in the interchange format. -/
def Shape.word : Shape → String
  | .scalar => "scalar"
  | .array => "array"
  | .dynamic => "dynamic"

/-- A constant written in the source. Integers have 64 bits. -/
inductive Literal where
  /-- The absent value. -/
  | null
  /-- A truth value. -/
  | bool (value : Bool)
  /-- A signed 64-bit integer. -/
  | int (value : Int64)
  /-- A double. -/
  | float (value : Float)
  /-- A text. -/
  | str (value : String)
deriving BEq, Inhabited

/-- Operators between two operands. -/
inductive BinaryOp where
  | add | sub | mul | div | mod
  | eq | notEq | lt | le | gt | ge
  | and | or
deriving DecidableEq, Inhabited

/-- The name of an operator, in messages and in the interchange format. -/
def BinaryOp.word : BinaryOp → String
  | .add => "Add"
  | .sub => "Sub"
  | .mul => "Mul"
  | .div => "Div"
  | .mod => "Mod"
  | .eq => "Eq"
  | .notEq => "NotEq"
  | .lt => "Lt"
  | .le => "Le"
  | .gt => "Gt"
  | .ge => "Ge"
  | .and => "And"
  | .or => "Or"

/-- `and` and `or` skip their right operand once the left one decides. -/
def BinaryOp.isShortCircuit : BinaryOp → Bool
  | .and | .or => true
  | _ => false

/-- Operators on one operand. -/
inductive UnaryOp where
  | neg | not
deriving DecidableEq, Inhabited

/-- The name of a unary operator in the interchange format. -/
def UnaryOp.word : UnaryOp → String
  | .neg => "Neg"
  | .not => "Not"

/-- Expressions. A member of the host belongs either to a type (`static`) or
to the value of an object expression. -/
inductive Expr where
  /-- A constant. -/
  | literal (value : Literal) (span : Span)
  /-- A variable; `isGlobal` skips the local scopes. -/
  | var (name : String) (isGlobal : Bool) (span : Span)
  /-- A property of a host type. -/
  | staticProperty (typeName name : String) (span : Span)
  /-- A property of an object. -/
  | property (object : Expr) (name : String) (span : Span)
  /-- An element of a collection or a character of a text. -/
  | index (target position : Expr) (span : Span)
  /-- A binary operator. -/
  | binary (op : BinaryOp) (left right : Expr) (span : Span)
  /-- A unary operator. -/
  | unary (op : UnaryOp) (operand : Expr) (span : Span)
  /-- A call of a method of the program itself. -/
  | call (method : String) (args : List Expr) (span : Span)
  /-- A call of a method of a host type. -/
  | callStatic (typeName method : String) (args : List Expr) (span : Span)
  /-- A call of a host method on an object. -/
  | callOn (object : Expr) (method : String) (args : List Expr) (span : Span)
  /-- A new host object. -/
  | create (typeName : String) (args : List Expr) (span : Span)
  /-- A new array with the given elements. -/
  | array (items : List Expr) (span : Span)
deriving BEq, Inhabited

namespace Expr

/-- Where the expression stood in the source. -/
def span : Expr → Span
  | .literal _ s | .var _ _ s | .staticProperty _ _ s | .property _ _ s
  | .index _ _ s | .binary _ _ _ s | .unary _ _ s | .call _ _ s
  | .callStatic _ _ _ s | .callOn _ _ _ s | .create _ _ s | .array _ s => s

/-- The short name of the node. -/
def kindName : Expr → String
  | .literal .. => "literal"
  | .var .. => "variable-reference"
  | .staticProperty .. | .property .. => "property-reference"
  | .index .. => "array-index"
  | .binary .. => "binary-operator"
  | .unary .. => "unary-operator"
  | .call .. | .callStatic .. | .callOn .. => "invoke"
  | .create .. => "instantiate"
  | .array .. => "array-creation"

/-- Method name and arguments of a call of a program method. -/
def programCall? : Expr → Option (String × List Expr)
  | .call method args _ => some (method, args)
  | _ => none

end Expr

/-- When a loop tests its condition. -/
inductive LoopKind where
  /-- Before each round. -/
  | testFirst
  /-- After each round. -/
  | testLast
deriving DecidableEq, Inhabited

/-- Statements. -/
inductive Stmt where
  /-- Declare a variable in the innermost scope. -/
  | declare (name : String) (shape : Shape) (init : Option Expr) (span : Span)
  /-- Store a value in a variable, an element or a property. -/
  | assign (target value : Expr) (span : Span)
  /-- Run one of two blocks. -/
  | cond (test : Expr) (thenBlock : List Stmt) (elseBlock : Option (List Stmt)) (span : Span)
  /-- Jump to the label when the test fails, go on otherwise. -/
  | branch (test : Expr) (label : String) (span : Span)
  /-- Repeat a block. -/
  | loop (kind : LoopKind) (test : Expr) (body : List Stmt) (span : Span)
  /-- Leave the method. -/
  | ret (value : Option Expr) (span : Span)
  /-- Leave the innermost loop. -/
  | brk (span : Span)
  /-- Raise an exception. -/
  | throw (value : Expr) (span : Span)
  /-- Run a block and hand a failure to the handler. -/
  | attempt (body : List Stmt) (catchVar : Option String) (handler : List Stmt) (span : Span)
  /-- Evaluate and forget. -/
  | eval (expr : Expr) (span : Span)
  /-- A place to jump to. -/
  | label (name : String) (span : Span)
  /-- Jump. -/
  | goto (label : String) (span : Span)
deriving BEq, Inhabited

/-- A block is a list of statements. -/
abbrev Block := List Stmt

namespace Stmt

/-- Where the statement stood in the source. -/
def span : Stmt → Span
  | .declare _ _ _ s | .assign _ _ s | .cond _ _ _ s | .branch _ _ s | .loop _ _ _ s
  | .ret _ s | .brk s | .throw _ s | .attempt _ _ _ s | .eval _ s | .label _ s
  | .goto _ s => s

/-- The same statement at another place. -/
def withSpan (s : Span) : Stmt → Stmt
  | .declare name shape init _ => .declare name shape init s
  | .assign target value _ => .assign target value s
  | .cond test yes no _ => .cond test yes no s
  | .branch test mark _ => .branch test mark s
  | .loop kind test body _ => .loop kind test body s
  | .ret value _ => .ret value s
  | .brk _ => .brk s
  | .throw value _ => .throw value s
  | .attempt body name handler _ => .attempt body name handler s
  | .eval expr _ => .eval expr s
  | .label name _ => .label name s
  | .goto mark _ => .goto mark s

/-- The short name of the statement, used to locate failures. -/
def kindName : Stmt → String
  | .declare .. => "declare-variable"
  | .assign .. => "assign"
  | .cond .. => "condition"
  | .branch .. => "label-condition"
  | .loop .. => "iteration"
  | .ret .. => "return"
  | .brk .. => "break"
  | .throw .. => "throw"
  | .attempt .. => "try-catch"
  | .eval .. => "expression"
  | .label .. => "label-declaration"
  | .goto .. => "goto-label"

/-- Labels and jumps are bookkeeping, not user code. -/
def isPlumbing : Stmt → Bool
  | .label .. | .goto .. => true
  | _ => false

/-- Whether the statement declares this label. -/
def declares (mark : String) : Stmt → Bool
  | .label name _ => name == mark
  | _ => false

/-- The expressions that belong to the statement itself, in order. -/
def exprs : Stmt → List Expr
  | .declare _ _ init _ => init.toList
  | .assign target value _ => [target, value]
  | .cond test .. | .branch test .. | .loop _ test .. => [test]
  | .ret value _ => value.toList
  | .throw value _ => [value]
  | .eval expr _ => [expr]
  | _ => []

/-- The blocks directly inside the statement, in order. -/
def blocks : Stmt → List (List Stmt)
  | .cond _ yes no _ => yes :: no.toList
  | .loop _ _ body _ => [body]
  | .attempt body _ handler _ => [body, handler]
  | _ => []

end Stmt

/-- A parameter of a method. -/
structure Param where
  /-- Its name inside the method. -/
  name : String
  /-- What it may hold. -/
  shape : Shape
deriving DecidableEq, Inhabited

/-- The declaration of a global variable. -/
structure Global where
  /-- Its name. -/
  name : String
  /-- What it may hold. -/
  shape : Shape
  /-- The expression that gives its first value. -/
  init : Option Expr
  /-- Where it was declared. -/
  span : Span
deriving BEq, Inhabited

/-- A method of the program. Names may repeat, numbers tell methods apart. -/
structure Method where
  /-- The number of the method. -/
  id : Nat
  /-- The name calls use. -/
  name : String
  /-- Whether a session starts here. -/
  isEntryPoint : Bool
  /-- Whether a call only starts the method and does not wait for it. -/
  isAsync : Bool
  /-- Its parameters, in order. -/
  params : List Param
  /-- Its statements. -/
  body : Block
  /-- Where it was declared. -/
  span : Span
deriving BEq, Inhabited

/-- A whole program. -/
structure Program where
  /-- The methods, in order. -/
  methods : List Method
  /-- The global variables, in order of initialization. -/
  globals : List Global
  /-- Host assemblies to load before a session runs. -/
  assemblies : List String
  /-- Whether the program is in jump code already. -/
  lowered : Bool
deriving BEq, Inhabited

namespace Program

/-- The first method of that name. -/
def method? (p : Program) (name : String) : Option Method :=
  p.methods.find? (·.name == name)

/-- The methods a session could start with. -/
def entryPoints (p : Program) : List Method :=
  p.methods.filter (·.isEntryPoint)

/-- A method that is found is one of the program. -/
theorem mem_of_method?_eq_some {p : Program} {name : String} {m : Method}
    (h : p.method? name = some m) : m ∈ p.methods :=
  List.mem_of_find?_eq_some h

end Program

end Stepwise
