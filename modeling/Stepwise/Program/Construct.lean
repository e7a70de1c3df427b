import Stepwise.Program.Basic

/-!
# Building programs by hand

Short constructors for trees without source text: all spans are blank, and a
statement is put on a source line with `Stmt.atLine`. Methods are numbered in
the order in which they are added.
-/

namespace Stepwise

namespace Expr

/-- A constant. -/
def ofLiteral (value : Literal) : Expr := .literal value Span.blank

/-- A variable. -/
def named (name : String) : Expr := .var name false Span.blank

/-- An element. -/
def element (target position : Expr) : Expr := .index target position Span.blank

/-- A binary operator. -/
def op (o : BinaryOp) (left right : Expr) : Expr := .binary o left right Span.blank

/-- Negation of a condition. -/
def negated (e : Expr) : Expr := .unary .not e Span.blank

/-- Arithmetic negation. -/
def minus (e : Expr) : Expr := .unary .neg e Span.blank

/-- A call of a program method. -/
def invoke (method : String) (args : List Expr) : Expr := .call method args Span.blank

/-- A call of a method of a host type. -/
def invokeStatic (typeName method : String) (args : List Expr) : Expr :=
  .callStatic typeName method args Span.blank

/-- A call of a host method on an object. -/
def invokeOn (object : Expr) (method : String) (args : List Expr) : Expr :=
  .callOn object method args Span.blank

/-- A property of an object. -/
def member (object : Expr) (name : String) : Expr := .property object name Span.blank

/-- A property of a host type. -/
def staticMember (typeName name : String) : Expr := .staticProperty typeName name Span.blank

/-- A new host object. -/
def construct (typeName : String) (args : List Expr) : Expr := .create typeName args Span.blank

/-- A new array. -/
def arrayOf (items : List Expr) : Expr := .array items Span.blank

end Expr

namespace Stmt

/-- Declare a scalar. -/
def scalarVar (name : String) (init : Option Expr) : Stmt := .declare name .scalar init Span.blank

/-- Declare a variable for a collection. -/
def arrayVar (name : String) (init : Option Expr) : Stmt := .declare name .array init Span.blank

/-- Store a value. -/
def store (target value : Expr) : Stmt := .assign target value Span.blank

/-- A condition without `else`. -/
def ifThen (test : Expr) (yes : Block) : Stmt := .cond test yes none Span.blank

/-- A condition with `else`. -/
def ifElse (test : Expr) (yes no : Block) : Stmt := .cond test yes (some no) Span.blank

/-- A loop that tests first. -/
def whileLoop (test : Expr) (body : Block) : Stmt := .loop .testFirst test body Span.blank

/-- A loop that tests last. -/
def doWhile (body : Block) (test : Expr) : Stmt := .loop .testLast test body Span.blank

/-- Return a value or nothing. -/
def giveBack (value : Option Expr) : Stmt := .ret value Span.blank

/-- Leave the innermost loop. -/
def leave : Stmt := .brk Span.blank

/-- Raise an exception. -/
def raise (value : Expr) : Stmt := .throw value Span.blank

/-- Run a block with a handler. -/
def tryCatch (body : Block) (catchVar : Option String) (handler : Block) : Stmt :=
  .attempt body catchVar handler Span.blank

/-- Evaluate and forget. -/
def perform (e : Expr) : Stmt := .eval e Span.blank

/-- The statement on a source line, counting from zero. -/
def atLine (n : Nat) (stmt : Stmt) : Stmt := stmt.withSpan (Span.line n)

end Stmt

namespace Method

/-- A method without parameters and statements; its number is given later. -/
def start (name : String) : Method := ⟨0, name, false, false, [], [], Span.blank⟩

/-- Let sessions start here. -/
def asEntryPoint (m : Method) : Method := { m with isEntryPoint := true }

/-- Let calls not wait. -/
def asAsync (m : Method) : Method := { m with isAsync := true }

/-- Add a parameter behind the others. -/
def withParam (m : Method) (name : String) (shape : Shape) : Method :=
  { m with params := m.params ++ [⟨name, shape⟩] }

/-- Set the statements. -/
def withBody (m : Method) (body : Block) : Method := { m with body }

end Method

namespace Program

/-- A program without parts. -/
def empty : Program := ⟨[], [], [], false⟩

/-- Add a method and give it the next number. -/
def addMethod (p : Program) (m : Method) : Program :=
  { p with methods := p.methods ++ [{ m with id := p.methods.length }] }

/-- Add a global variable. -/
def addGlobal (p : Program) (name : String) (shape : Shape) (init : Option Expr) : Program :=
  { p with globals := p.globals ++ [⟨name, shape, init, Span.blank⟩] }

/-- Add an assembly. -/
def addAssembly (p : Program) (name : String) : Program :=
  { p with assemblies := p.assemblies ++ [name] }

end Program

end Stepwise
