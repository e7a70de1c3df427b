import Stepwise.Engine.Run
import Stepwise.Engine.Operators

/-!
# Evaluating expressions

Operands are evaluated from left to right, the object of a call before its
arguments. Calls of program methods go through the argument `call`; a call of
an asynchronous method only starts it and gives null.
-/

namespace Stepwise.Engine

/-- How a program method is called. -/
abbrev Caller := Method → List Val → Exec Val

/-- The value of a variable. -/
def readVariable (name : String) (isGlobal : Bool) : Exec Val := fun w =>
  match w.lookup? name isGlobal with
  | some id => .done w (.ok (w.memory.cell id).value)
  | none => Exec.fail (.variableMissing name) w

/-- Let the host do something. -/
def onHost {α : Type} (op : Host.Op α) : Exec α := fun w =>
  match op (w.host, w.heap) with
  | (.ok a, host, heap) => .done { w with host, heap } (.ok a)
  | (.error f, host, heap) => Exec.fail f { w with host, heap }

/-- Make a new array. -/
def newArray (items : List Val) : Exec Val := fun w =>
  let (v, heap) := w.heap.newArray items
  .done { w with heap } (.ok v)

/-- Read a property. -/
def readProperty (target : Target) (name : String) : Exec Val := fun w =>
  Exec.lift (Host.getProperty w.heap target name) w

/-- Apply an operation that only reads the heap. -/
def apply (f : Heap → Except Fault Val) : Exec Val := fun w =>
  Exec.lift (f w.heap) w

/-- Call a method that was found, or start it if it is asynchronous. -/
def callOrSpawn (call : Caller) (callee : Method) (args : List Val) : Exec Val :=
  if callee.isAsync then do
    Exec.change (·.spawn callee args)
    pure .null
  else call callee args

mutual

/-- The value of an expression. -/
def eval (p : Program) (call : Caller) : Expr → Exec Val
  | .literal value _ => pure (.ofLiteral value)
  | .var name isGlobal _ => readVariable name isGlobal
  | .staticProperty typeName name _ => readProperty (.type typeName) name
  | .property object name _ => do
    let object ← eval p call object
    readProperty (.value object) name
  | .index target position _ => do
    let target ← eval p call target
    let position ← eval p call position
    apply (Operators.element · target position)
  | .binary .and left right _ => do
    if ← Exec.lift (Operators.condition (← eval p call left)) then
      pure (.bool (← Exec.lift (Operators.condition (← eval p call right))))
    else pure (.bool false)
  | .binary .or left right _ => do
    if ← Exec.lift (Operators.condition (← eval p call left)) then pure (.bool true)
    else pure (.bool (← Exec.lift (Operators.condition (← eval p call right))))
  | .binary op left right _ => do
    let left ← eval p call left
    let right ← eval p call right
    apply (Operators.binary · op left right)
  | .unary op operand _ => do
    Exec.lift (Operators.unary op (← eval p call operand))
  | .call method args _ =>
    match p.method? method with
    | none => Exec.fail (.methodMissing method)
    | some callee => do callOrSpawn call callee (← evalList p call args)
  | .callStatic typeName method args _ => do
    onHost (.invoke (.type typeName) method (← evalList p call args))
  | .callOn object method args _ => do
    let object ← eval p call object
    onHost (.invoke (.value object) method (← evalList p call args))
  | .create typeName args _ => do
    let args ← evalList p call args
    onHost (.construct typeName args)
  | .array items _ => do
    newArray (← evalList p call items)

/-- The values of expressions, from left to right. -/
def evalList (p : Program) (call : Caller) : List Expr → Exec (List Val)
  | [] => pure []
  | e :: rest => do
    let v ← eval p call e
    let vs ← evalList p call rest
    pure (v :: vs)

end

/-- The truth of a condition. -/
def evalCondition (p : Program) (call : Caller) (e : Expr) : Exec Bool := do
  Exec.lift (Operators.condition (← eval p call e))

/-- The value of an expression that may be absent; null stands in for it. -/
def evalOption (p : Program) (call : Caller) : Option Expr → Exec Val
  | some e => eval p call e
  | none => pure .null

end Stepwise.Engine
