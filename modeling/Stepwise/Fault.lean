import Stepwise.Diagnostic
import Stepwise.Value.Basic

/-!
# Faults

Everything that can go wrong while a program is prepared or run, one
constructor for each cause. A fault belongs to a kind, by which a program can
tell faults apart when it catches them, and has a message.
-/

namespace Stepwise

/-- The kinds of faults. -/
inductive FaultKind where
  | nullValue | badType | badArgument | outOfRange | notAssignable
  | methodNotFound | methodNotAwaitable | missingEntryPoint | severalEntryPoint
  | divideByZero | stackOverflow | illegalStatement | assemblyLoad | hostInterop
  | internal | unexpected | thrown
deriving DecidableEq, Inhabited

/-- The name of a kind. -/
def FaultKind.word : FaultKind → String
  | .nullValue => "NullValue"
  | .badType => "BadType"
  | .badArgument => "BadArgument"
  | .outOfRange => "OutOfRange"
  | .notAssignable => "NotAssignable"
  | .methodNotFound => "MethodNotFound"
  | .methodNotAwaitable => "MethodNotAwaitable"
  | .missingEntryPoint => "MissingEntryPoint"
  | .severalEntryPoint => "SeveralEntryPoint"
  | .divideByZero => "DivideByZero"
  | .stackOverflow => "StackOverflow"
  | .illegalStatement => "IllegalStatement"
  | .assemblyLoad => "AssemblyLoad"
  | .hostInterop => "HostInterop"
  | .internal => "Internal"
  | .unexpected => "Unexpected"
  | .thrown => "Thrown"

/-- All kinds. -/
def FaultKind.all : List FaultKind :=
  [.nullValue, .badType, .badArgument, .outOfRange, .notAssignable, .methodNotFound,
    .methodNotAwaitable, .missingEntryPoint, .severalEntryPoint, .divideByZero, .stackOverflow,
    .illegalStatement, .assemblyLoad, .hostInterop, .internal, .unexpected, .thrown]

/-- The kind of a name. -/
def FaultKind.ofWord? (word : String) : Option FaultKind := all.find? (·.word == word)

/-- The causes of failure. Types are given by their names. -/
inductive Fault where
  /-- A condition is an integer other than 0 and 1. -/
  | conditionRange (n : Int64)
  /-- A condition is null. -/
  | conditionNull
  /-- A condition is no truth value. -/
  | conditionType (typeName : String)
  /-- No element has this position. -/
  | indexRange (n : Int64) (length : Nat)
  /-- A position is null. -/
  | indexNull
  /-- A position is no integer. -/
  | indexType (typeName : String)
  /-- A value cannot be a key. -/
  | keyType (typeName : String)
  /-- A map has no such key. -/
  | keyMissing (key : Key)
  /-- Null has no elements. -/
  | elementOfNull
  /-- A value has no elements. -/
  | elementOf (typeName : String)
  /-- The elements of a value cannot be assigned. -/
  | elementAssign (typeName : String)
  /-- The negative of an integer does not fit. -/
  | negateRange (n : Int64)
  /-- Null has no negative. -/
  | negateNull
  /-- A value has no negative. -/
  | negateType (typeName : String)
  /-- Null has no place in an order. -/
  | compareNull (op : BinaryOp)
  /-- Two values have no common order. -/
  | compareTypes (left right : String)
  /-- Null is no operand. -/
  | operandNull (op : BinaryOp)
  /-- An operator is not defined for two values. -/
  | operandTypes (op : BinaryOp) (left right : String)
  /-- A divisor is zero. -/
  | divideByZero
  /-- The result of an operator on integers does not fit. -/
  | arithmeticRange (op : BinaryOp) (left right : Int64)
  /-- A value does not fit the shape of a variable. -/
  | shapeMismatch (typeName : String) (shape : Shape) (name : String)
  /-- An expression is nothing to assign to. -/
  | assignTarget (kindName : String)
  /-- No variable has this name. -/
  | variableMissing (name : String)
  /-- No block around a jump declares its label. -/
  | labelMissing (label method : String)
  /-- No method has this name. -/
  | methodMissing (name : String)
  /-- A method is called with the wrong number of arguments. -/
  | arity (name : String) (expected given : Nat)
  /-- Calls are nested too deep. -/
  | callDepth (limit : Nat) (name : String)
  /-- A `break` runs outside every loop. -/
  | breakOutsideLoop
  /-- A value that is no exception is thrown. -/
  | throwType (typeName : String)
  /-- A program throws a value; the message is the value's own. -/
  | thrown (value : Val) (message : String)
  /-- A host type has no such property. -/
  | staticPropertyMissing (typeName name : String)
  /-- Null has no properties. -/
  | readOfNull (name : String)
  /-- An object has no such field. -/
  | fieldMissing (typeName name : String)
  /-- A value has no such property. -/
  | propertyMissing (name typeName : String)
  /-- Null has no properties to set. -/
  | writeOfNull (name : String)
  /-- A property cannot be set. -/
  | propertyReadOnly (name typeName : String)
  /-- A property of a host type cannot be set. -/
  | staticReadOnly (typeName name : String)
  /-- Null has no methods. -/
  | callOfNull (name : String)
  /-- A host type has no such method. -/
  | staticMethodMissing (typeName name : String)
  /-- A value has no such method. -/
  | memberMissing (name typeName : String)
  /-- A host method is called with the wrong number of arguments. -/
  | hostArity (name : String) (expected given : Nat)
  /-- The absolute value of an integer does not fit. -/
  | absoluteRange
  /-- A host method takes numbers only. -/
  | notNumber (name typeName : String)
  /-- Sleeping takes a number of milliseconds. -/
  | sleepArgument (typeName : String)
  /-- A map has the key already. -/
  | keyPresent (key : Key)
  /-- The host has no such type. -/
  | typeMissing (typeName : String)
  /-- The host has no such assembly. -/
  | assemblyMissing (name : String)
  /-- A session was stopped while globals got their first values. -/
  | stoppedInGlobals
  /-- A program was found faulty before it could run. -/
  | rejected (problem : Problem)
  /-- A program has no entry point. -/
  | noEntryPoint
  /-- A program has several entry points. -/
  | severalEntryPoints (names : List String)
  /-- The entry point is asynchronous. -/
  | asyncEntryPoint (name : String)
  /-- The entry point takes other parameters than an array of arguments. -/
  | entryPointParams (name : String)
  /-- A fault that a host reports in its own words. -/
  | reported (kind : FaultKind) (message : String)
deriving Inhabited

namespace Fault

/-- The kind of fault that a problem found beforehand amounts to. -/
def kindOfProblem : Problem → FaultKind
  | .unresolvedMethod _ => .methodNotFound
  | .arityMismatch .. => .badArgument
  | .breakOutsideLoop => .illegalStatement
  | _ => .unexpected

/-- The kind of a fault. -/
def kind : Fault → FaultKind
  | .conditionNull | .indexNull | .elementOfNull | .negateNull | .compareNull _
  | .operandNull _ | .readOfNull _ | .writeOfNull _ | .callOfNull _ => .nullValue
  | .conditionType _ | .indexType _ | .keyType _ | .elementOf _ | .elementAssign _
  | .negateType _ | .compareTypes .. | .operandTypes .. | .throwType _ | .notNumber .. => .badType
  | .arity .. | .hostArity .. | .sleepArgument _ | .keyPresent _ | .entryPointParams _ =>
    .badArgument
  | .conditionRange _ | .indexRange .. | .keyMissing _ | .negateRange _ | .arithmeticRange ..
  | .absoluteRange => .outOfRange
  | .shapeMismatch .. | .assignTarget _ | .propertyReadOnly .. | .staticReadOnly .. =>
    .notAssignable
  | .methodMissing _ | .staticMethodMissing .. | .memberMissing .. => .methodNotFound
  | .noEntryPoint | .asyncEntryPoint _ => .missingEntryPoint
  | .severalEntryPoints _ => .severalEntryPoint
  | .divideByZero => .divideByZero
  | .callDepth .. => .stackOverflow
  | .breakOutsideLoop => .illegalStatement
  | .assemblyMissing _ => .assemblyLoad
  | .staticPropertyMissing .. | .fieldMissing .. | .propertyMissing .. | .typeMissing _ =>
    .hostInterop
  | .variableMissing _ | .labelMissing .. | .stoppedInGlobals => .internal
  | .thrown .. => .thrown
  | .rejected problem => kindOfProblem problem
  | .reported kind _ => kind

/-- The text of an integer. -/
def intText (n : Int64) : String := toString n.toInt

/-- The fault in words. -/
def message : Fault → String
  | .conditionRange n => intText n ++ " is not a valid condition, expected 0 or 1"
  | .conditionNull => "condition is null"
  | .conditionType t => t ++ " is not a valid condition"
  | .indexRange n length =>
    "index " ++ intText n ++ " is out of range for length " ++ toString length
  | .indexNull => "index is null"
  | .indexType t => "index must be an int, got " ++ t
  | .keyType t => t ++ " cannot be used as a map key"
  | .keyMissing key => "key '" ++ key.text ++ "' not found"
  | .elementOfNull => "cannot index into null"
  | .elementOf t => "cannot index into " ++ t
  | .elementAssign t => "cannot assign an element of " ++ t
  | .negateRange n => "-(" ++ intText n ++ ") overflows"
  | .negateNull => "cannot negate null"
  | .negateType t => "cannot negate " ++ t
  | .compareNull op => "cannot compare null with " ++ op.word
  | .compareTypes left right => "cannot compare " ++ left ++ " with " ++ right
  | .operandNull op => "null operand for " ++ op.word
  | .operandTypes op left right =>
    op.word ++ " is not defined for " ++ left ++ " and " ++ right
  | .divideByZero => "division by zero"
  | .arithmeticRange op left right =>
    intText left ++ " " ++ op.word ++ " " ++ intText right ++ " overflows"
  | .shapeMismatch t shape name =>
    "cannot store " ++ t ++ " in " ++ shape.word ++ " variable '" ++ name ++ "'"
  | .assignTarget kindName => "cannot assign to " ++ kindName
  | .variableMissing name => "variable '" ++ name ++ "' is not declared"
  | .labelMissing label method =>
    "label '" ++ label ++ "' is not declared in '" ++ method ++ "'"
  | .methodMissing name => "method '" ++ name ++ "' not found"
  | .arity name expected given =>
    "method '" ++ name ++ "' expects " ++ toString expected ++ " argument(s), got "
      ++ toString given
  | .callDepth limit name =>
    "call depth limit of " ++ toString limit ++ " reached calling '" ++ name ++ "'"
  | .breakOutsideLoop => "'break' is only allowed inside a loop"
  | .throwType t => "only exceptions can be thrown, got " ++ t
  | .thrown _ message => message
  | .staticPropertyMissing t name => "static property '" ++ t ++ "." ++ name ++ "' not found"
  | .readOfNull name => "cannot read '" ++ name ++ "' of null"
  | .fieldMissing t name => "'" ++ t ++ "' has no field '" ++ name ++ "'"
  | .propertyMissing name t => "property '" ++ name ++ "' not found on " ++ t
  | .writeOfNull name => "cannot set '" ++ name ++ "' of null"
  | .propertyReadOnly name t => "property '" ++ name ++ "' of " ++ t ++ " is read-only"
  | .staticReadOnly t name => "static property '" ++ t ++ "." ++ name ++ "' is read-only"
  | .callOfNull name => "cannot call '" ++ name ++ "' on null"
  | .staticMethodMissing t name => "static method '" ++ t ++ "." ++ name ++ "' not found"
  | .memberMissing name t => "method '" ++ name ++ "' not found on " ++ t
  | .hostArity name expected given =>
    "'" ++ name ++ "' expects " ++ toString expected ++ " argument(s), got " ++ toString given
  | .absoluteRange => "Math.Abs overflow"
  | .notNumber name t => "'" ++ name ++ "' expects numbers, got " ++ t
  | .sleepArgument t => "Thread.Sleep expects a non-negative int, got " ++ t
  | .keyPresent key => "key '" ++ key.text ++ "' is already present"
  | .typeMissing t => "type '" ++ t ++ "' not found"
  | .assemblyMissing name => "assembly '" ++ name ++ "' could not be loaded"
  | .stoppedInGlobals => "stopped while initializing globals"
  | .rejected problem => problem.message
  | .noEntryPoint => "program has no entry point"
  | .severalEntryPoints names =>
    "program has several entry points: " ++ ", ".intercalate names
  | .asyncEntryPoint name => "entry point '" ++ name ++ "' must not be async"
  | .entryPointParams name =>
    "entry point '" ++ name ++ "' must take no parameters or one argument array"
  | .reported _ message => message

/-- The value a program threw. -/
def thrownValue? : Fault → Option Val
  | .thrown value _ => some value
  | _ => none

/-- The value that a handler gets: the thrown value itself, or an exception
that tells the kind and the message. -/
def toException (f : Fault) : Val :=
  match f.thrownValue? with
  | some value => value
  | none => .exception f.kind.word f.message

end Fault

end Stepwise
