import Stepwise.Fault
import Stepwise.Value.Equality
import Stepwise.Value.Text
import Stepwise.Word

/-!
# The host

What a program reaches outside itself: a console, a few numeric functions,
the members of collections, texts and exceptions, and free-form objects. An
operation that fails leaves behind what it has done by then.
-/

namespace Stepwise

/-- The owner of a member. -/
inductive Target where
  /-- A type, by name. -/
  | type (name : String)
  /-- A value. -/
  | value (v : Val)

/-- What the host remembers. -/
structure Host where
  /-- Lines written to the console, first one first. -/
  console : Array String := #[]
  /-- Assemblies loaded, latest first. -/
  loaded : List String := []
deriving Inhabited

/-- The fault of throwing a value. An exception gives its own message. -/
def Fault.ofThrown (h : Heap) (v : Val) : Fault :=
  match v with
  | .exception _ message => .thrown v message
  | v => .thrown v (h.text v)

namespace Host

/-- The assemblies there are. -/
def assemblies : List String := ["std", "System"]

/-- An operation on the host and the heap. Either way, with a value or with a
fault, it leaves a host and a heap behind. -/
abbrev Op (α : Type) := ExceptT Fault (StateM (Host × Heap)) α

namespace Op

/-- The heap as it is. -/
def heap : Op Heap := do return (← get).2

/-- Change the host. -/
def changeHost (f : Host → Host) : Op Unit := modify fun s => (f s.1, s.2)

/-- Change the heap. -/
def changeHeap (f : Heap → Heap) : Op Unit := modify fun s => (s.1, f s.2)

/-- Take from the heap, which changes with it. -/
def fromHeap {α : Type} (f : Heap → α × Heap) : Op α :=
  modifyGet fun s => ((f s.2).1, s.1, (f s.2).2)

/-- What an operation has led to, if it has not failed. -/
def outcome {α : Type} (op : Op α) (host : Host) (h : Heap) : Except Fault (α × Host × Heap) :=
  match op (host, h) with
  | (.ok a, s) => .ok (a, s)
  | (.error f, _) => .error f

/-- Load an assembly. -/
def load (name : String) : Op Unit :=
  if assemblies.contains name then
    changeHost fun host =>
      if host.loaded.contains name then host
      else { host with loaded := name :: host.loaded }
  else throw (.assemblyMissing name)

end Op

/-- Load an assembly. -/
def load (host : Host) (name : String) : Except Fault Host :=
  ((Op.load name).outcome host {}).map (·.2.1)

/-- Whether an assembly is loaded. -/
def isLoaded (host : Host) (name : String) : Bool := host.loaded.contains name

/-- Write a line of values with blanks between them. -/
def writeLine (host : Host) (h : Heap) (args : List Val) : Host :=
  { host with console := host.console.push (" ".intercalate (args.map h.text)) }

/-- The ratio of a circle's circumference to its diameter. -/
def pi : Float := 3.141592653589793

/-- Read a property. -/
def getProperty (h : Heap) (target : Target) (name : String) : Except Fault Val :=
  match target with
  | .type typeName =>
    if typeName == "Math" && name == "PI" then .ok (.float pi)
    else .error (.staticPropertyMissing typeName name)
  | .value v =>
    match v, name with
    | .null, _ => .error (.readOfNull name)
    | .str s, "Length" => .ok (.int (Int64.ofNat s.length))
    | .array ref, "Length" | .array ref, "Count" =>
      .ok (.int (Int64.ofNat (h.items ref).length))
    | .map ref, "Length" | .map ref, "Count" =>
      .ok (.int (Int64.ofNat (h.entries ref).length))
    | .exception _ message, "Message" => .ok (.str message)
    | .exception typeName _, "Type" => .ok (.str typeName)
    | .object typeName ref, _ =>
      match (h.fields ref).lookup name with
      | some value => .ok value
      | none => .error (.fieldMissing typeName name)
    | v, _ => .error (.propertyMissing name v.typeName)

/-- Set a property. Only objects have properties that can be set. -/
def Op.setProperty (target : Target) (name : String) (value : Val) : Op Unit :=
  match target with
  | .value (.object _ ref) => Op.changeHeap (·.putField ref name value)
  | .value .null => throw (.writeOfNull name)
  | .value v => throw (.propertyReadOnly name v.typeName)
  | .type typeName => throw (.staticReadOnly typeName name)

/-- Set a property of a value on a heap. -/
def setProperty (h : Heap) (target : Target) (name : String) (value : Val) :
    Except Fault Heap :=
  ((Op.setProperty target name value).outcome {} h).map (·.2.2)

/-- What an operation of the host leads to. -/
structure Effect where
  /-- The value it gives. -/
  value : Val
  /-- The host afterwards. -/
  host : Host
  /-- The heap afterwards. -/
  heap : Heap

/-- The key that an argument stands for. -/
def keyOf (v : Val) : Except Fault Key :=
  match v.asKey? with
  | some key => .ok key
  | none => .error (.keyType v.typeName)

/-- The number that an argument stands for. -/
def numberOf (method : String) (v : Val) : Except Fault Float :=
  match v.asFloat? with
  | some x => .ok x
  | none => .error (.notNumber method v.typeName)

/-- The single argument of a method. -/
def oneArg (method : String) : List Val → Except Fault Val
  | [x] => .ok x
  | args => .error (.hostArity method 1 args.length)

/-- The two arguments of a method. -/
def twoArgs (method : String) : List Val → Except Fault (Val × Val)
  | [x, y] => .ok (x, y)
  | args => .error (.hostArity method 2 args.length)

/-- The absolute value of a number. -/
def absolute (v : Val) : Except Fault Val :=
  match v with
  | .int n =>
    match Word.signed? (max n.toInt (-n.toInt)) with
    | some m => .ok (.int m)
    | none => .error .absoluteRange
  | .float x => .ok (.float x.abs)
  | v => .error (.notNumber "Abs" v.typeName)

/-- Whether the first of two numbers is at least the second. -/
def atLeast (method : String) (a b : Val) : Except Fault Bool :=
  match a, b with
  | .int x, .int y => .ok (decide (y.toInt ≤ x.toInt))
  | a, b => do
    let x ← numberOf method a
    let y ← numberOf method b
    .ok (decide (y ≤ x))

/-- Call a method of a type. -/
def Op.invokeStatic (typeName name : String) (args : List Val) : Op Val :=
  match typeName, name with
  | "Console", "WriteLine" => do
    let h ← Op.heap
    Op.changeHost (·.writeLine h args)
    pure .null
  | "Math", "Abs" => do
    let x ← oneArg name args
    absolute x
  | "Math", "Max" => do
    let (a, b) ← twoArgs name args
    pure (if ← atLeast name a b then a else b)
  | "Math", "Min" => do
    let (a, b) ← twoArgs name args
    pure (if ← atLeast name a b then b else a)
  | "Thread", "Sleep" => do
    match ← oneArg name args with
    | .int n => if 0 ≤ n.toInt then pure .null else throw (.sleepArgument "int")
    | v => throw (.sleepArgument v.typeName)
  | _, _ => throw (.staticMethodMissing typeName name)

/-- Remove the first element that is equal to a value. -/
def removeFirst (h : Heap) (ref : Nat) (item : Val) : Bool × Heap :=
  match (h.items ref).findIdx? (h.equal · item) with
  | some i => (true, h.setItems ref ((h.items ref).eraseIdx i))
  | none => (false, h)

/-- Call a method of a value. -/
def Op.invokeOn (v : Val) (name : String) (args : List Val) : Op Val :=
  match v, name with
  | .null, _ => throw (.callOfNull name)
  | .array ref, "Add" => do
    let item ← oneArg name args
    Op.changeHeap fun h => h.setItems ref (h.items ref ++ [item])
    pure .null
  | .map ref, "Add" => do
    let (key, value) ← twoArgs name args
    let key ← keyOf key
    let h ← Op.heap
    if ((h.entries ref).lookup key).isSome then throw (.keyPresent key)
    else do
      Op.changeHeap (·.putEntry ref key value)
      pure .null
  | .map ref, "ContainsKey" => do
    let key ← oneArg name args
    let key ← keyOf key
    let h ← Op.heap
    pure (.bool ((h.entries ref).lookup key).isSome)
  | .map ref, "Remove" => do
    let key ← oneArg name args
    let key ← keyOf key
    let found ← Op.fromHeap fun h => (((h.entries ref).lookup key).isSome, h.removeEntry ref key)
    pure (.bool found)
  | .array ref, "Remove" => do
    let item ← oneArg name args
    let found ← Op.fromHeap (removeFirst · ref item)
    pure (.bool found)
  | v, "ToString" => do
    let h ← Op.heap
    pure (.str (h.text v))
  | v, _ => throw (.memberMissing name v.typeName)

/-- Call a method. -/
def Op.invoke (target : Target) (name : String) (args : List Val) : Op Val :=
  match target with
  | .type typeName => Op.invokeStatic typeName name args
  | .value v => Op.invokeOn v name args

/-- Call a method with a host and a heap. -/
def invoke (host : Host) (h : Heap) (target : Target) (name : String) (args : List Val) :
    Except Fault Effect :=
  ((Op.invoke target name args).outcome host h).map fun (value, host, heap) => ⟨value, host, heap⟩

/-- What a new exception says, by its first argument. -/
def exceptionMessage (h : Heap) : List Val → String
  | [] => ""
  | v :: _ => h.text v

/-- Make a new value of a type. -/
def Op.construct (typeName : String) (args : List Val) : Op Val :=
  match typeName with
  | "Exception" => do
    let h ← Op.heap
    pure (.exception "Exception" (exceptionMessage h args))
  | "List" => Op.fromHeap (·.newArray args)
  | "Map" | "Dictionary" => Op.fromHeap (·.newMap)
  | "Object" => Op.fromHeap (·.newObject "Object")
  | _ => throw (.typeMissing typeName)

/-- Make a new value of a type on a heap. -/
def construct (h : Heap) (typeName : String) (args : List Val) : Except Fault (Val × Heap) :=
  ((Op.construct typeName args).outcome {} h).map fun (v, _, heap) => (v, heap)

end Host

end Stepwise
