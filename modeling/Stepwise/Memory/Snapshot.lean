import Stepwise.Memory.Stack

/-!
# Snapshots

What a debugger shows when execution stops: the calls in progress with their
variables, and the globals. Values are kept as they are; an array that
changes later changes in the snapshot too, but the number of elements is that
of the moment.
-/

namespace Stepwise

/-- What a debugger shows of a value at first. -/
inductive Descriptor where
  /-- Nothing is there. -/
  | null
  /-- Something without elements. -/
  | primitive
  /-- A collection of so many elements. -/
  | collection (size : Nat)
deriving DecidableEq, Inhabited

/-- The descriptor of a value. -/
def Descriptor.of (h : Heap) (v : Val) : Descriptor :=
  match h.size? v with
  | some size => .collection size
  | none => if v.isNull then .null else .primitive

/-- A variable in a snapshot. -/
structure VariableInfo where
  /-- Its name. -/
  name : String
  /-- What it may hold. -/
  shape : Shape
  /-- What it holds, at first glance. -/
  descriptor : Descriptor
  /-- What it holds. -/
  value : Val
deriving Inhabited

/-- A call in a snapshot. -/
structure FrameInfo where
  /-- The name of the method. -/
  method : String
  /-- Where its current statement stands. -/
  span : Span
  /-- The variables of all its scopes, by name; of one name the outermost first. -/
  locals : List VariableInfo
deriving Inhabited

/-- A snapshot of a call stack. -/
structure Snapshot where
  /-- The calls, innermost first. -/
  frames : List FrameInfo
  /-- The global variables, in order of declaration. -/
  globals : List VariableInfo
deriving Inhabited

namespace Snapshot

/-- A snapshot with nothing in it. -/
def empty : Snapshot := ⟨[], []⟩

/-- A variable as a snapshot shows it. -/
def variableInfo (h : Heap) (m : Memory) (id : Nat) : VariableInfo :=
  let c := m.cell id
  ⟨c.name, c.shape, Descriptor.of h c.value, c.value⟩

/-- A call as a snapshot shows it. -/
def frameInfo (h : Heap) (m : Memory) (f : Frame) : FrameInfo :=
  let all := (f.scopes.reverse.flatMap Scope.ids).map (variableInfo h m)
  ⟨f.name, f.span, all.mergeSort fun a b => decide (a.name ≤ b.name)⟩

/-- The snapshot of a call stack. -/
def capture (h : Heap) (m : Memory) (s : CallStack) : Snapshot :=
  ⟨s.frames.map (frameInfo h m), m.globals.map (variableInfo h m)⟩

/-- The first variable of a name in one of the calls. -/
def find? (s : Snapshot) (frame : Nat) (name : String) : Option VariableInfo :=
  (s.frames[frame]?).bind fun f => f.locals.find? (·.name == name)

end Snapshot

/-- A failure: its cause, and once it is known, where it happened and what
the call stack looked like. -/
structure Failure where
  /-- What went wrong. -/
  fault : Fault
  /-- The span and the kind of the statement that failed. -/
  site : Option (Span × String) := none
  /-- The call stack at that moment. -/
  snapshot : Option Snapshot := none
deriving Inhabited

namespace Failure

/-- Note where a failure happened, unless that is known. -/
def atSite (f : Failure) (span : Span) (node : String) : Failure :=
  match f.site with
  | none => { f with site := some (span, node) }
  | some _ => f

/-- Add the call stack to a failure, unless it is there. The snapshot is not
made if it is not needed. -/
@[macro_inline] def withSnapshot (f : Failure) (s : Snapshot) : Failure :=
  match f.snapshot with
  | none => { f with snapshot := some s }
  | some _ => f

/-- Kind and message. -/
def headline (f : Failure) : String :=
  f.fault.kind.word ++ ": " ++ f.fault.message

/-- Kind, message and place. -/
def report (f : Failure) : String :=
  match f.site with
  | some (span, node) => f.headline ++ " (in " ++ node ++ " at " ++ span.place ++ ")"
  | none => f.headline

end Failure

end Stepwise
