import Stepwise.Memory.Basic

/-!
# Call stacks

A call stack holds one frame for each call in progress, and a frame holds
scopes. Names are looked up in the scopes of the innermost frame only.
Leaving a scope or a frame disposes of the variables bound there.
-/

namespace Stepwise

/-- Variables by name. A name is bound at most once. -/
abbrev Scope := List (String × Nat)

/-- Bind a name, in place of an earlier variable of that name. -/
def Scope.bind (name : String) (id : Nat) (scope : Scope) : Scope :=
  (name, id) :: scope.filter fun entry => entry.1 ≠ name

/-- Numbers of the variables of a scope. -/
def Scope.ids (scope : Scope) : List Nat := scope.map (·.2)

/-- One call in progress. -/
structure Frame where
  /-- The number of the method. -/
  method : Nat
  /-- The name of the method. -/
  name : String
  /-- Its scopes, innermost first. -/
  scopes : List Scope
  /-- The value to return. -/
  result : Option Val
  /-- Where the statement stands that runs now. -/
  span : Span
deriving Inhabited

namespace Frame

/-- The frame of a call that has just begun. -/
def start (method : Nat) (name : String) : Frame := ⟨method, name, [[]], none, Span.blank⟩

/-- The variable of a name, from the innermost scope outward. -/
def lookup? (f : Frame) (name : String) : Option Nat :=
  f.scopes.findSome? (·.lookup name)

/-- Bind a name in the innermost scope. -/
def bind (f : Frame) (name : String) (id : Nat) : Frame :=
  match f.scopes with
  | scope :: rest => { f with scopes := Scope.bind name id scope :: rest }
  | [] => f

/-- Numbers of all variables of a frame. -/
def ids (f : Frame) : List Nat := f.scopes.flatMap Scope.ids

end Frame

/-- A call stack with its number. -/
structure CallStack where
  /-- The number that tells call stacks apart. -/
  id : Nat
  /-- The calls in progress, innermost first. -/
  frames : List Frame
  /-- Number of calls in progress. -/
  depth : Nat
  /-- The number is kept up to date. -/
  depth_eq : depth = frames.length

namespace CallStack

/-- A call stack without calls. -/
def fresh (id : Nat) : CallStack := ⟨id, [], 0, rfl⟩

instance : Inhabited CallStack := ⟨fresh 0⟩

/-- The innermost call. -/
def current? (s : CallStack) : Option Frame := s.frames.head?

/-- Change the innermost call. -/
def mapCurrent (s : CallStack) (f : Frame → Frame) : CallStack :=
  { s with frames := s.frames.modifyHead f, depth_eq := by simp [s.depth_eq] }

/-- Begin a call. -/
def pushFrame (s : CallStack) (method : Nat) (name : String) : CallStack :=
  { s with
    frames := Frame.start method name :: s.frames
    depth := s.depth + 1
    depth_eq := by simp [s.depth_eq] }

/-- The stack below the innermost call. -/
def below (s : CallStack) : CallStack :=
  { s with frames := s.frames.tail, depth := s.depth - 1, depth_eq := by simp [s.depth_eq] }

/-- End the innermost call: its result, the stack below, and the variables
to dispose of. -/
def popFrame (s : CallStack) : Option Val × CallStack × List Nat :=
  match s.frames with
  | frame :: _ => (frame.result, s.below, frame.ids)
  | [] => (none, s, [])

/-- Number of scopes of the innermost call. -/
def scopeMark (s : CallStack) : Nat :=
  match s.frames with
  | frame :: _ => frame.scopes.length
  | [] => 0

/-- Open a scope in the innermost call. -/
def pushScope (s : CallStack) : CallStack :=
  s.mapCurrent fun frame => { frame with scopes := [] :: frame.scopes }

/-- Close scopes of the innermost call until `mark` of them are left, or one.
Gives the stack and the variables to dispose of. -/
def restoreScopes (s : CallStack) (mark : Nat) : CallStack × List Nat :=
  match s.frames with
  | frame :: _ =>
    let surplus := frame.scopes.length - max mark 1
    (s.mapCurrent fun frame => { frame with scopes := frame.scopes.drop surplus },
      (frame.scopes.take surplus).flatMap Scope.ids)
  | [] => (s, [])

/-- Bind a name in the innermost scope; nothing outside every call. -/
def declare? (s : CallStack) (name : String) (id : Nat) : Option CallStack :=
  match s.frames with
  | frame :: _ => if frame.scopes.isEmpty then none else some (s.mapCurrent (·.bind name id))
  | [] => none

/-- The variable of a name in the innermost call. -/
def lookup? (s : CallStack) (name : String) : Option Nat :=
  s.current?.bind (·.lookup? name)

/-- Note where the statement stands that runs now. -/
def setSpan (s : CallStack) (span : Span) : CallStack :=
  s.mapCurrent fun frame => { frame with span }

/-- Note the value to return. -/
def setResult (s : CallStack) (value : Val) : CallStack :=
  s.mapCurrent fun frame => { frame with result := some value }

end CallStack

end Stepwise
