import Stepwise.Engine.Operators
import Stepwise.Memory.Snapshot

/-!
# Faults of operations

Operators, the host and variables fail in ways of their own: never for a
call, a jump or a `break`, and never by throwing. The exception of such a
fault is no collection, so that a handler, which keeps the exception in a
variable that takes no collections, can always take it.
-/

namespace Stepwise

/-- A fault of an operator, of the host or of a variable, as opposed to one of control. -/
def Fault.isOperational : Fault → Bool
  | .methodMissing _ | .arity .. | .callDepth .. | .labelMissing .. | .breakOutsideLoop
  | .thrown .. | .rejected _ | .reported .. => false
  | _ => true

variable {α β : Type}

/-- An operation goes on from a value, and ends with a fault. -/
theorem Host.Op.bind_apply (op : Host.Op α) (f : α → Host.Op β) (s : Host × Heap) :
    (op >>= f) s =
      match op s with
      | (.ok a, s') => f a s'
      | (.error fault, s') => (.error fault, s') := by
  show StateT.bind (m := Id) op (ExceptT.bindCont f) s = _
  unfold StateT.bind
  show (match op s with | (r, s') => (ExceptT.bindCont f r : Host.Op β) s') = _
  rcases op s with ⟨fault | a, s'⟩ <;> rfl

namespace Engine

/-- A fault whose exception any handler can take. -/
def Mild (f : Fault) : Prop := f.toException.isCollection = false

/-- The faults of operations are mild. -/
theorem mild_of_isOperational {f : Fault} (h : f.isOperational = true) : Mild f := by
  cases f <;> first | rfl | cases h

/-- A handler can take a mild exception. -/
theorem accepts_exception {f : Fault} (h : Mild f) : Shape.scalar.accepts f.toException = true := by
  rw [Shape.accepts, h]
  rfl

-- Noting where a failure happened keeps its cause.
@[simp] theorem fault_atSite (f : Failure) (span : Span) (node : String) :
    (f.atSite span node).fault = f.fault := by
  unfold Failure.atSite
  split <;> rfl

@[simp] theorem fault_withSnapshot (f : Failure) (s : Snapshot) :
    (f.withSnapshot s).fault = f.fault := by
  unfold Failure.withSnapshot
  split <;> rfl

/-- A step without effect that fails as operations do. -/
def Tame (x : Except Fault α) : Prop := ∀ f, x = .error f → f.isOperational = true

/-- Such a step fails as operations do. -/
theorem Tame.mild {x : Except Fault α} (h : Tame x) {f : Fault} (hf : x = .error f) : Mild f :=
  mild_of_isOperational (h f hf)

/-- An operation that has not failed. -/
theorem tame_ok (a : α) : Tame (.ok a : Except Fault α) := by
  intro f h
  cases h

/-- An operation that has failed as operations do. -/
theorem tame_error {f : Fault} (h : f.isOperational = true) : Tame (.error f : Except Fault α) := by
  intro f' h'
  cases h'
  exact h

/-- Two operations in a row. -/
theorem Tame.bind {x : Except Fault α} {f : α → Except Fault β} (hx : Tame x)
    (hf : ∀ a, Tame (f a)) : Tame (x >>= f) := by
  cases x with
  | ok a => exact hf a
  | error e => exact tame_error (hx e rfl)

/-- A function of the result of an operation. -/
theorem Tame.map {x : Except Fault α} (hx : Tame x) (f : α → β) : Tame (f <$> x) := by
  cases x with
  | ok a => exact tame_ok _
  | error e => exact tame_error (hx e rfl)

/-- Conditions fail as operations do. -/
theorem tame_condition (v : Val) : Tame (Operators.condition v) := by
  cases v with
  | bool b => exact tame_ok b
  | int n =>
    show Tame (if n = 0 then _ else if n = 1 then _ else _)
    by_cases h₀ : n = 0
    · rw [if_pos h₀]
      exact tame_ok false
    · rw [if_neg h₀]
      by_cases h₁ : n = 1
      · rw [if_pos h₁]
        exact tame_ok true
      · rw [if_neg h₁]
        exact tame_error rfl
  | _ => exact tame_error rfl

/-- Positions fail as operations do. -/
theorem tame_position (index : Val) (length : Nat) : Tame (Operators.position index length) := by
  cases index with
  | int n =>
    show Tame (if 0 ≤ n.toInt && n.toInt < length then _ else _)
    by_cases h : (0 ≤ n.toInt && n.toInt < length) = true
    · rw [if_pos h]
      exact tame_ok _
    · rw [if_neg h]
      exact tame_error rfl
  | _ => exact tame_error rfl

/-- Keys fail as operations do. -/
theorem tame_keyOf (v : Val) : Tame (Host.keyOf v) := by
  unfold Host.keyOf
  split
  · exact tame_ok _
  · exact tame_error rfl

/-- Elements fail as operations do. -/
theorem tame_element (h : Heap) (target index : Val) :
    Tame (Operators.element h target index) := by
  unfold Operators.element
  split
  · exact (tame_position _ _).bind fun _ => tame_ok _
  · refine (tame_keyOf _).bind fun key => ?_
    split
    · exact tame_ok _
    · exact tame_error rfl
  · exact (tame_position _ _).bind fun _ => tame_ok _
  · exact tame_error rfl
  · exact tame_error rfl

/-- Assigning elements fails as operations do. -/
theorem tame_setElement (h : Heap) (target index value : Val) :
    Tame (Operators.setElement h target index value) := by
  unfold Operators.setElement
  split
  · exact (tame_position _ _).bind fun _ => tame_ok _
  · exact (tame_keyOf _).bind fun _ => tame_ok _
  · exact tame_error rfl
  · exact tame_error rfl

/-- Unary operators fail as operations do. -/
theorem tame_unary (op : UnaryOp) (v : Val) : Tame (Operators.unary op v) := by
  cases op with
  | not => exact (tame_condition v).bind fun _ => tame_ok _
  | neg =>
    cases v with
    | int n =>
      dsimp only [Operators.unary]
      cases Word.signed? (-n.toInt) with
      | some m => exact tame_ok _
      | none => exact tame_error rfl
    | float x => exact tame_ok _
    | _ => exact tame_error rfl

/-- Arithmetic fails as operations do. -/
theorem tame_arithmetic (op : BinaryOp) (left right : Val) :
    Tame (Operators.arithmetic op left right) := by
  unfold Operators.arithmetic
  split
  · exact tame_error rfl
  · exact tame_error rfl
  · unfold Operators.intArithmetic
    split
    · exact tame_error rfl
    · split
      · exact tame_ok _
      · exact tame_error rfl
  · split
    · unfold Operators.floatArithmetic
      split
      · exact tame_error rfl
      · split <;> exact tame_ok _
    · exact tame_error rfl

/-- Comparing fails as operations do. -/
theorem tame_order (op : BinaryOp) (left right : Val) : Tame (Operators.order op left right) := by
  unfold Operators.order
  split
  · exact tame_ok _
  · exact tame_ok _
  · exact tame_error rfl
  · exact tame_error rfl
  · split
    · exact tame_ok _
    · exact tame_error rfl

/-- Binary operators fail as operations do. -/
theorem tame_binary (h : Heap) (op : BinaryOp) (left right : Val) :
    Tame (Operators.binary h op left right) := by
  unfold Operators.binary
  split
  · exact tame_ok _
  · exact tame_ok _
  · exact (tame_order _ _ _).bind fun _ => tame_ok _
  · exact (tame_order _ _ _).bind fun _ => tame_ok _
  · exact (tame_order _ _ _).bind fun _ => tame_ok _
  · exact (tame_order _ _ _).bind fun _ => tame_ok _
  · unfold Operators.add
    split
    · exact tame_ok _
    · exact tame_ok _
    · exact tame_arithmetic _ _ _
  · refine (tame_condition left).bind fun b => ?_
    cases b
    · exact tame_ok _
    · exact (tame_condition right).map _
  · refine (tame_condition left).bind fun b => ?_
    cases b
    · exact tame_ok _
    · exact (tame_condition right).map _
  · exact tame_arithmetic _ _ _

/-- Reading properties fails as operations do. -/
theorem tame_getProperty (h : Heap) (target : Target) (name : String) :
    Tame (Host.getProperty h target name) := by
  unfold Host.getProperty
  split
  · split
    · exact tame_ok _
    · exact tame_error rfl
  · split
    · exact tame_error rfl
    · exact tame_ok _
    · exact tame_ok _
    · exact tame_ok _
    · exact tame_ok _
    · exact tame_ok _
    · exact tame_ok _
    · exact tame_ok _
    · split
      · exact tame_ok _
      · exact tame_error rfl
    · exact tame_error rfl

/-- One argument is taken or missed. -/
theorem tame_oneArg (method : String) (args : List Val) : Tame (Host.oneArg method args) := by
  unfold Host.oneArg
  split
  · exact tame_ok _
  · exact tame_error rfl

/-- Two arguments are taken or missed. -/
theorem tame_twoArgs (method : String) (args : List Val) : Tame (Host.twoArgs method args) := by
  unfold Host.twoArgs
  split
  · exact tame_ok _
  · exact tame_error rfl

/-- Absolute values fail as operations do. -/
theorem tame_absolute (v : Val) : Tame (Host.absolute v) := by
  unfold Host.absolute
  split
  · split
    · exact tame_ok _
    · exact tame_error rfl
  · exact tame_ok _
  · exact tame_error rfl

/-- Numbers are taken or missed. -/
theorem tame_numberOf (method : String) (v : Val) : Tame (Host.numberOf method v) := by
  unfold Host.numberOf
  split
  · exact tame_ok _
  · exact tame_error rfl

/-- Comparing numbers fails as operations do. -/
theorem tame_atLeast (method : String) (a b : Val) : Tame (Host.atLeast method a b) := by
  unfold Host.atLeast
  split
  · exact tame_ok _
  · exact (tame_numberOf _ _).bind fun _ => (tame_numberOf _ _).bind fun _ => tame_ok _

section Careful

/-- A careful operation of the host checks before it changes anything: where it
fails, it fails as operations do, and host and heap are as they were. -/
def Careful (op : Host.Op α) : Prop :=
  ∀ s f s', op s = (.error f, s') → s' = s ∧ f.isOperational = true

/-- A sure operation of the host does not fail. -/
def Sure (op : Host.Op α) : Prop := ∀ s, ∃ a s', op s = (.ok a, s')

theorem sure_pure (a : α) : Sure (pure a : Host.Op α) := fun s => ⟨a, s, rfl⟩

theorem sure_changeHost (f : Host → Host) : Sure (Host.Op.changeHost f) :=
  fun s => ⟨(), (f s.1, s.2), rfl⟩

theorem sure_changeHeap (f : Heap → Heap) : Sure (Host.Op.changeHeap f) :=
  fun s => ⟨(), (s.1, f s.2), rfl⟩

theorem sure_fromHeap (f : Heap → α × Heap) : Sure (Host.Op.fromHeap f) :=
  fun s => ⟨(f s.2).1, (s.1, (f s.2).2), rfl⟩

theorem Sure.bind {op : Host.Op α} {f : α → Host.Op β} (hop : Sure op) (hf : ∀ a, Sure (f a)) :
    Sure (op >>= f) := by
  intro s
  obtain ⟨a, s', ha⟩ := hop s
  obtain ⟨b, s'', hb⟩ := hf a s'
  exact ⟨b, s'', by rw [Host.Op.bind_apply, ha]; exact hb⟩

theorem Sure.careful {op : Host.Op α} (h : Sure op) : Careful op := by
  intro s f s' hf
  obtain ⟨a, s'', ha⟩ := h s
  rw [ha] at hf
  cases hf

theorem careful_throw {f : Fault} (h : f.isOperational = true) :
    Careful (throw f : Host.Op α) := by
  rintro s f' s' ⟨⟩
  exact ⟨rfl, h⟩

/-- A check comes first. -/
theorem Tame.careful {r : Except Fault α} {f : α → Host.Op β} (hr : Tame r)
    (hf : ∀ a, Careful (f a)) : Careful ((liftM r : Host.Op α) >>= f) := by
  cases r with
  | ok a => exact hf a
  | error e => exact careful_throw (hr e rfl)

/-- There is nothing but a check. -/
theorem Tame.careful_lift {r : Except Fault α} (hr : Tame r) :
    Careful (liftM r : Host.Op α) := by
  cases r with
  | ok a => exact (sure_pure a).careful
  | error e => exact careful_throw (hr e rfl)

/-- A look at the heap comes first. -/
theorem careful_heap {f : Heap → Host.Op α} (hf : ∀ h, Careful (f h)) :
    Careful (Host.Op.heap >>= f) := fun s => hf s.2 s

/-- Loading assemblies is careful. -/
theorem careful_load (name : String) : Careful (Host.Op.load name) := by
  unfold Host.Op.load
  split
  · exact (sure_changeHost _).careful
  · exact careful_throw rfl

/-- Setting properties is careful. -/
theorem careful_setProperty (target : Target) (name : String) (value : Val) :
    Careful (Host.Op.setProperty target name value) := by
  unfold Host.Op.setProperty
  split
  · exact (sure_changeHeap _).careful
  · exact careful_throw rfl
  · exact careful_throw rfl
  · exact careful_throw rfl

/-- Calling methods of types is careful. -/
theorem careful_invokeStatic (typeName name : String) (args : List Val) :
    Careful (Host.Op.invokeStatic typeName name args) := by
  unfold Host.Op.invokeStatic
  split
  · exact careful_heap fun h => ((sure_changeHost _).bind fun _ => sure_pure _).careful
  · exact (tame_oneArg _ _).careful fun x => (tame_absolute x).careful_lift
  · refine (tame_twoArgs _ _).careful fun p => ?_
    exact (tame_atLeast _ _ _).careful fun _ => (sure_pure _).careful
  · refine (tame_twoArgs _ _).careful fun p => ?_
    exact (tame_atLeast _ _ _).careful fun _ => (sure_pure _).careful
  · refine (tame_oneArg _ _).careful fun v => ?_
    split
    · split
      · exact (sure_pure _).careful
      · exact careful_throw rfl
    · exact careful_throw rfl
  · exact careful_throw rfl

/-- Calling methods of values is careful. -/
theorem careful_invokeOn (v : Val) (name : String) (args : List Val) :
    Careful (Host.Op.invokeOn v name args) := by
  unfold Host.Op.invokeOn
  split
  · exact careful_throw rfl
  · exact (tame_oneArg _ _).careful fun _ =>
      ((sure_changeHeap _).bind fun _ => sure_pure _).careful
  · refine (tame_twoArgs _ _).careful fun p => (tame_keyOf _).careful fun key => ?_
    refine careful_heap fun h => ?_
    split
    · exact careful_throw rfl
    · exact ((sure_changeHeap _).bind fun _ => sure_pure _).careful
  · exact (tame_oneArg _ _).careful fun _ => (tame_keyOf _).careful fun _ =>
      careful_heap fun _ => (sure_pure _).careful
  · exact (tame_oneArg _ _).careful fun _ => (tame_keyOf _).careful fun _ =>
      ((sure_fromHeap _).bind fun _ => sure_pure _).careful
  · exact (tame_oneArg _ _).careful fun _ => ((sure_fromHeap _).bind fun _ => sure_pure _).careful
  · exact careful_heap fun _ => (sure_pure _).careful
  · exact careful_throw rfl

/-- Calling methods is careful. -/
theorem careful_invoke (target : Target) (name : String) (args : List Val) :
    Careful (Host.Op.invoke target name args) := by
  cases target with
  | type typeName => exact careful_invokeStatic typeName name args
  | value v => exact careful_invokeOn v name args

/-- Making values is careful. -/
theorem careful_construct (typeName : String) (args : List Val) :
    Careful (Host.Op.construct typeName args) := by
  unfold Host.Op.construct
  split
  · exact careful_heap fun _ => (sure_pure _).careful
  · exact (sure_fromHeap _).careful
  · exact (sure_fromHeap _).careful
  · exact (sure_fromHeap _).careful
  · exact (sure_fromHeap _).careful
  · exact careful_throw rfl

end Careful

/-- Making variables fails as operations do. -/
theorem tame_holding (name : String) (shape : Shape) (value : Val) :
    Tame (Cell.holding name shape value) := by
  unfold Cell.holding
  split
  · exact tame_ok _
  · exact tame_error rfl

end Engine

end Stepwise
