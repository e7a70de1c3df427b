import Stepwise.Engine.World

/-!
# The innermost call

What the operations of a call stack do to its innermost frame. The frame is
described by its scopes and its result only, and the frames below it are
given once and for all; a run never reaches down to them.
-/

namespace Stepwise

/-- The variable of a name, searching scopes from the innermost outward. -/
def Scope.search (scopes : List Scope) (name : String) : Option Nat :=
  scopes.findSome? (·.lookup name)

/-- A name that was just bound. -/
theorem Scope.lookup_bind_self (scope : Scope) (name : String) (id : Nat) :
    (Scope.bind name id scope).lookup name = some id := by
  simp [Scope.bind]

/-- Binding a name leaves the others as they are. -/
theorem Scope.lookup_bind_ne (scope : Scope) {name other : String} (id : Nat)
    (h : other ≠ name) : (Scope.bind name id scope).lookup other = scope.lookup other := by
  have hbeq : (other == name) = false := beq_eq_false_iff_ne.mpr h
  simp only [Scope.bind, List.lookup_cons, hbeq]
  induction scope with
  | nil => rfl
  | cons entry rest ih =>
    obtain ⟨key, value⟩ := entry
    by_cases hk : key = name
    · subst hk
      rw [List.filter_cons_of_neg (by simp), ih, List.lookup_cons, hbeq]
    · rw [List.filter_cons_of_pos (by simpa using hk), List.lookup_cons, List.lookup_cons, ih]

/-- The entries of a scope after a name was bound. -/
theorem Scope.mem_bind {scope : Scope} {name : String} {id : Nat} {entry : String × Nat}
    (h : entry ∈ Scope.bind name id scope) : entry = (name, id) ∨ entry ∈ scope := by
  rcases List.mem_cons.mp h with h | h
  · exact .inl h
  · exact .inr (List.mem_filter.mp h).1

namespace CallStack

/-- The innermost call has these scopes and this result, over these frames. -/
def Stands (s : CallStack) (scopes : List Scope) (result : Option Val) (below : List Frame) :
    Prop :=
  ∃ f, s.frames = f :: below ∧ f.scopes = scopes ∧ f.result = result

variable {s : CallStack} {scopes outer : List Scope} {inner : Scope} {result : Option Val}
  {below : List Frame}

namespace Stands

/-- Names are looked up in the scopes. -/
theorem lookup (h : s.Stands scopes result below) (name : String) :
    s.lookup? name = Scope.search scopes name := by
  obtain ⟨f, hf, rfl, -⟩ := h
  simp only [lookup?, current?, hf]
  rfl

/-- The number of calls in progress. -/
theorem depth_eq_succ (h : s.Stands scopes result below) : s.depth = below.length + 1 := by
  obtain ⟨f, hf, -, -⟩ := h
  rw [s.depth_eq, hf, List.length_cons]

/-- The number of scopes. -/
theorem mark (h : s.Stands scopes result below) : s.scopeMark = scopes.length := by
  obtain ⟨f, hf, rfl, -⟩ := h
  simp only [scopeMark, hf]

/-- Declare a name in the innermost scope. -/
theorem declare (h : s.Stands (inner :: outer) result below) (name : String) (id : Nat) :
    ∃ s', s.declare? name id = some s' ∧
      s'.Stands (Scope.bind name id inner :: outer) result below ∧ s'.id = s.id := by
  obtain ⟨f, hf, hscopes, rfl⟩ := h
  refine ⟨s.mapCurrent (·.bind name id), ?_, ⟨f.bind name id, ?_, ?_, ?_⟩, rfl⟩
  · simp only [declare?, hf, hscopes]
    rfl
  · simp only [mapCurrent, hf]
    rfl
  · simp only [Frame.bind, hscopes]
  · simp only [Frame.bind, hscopes]

/-- Open a scope. -/
theorem pushScope (h : s.Stands scopes result below) :
    s.pushScope.Stands ([] :: scopes) result below := by
  obtain ⟨f, hf, rfl, rfl⟩ := h
  refine ⟨{ f with scopes := [] :: f.scopes }, ?_, rfl, rfl⟩
  simp only [CallStack.pushScope, mapCurrent, hf]
  rfl

/-- Close the innermost scope. -/
theorem restore (h : s.Stands (inner :: scopes) result below) (hs : scopes ≠ []) :
    (s.restoreScopes scopes.length).1.Stands scopes result below ∧
      (s.restoreScopes scopes.length).2 = inner.ids ∧
      (s.restoreScopes scopes.length).1.id = s.id := by
  obtain ⟨f, hf, hscopes, rfl⟩ := h
  have hlen : 1 ≤ scopes.length := List.length_pos_iff.mpr hs
  have hsurplus : f.scopes.length - max scopes.length 1 = 1 := by
    rw [hscopes, List.length_cons]
    omega
  simp only [restoreScopes, hf, hsurplus]
  refine ⟨⟨{ f with scopes := f.scopes.drop 1 }, ?_, ?_, rfl⟩, ?_, rfl⟩
  · simp only [mapCurrent, hf]
    simp only [List.modifyHead_cons]
  · rw [hscopes]
    rfl
  · rw [hscopes]
    simp

/-- End the call. -/
theorem pop (h : s.Stands scopes result below) :
    s.popFrame.1 = result ∧ s.popFrame.2.1.frames = below ∧ s.popFrame.2.1.id = s.id ∧
      s.popFrame.2.2 = scopes.flatMap Scope.ids := by
  obtain ⟨f, hf, rfl, rfl⟩ := h
  simp only [popFrame, hf]
  refine ⟨trivial, ?_, rfl, rfl⟩
  simp [CallStack.below, hf]

/-- Note the result. -/
theorem setResult (h : s.Stands scopes result below) (value : Val) :
    (s.setResult value).Stands scopes (some value) below := by
  obtain ⟨f, hf, rfl, -⟩ := h
  refine ⟨{ f with result := some value }, ?_, rfl, rfl⟩
  simp only [CallStack.setResult, mapCurrent, hf]
  rfl

/-- Note the place. -/
theorem setSpan (h : s.Stands scopes result below) (span : Span) :
    (s.setSpan span).Stands scopes result below := by
  obtain ⟨f, hf, rfl, rfl⟩ := h
  refine ⟨{ f with span }, ?_, rfl, rfl⟩
  simp only [CallStack.setSpan, mapCurrent, hf]
  rfl

end Stands

/-- A call that has just begun. -/
theorem stands_pushFrame (s : CallStack) (method : Nat) (name : String) :
    (s.pushFrame method name).Stands [[]] none s.frames :=
  ⟨Frame.start method name, rfl, rfl, rfl⟩

end CallStack

end Stepwise
