import Stepwise.Program.Construct
import Stepwise.Proofs.Engine.Discipline
import Stepwise.Proofs.Simulation.Memory
import Stepwise.Proofs.Simulation.Stack

/-!
# Balanced call stacks

Work opens frames and scopes and closes them again, however it ends. After a
block, an expression or a call the stack has the calls and scopes it had
before; only the innermost scope of the current call may have gained or
replaced variables, and only new ones with names that the block declares.
No variable is bound in two places.
-/

namespace Stepwise

/-- A new variable has the name it was made for. -/
theorem Cell.name_of_holding {name : String} {shape : Shape} {value : Val} {c : Cell}
    (h : Cell.holding name shape value = .ok c) : c.name = name := by
  unfold Cell.holding at h
  split at h
  · cases h
    rfl
  · cases h

/-- Numbers of the variables in all scopes of a call stack. -/
def CallStack.ids (s : CallStack) : List Nat := s.frames.flatMap Frame.ids

/-- Numbers of the variables that are bound: in a scope, or as globals. -/
def World.bound (w : World) : List Nat := w.stack.ids ++ w.memory.globals

/-- A world that work leaves behind and can begin in. -/
structure World.Tidy (w : World) : Prop where
  /-- Every call has a scope. -/
  scopes : ∀ f ∈ w.stack.frames, f.scopes ≠ []
  /-- No variable is bound in two places. -/
  once : w.bound.Nodup
  /-- Variables that are bound are there. -/
  known : ∀ id ∈ w.bound, id < w.memory.cells.size

/-- A scope has only gained or replaced variables of the given names, by new ones. -/
def Scope.Gains (names : List String) (base : Nat) (scope scope' : Scope) : Prop :=
  ∀ x, scope'.lookup x = scope.lookup x ∨
    x ∈ names ∧ ∃ id, scope'.lookup x = some id ∧ base ≤ id

/-- A call after work in its innermost scope. -/
structure Frame.Balanced (names : List String) (base : Nat) (f f' : Frame) : Prop where
  /-- The same method is called. -/
  method : f'.method = f.method
  /-- The method has the same name. -/
  name : f'.name = f.name
  /-- There are as many scopes. -/
  count : f'.scopes.length = f.scopes.length
  /-- Outer scopes bind the same names to the same variables. -/
  outer : f'.scopes.tail = f.scopes.tail
  /-- The innermost scope has gained or replaced some at most. -/
  inner : (f.scopes.headD []).Gains names base (f'.scopes.headD [])

/-- A call stack after work in its innermost call. -/
structure CallStack.Balanced (names : List String) (base : Nat) (s s' : CallStack) : Prop where
  /-- There are as many calls. -/
  depth : s'.depth = s.depth
  /-- The calls below the innermost one are untouched. -/
  below : s'.frames.tail = s.frames.tail
  /-- The innermost call goes on. -/
  current : ∀ f f', s.current? = some f → s'.current? = some f' → f.Balanced names base f'

/-- The statements observed between two worlds ran in so many calls at most. -/
def World.ObservedWithin (limit : Nat) (w w' : World) : Prop :=
  ∃ seen, w'.trace.toList = w.trace.toList ++ seen ∧ ∀ entry ∈ seen, entry.depth ≤ limit

/-- A world after work in the innermost call that declares names of its own. -/
structure World.Balanced (limit : Nat) (names : List String) (w w' : World) : Prop where
  /-- The call stack is balanced. -/
  stack : w.stack.Balanced names w.memory.cells.size w'.stack
  /-- Variables are only added. -/
  grows : w.memory.cells.size ≤ w'.memory.cells.size
  /-- Calls never nested deeper. -/
  observed : w.ObservedWithin limit w'

/-- What may happen while work waits at the gate: its call stack is kept for it. -/
structure World.Meanwhile (limit : Nat) (w w' : World) : Prop where
  /-- The world is tidy again. -/
  tidy : w'.Tidy
  /-- The call stack is the same. -/
  stack : w'.stack = w.stack
  /-- Variables are only added. -/
  grows : w.memory.cells.size ≤ w'.memory.cells.size
  /-- Other calls nest as deep at most. -/
  observed : w.ObservedWithin limit w'

section Scopes

variable {names names' : List String} {base base' : Nat}

theorem Scope.Gains.refl (scope : Scope) : scope.Gains names base scope := fun _ => .inl rfl

theorem Scope.Gains.trans {a b c : Scope} (h : a.Gains names base b) (h' : b.Gains names base' c)
    (hle : base ≤ base') : a.Gains names base c := by
  intro x
  rcases h' x with hx | ⟨hx, id, hl, hid⟩
  · rw [hx]
    exact h x
  · exact .inr ⟨hx, id, hl, Nat.le_trans hle hid⟩

theorem Scope.Gains.widen {a b : Scope} (h : a.Gains names base b)
    (hsub : ∀ x ∈ names, x ∈ names') : a.Gains names' base b :=
  fun x => (h x).imp id fun ⟨hx, hid⟩ => ⟨hsub x hx, hid⟩

/-- Binding a new variable to a name. -/
theorem Scope.gains_bind (scope : Scope) (name : String) (id : Nat) :
    scope.Gains [name] id (Scope.bind name id scope) := by
  intro x
  by_cases hx : x = name
  · subst hx
    exact .inr ⟨List.mem_singleton.mpr rfl, id, lookup_bind_self scope x id, Nat.le_refl id⟩
  · exact .inl (lookup_bind_ne scope id hx)

theorem Frame.Balanced.trans {f g h : Frame} (hf : f.Balanced names base g)
    (hg : g.Balanced names base' h) (hle : base ≤ base') : f.Balanced names base h where
  method := hg.method.trans hf.method
  name := hg.name.trans hf.name
  count := hg.count.trans hf.count
  outer := hg.outer.trans hf.outer
  inner := hf.inner.trans hg.inner hle

/-- A call whose scopes stay as they are. -/
theorem Frame.balanced_of_scopes {f f' : Frame} (hm : f'.method = f.method) (hn : f'.name = f.name)
    (hs : f'.scopes = f.scopes) : f.Balanced names base f' :=
  ⟨hm, hn, by rw [hs], by rw [hs], by rw [hs]; exact .refl _⟩

namespace CallStack

variable {s s' s'' : CallStack}

theorem Balanced.trans (h : s.Balanced names base s') (h' : s'.Balanced names base' s'')
    (hle : base ≤ base') : s.Balanced names base s'' where
  depth := h'.depth.trans h.depth
  below := h'.below.trans h.below
  current := by
    intro f f'' hf hf''
    cases hf' : s'.current? with
    | some f' => exact (h.current f f' hf hf').trans (h'.current f' f'' hf' hf'') hle
    | none =>
      have hempty : s'.frames = [] := List.head?_eq_none_iff.mp hf'
      have hsome : s''.frames ≠ [] := by
        rintro hnil
        rw [current?, hnil] at hf''
        cases hf''
      have hdepth := h'.depth
      rw [s''.depth_eq, s'.depth_eq, hempty] at hdepth
      exact absurd (List.length_eq_zero_iff.mp hdepth) hsome

/-- Changing the innermost call. -/
theorem balanced_mapCurrent (s : CallStack) {g : Frame → Frame}
    (hg : ∀ f, s.current? = some f → f.Balanced names base (g f)) :
    s.Balanced names base (s.mapCurrent g) where
  depth := rfl
  below := by
    show (s.frames.modifyHead g).tail = s.frames.tail
    cases s.frames <;> rfl
  current := by
    intro f f' hf hf'
    change (s.frames.modifyHead g).head? = some f' at hf'
    rw [List.head?_modifyHead, show s.frames.head? = some f from hf] at hf'
    cases hf'
    exact hg f hf

theorem balanced_refl (s : CallStack) : s.Balanced names base s where
  depth := rfl
  below := rfl
  current := by
    intro f f' hf hf'
    rw [hf] at hf'
    cases hf'
    exact Frame.balanced_of_scopes rfl rfl rfl

/-- A call stack with a call keeps one. -/
theorem Balanced.cons (h : s.Balanced names base s') {f : Frame} {below : List Frame}
    (hs : s.frames = f :: below) :
    ∃ f', s'.frames = f' :: below ∧ f.Balanced names base f' := by
  have hdepth := h.depth
  rw [s'.depth_eq, s.depth_eq, hs] at hdepth
  cases hs' : s'.frames with
  | nil =>
    rw [hs'] at hdepth
    cases hdepth
  | cons f' below' =>
    have hbelow := h.below
    rw [hs, hs'] at hbelow
    cases hbelow
    exact ⟨f', rfl, h.current f f' (by rw [current?, hs]; rfl) (by rw [current?, hs']; rfl)⟩

/-- A call stack without calls stays so. -/
theorem Balanced.nil (h : s.Balanced names base s') (hs : s.frames = []) : s'.frames = [] := by
  have hdepth := h.depth
  rw [s'.depth_eq, s.depth_eq, hs] at hdepth
  exact List.length_eq_zero_iff.mp hdepth

/-- The variables of a stack with an innermost call. -/
theorem ids_of_cons {f : Frame} {below : List Frame} (hs : s.frames = f :: below) :
    s.ids = f.ids ++ below.flatMap Frame.ids := by
  rw [ids, hs, List.flatMap_cons]

theorem ids_of_nil (hs : s.frames = []) : s.ids = [] := by
  rw [ids, hs, List.flatMap_nil]

/-- The frames after the innermost call was changed. -/
theorem frames_mapCurrent {f : Frame} {below : List Frame} (hs : s.frames = f :: below)
    (g : Frame → Frame) : (s.mapCurrent g).frames = g f :: below := by
  show s.frames.modifyHead g = g f :: below
  rw [hs, List.modifyHead_cons]

/-- Changing the innermost call but not its scopes leaves all variables bound. -/
theorem ids_mapCurrent (s : CallStack) {g : Frame → Frame} (hg : ∀ f, (g f).scopes = f.scopes) :
    (s.mapCurrent g).ids = s.ids := by
  cases hs : s.frames with
  | nil =>
    have hs' : (s.mapCurrent g).frames = [] := by
      show s.frames.modifyHead g = []
      rw [hs, List.modifyHead_nil]
    rw [ids_of_nil hs', ids_of_nil hs]
  | cons f below =>
    rw [ids_of_cons (frames_mapCurrent hs g), ids_of_cons hs, Frame.ids, Frame.ids, hg]

/-- Outside of calls there is no scope to declare a name in. -/
theorem declare?_of_nil (hs : s.frames = []) (name : String) (id : Nat) :
    s.declare? name id = none := by
  simp only [declare?, hs]

end CallStack

end Scopes

namespace World

variable {limit : Nat} {names names' : List String} {w w' w'' : World}

theorem ObservedWithin.refl (w : World) : w.ObservedWithin limit w :=
  ⟨[], by rw [List.append_nil], by simp⟩

theorem ObservedWithin.trans (h : w.ObservedWithin limit w') (h' : w'.ObservedWithin limit w'') :
    w.ObservedWithin limit w'' := by
  obtain ⟨seen, hseen, hdeep⟩ := h
  obtain ⟨seen', hseen', hdeep'⟩ := h'
  refine ⟨seen ++ seen', by rw [hseen', hseen, List.append_assoc], fun entry he => ?_⟩
  exact (List.mem_append.mp he).elim (hdeep entry) (hdeep' entry)

namespace Balanced

theorem refl (w : World) : w.Balanced limit names w :=
  ⟨w.stack.balanced_refl, Nat.le_refl _, .refl w⟩

theorem trans (h : w.Balanced limit names w') (h' : w'.Balanced limit names w'') :
    w.Balanced limit names w'' :=
  ⟨h.stack.trans h'.stack h.grows, Nat.le_trans h.grows h'.grows, h.observed.trans h'.observed⟩

theorem widen (h : w.Balanced limit names w') (hsub : ∀ x ∈ names, x ∈ names') :
    w.Balanced limit names' w' where
  stack :=
    { h.stack with
      current := fun f f' hf hf' =>
        { h.stack.current f f' hf hf' with
          inner := (h.stack.current f f' hf hf').inner.widen hsub } }
  grows := h.grows
  observed := h.observed

end Balanced

/-- The variables of the scopes that are closed, and those still bound. -/
theorem bound_restoreScopes (w : World) (mark : Nat) :
    (w.stack.restoreScopes mark).2 ++ (w.restoreScopes mark).bound = w.bound := by
  have hglobals : (w.restoreScopes mark).memory.globals = w.memory.globals :=
    Memory.globals_disposeAll _ _
  unfold bound
  rw [hglobals, ← List.append_assoc]
  congr 1
  show (w.stack.restoreScopes mark).2 ++ (w.stack.restoreScopes mark).1.ids = w.stack.ids
  cases hs : w.stack.frames with
  | nil =>
    simp only [CallStack.restoreScopes, hs]
    rfl
  | cons f below =>
    simp only [CallStack.restoreScopes, hs]
    rw [CallStack.ids_of_cons (CallStack.frames_mapCurrent hs _), CallStack.ids_of_cons hs,
      ← List.append_assoc, Frame.ids, Frame.ids, ← List.flatMap_append, List.take_append_drop]

/-- The variables of the call that is ended, and those still bound. -/
theorem bound_popFrame (w : World) : w.stack.popFrame.2.2 ++ w.popFrame.2.bound = w.bound := by
  have hglobals : w.popFrame.2.memory.globals = w.memory.globals := Memory.globals_disposeAll _ _
  unfold bound
  rw [hglobals, ← List.append_assoc]
  congr 1
  show w.stack.popFrame.2.2 ++ w.stack.popFrame.2.1.ids = w.stack.ids
  cases hs : w.stack.frames with
  | nil =>
    simp only [CallStack.popFrame, hs]
    rfl
  | cons f below =>
    simp only [CallStack.popFrame, hs]
    rw [CallStack.ids_of_cons hs]
    simp only [CallStack.ids, CallStack.below, hs, List.tail_cons]

namespace Tidy

/-- A world in which some variables are bound no more. -/
theorem of_gone (h : w.Tidy) (gone : List Nat) (hbound : gone ++ w'.bound = w.bound)
    (hsize : w'.memory.cells.size = w.memory.cells.size)
    (hscopes : ∀ f ∈ w'.stack.frames, f.scopes ≠ []) : w'.Tidy where
  scopes := hscopes
  once := (List.nodup_append.mp (hbound ▸ h.once)).2.1
  known := by
    intro id hid
    rw [hsize]
    exact h.known id (hbound ▸ List.mem_append_right _ hid)

/-- A world in which a new variable is bound, perhaps in place of another. -/
theorem of_new (h : w.Tidy) (rest : List Nat) (hrest : rest.Sublist w.bound)
    (hbound : w'.bound.Perm (w.memory.cells.size :: rest))
    (hsize : w'.memory.cells.size = w.memory.cells.size + 1)
    (hscopes : ∀ f ∈ w'.stack.frames, f.scopes ≠ []) : w'.Tidy where
  scopes := hscopes
  once := by
    rw [hbound.nodup_iff, List.nodup_cons]
    exact ⟨fun hm => Nat.lt_irrefl _ (h.known _ (hrest.subset hm)), h.once.sublist hrest⟩
  known := by
    intro id hid
    rw [hsize]
    rcases List.mem_cons.mp (hbound.mem_iff.mp hid) with rfl | hid
    · exact Nat.lt_succ_self _
    · exact Nat.lt_succ_of_lt (h.known id (hrest.subset hid))

/-- Changing the innermost call but not its scopes. -/
theorem mapCurrent (h : w.Tidy) {g : Frame → Frame} (hg : ∀ f, (g f).scopes = f.scopes) :
    { w with stack := w.stack.mapCurrent g }.Tidy := by
  refine h.of_gone [] ?_ rfl ?_
  · show (w.stack.mapCurrent g).ids ++ w.memory.globals = _
    rw [CallStack.ids_mapCurrent _ hg]
    rfl
  · intro f hf
    cases hs : w.stack.frames with
    | nil =>
      change f ∈ w.stack.frames.modifyHead g at hf
      rw [hs] at hf
      cases hf
    | cons f₀ below =>
      rw [CallStack.frames_mapCurrent hs] at hf
      rcases List.mem_cons.mp hf with rfl | hf
      · rw [hg]
        exact h.scopes f₀ (hs ▸ List.mem_cons_self)
      · exact h.scopes f (hs ▸ List.mem_cons_of_mem _ hf)

/-- A new variable is bound in the innermost scope. -/
theorem bindNew (h : w.Tidy) {f : Frame} {below : List Frame} (hs : w.stack.frames = f :: below)
    (limit : Nat) (c : Cell) :
    let v := { w with
      memory := (w.memory.alloc c).2
      stack := w.stack.mapCurrent (·.bind c.name w.memory.cells.size) }
    v.Tidy ∧ w.Balanced limit [c.name] v := by
  intro v
  obtain ⟨inner, outer, hf⟩ := List.exists_cons_of_ne_nil (h.scopes f (hs ▸ List.mem_cons_self))
  have hbind : f.bind c.name w.memory.cells.size =
      { f with scopes := Scope.bind c.name w.memory.cells.size inner :: outer } := by
    simp only [Frame.bind, hf]
  have hframes : v.stack.frames = f.bind c.name w.memory.cells.size :: below :=
    CallStack.frames_mapCurrent hs _
  refine ⟨h.of_new ((Scope.ids (inner.filter fun entry => entry.1 ≠ c.name) ++
    outer.flatMap Scope.ids ++ below.flatMap Frame.ids) ++ w.memory.globals) ?_ ?_ ?_ ?_, ?_⟩
  · unfold bound
    rw [CallStack.ids_of_cons hs, Frame.ids, hf, List.flatMap_cons]
    exact (((List.filter_sublist.map _).append_right _).append_right _).append_right _
  · unfold bound
    rw [CallStack.ids_of_cons hframes, Frame.ids, hbind]
    exact .refl _
  · exact Memory.size_alloc _ _
  · intro g hg
    rw [hframes, hbind] at hg
    rcases List.mem_cons.mp hg with rfl | hg
    · exact List.cons_ne_nil _ _
    · exact h.scopes g (hs ▸ List.mem_cons_of_mem _ hg)
  · refine ⟨w.stack.balanced_mapCurrent fun f' hf' => ?_, ?_, .refl w⟩
    · obtain rfl : f = f' := by
        rw [CallStack.current?, hs] at hf'
        exact Option.some.inj hf'
      rw [hbind]
      refine ⟨rfl, rfl, ?_, ?_, ?_⟩
      · rw [hf]
        rfl
      · rw [hf]
        rfl
      · rw [hf]
        exact Scope.gains_bind inner c.name _
    · rw [show v.memory.cells.size = w.memory.cells.size + 1 from Memory.size_alloc _ _]
      exact Nat.le_succ _

/-- Outside of calls a new variable stays unbound or becomes a global one. -/
theorem addGlobal (h : w.Tidy) (c : Cell) :
    { w with memory := (w.memory.alloc c).2.declareGlobal w.memory.cells.size }.Tidy := by
  refine h.of_new (w.stack.ids ++ w.memory.globals.filter fun g =>
    ((w.memory.alloc c).2.cell g).name ≠ ((w.memory.alloc c).2.cell w.memory.cells.size).name)
    ?_ ?_ ?_ h.scopes
  · exact List.filter_sublist.append_left _
  · refine (List.Perm.append_left _ (List.perm_append_singleton _ _)).trans ?_
    exact List.perm_middle
  · exact Memory.size_alloc _ _

/-- The innermost scope of a tidy world takes declarations. -/
theorem declare?_eq (h : w.Tidy) {f : Frame} {below : List Frame}
    (hs : w.stack.frames = f :: below) (name : String) (id : Nat) :
    w.stack.declare? name id = some (w.stack.mapCurrent (·.bind name id)) := by
  have hne := h.scopes f (hs ▸ List.mem_cons_self)
  simp only [CallStack.declare?, hs]
  rw [if_neg (by simpa using hne)]

/-- A variable is declared. -/
theorem declare (h : w.Tidy) (limit : Nat) (c : Cell) :
    (w.declare c).Tidy ∧ w.Balanced limit [c.name] (w.declare c) := by
  have hgrows : w.memory.cells.size ≤ (w.memory.alloc c).2.cells.size := by
    rw [Memory.size_alloc]
    exact Nat.le_succ _
  unfold World.declare
  dsimp only [Memory.fst_alloc]
  cases hs : w.stack.frames with
  | nil =>
    rw [CallStack.declare?_of_nil hs]
    exact ⟨h.addGlobal c, w.stack.balanced_refl, hgrows, .refl w⟩
  | cons f below =>
    rw [h.declare?_eq hs]
    exact h.bindNew hs limit c

/-- A parameter or an exception is declared. -/
theorem declareLocal (h : w.Tidy) (limit : Nat) (c : Cell) :
    (w.declareLocal c).Tidy ∧ w.Balanced limit [c.name] (w.declareLocal c) := by
  unfold World.declareLocal
  dsimp only [Memory.fst_alloc]
  cases hs : w.stack.frames with
  | nil =>
    rw [CallStack.declare?_of_nil hs]
    have hsize : (w.memory.alloc c).2.cells.size = w.memory.cells.size + 1 := Memory.size_alloc _ _
    refine ⟨⟨h.scopes, h.once, fun id hid => ?_⟩, w.stack.balanced_refl, ?_, .refl w⟩
    · rw [hsize]
      exact Nat.lt_succ_of_lt (h.known id hid)
    · rw [hsize]
      exact Nat.le_succ _
  | cons f below =>
    rw [h.declare?_eq hs]
    exact h.bindNew hs limit c

/-- A scope is opened. -/
theorem pushScope (h : w.Tidy) : w.pushScope.Tidy := by
  cases hs : w.stack.frames with
  | nil =>
    refine h.of_gone [] ?_ rfl ?_
    · show w.stack.pushScope.ids ++ w.memory.globals = _
      rw [CallStack.ids_of_nil (show w.stack.frames.modifyHead _ = [] by rw [hs]; rfl), bound,
        CallStack.ids_of_nil hs]
    · intro f hf
      change f ∈ w.stack.frames.modifyHead _ at hf
      rw [hs] at hf
      cases hf
  | cons f below =>
    have hframes : w.pushScope.stack.frames = { f with scopes := [] :: f.scopes } :: below :=
      CallStack.frames_mapCurrent hs _
    refine h.of_gone [] ?_ rfl ?_
    · show w.pushScope.stack.ids ++ w.memory.globals = _
      rw [CallStack.ids_of_cons hframes, bound, CallStack.ids_of_cons hs]
      rfl
    · intro g hg
      rw [hframes] at hg
      rcases List.mem_cons.mp hg with rfl | hg
      · exact List.cons_ne_nil _ _
      · exact h.scopes g (hs ▸ List.mem_cons_of_mem _ hg)

/-- Scopes are closed. -/
theorem restoreScopes (h : w.Tidy) (mark : Nat) : (w.restoreScopes mark).Tidy := by
  refine h.of_gone _ (w.bound_restoreScopes mark) (Memory.size_disposeAll _ _) ?_
  intro g hg
  change g ∈ (w.stack.restoreScopes mark).1.frames at hg
  cases hs : w.stack.frames with
  | nil =>
    simp only [CallStack.restoreScopes, hs] at hg
    cases hg
  | cons f below =>
    simp only [CallStack.restoreScopes, hs] at hg
    rw [CallStack.frames_mapCurrent hs] at hg
    rcases List.mem_cons.mp hg with rfl | hg
    · have hpos := List.length_pos_iff.mpr (h.scopes f (hs ▸ List.mem_cons_self))
      refine List.length_pos_iff.mp ?_
      rw [List.length_drop]
      omega
    · exact h.scopes g (hs ▸ List.mem_cons_of_mem _ hg)

/-- A call begins. -/
theorem pushFrame (h : w.Tidy) (m : Method) : (w.pushFrame m).Tidy := by
  refine h.of_gone [] rfl rfl fun f hf => ?_
  rcases List.mem_cons.mp hf with rfl | hf
  · exact List.cons_ne_nil _ _
  · exact h.scopes f hf

/-- A call ends. -/
theorem popFrame (h : w.Tidy) : w.popFrame.2.Tidy := by
  refine h.of_gone _ w.bound_popFrame (Memory.size_disposeAll _ _) ?_
  intro g hg
  change g ∈ w.stack.popFrame.2.1.frames at hg
  refine h.scopes g ?_
  cases hs : w.stack.frames with
  | nil =>
    simp only [CallStack.popFrame, hs] at hg
    exact absurd hg List.not_mem_nil
  | cons f below =>
    simp only [CallStack.popFrame, hs, CallStack.below, List.tail_cons] at hg
    exact List.mem_cons_of_mem _ hg

end Tidy

/-- Closing the scope that was opened for some work balances the stack. -/
theorem Balanced.closeScope (hw : w.Tidy) (h : w.pushScope.Balanced limit names w') :
    w.Balanced limit names' (w'.restoreScopes w.stack.scopeMark) := by
  have hgrows : w.memory.cells.size ≤ (w'.restoreScopes w.stack.scopeMark).memory.cells.size := by
    rw [show (w'.restoreScopes w.stack.scopeMark).memory.cells.size = w'.memory.cells.size from
      Memory.size_disposeAll _ _]
    exact h.grows
  refine ⟨?_, hgrows, h.observed⟩
  show w.stack.Balanced names' _ (w'.stack.restoreScopes w.stack.scopeMark).1
  cases hs : w.stack.frames with
  | nil =>
    have hnil : w'.stack.frames = [] :=
      h.stack.nil (show w.stack.frames.modifyHead _ = [] by rw [hs]; rfl)
    simp only [CallStack.restoreScopes, hnil]
    refine ⟨h.stack.depth, by rw [hnil, hs], fun f f' hf => ?_⟩
    rw [CallStack.current?, hs] at hf
    cases hf
  | cons f below =>
    obtain ⟨f', hf', hbal⟩ := h.stack.cons
      (show w.pushScope.stack.frames = { f with scopes := [] :: f.scopes } :: below from
        CallStack.frames_mapCurrent hs _)
    have hne : 0 < f.scopes.length :=
      List.length_pos_iff.mpr (hw.scopes f (hs ▸ List.mem_cons_self))
    have hcount : f'.scopes.length = f.scopes.length + 1 := hbal.count
    have hmark : w.stack.scopeMark = f.scopes.length := by
      simp only [CallStack.scopeMark, hs]
    have hsurplus : f'.scopes.length - max w.stack.scopeMark 1 = 1 := by
      rw [hcount, hmark]
      omega
    simp only [CallStack.restoreScopes, hf', hsurplus]
    have hscopes : f'.scopes.drop 1 = f.scopes := by
      rw [List.drop_one]
      exact hbal.outer
    refine ⟨h.stack.depth, ?_, fun g g' hg hg' => ?_⟩
    · rw [CallStack.frames_mapCurrent hf', hs]
      rfl
    · rw [CallStack.current?, hs] at hg
      rw [CallStack.current?, CallStack.frames_mapCurrent hf'] at hg'
      cases hg
      cases hg'
      exact Frame.balanced_of_scopes hbal.method hbal.name hscopes

/-- Ending the call that was begun for some work balances the stack. -/
theorem Balanced.finish {m : Method} (h : (w.pushFrame m).Balanced limit names w') :
    w.Balanced limit names' w'.popFrame.2 := by
  have hgrows : w.memory.cells.size ≤ w'.popFrame.2.memory.cells.size := by
    rw [show w'.popFrame.2.memory.cells.size = w'.memory.cells.size from
      Memory.size_disposeAll _ _]
    exact h.grows
  refine ⟨?_, hgrows, h.observed⟩
  show w.stack.Balanced names' _ w'.stack.popFrame.2.1
  obtain ⟨f', hf', -⟩ := h.stack.cons
    (show (w.pushFrame m).stack.frames = Frame.start m.id m.name :: w.stack.frames from rfl)
  have hframes : w'.stack.popFrame.2.1.frames = w.stack.frames := by
    simp only [CallStack.popFrame, hf', CallStack.below, List.tail_cons]
  refine ⟨?_, by rw [hframes], fun g g' hg hg' => ?_⟩
  · rw [CallStack.depth_eq, CallStack.depth_eq, hframes]
  · rw [CallStack.current?, hframes, show w.stack.frames.head? = some g from hg] at hg'
    cases hg'
    exact Frame.balanced_of_scopes rfl rfl rfl

end World

namespace Engine

open World

variable {limit : Nat}

end Engine

namespace Engine

end Engine

end Stepwise
