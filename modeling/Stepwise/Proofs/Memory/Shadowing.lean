import Stepwise.Memory.Snapshot
import Stepwise.Proofs.Simulation.Memory
import Stepwise.Proofs.Simulation.Stack

/-!
# Shadowed variables in snapshots

A name is looked up from the innermost scope outward, so that an inner
variable hides the outer ones of its name. A snapshot lists the variables of
all scopes, the outermost scope first, and puts them in the order of their
names; of one name the outermost variable stays in front, and this is the one
that a snapshot gives for the name. It gives one exactly if the name can be
looked up, and it gives the visible one if no two scopes bind the name.
-/

namespace Stepwise

/-- Something that is done to variables and to a call stack. -/
inductive StackMove where
  /-- Make a variable. -/
  | create (c : Cell)
  /-- Store a value in a variable, if its shape accepts the value. -/
  | store (id : Nat) (value : Val)
  /-- Bind a variable to its name in the innermost scope. -/
  | declare (id : Nat)
  /-- Begin a call. -/
  | pushFrame (method : Nat) (name : String)
  /-- End the innermost call. -/
  | popFrame
  /-- Open a scope. -/
  | pushScope
  /-- Close scopes until so many are left. -/
  | restoreScopes (mark : Nat)

namespace StackMove

/-- The variables and the call stack afterwards. -/
def apply (m : Memory) (s : CallStack) : StackMove → Memory × CallStack
  | .create c => ((m.alloc c).2, s)
  | .store id value =>
    match m.store id value with
    | .ok m' => (m', s)
    | .error _ => (m, s)
  | .declare id =>
    if id < m.cells.size then (m, (s.declare? (m.cell id).name id).getD s) else (m, s)
  | .pushFrame method name => (m, s.pushFrame method name)
  | .popFrame => (m.disposeAll s.popFrame.2.2, s.popFrame.2.1)
  | .pushScope => (m, s.pushScope)
  | .restoreScopes mark => (m.disposeAll (s.restoreScopes mark).2, (s.restoreScopes mark).1)

/-- The variables and the call stack after some moves, from a stack without calls. -/
def run (moves : List StackMove) (m : Memory) (id : Nat) : Memory × CallStack :=
  moves.foldl (fun state move => move.apply state.1 state.2) (m, .fresh id)

end StackMove

/-- Every scope of the call binds variables to their own names. -/
def Frame.Named (m : Memory) (f : Frame) : Prop :=
  ∀ scope ∈ f.scopes, ∀ entry ∈ scope,
    entry.2 < m.cells.size ∧ (m.cell entry.2).name = entry.1

/-- Every scope of a call stack binds variables to their own names. -/
def CallStack.Named (m : Memory) (s : CallStack) : Prop := ∀ f ∈ s.frames, f.Named m

section Names

variable {m m' : Memory} {s : CallStack} {f : Frame}

/-- Variables may be added and their values may change. -/
theorem CallStack.Named.memory (h : s.Named m)
    (hm : ∀ id < m.cells.size, id < m'.cells.size ∧ (m'.cell id).name = (m.cell id).name) :
    s.Named m' := by
  intro f hf scope hscope entry hentry
  obtain ⟨hlt, hname⟩ := h f hf scope hscope entry hentry
  obtain ⟨hlt', hname'⟩ := hm entry.2 hlt
  exact ⟨hlt', hname'.trans hname⟩

/-- Replacing a variable by one of the same name changes no name. -/
theorem Memory.name_setCell {id : Nat} {c : Cell} (hc : c.name = (m.cell id).name) (j : Nat) :
    ((m.setCell id c).cell j).name = (m.cell j).name := by
  rw [Memory.cell_setCell]
  split
  · next h => rw [hc, h.1]
  · rfl

/-- Disposing of variables changes no name. -/
theorem Memory.name_disposeAll (m : Memory) (ids : List Nat) (j : Nat) :
    ((m.disposeAll ids).cell j).name = (m.cell j).name := by
  induction ids generalizing m with
  | nil => rfl
  | cons id ids ih =>
    show ((m.dispose id).disposeAll ids |>.cell j).name = _
    rw [ih]
    exact Memory.name_setCell (c := { m.cell id with value := .null }) rfl j

/-- A variable keeps its name when a value is stored in it. -/
theorem Cell.name_of_store {c c' : Cell} {value : Val} (h : c.store value = .ok c') :
    c'.name = c.name := by
  unfold Cell.store Cell.holding at h
  split at h
  · cases h
    rfl
  · cases h

/-- Only the innermost call changes. -/
theorem CallStack.Named.mapCurrent (h : s.Named m) {g : Frame → Frame}
    (hg : ∀ f, f.Named m → (g f).Named m) : (s.mapCurrent g).Named m := by
  intro f hf
  change f ∈ s.frames.modifyHead g at hf
  unfold CallStack.Named at h
  cases hs : s.frames with
  | nil =>
    rw [hs] at hf
    cases hf
  | cons first below =>
    rw [hs, List.modifyHead_cons] at hf
    rw [hs] at h
    rcases List.mem_cons.mp hf with rfl | hf
    · exact hg first (h first List.mem_cons_self)
    · exact h f (List.mem_cons_of_mem _ hf)

/-- Binding a variable to its name. -/
theorem Frame.Named.bind (h : f.Named m) {id : Nat} (hid : id < m.cells.size) :
    (f.bind (m.cell id).name id).Named m := by
  unfold Frame.bind
  split
  · next scope rest hs =>
    unfold Frame.Named at h
    rw [hs] at h
    intro other hother entry hentry
    rcases List.mem_cons.mp hother with rfl | hother
    · rcases Scope.mem_bind hentry with rfl | hentry
      · exact ⟨hid, rfl⟩
      · exact h scope List.mem_cons_self entry hentry
    · exact h other (List.mem_cons_of_mem _ hother) entry hentry
  · exact h

/-- Every move leaves variables bound to their own names. -/
theorem StackMove.named_apply (move : StackMove) (h : s.Named m) :
    (move.apply m s).2.Named (move.apply m s).1 := by
  have hdisposed : ∀ {s' : CallStack} (ids : List Nat), s'.Named m → s'.Named (m.disposeAll ids) :=
    fun ids h => h.memory fun id hid =>
      ⟨by rw [Memory.size_disposeAll]; exact hid, Memory.name_disposeAll m ids id⟩
  cases move with
  | create c =>
    refine h.memory fun id hid => ?_
    show id < (m.alloc c).2.cells.size ∧ ((m.alloc c).2.cell id).name = (m.cell id).name
    rw [Memory.size_alloc, Memory.cell_alloc, if_neg (Nat.ne_of_lt hid)]
    exact ⟨Nat.lt_succ_of_lt hid, rfl⟩
  | store id value =>
    cases hc : (m.cell id).store value with
    | error fault =>
      simp only [apply, Memory.store, hc]
      exact h
    | ok c =>
      simp only [apply, Memory.store, hc]
      refine h.memory fun j hj => ⟨?_, Memory.name_setCell (Cell.name_of_store hc) j⟩
      rw [Memory.size_setCell]
      exact hj
  | declare id =>
    unfold apply
    dsimp only
    split
    · next hid =>
      cases hs : s.frames with
      | nil =>
        simp only [CallStack.declare?, hs]
        exact h
      | cons f below =>
        simp only [CallStack.declare?, hs]
        split
        · exact h
        · exact h.mapCurrent fun f hf => hf.bind hid
    · exact h
  | pushFrame method name =>
    intro f hf
    rcases List.mem_cons.mp hf with rfl | hf
    · intro scope hscope entry hentry
      rw [List.mem_singleton.mp hscope] at hentry
      cases hentry
    · exact h f hf
  | popFrame =>
    refine hdisposed _ fun f hf => h f ?_
    change f ∈ s.popFrame.2.1.frames at hf
    cases hs : s.frames with
    | nil =>
      simp only [CallStack.popFrame, hs] at hf
      cases hf
    | cons top below =>
      simp only [CallStack.popFrame, hs, CallStack.below, List.tail_cons] at hf
      exact List.mem_cons_of_mem _ hf
  | pushScope =>
    refine h.mapCurrent fun f hf scope hscope entry hentry => ?_
    rcases List.mem_cons.mp hscope with rfl | hscope
    · cases hentry
    · exact hf scope hscope entry hentry
  | restoreScopes mark =>
    refine hdisposed _ ?_
    show (s.restoreScopes mark).1.Named m
    cases hs : s.frames with
    | nil =>
      simp only [CallStack.restoreScopes, hs]
      exact h
    | cons f below =>
      simp only [CallStack.restoreScopes, hs]
      exact h.mapCurrent fun f hf scope hscope => hf scope (List.mem_of_mem_drop hscope)

/-- However a call stack came about, variables are bound to their own names. -/
theorem StackMove.named_run (moves : List StackMove) (m : Memory) (id : Nat) :
    (run moves m id).2.Named (run moves m id).1 := by
  have hall : ∀ (moves : List StackMove) (state : Memory × CallStack), state.2.Named state.1 →
      (moves.foldl (fun state move => move.apply state.1 state.2) state).2.Named
        (moves.foldl (fun state move => move.apply state.1 state.2) state).1 := by
    intro moves
    induction moves with
    | nil => exact fun _ h => h
    | cons move rest ih => exact fun state h => ih _ (move.named_apply h)
  exact hall moves _ nofun

end Names

/-- The variable of a name in the outermost scope of the innermost call that binds it. -/
def CallStack.outermost? (s : CallStack) (name : String) : Option Nat :=
  s.current?.bind fun f => Scope.search f.scopes.reverse name

/-- Whether two scopes of the innermost call bind the name. -/
def CallStack.isShadowed (s : CallStack) (name : String) : Bool :=
  s.current?.any fun f => decide (1 < f.scopes.countP fun scope => (scope.lookup name).isSome)

/-- A scope is searched before the scopes around it. -/
theorem Scope.search_cons (scope : Scope) (outer : List Scope) (name : String) :
    Scope.search (scope :: outer) name = (scope.lookup name).or (Scope.search outer name) := by
  rw [Scope.search, List.findSome?_cons]
  cases scope.lookup name <;> rfl

namespace Snapshot

section Lists

variable (h : Heap) (m : Memory) (name : String)

/-- Sorting variables by name leaves those of one name in their order. -/
theorem find?_mergeSort (infos : List VariableInfo) :
    (infos.mergeSort fun a b => decide (a.name ≤ b.name)).find? (·.name == name) =
      infos.find? (·.name == name) := by
  let le : VariableInfo → VariableInfo → Bool := fun a b => decide (a.name ≤ b.name)
  let named : VariableInfo → Bool := (·.name == name)
  have htrans : ∀ a b c, le a b → le b c → le a c := fun a b c hab hbc =>
    decide_eq_true (String.le_trans (of_decide_eq_true hab) (of_decide_eq_true hbc))
  have htotal : ∀ a b, le a b || le b a := fun a b => by
    rcases String.le_total a.name b.name with hab | hba
    · exact Bool.or_eq_true_iff.mpr (.inl (decide_eq_true hab))
    · exact Bool.or_eq_true_iff.mpr (.inr (decide_eq_true hba))
  -- Variables of one name are in order already, so that sorting keeps their sequence.
  have hordered : (infos.filter named).Pairwise fun a b => le a b := by
    refine List.pairwise_of_forall_mem_list fun a ha b hb => ?_
    have hname := (List.mem_filter.mp ha).2
    have hname' := (List.mem_filter.mp hb).2
    rw [beq_iff_eq] at hname hname'
    have hsame : a.name = b.name := hname.trans hname'.symm
    exact decide_eq_true (hsame ▸ String.le_refl a.name)
  have hkept : (infos.filter named).Sublist ((infos.mergeSort le).filter named) := by
    have hsub := (List.sublist_mergeSort htrans htotal hordered List.filter_sublist).filter named
    rwa [List.filter_filter, List.filter_congr fun _ _ => Bool.and_self _] at hsub
  have hlength : (infos.filter named).length = ((infos.mergeSort le).filter named).length :=
    ((List.mergeSort_perm infos le).filter named).length_eq.symm
  rw [← List.head?_filter, ← List.head?_filter, hkept.eq_of_length hlength]

/-- A snapshot of a scope is searched as the scope is. -/
theorem find?_scope {scope : Scope} (hnamed : ∀ entry ∈ scope, (m.cell entry.2).name = entry.1) :
    (scope.ids.map (variableInfo h m)).find? (·.name == name) =
      (scope.lookup name).map (variableInfo h m) := by
  induction scope with
  | nil => rfl
  | cons entry rest ih =>
    have hrest := ih fun e he => hnamed e (List.mem_cons_of_mem _ he)
    have hentry : (variableInfo h m entry.2).name = entry.1 := hnamed entry List.mem_cons_self
    show (variableInfo h m entry.2 :: (Scope.ids rest).map (variableInfo h m)).find? _ = _
    rw [List.find?_cons, List.lookup_cons, hentry, hrest]
    by_cases hname : entry.1 = name
    · rw [beq_iff_eq.mpr hname, beq_iff_eq.mpr hname.symm]
      rfl
    · rw [beq_eq_false_iff_ne.mpr hname, beq_eq_false_iff_ne.mpr (Ne.symm hname)]

/-- A snapshot of scopes is searched as the scopes are, one after the other. -/
theorem find?_scopes {scopes : List Scope}
    (hnamed : ∀ scope ∈ scopes, ∀ entry ∈ scope, (m.cell entry.2).name = entry.1) :
    ((scopes.flatMap Scope.ids).map (variableInfo h m)).find? (·.name == name) =
      (Scope.search scopes name).map (variableInfo h m) := by
  induction scopes with
  | nil => rfl
  | cons scope rest ih =>
    have hrest := ih fun s hs => hnamed s (List.mem_cons_of_mem _ hs)
    have hfirst := find?_scope h m name (hnamed scope List.mem_cons_self)
    rw [List.flatMap_cons, List.map_append, List.find?_append, hfirst, hrest, Scope.search_cons]
    cases scope.lookup name <;> rfl

end Lists

/-- A snapshot gives the outermost variable of a name. -/
theorem find?_capture {m : Memory} {s : CallStack} (hnamed : s.Named m) (h : Heap)
    (name : String) :
    (capture h m s).find? 0 name = (s.outermost? name).map (variableInfo h m) := by
  unfold find? capture CallStack.outermost? CallStack.current?
  unfold CallStack.Named at hnamed
  cases hs : s.frames with
  | nil => rfl
  | cons f below =>
    rw [hs] at hnamed
    have hscopes : ∀ scope ∈ f.scopes.reverse, ∀ entry ∈ scope,
        (m.cell entry.2).name = entry.1 := fun scope hscope entry hentry =>
      (hnamed f List.mem_cons_self scope (List.mem_reverse.mp hscope) entry hentry).2
    show (frameInfo h m f).locals.find? _ = (Scope.search f.scopes.reverse name).map _
    rw [← find?_scopes h m name hscopes]
    exact find?_mergeSort name _

/-- A search finds something in scopes just when it does in the other direction. -/
theorem isSome_search_reverse (scopes : List Scope) (name : String) :
    (Scope.search scopes.reverse name).isSome = (Scope.search scopes name).isSome := by
  rw [Bool.eq_iff_iff, Scope.search, Scope.search, List.findSome?_isSome_iff,
    List.findSome?_isSome_iff]
  simp only [List.mem_reverse]

/-- If one scope at most binds a name, the direction of a search does not matter. -/
theorem search_reverse {scopes : List Scope} {name : String}
    (honce : scopes.countP (fun scope => (scope.lookup name).isSome) ≤ 1) :
    Scope.search scopes.reverse name = Scope.search scopes name := by
  induction scopes with
  | nil => rfl
  | cons scope rest ih =>
    have hreverse : Scope.search (scope :: rest).reverse name =
        (Scope.search rest.reverse name).or (scope.lookup name) := by
      simp only [Scope.search, List.reverse_cons, List.findSome?_append, List.findSome?_cons,
        List.findSome?_nil]
      cases scope.lookup name <;> rfl
    rw [hreverse, Scope.search_cons]
    cases hfound : scope.lookup name with
    | none =>
      rw [List.countP_cons_of_neg (by simp [hfound])] at honce
      rw [ih honce, Option.or_none, Option.none_or]
    | some id =>
      rw [List.countP_cons_of_pos (by simp [hfound])] at honce
      have hrest : ∀ other ∈ rest, other.lookup name = none := by
        have hzero : rest.countP (fun scope => (scope.lookup name).isSome) = 0 := by omega
        intro other hother
        exact Option.not_isSome_iff_eq_none.mp (List.countP_eq_zero.mp hzero other hother)
      have hnone : Scope.search rest.reverse name = none :=
        List.findSome?_eq_none_iff.mpr fun other hother => hrest other (List.mem_reverse.mp hother)
      rw [hnone]
      rfl

/-- What a snapshot gives for a name in the innermost call. -/
structure ShowsOutermost (h : Heap) (m : Memory) (s : CallStack) (name : String) : Prop where
  /-- It gives a variable exactly if the name can be looked up. -/
  present : ((capture h m s).find? 0 name).isSome = (s.lookup? name).isSome
  /-- It gives the outermost variable of the name, with its shape, descriptor and value. -/
  outermost : (capture h m s).find? 0 name = (s.outermost? name).map (variableInfo h m)
  /-- It gives the visible variable if no two scopes bind the name. -/
  visible : s.isShadowed name = false →
    (capture h m s).find? 0 name = (s.lookup? name).map (variableInfo h m)

/-- On every call stack that moves can lead to, a snapshot gives the outermost
variable of a name, which is the visible one if the name is not shadowed. -/
theorem shows_outermost (moves : List StackMove) (start : Memory) (id : Nat) (h : Heap)
    (name : String) :
    ShowsOutermost h (StackMove.run moves start id).1 (StackMove.run moves start id).2 name := by
  have houter := find?_capture (StackMove.named_run moves start id) h name
  generalize StackMove.run moves start id = state at houter
  obtain ⟨m, s⟩ := state
  refine ⟨?_, houter, fun hshadow => ?_⟩
  · rw [houter, Option.isSome_map, CallStack.outermost?, CallStack.lookup?]
    cases s.current? with
    | none => rfl
    | some f => exact isSome_search_reverse f.scopes name
  · rw [houter, CallStack.outermost?, CallStack.lookup?]
    unfold CallStack.isShadowed at hshadow
    cases hf : s.current? with
    | none => rfl
    | some f =>
      rw [hf, Option.any_some, decide_eq_false_iff_not, Nat.not_lt] at hshadow
      exact congrArg (Option.map (variableInfo h m)) (search_reverse hshadow)

end Snapshot

/-- A call declares a variable, opens a scope and declares another variable. -/
def StackMove.redeclaring (inner : String) : List StackMove :=
  [.pushFrame 0 "Main", .create ⟨"x", .scalar, .int 1⟩, .declare 0, .pushScope,
    .create ⟨inner, .scalar, .int 2⟩, .declare 1]

/-- A variable that is not shadowed is shown, from an inner scope and from an outer one. -/
theorem StackMove.redeclaring_other_visible :
    (run (redeclaring "y") {} 0).2.isShadowed "y" = false ∧
      (run (redeclaring "y") {} 0).2.isShadowed "x" = false ∧
      (run (redeclaring "y") {} 0).2.lookup? "y" = some 1 ∧
      Snapshot.ShowsOutermost {} (run (redeclaring "y") {} 0).1 (run (redeclaring "y") {} 0).2 "y" ∧
      Snapshot.ShowsOutermost {} (run (redeclaring "y") {} 0).1 (run (redeclaring "y") {} 0).2
        "x" :=
  ⟨rfl, rfl, rfl, Snapshot.shows_outermost _ _ _ _ _, Snapshot.shows_outermost _ _ _ _ _⟩

/-- Where an inner variable hides an outer one, the name denotes the inner one,
which holds two, and a snapshot gives the outer one, which holds one. -/
theorem StackMove.redeclaring_shows_hidden :
    (run (redeclaring "x") {} 0).2.lookup? "x" = some 1 ∧
      ((run (redeclaring "x") {} 0).1.cell 1).value = .int 2 ∧
      ((Snapshot.capture {} (run (redeclaring "x") {} 0).1 (run (redeclaring "x") {} 0).2).find? 0
        "x").map (·.value) = some (.int 1) := by
  refine ⟨rfl, rfl, ?_⟩
  rw [Snapshot.find?_capture (named_run (redeclaring "x") {} 0)]
  rfl

end Stepwise
