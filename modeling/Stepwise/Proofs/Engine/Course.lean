import Stepwise.Proofs.Engine.Balance
import Stepwise.Proofs.Engine.Chronicle
import Stepwise.Proofs.Engine.Shapes

/-!
# The course of variables

What a run does to variables, step by step. It declares variables in its calls
and disposes of them, and it stores values by assignments, which are statements
that it executes. A global variable therefore stays as it is, unless one of the
assignments executed on the way was made to it. While the run waits at the gate
other work may go on, which has its own call stack and the same kind of course.
-/

namespace Stepwise

open Engine

/-- The statement assigns to a variable, and the value is stored. -/
def Stmt.Stores (stmt : Stmt) (w : World) (id : Nat) (w' : World) : Prop :=
  ∃ name isGlobal place e span value c,
    stmt = .assign (.var name isGlobal place) e span ∧ w.lookup? name isGlobal = some id ∧
      (w.memory.cell id).store value = .ok c ∧ w' = { w with memory := w.memory.setCell id c }

/-- The execution is an assignment to the variable, which it has completed. -/
def Execution.Assigns (x : Execution) (id : Nat) : Prop := ∃ w, x.stmt.Stores w id x.finish

namespace World

/-- A step that leaves all variables alone which the calls in progress do not bind. -/
inductive Step : World → World → Prop where
  /-- Values, the host, the controls and the work that waits change. -/
  | aside (w : World) (heap : Heap) (host : Host) (controls : Controls) (stackCount : Nat)
      (jobs : List Job) : Step w { w with heap, host, controls, stackCount, jobs }
  /-- A variable is declared. -/
  | declare (w : World) (c : Cell) : Step w (w.declareLocal c)
  /-- A scope is opened. -/
  | openScope (w : World) : Step w w.pushScope
  /-- Scopes are closed. -/
  | closeScopes (w : World) (mark : Nat) : Step w (w.restoreScopes mark)
  /-- The place of a statement is noted. -/
  | span (w : World) (span : Span) : Step w { w with stack := w.stack.setSpan span }
  /-- The value to return is noted. -/
  | result (w : World) (value : Val) : Step w { w with stack := w.stack.setResult value }

end World

/-- How the variables of one world become those of another, with the statements executed on the
way, in the order in which they end. All of them have the property `P`. -/
inductive Course (code : Code) (P : Stmt → Prop) : World → World → List Execution → Prop where
  /-- An elementary step. -/
  | step {w w' : World} (quiet : w.Step w') : Course code P w w' []
  /-- One thing after the other. -/
  | seq {w v w' : World} {log log' : List Execution} (first : Course code P w v log)
      (second : Course code P v w' log') : Course code P w w' (log ++ log')
  /-- Work in a call of its own. -/
  | call (m : Method) {w v : World} {log : List Execution}
      (work : Course code P (w.pushFrame m) v log) : Course code P w v.popFrame.2 log
  /-- A statement is executed. If it is an assignment, the last that it does may be to store the
  value. -/
  | execution (x : Execution) {v : World} {log : List Execution} (fits : P x.stmt)
      (real : x.Real code) (work : Course code P (x.start.observe true x.stmt) v log)
      (last : v = x.finish ∨ ∃ id, x.stmt.Stores v id x.finish) :
      Course code P x.start x.after (log ++ [x])
  /-- Other work goes on, on a call stack that binds no global variable. -/
  | others {w v : World} {log : List Execution} (stack : CallStack)
      (apart : ∀ id ∈ stack.ids, id ∉ w.memory.globals)
      (work : Course code P { w with stack } v log) :
      Course code P w { v with stack := w.stack } log

namespace World

variable {w v w' : World}

section Scoped

/-- Every call has a scope. -/
def Scoped (w : World) : Prop := ∀ f ∈ w.stack.frames, f.scopes ≠ []

/-- Every call still has a scope, and there are as many calls. -/
structure Holds (w w' : World) : Prop where
  /-- Calls keep a scope. -/
  scopes : w.Scoped → w'.Scoped
  /-- As many calls are in progress. -/
  depth : w'.stack.depth = w.stack.depth

theorem holds_mapCurrent (w : World) (memory : Memory) {g : Frame → Frame}
    (hg : ∀ f, f.scopes ≠ [] → (g f).scopes ≠ []) :
    w.Holds { w with memory, stack := w.stack.mapCurrent g } := by
  refine ⟨fun hw f hf => ?_, rfl⟩
  change f ∈ w.stack.frames.modifyHead g at hf
  unfold Scoped at hw
  cases hframes : w.stack.frames with
  | nil =>
    rw [hframes] at hf
    cases hf
  | cons f₀ below =>
    rw [hframes] at hf hw
    rcases List.mem_cons.mp hf with rfl | hf
    · exact hg f₀ (hw f₀ List.mem_cons_self)
    · exact hw f (List.mem_cons_of_mem _ hf)

theorem holds_declareLocal (w : World) (c : Cell) : w.Holds (w.declareLocal c) := by
  unfold declareLocal CallStack.declare?
  dsimp only
  split
  · split
    · exact ⟨id, rfl⟩
    · refine w.holds_mapCurrent _ fun f hf => ?_
      unfold Frame.bind
      split
      · exact List.cons_ne_nil _ _
      · exact hf
  · exact ⟨id, rfl⟩

theorem holds_restoreScopes (w : World) (mark : Nat) : w.Holds (w.restoreScopes mark) := by
  have hstack : (w.restoreScopes mark).stack = (w.stack.restoreScopes mark).1 := rfl
  refine ⟨fun hw f hf => ?_, ?_⟩
  · rw [hstack] at hf
    unfold CallStack.restoreScopes at hf
    split at hf
    · next frame below hframes =>
      rw [CallStack.frames_mapCurrent hframes] at hf
      rcases List.mem_cons.mp hf with rfl | hf
      · -- one scope at least is left, since one was there
        have hscopes := List.length_pos_iff.mpr (hw frame (hframes ▸ List.mem_cons_self))
        refine List.ne_nil_of_length_pos ?_
        rw [List.length_drop]
        omega
      · exact hw f (hframes ▸ List.mem_cons_of_mem _ hf)
    · exact hw f hf
  · rw [hstack]
    unfold CallStack.restoreScopes
    split <;> rfl

theorem Step.holds (h : w.Step w') : w.Holds w' := by
  cases h with
  | aside => exact ⟨id, rfl⟩
  | declare c => exact w.holds_declareLocal c
  | openScope => exact w.holds_mapCurrent w.memory fun _ _ => List.cons_ne_nil _ _
  | closeScopes mark => exact w.holds_restoreScopes mark
  | span => exact w.holds_mapCurrent w.memory fun _ hf => hf
  | result => exact w.holds_mapCurrent w.memory fun _ hf => hf

/-- Work in a call of its own leaves the calls below it. -/
theorem Holds.popFrame {m : Method} (h : (w.pushFrame m).Holds w') : w.Holds w'.popFrame.2 := by
  have hdepth : w'.stack.depth = w.stack.depth + 1 := h.depth
  have hstack : w'.popFrame.2.stack = w'.stack.popFrame.2.1 := rfl
  obtain ⟨frame, below, hframes⟩ : ∃ frame below, w'.stack.frames = frame :: below := by
    refine List.exists_cons_of_ne_nil fun hnil => ?_
    rw [w'.stack.depth_eq, hnil] at hdepth
    cases hdepth
  refine ⟨fun hw f hf => ?_, ?_⟩
  · rw [hstack] at hf
    simp only [CallStack.popFrame, hframes, CallStack.below, List.tail_cons] at hf
    refine h.scopes (fun f hf => ?_) f (hframes ▸ List.mem_cons_of_mem _ hf)
    rcases List.mem_cons.mp hf with rfl | hf
    · exact List.cons_ne_nil _ _
    · exact hw f hf
  · rw [hstack]
    simp only [CallStack.popFrame, hframes, CallStack.below, hdepth, Nat.add_sub_cancel]

end Scoped

section Globals

/-- Global variables that no call binds stay as they are, except those that are assigned. -/
structure Respects (assigned : Nat → Prop) (w w' : World) : Prop where
  /-- The same variables are global. -/
  globals : w'.memory.globals = w.memory.globals
  /-- Variables are only added. -/
  grows : w.memory.cells.size ≤ w'.memory.cells.size
  /-- Calls only come to bind new variables. -/
  bound : ∀ id ∈ w'.stack.ids, id ∈ w.stack.ids ∨ w.memory.cells.size ≤ id
  /-- A global variable keeps its name and shape, and its value if it is not assigned. -/
  kept : ∀ id ∈ w.memory.globals, id < w.memory.cells.size → id ∉ w.stack.ids →
    (w'.memory.cell id).name = (w.memory.cell id).name ∧
      (w'.memory.cell id).shape = (w.memory.cell id).shape ∧
      ((w'.memory.cell id).value = (w.memory.cell id).value ∨ assigned id)

variable {assigned assigned' : Nat → Prop}

theorem Respects.mono (h : w.Respects assigned w') (ha : ∀ id, assigned id → assigned' id) :
    w.Respects assigned' w' :=
  { h with
    kept := fun id hid hlt hfree =>
      have ⟨hname, hshape, hvalue⟩ := h.kept id hid hlt hfree
      ⟨hname, hshape, hvalue.imp_right (ha id)⟩ }

theorem Respects.trans (h : w.Respects assigned v) (h' : v.Respects assigned w') :
    w.Respects assigned w' where
  globals := h'.globals.trans h.globals
  grows := Nat.le_trans h.grows h'.grows
  bound := by
    intro id hid
    rcases h'.bound id hid with hv | hnew
    · exact h.bound id hv
    · exact .inr (Nat.le_trans h.grows hnew)
  kept := by
    intro id hid hlt hfree
    have hfree' : id ∉ v.stack.ids := fun hv =>
      (h.bound id hv).elim hfree fun hnew => Nat.lt_irrefl _ (Nat.lt_of_lt_of_le hlt hnew)
    obtain ⟨hname, hshape, hvalue⟩ := h.kept id hid hlt hfree
    obtain ⟨hname', hshape', hvalue'⟩ :=
      h'.kept id (h.globals ▸ hid) (Nat.lt_of_lt_of_le hlt h.grows) hfree'
    refine ⟨hname'.trans hname, hshape'.trans hshape, ?_⟩
    rcases hvalue' with hsame | hassigned
    · rw [hsame]
      exact hvalue
    · exact .inr hassigned

/-- The calls come to bind no variable, and no variable changes that they do not bind. -/
theorem respects_of_cells (hglobals : w'.memory.globals = w.memory.globals)
    (hsize : w.memory.cells.size ≤ w'.memory.cells.size)
    (hbound : ∀ id ∈ w'.stack.ids, id ∈ w.stack.ids ∨ w.memory.cells.size ≤ id)
    (hcells : ∀ id < w.memory.cells.size, id ∉ w.stack.ids →
      w'.memory.cell id = w.memory.cell id) : w.Respects assigned w' where
  globals := hglobals
  grows := hsize
  bound := hbound
  kept := by
    intro id _ hlt hfree
    rw [hcells id hlt hfree]
    exact ⟨rfl, rfl, .inl rfl⟩

/-- Only other things than variables change. -/
theorem respects_of_eq (hmemory : w'.memory = w.memory) (hids : w'.stack.ids = w.stack.ids) :
    w.Respects assigned w' :=
  respects_of_cells (by rw [hmemory]) (Nat.le_of_eq (by rw [hmemory]))
    (fun _ hid => .inl (hids ▸ hid)) fun _ _ _ => by rw [hmemory]

/-- Variables are disposed of that were bound. -/
theorem respects_of_gone {gone : List Nat} (hmemory : w'.memory = w.memory.disposeAll gone)
    (hids : gone ++ w'.stack.ids = w.stack.ids) : w.Respects assigned w' := by
  refine respects_of_cells ?_ ?_ (fun id hid => .inl ?_) fun id _ hfree => ?_
  · rw [hmemory, Memory.globals_disposeAll]
  · exact Nat.le_of_eq (by rw [hmemory, Memory.size_disposeAll])
  · exact hids ▸ List.mem_append_right _ hid
  · rw [hmemory, Memory.cell_disposeAll _ fun hgone => hfree (hids ▸ List.mem_append_left _ hgone)]

theorem respects_restoreScopes (w : World) (mark : Nat) :
    w.Respects assigned (w.restoreScopes mark) := by
  refine respects_of_gone rfl ((List.append_left_inj w.memory.globals).mp ?_)
  have hglobals : (w.restoreScopes mark).memory.globals = w.memory.globals :=
    Memory.globals_disposeAll _ _
  have hbound := w.bound_restoreScopes mark
  unfold bound at hbound
  rwa [hglobals, ← List.append_assoc] at hbound

theorem respects_popFrame (w : World) : w.Respects assigned w.popFrame.2 := by
  refine respects_of_gone rfl ((List.append_left_inj w.memory.globals).mp ?_)
  have hglobals : w.popFrame.2.memory.globals = w.memory.globals := Memory.globals_disposeAll _ _
  have hbound := w.bound_popFrame
  unfold bound at hbound
  rwa [hglobals, ← List.append_assoc] at hbound

/-- A call comes to bind a variable. -/
theorem mem_ids_bind {f : Frame} {name : String} {new id : Nat} (h : id ∈ (f.bind name new).ids) :
    id ∈ f.ids ∨ id = new := by
  unfold Frame.bind at h
  split at h
  · next scope rest hscopes =>
    simp only [Frame.ids, hscopes, List.flatMap_cons, List.mem_append, Scope.bind, Scope.ids,
      List.map_cons, List.mem_cons] at h ⊢
    rcases h with (rfl | hid) | hid
    · exact .inr rfl
    · exact .inl (.inl ((List.filter_sublist.map _).subset hid))
    · exact .inl (.inr hid)
  · exact .inl h

theorem mem_ids_declareLocal {c : Cell} {id : Nat} (h : id ∈ (w.declareLocal c).stack.ids) :
    id ∈ w.stack.ids ∨ id = w.memory.cells.size := by
  change id ∈ ((w.stack.declare? c.name w.memory.cells.size).getD w.stack).ids at h
  unfold CallStack.declare? at h
  split at h
  · next frame below hframes =>
    split at h
    · exact .inl h
    · rw [Option.getD_some, CallStack.ids_of_cons (CallStack.frames_mapCurrent hframes _),
        List.mem_append] at h
      rw [CallStack.ids_of_cons hframes, List.mem_append]
      rcases h with h | h
      · exact (mem_ids_bind h).imp_left .inl
      · exact .inl (.inr h)
  · exact .inl h

theorem respects_declareLocal (w : World) (c : Cell) : w.Respects assigned (w.declareLocal c) := by
  refine respects_of_cells rfl ?_ (fun id hid => ?_) fun id hlt _ => ?_
  · show w.memory.cells.size ≤ (w.memory.alloc c).2.cells.size
    rw [Memory.size_alloc]
    exact Nat.le_succ _
  · exact (mem_ids_declareLocal hid).imp_right fun h => Nat.le_of_eq h.symm
  · show (w.memory.alloc c).2.cell id = _
    rw [Memory.cell_alloc, if_neg (Nat.ne_of_lt hlt)]

/-- A scope that is opened is empty. -/
theorem ids_pushScope (w : World) : w.pushScope.stack.ids = w.stack.ids := by
  show (w.stack.frames.modifyHead _).flatMap Frame.ids = w.stack.frames.flatMap Frame.ids
  cases w.stack.frames <;> rfl

theorem Step.respects (h : w.Step w') : w.Respects assigned w' := by
  cases h with
  | aside => exact respects_of_eq rfl rfl
  | declare c => exact w.respects_declareLocal c
  | openScope => exact respects_of_eq rfl w.ids_pushScope
  | closeScopes mark => exact w.respects_restoreScopes mark
  | span => exact respects_of_eq rfl (w.stack.ids_mapCurrent fun _ => rfl)
  | result => exact respects_of_eq rfl (w.stack.ids_mapCurrent fun _ => rfl)

/-- An assignment changes the value of its variable only. -/
theorem respects_of_stores {stmt : Stmt} {id : Nat} (h : stmt.Stores w id w') :
    w.Respects (· = id) w' := by
  obtain ⟨name, isGlobal, place, e, span, value, c, -, -, hstore, rfl⟩ := h
  obtain rfl := (Cell.eq_of_holding hstore).1
  refine ⟨rfl, Nat.le_of_eq (Memory.size_setCell _ _ _).symm, fun _ hid => .inl hid,
    fun j _ hlt _ => ?_⟩
  by_cases hj : j = id
  · subst hj
    rw [Memory.cell_setCell_self _ _ hlt]
    exact ⟨rfl, rfl, .inr rfl⟩
  · rw [Memory.cell_setCell_ne _ _ hj]
    exact ⟨rfl, rfl, .inl rfl⟩

end Globals

end World

/-- Storing a value leaves calls, controls and trace as they are. -/
theorem Stmt.Stores.rest {stmt : Stmt} {w w' : World} {id : Nat} (h : stmt.Stores w id w') :
    w'.stack = w.stack ∧ w'.trace = w.trace ∧ w'.controls = w.controls := by
  obtain ⟨_, _, _, _, _, _, _, -, -, -, rfl⟩ := h
  exact ⟨rfl, rfl, rfl⟩

/-- After an execution the world is as its work has left it; perhaps the end is observed. -/
theorem Execution.after_eq (x : Execution) :
    ∃ trace clock, x.after = { x.finish with trace, clock } ∧
      ∃ seen, trace.toList = x.finish.trace.toList ++ seen := by
  unfold after
  split
  · exact ⟨_, _, rfl, _, Array.toList_push⟩
  · exact ⟨x.finish.trace, x.finish.clock, rfl, [], (List.append_nil _).symm⟩

namespace Course

variable {code : Code} {P : Stmt → Prop} {w w' : World} {log : List Execution}

theorem refl (w : World) : Course code P w w [] :=
  .step (.aside w w.heap w.host w.controls w.stackCount w.jobs)

/-- Steps before and after some work. -/
theorem around {v v' : World} (before : w.Step v) (work : Course code P v v' log)
    (after : v'.Step w') : Course code P w w' log := by
  have hcourse := ((Course.step before).seq work).seq (.step after)
  rwa [List.nil_append, List.append_nil] at hcourse

/-- Whatever its course, work leaves calls and scopes in order. -/
theorem holds (h : Course code P w w' log) : w.Holds w' := by
  induction h with
  | step quiet => exact quiet.holds
  | seq first second ih ih' =>
    exact ⟨fun hw => ih'.scopes (ih.scopes hw), ih'.depth.trans ih.depth⟩
  | call m work ih => exact ih.popFrame
  | @execution x v log fits real work last ih =>
    obtain ⟨trace, clock, hafter, -⟩ := x.after_eq
    have hstack : x.after.stack = v.stack := by
      rw [hafter]
      rcases last with rfl | ⟨id, hstores⟩
      · rfl
      · exact hstores.rest.1
    exact ⟨fun hw f hf => ih.scopes hw f (hstack ▸ hf), by rw [hstack]; exact ih.depth⟩
  | others stack apart work ih => exact ⟨id, rfl⟩

/-- What was observed stays observed. -/
theorem trace (h : Course code P w w' log) :
    ∃ seen, w'.trace.toList = w.trace.toList ++ seen := by
  induction h with
  | step quiet => exact ⟨[], by cases quiet <;> exact (List.append_nil _).symm⟩
  | seq first second ih ih' =>
    obtain ⟨seen, hseen⟩ := ih
    obtain ⟨seen', hseen'⟩ := ih'
    exact ⟨seen ++ seen', by rw [hseen', hseen, List.append_assoc]⟩
  | call m work ih => exact ih
  | @execution x v log fits real work last ih =>
    obtain ⟨trace, clock, hafter, seen', hseen'⟩ := x.after_eq
    obtain ⟨seen, hseen⟩ := ih
    have htrace : x.finish.trace = v.trace := by
      rcases last with rfl | ⟨id, hstores⟩
      · rfl
      · exact hstores.rest.2.1
    rw [hafter]
    show ∃ more, trace.toList = x.start.trace.toList ++ more
    rw [hseen', htrace, hseen, World.observe, Array.toList_push, List.append_assoc,
      List.append_assoc]
    exact ⟨_, rfl⟩
  | others stack apart work ih => exact ih

/-- Global variables stay as they are, except those to which a statement assigns. -/
theorem respects (h : Course code P w w' log) :
    w.Respects (fun id => ∃ x ∈ log, x.Assigns id) w' := by
  induction h with
  | step quiet => exact quiet.respects
  | @seq w v w' log log' first second ih ih' =>
    have hfirst : w.Respects (fun id => ∃ x ∈ log ++ log', x.Assigns id) v :=
      ih.mono fun id ⟨x, hx, ha⟩ => ⟨x, List.mem_append_left _ hx, ha⟩
    exact hfirst.trans (ih'.mono fun id ⟨x, hx, ha⟩ => ⟨x, List.mem_append_right _ hx, ha⟩)
  | @call m w v log work ih =>
    have hbegin : w.Respects (fun id => ∃ x ∈ log, x.Assigns id) (w.pushFrame m) :=
      World.respects_of_eq rfl rfl
    exact (hbegin.trans ih).trans v.respects_popFrame
  | @execution x v log fits real work last ih =>
    obtain ⟨trace, clock, hafter, -⟩ := x.after_eq
    have hbegin : x.start.Respects (fun id => ∃ y ∈ log ++ [x], y.Assigns id)
        (x.start.observe true x.stmt) := World.respects_of_eq rfl rfl
    have hend : x.finish.Respects (fun id => ∃ y ∈ log ++ [x], y.Assigns id) x.after := by
      rw [hafter]
      exact World.respects_of_eq rfl rfl
    have hwork : (x.start.observe true x.stmt).Respects
        (fun id => ∃ y ∈ log ++ [x], y.Assigns id) v :=
      ih.mono fun id ⟨y, hy, ha⟩ => ⟨y, List.mem_append_left _ hy, ha⟩
    refine (hbegin.trans hwork).trans ?_
    rcases last with rfl | ⟨id, hstores⟩
    · exact hend
    · refine ((World.respects_of_stores hstores).mono fun j hj => ?_).trans hend
      exact ⟨x, List.mem_append_right _ List.mem_cons_self, v, hj ▸ hstores⟩
  | @others w v log stack apart work ih =>
    exact ⟨ih.globals, ih.grows, fun _ hid => .inl hid, fun id hid hlt _ =>
      ih.kept id hid hlt fun hbound => apart id hbound hid⟩

end Course

end Stepwise
