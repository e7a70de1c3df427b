import Stepwise.Proofs.Control.Cancellation
import Stepwise.Engine.Task

/-!
# Changes of the world

Whatever runs changes the world by elementary changes, one after the other.
Each of them is labelled with what happens at the controls. An engine that
passes the gate begins a statement at once, and no statement begins
otherwise, so that the labels tell how many statements have begun.
-/

namespace Stepwise

open Controls (Act)

namespace World

/-- The statements that have begun, first one first. -/
def begun (w : World) : List TraceEntry := w.trace.toList.filter (·.isBefore)

/-- A statement that is about to run has begun. -/
theorem begun_observe_true (w : World) (stmt : Stmt) :
    ∃ entry, (w.observe true stmt).begun = w.begun ++ [entry] := by
  simp only [begun, observe, Array.toList_push, List.filter_append]
  exact ⟨_, rfl⟩

/-- A statement that has run does not begin. -/
theorem begun_observe_false (w : World) (stmt : Stmt) : (w.observe false stmt).begun = w.begun := by
  simp [begun, observe]

/-- An elementary change, with what happens at the controls. -/
inductive Change : List Act → World → World → Prop where
  /-- Values, the host, the call stack at work and the work that waits change. -/
  | around (w : World) (heap : Heap) (host : Host) (stack : CallStack) (stackCount : Nat)
      (jobs : List Job) : Change [] w { w with heap, host, stack, stackCount, jobs }
  /-- A value is stored in a variable that takes it. -/
  | store {w : World} {id : Nat} {value : Val} {c : Cell} :
      (w.memory.cell id).store value = .ok c →
      Change [] w { w with memory := w.memory.setCell id c }
  /-- A variable is made that takes its first value. -/
  | make {w : World} {name : String} {shape : Shape} {value : Val} {c : Cell} :
      Cell.holding name shape value = .ok c →
      Change [] w { w with memory := (w.memory.alloc c).2 }
  /-- Variables are disposed of. -/
  | dispose (w : World) (ids : List Nat) :
      Change [] w { w with memory := w.memory.disposeAll ids }
  /-- Variables become global, or are global no longer. -/
  | publish (w : World) (globals : List Nat) :
      Change [] w { w with memory := { w.memory with globals } }
  /-- A statement has run. -/
  | complete (w : World) (stmt : Stmt) : Change [] w (w.observe false stmt)
  /-- Something happens at the controls, and no engine passes the gate. The
  session ends when all engines are turned away. -/
  | act (w : World) (a : Act) : Controls.passes (w.controls.mark? a).toList = 0 →
      (a = .close → w.controls.gate.cancelled = true) →
      Change [a] w { w with controls := w.controls.act a }
  /-- An engine passes the gate and begins its statement. -/
  | begin (w : World) (a : Act) (stmt : Stmt) :
      Controls.passes (w.controls.mark? a).toList = 1 →
      Change [a] w ({ w with controls := w.controls.act a }.observe true stmt)

/-- Something happens at the controls while no engine is at the gate. -/
theorem Change.plain (w : World) (a : Act) (ha : a.isPlain = true) :
    Change [a] w { w with controls := w.controls.act a } := by
  refine .act w a (Controls.passes_mark?_of_away (Act.atGate_of_isPlain ha)) fun hclose => ?_
  subst hclose
  cases ha

/-- Elementary changes one after the other, with all that happens at the controls. -/
inductive Changes : List Act → World → World → Prop where
  /-- None. -/
  | refl (w : World) : Changes [] w w
  /-- One more. -/
  | tail {acts more : List Act} {w v w' : World} :
      Changes acts w v → Change more v w' → Changes (acts ++ more) w w'

/-- Changes that an engine makes by itself. -/
def Runs (w w' : World) : Prop := ∃ acts, (∀ a ∈ acts, a.byEngine = true) ∧ Changes acts w w'

/-- Calls and scopes are closed, and nothing else changes. -/
def Closes (w w' : World) : Prop :=
  ∃ stack ids, w' = { w with stack, memory := w.memory.disposeAll ids }

section Changes

variable {acts more : List Act} {w v w' : World}

theorem Change.changes (h : Change acts w w') : Changes acts w w' :=
  List.nil_append acts ▸ .tail (.refl w) h

theorem Changes.trans (h : Changes acts w v) (h' : Changes more v w') :
    Changes (acts ++ more) w w' := by
  induction h' with
  | refl w =>
    rw [List.append_nil]
    exact h
  | tail _ hlast ih =>
    rw [← List.append_assoc]
    exact (ih h).tail hlast

/-- Changes that nobody at the controls takes part in. -/
theorem Changes.quiet (h : Changes acts w v) (h' : Changes [] v w') : Changes acts w w' :=
  List.append_nil acts ▸ h.trans h'

/-- The controls are as the acts leave them. -/
theorem Changes.controls (h : Changes acts w w') : w'.controls = w.controls.perform acts := by
  induction h with
  | refl w => rfl
  | tail _ hlast ih =>
    rw [Controls.perform_append, ← ih]
    cases hlast <;> rfl

/-- A statement begins if an engine passes the gate. -/
theorem Change.begun (h : Change acts w w') :
    ∃ new, w'.begun = w.begun ++ new ∧ new.length = Controls.passes (w.controls.history acts) := by
  have hact : ∀ a, w.controls.history [a] = (w.controls.mark? a).toList :=
    fun a => List.append_nil _
  cases h with
  | complete _ stmt => exact ⟨[], by rw [begun_observe_false, List.append_nil], rfl⟩
  | act _ a hpasses _ => exact ⟨[], (List.append_nil _).symm, by rw [hact, hpasses]; rfl⟩
  | begin _ a stmt hpasses =>
    obtain ⟨entry, hentry⟩ := begun_observe_true { w with controls := w.controls.act a } stmt
    exact ⟨[entry], hentry, by rw [hact, hpasses]; rfl⟩
  | _ => exact ⟨[], (List.append_nil _).symm, rfl⟩

/-- As many statements begin as engines pass the gate. -/
theorem Changes.begun (h : Changes acts w w') :
    ∃ new, w'.begun = w.begun ++ new ∧ new.length = Controls.passes (w.controls.history acts) := by
  induction h with
  | refl w => exact ⟨[], (List.append_nil _).symm, rfl⟩
  | tail hfirst hlast ih =>
    obtain ⟨new, hnew, hcount⟩ := ih
    obtain ⟨new', hnew', hcount'⟩ := hlast.begun
    refine ⟨new ++ new', by rw [hnew', hnew, List.append_assoc], ?_⟩
    rw [Controls.history_append, Controls.passes_append, ← hfirst.controls, List.length_append,
      hcount, hcount']

/-- A world comes to another one by elementary changes through the worlds of a path. -/
def Path (w : World) (path : List World) (w' : World) : Prop :=
  (w :: path).IsChain (fun v v' => ∃ acts, Change acts v v') ∧ path.getLastD w = w'

/-- Changes one after the other come through a path. -/
theorem Changes.path (h : Changes acts w w') : ∃ path, w.Path path w' := by
  induction h with
  | refl w => exact ⟨[], List.isChain_singleton _, rfl⟩
  | @tail acts more w v w' _ hlast ih =>
    obtain ⟨path, hchain, hend⟩ := ih
    refine ⟨path ++ [w'], ?_, List.getLastD_concat⟩
    rw [← List.cons_append, List.isChain_append]
    refine ⟨hchain, List.isChain_singleton _, fun u hu u' hu' => ?_⟩
    rw [List.getLast?_cons, Option.mem_some_iff, ← List.getLastD_eq_getLast?, hend] at hu
    cases hu
    cases hu'
    exact ⟨more, hlast⟩

/-- A world comes to another one by changes. -/
def Reaches (w w' : World) : Prop := ∃ acts, Changes acts w w'

theorem Reaches.trans {w v w' : World} (h : w.Reaches v) (h' : v.Reaches w') : w.Reaches w' := by
  obtain ⟨acts, h⟩ := h
  obtain ⟨more, h'⟩ := h'
  exact ⟨acts ++ more, Changes.trans h h'⟩

instance : Trans Reaches Reaches Reaches := ⟨Reaches.trans⟩

/-- On a path every world comes to all that follow. -/
theorem Path.pairwise {path : List World} (h : w.Path path w') : (w :: path).Pairwise Reaches :=
  (h.1.imp fun _ _ ⟨acts, hchange⟩ => ⟨acts, hchange.changes⟩).pairwise

/-- When engines are turned away, they stay so, and no statement begins. -/
theorem Changes.of_cancelled (h : Changes acts w w') (hw : w.controls.gate.cancelled = true) :
    w'.controls.gate.cancelled = true ∧ w'.begun = w.begun := by
  obtain ⟨hcancelled, hpasses⟩ := Controls.perform_of_cancelled hw acts
  obtain ⟨new, hnew, hcount⟩ := h.begun
  rw [hpasses, List.length_eq_zero_iff] at hcount
  rw [hcount, List.append_nil] at hnew
  exact ⟨h.controls ▸ hcancelled, hnew⟩

/-- A session that has ended turns engines away, at every moment. -/
theorem Changes.sealed (h : Changes acts w w') (hw : w.controls.Sealed) : w'.controls.Sealed := by
  induction h with
  | refl w => exact hw
  | tail _ hlast ih =>
    have hv := ih hw
    cases hlast with
    | act _ a _ hclose => exact hv.act hclose
    | begin _ a stmt hpasses =>
      -- nobody passes the gate by closing the session
      refine hv.act fun ha => ?_
      subst ha
      cases hpasses
    | _ => exact hv

end Changes

section Closing

variable {w v w' : World}

theorem Closes.refl (w : World) : w.Closes w := ⟨w.stack, [], rfl⟩

theorem Closes.trans (h : w.Closes v) (h' : v.Closes w') : w.Closes w' := by
  obtain ⟨stack, ids, rfl⟩ := h
  obtain ⟨stack', ids', rfl⟩ := h'
  refine ⟨stack', ids ++ ids', ?_⟩
  simp only [Memory.disposeAll, List.foldl_append]

theorem closes_popFrame (w : World) : w.Closes w.popFrame.2 := ⟨_, _, rfl⟩

theorem closes_restoreScopes (w : World) (mark : Nat) : w.Closes (w.restoreScopes mark) :=
  ⟨_, _, rfl⟩

theorem Closes.changes (h : w.Closes w') : Changes [] w w' := by
  obtain ⟨stack, ids, rfl⟩ := h
  exact (Change.dispose w ids).changes.quiet
    (Change.around _ w.heap w.host stack w.stackCount w.jobs).changes

end Closing

section Runs

variable {w v w' : World}

theorem Changes.runs (h : Changes [] w w') : w.Runs w' :=
  ⟨[], fun _ ha => absurd ha List.not_mem_nil, h⟩

theorem Runs.refl (w : World) : w.Runs w := (Changes.refl w).runs

theorem Runs.trans (h : w.Runs v) (h' : v.Runs w') : w.Runs w' := by
  obtain ⟨acts, hacts, hc⟩ := h
  obtain ⟨more, hmore, hc'⟩ := h'
  refine ⟨acts ++ more, fun a ha => ?_, hc.trans hc'⟩
  exact (List.mem_append.mp ha).elim (hacts a) (hmore a)

/-- One change that an engine makes by itself. -/
theorem Change.runs {a : Act} (h : Change [a] w w') (ha : a.byEngine = true) : w.Runs w' :=
  ⟨[a], fun _ ha' => List.mem_singleton.mp ha' ▸ ha, h.changes⟩

/-- The call stack at work changes. -/
theorem changes_stack (w : World) (stack : CallStack) : Changes [] w { w with stack } :=
  (Change.around w w.heap w.host stack w.stackCount w.jobs).changes

theorem changes_newStack (w : World) : Changes [] w w.newStack :=
  (Change.around w w.heap w.host _ _ w.jobs).changes

variable {name : String} {shape : Shape} {value : Val} {c : Cell}

theorem changes_declareLocal (h : Cell.holding name shape value = .ok c) :
    Changes [] w (w.declareLocal c) :=
  (Change.make h).changes.quiet (changes_stack _ _)

theorem changes_declareGlobal (h : Cell.holding name shape value = .ok c) :
    Changes [] w (w.declareGlobal c) :=
  (Change.make h).changes.quiet (Change.publish _ _).changes

theorem changes_declare (h : Cell.holding name shape value = .ok c) :
    Changes [] w (w.declare c) := by
  unfold declare
  dsimp only
  split
  · exact (Change.make h).changes.quiet (changes_stack _ _)
  · exact (Change.make h).changes.quiet (Change.publish _ _).changes

theorem runs_spawn (w : World) (m : Method) (args : List Val) : w.Runs (w.spawn m args) := by
  let started := fun t : Tracker => (t.taskStarted w.stack.id).track w.stack.id
  have htrack : w.Runs { w with controls := w.controls.act (.track started) } :=
    (Change.plain w _ rfl).runs rfl
  exact htrack.trans (Change.around _ _ _ _ _ _).changes.runs

end Runs

end World

end Stepwise
