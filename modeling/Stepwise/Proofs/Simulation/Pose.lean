import Stepwise.Proofs.Engine.Observation
import Stepwise.Proofs.Engine.Settle
import Stepwise.Proofs.Engine.Faults
import Stepwise.Proofs.Simulation.Memory
import Stepwise.Proofs.Simulation.Stack
import Stepwise.Proofs.Simulation.Leads
import Stepwise.Lowering.Program

/-!
# Source and target side by side

A pose says how a world of the source program and a world of the target
program stand to each other while both are inside some method: the scopes of
the innermost frames, the frames below, the links between variables, and
where the result of the method goes. The target may be inside a copy of the
method, in which case the result goes to a variable, the slot, and the target
has fewer frames than the source. The lemmas here say what each operation on
worlds does to the pose.
-/

namespace Stepwise.Simulation

open Engine

/-- A program in two styles, each on a machine of its own. Copies of callees in
the target make the comparison lax; kinds of failure that depend on them are
then fatal. If calls of the source are wary, it stops where the target would. -/
structure Tie where
  /-- The machine that runs the structured program. -/
  source : Machine
  /-- The machine that runs the lowered program. -/
  target : Machine
  /-- How the program was lowered. -/
  setting : Lowering.Setting
  /-- Number of the variables that are common from the start. -/
  base : Nat
  /-- Whether failures are compared by place, too. -/
  sharp : Prop
  /-- The source runs the program itself. -/
  source_program : source.code.program = setting.program
  /-- The target runs the lowered program. -/
  target_program : target.code.program = (setting.program.lower setting.options).program
  /-- The target evaluates returned expressions like any others. -/
  target_returned : target.returned = eval target.code.program
  /-- Both machines have the same limits. -/
  limits_eq : target.code.limits = source.code.limits
  /-- Calls of the target are as wary as those of the source. With copies they are not. -/
  target_wary : target.wary = (source.wary && !setting.options.inline)
  /-- What stops the target stops the source. -/
  fatal_le : ∀ kind, target.fatal kind = true → source.fatal kind = true
  /-- Without copies both machines are stopped by the same. -/
  fatal_eq : setting.options.inline = false → target.fatal = source.fatal
  /-- With copies, values that do not fit stop both machines. -/
  fatal_shape : setting.options.inline = true →
    source.fatal .notAssignable = true ∧ target.fatal .notAssignable = true
  /-- With copies, nesting too deep stops the source. -/
  fatal_depth : setting.options.inline = true → source.fatal .stackOverflow = true
  /-- Places are compared only without copies. -/
  sharp_strict : sharp → setting.options.inline = false
  /-- The returned expressions that the comparison is about. -/
  settles : Expr → Prop
  /-- The source makes the calls of these first. -/
  source_returned : ∀ call e, settles e →
    source.returned call e = settled setting.program source.wary call e
  /-- Where places are compared, these have no calls. -/
  sharp_settles : sharp → ∀ e, settles e → e.callFree setting.program = true
  /-- With copies, a call among these has no calls in its arguments. -/
  lax_settles : setting.options.inline = true → ∀ method args span,
    settles (.call method args span) → Expr.listCallFree setting.program args = true

/-- With copies of callees in the target, the comparison forgives. -/
def Tie.lax (T : Tie) : Prop := T.setting.options.inline = true

/-- Without copies the comparison is strict. -/
theorem Tie.not_lax {T : Tie} (h : ¬ T.lax) : T.setting.options.inline = false :=
  Bool.eq_false_iff.mpr h

/-- With copies, calls of the target are not wary. -/
theorem Tie.target_wary_of_lax {T : Tie} (h : T.lax) : T.target.wary = false := by
  have hinline : T.setting.options.inline = true := h
  simp [T.target_wary, hinline]

/-- Without copies, calls are as wary on both sides. -/
theorem Tie.target_wary_of_not_lax {T : Tie} (h : ¬ T.lax) : T.target.wary = T.source.wary := by
  simp [T.target_wary, Tie.not_lax h]

/-- The terms on which statements are compared. -/
def Tie.strictTerms (T : Tie) : Terms :=
  ⟨T.lax, T.source.wary = false, fun u => u = .cancelled⟩

/-- The terms on which expressions are compared. -/
def Tie.terms (T : Tie) : Terms :=
  ⟨T.lax, T.source.wary = false,
    fun u => u = .cancelled ∨ ∃ f, u = .failed f ∧ T.source.fatal f.fault.kind = true⟩

/-- Two early ends that are the same but for their records; a failure of the
source without a place counts as standing at `place`. -/
def Alike (sharp : Prop) (place : Option Span) : Unwind → Unwind → Prop
  | .failed f, .failed f' =>
    f'.fault = f.fault ∧ Mild f.fault ∧
      (sharp → f'.site.map (·.1) = (f.site.map (·.1)).or place)
  | .cancelled, .cancelled => True
  | _, _ => False

/-- How two worlds stand to each other inside a method. -/
structure Pose where
  /-- Variables that hold the same. -/
  links : List (Nat × Nat)
  /-- Further variables of the target whose contents are known. -/
  pins : List (Nat × Cell)
  /-- The variable of the target that takes the result, with its name. -/
  slot : Option (String × Nat)
  /-- The result of the method so far. -/
  result : Option Val
  /-- The innermost scope of the source. -/
  inner : Scope
  /-- The other scopes of the source. -/
  outer : List Scope
  /-- The frames of the source below the innermost one. -/
  below : List Frame
  /-- The innermost scope of the target. -/
  flat : Scope
  /-- The other scopes of the target. -/
  rest : List Scope
  /-- The frames of the target below the innermost one. -/
  under : List Frame

namespace Pose

/-- What the slot holds, if there is one. -/
def held (π : Pose) : List (Nat × Cell) :=
  match π.slot with
  | some (name, j) => [(j, ⟨name, .dynamic, π.result.getD .null⟩)]
  | none => []

/-- All variables of the target whose contents are known. -/
def own (π : Pose) : List (Nat × Cell) := π.pins ++ π.held

/-- The result as the frame of the target has it. -/
def answer (π : Pose) : Option Val :=
  match π.slot with
  | some _ => none
  | none => π.result

/-- A result in a slot is not in the frame of the target. -/
theorem answer_of_slot {π : Pose} {slot : String × Nat} (h : π.slot = some slot) :
    π.answer = none := by
  simp only [answer, h]

/-- Without a slot the frame of the target has the result. -/
theorem answer_of_noSlot {π : Pose} (h : π.slot = none) : π.answer = π.result := by
  simp only [answer, h]

/-- The answer depends on slot and result only. -/
theorem answer_congr {π π' : Pose} (hs : π'.slot = π.slot) (hr : π'.result = π.result) :
    π'.answer = π.answer := by
  simp only [answer, hs, hr]

/-- The variable of a name in the source. -/
def find (π : Pose) (name : String) : Option Nat := Scope.search (π.inner :: π.outer) name

/-- The variable of a name in the target. -/
def find' (π : Pose) (name : String) : Option Nat := Scope.search (π.flat :: π.rest) name

/-- Two worlds stand as the pose says. -/
structure Holds (T : Tie) (π : Pose) (w v : World) : Prop where
  /-- Everything but variables and stacks agrees. -/
  shares : World.Shares w v
  /-- The gate is open. -/
  gate : w.controls.gate.Open
  /-- The same call stack is at work. -/
  stackId : v.stack.id = w.stack.id
  /-- The variables are as linked. -/
  memory : Paired (¬ T.lax) T.base π.links π.own w.memory v.memory
  /-- The innermost call of the source. -/
  source : w.stack.Stands (π.inner :: π.outer) π.result π.below
  /-- The innermost call of the target. -/
  target : v.stack.Stands (π.flat :: π.rest) π.answer π.under
  /-- The target has no more frames than the source. -/
  depth_le : π.under.length ≤ π.below.length
  /-- Without copies it has as many. -/
  depth_eq : ¬ T.lax → π.under.length = π.below.length

variable {T : Tie} {π : Pose} {w v : World}

namespace Holds

/-- Heap and host change on both sides. -/
theorem withHeap (h : π.Holds T w v) (heap : Heap) (host : Host) :
    π.Holds T { w with heap, host } { v with heap, host } :=
  { h with shares := { h.shares with heap := rfl, host := rfl } }

/-- The heap changes on both sides. -/
theorem withNewHeap (h : π.Holds T w v) (heap : Heap) :
    π.Holds T { w with heap } { v with heap } :=
  { h with shares := { h.shares with heap := rfl } }

/-- The source observes a statement. -/
theorem observeSource (h : π.Holds T w v) (b : Bool) (stmt : Stmt) :
    π.Holds T (w.observe b stmt) v :=
  { h with shares := { h.shares with } }

/-- The target observes a statement. -/
theorem observeTarget (h : π.Holds T w v) (b : Bool) (stmt : Stmt) :
    π.Holds T w (v.observe b stmt) :=
  { h with shares := { h.shares with } }

/-- The source notes a place. -/
theorem spanSource (h : π.Holds T w v) (span : Span) :
    π.Holds T { w with stack := w.stack.setSpan span } v :=
  { h with shares := { h.shares with }, source := h.source.setSpan span }

/-- The target notes a place. -/
theorem spanTarget (h : π.Holds T w v) (span : Span) :
    π.Holds T w { v with stack := v.stack.setSpan span } :=
  { h with shares := { h.shares with }, target := h.target.setSpan span }

/-- An invocation is started on both sides. -/
theorem spawn (h : π.Holds T w v) {m m' : Method} (hm : m'.outline = m.outline)
    (args : List Val) : π.Holds T (w.spawn m args) (v.spawn m' args) := by
  refine { h with shares := { h.shares with controls := ?_, jobs := ?_ }, gate := h.gate }
  · show Controls.mk .. = Controls.mk ..
    simp only [h.shares.controls, h.stackId]
  · show (v.jobs ++ [_]).map Job.outline = (w.jobs ++ [_]).map Job.outline
    rw [List.map_append, List.map_append, h.shares.jobs]
    simp only [List.map_cons, List.map_nil, Job.outline, hm, h.stackId]

/-- A name denotes the same on both sides: linked local variables, or no local
variable at all. -/
theorem global (h : π.Holds T w v) (name : String) :
    v.memory.global? name = w.memory.global? name := by
  unfold Memory.global?
  rw [h.memory.globals]
  have hcell : ∀ g ∈ w.memory.globals, v.memory.cell g = w.memory.cell g :=
    fun g hg => h.memory.common g (h.memory.globals_lt g hg)
  generalize w.memory.globals = gs at hcell
  induction gs with
  | nil => rfl
  | cons g gs ih =>
    simp only [List.find?_cons]
    rw [hcell g List.mem_cons_self, ih fun g hg => hcell g (List.mem_cons_of_mem _ hg)]

/-- The numbers of calls in progress. -/
theorem stackDepth (h : π.Holds T w v) :
    w.stack.depth = π.below.length + 1 ∧ v.stack.depth = π.under.length + 1 :=
  ⟨h.source.depth_eq_succ, h.target.depth_eq_succ⟩

/-- Both sides declare a variable, and the two are linked. -/
theorem declareBoth (h : π.Holds T w v) {c c' : Cell} (hc : Twins (¬ T.lax) c c') :
    Holds T { π with
      links := (w.memory.cells.size, v.memory.cells.size) :: π.links
      inner := Scope.bind c.name w.memory.cells.size π.inner
      flat := Scope.bind c'.name v.memory.cells.size π.flat } (w.declare c) (v.declare c') := by
  obtain ⟨s, hs, hstands, hid⟩ := h.source.declare c.name w.memory.cells.size
  obtain ⟨s', hs', hstands', hid'⟩ := h.target.declare c'.name v.memory.cells.size
  have hw : w.declare c = { w with memory := (w.memory.alloc c).2, stack := s } := by
    simp only [World.declare, Memory.alloc] at hs ⊢
    rw [hs]
  have hv : v.declare c' = { v with memory := (v.memory.alloc c').2, stack := s' } := by
    simp only [World.declare, Memory.alloc] at hs' ⊢
    rw [hs']
  rw [hw, hv]
  exact
    { h with
      shares := { h.shares with }
      stackId := by show s'.id = s.id; rw [hid, hid', h.stackId]
      memory := h.memory.allocLinked hc
      source := hstands
      target := hstands' }

/-- The target declares a variable whose contents are then known. -/
theorem declarePinned (h : π.Holds T w v) (c : Cell) :
    Holds T { π with
      pins := (v.memory.cells.size, c) :: π.pins
      flat := Scope.bind c.name v.memory.cells.size π.flat } w (v.declare c) := by
  obtain ⟨s', hs', hstands', hid'⟩ := h.target.declare c.name v.memory.cells.size
  have hv : v.declare c = { v with memory := (v.memory.alloc c).2, stack := s' } := by
    simp only [World.declare, Memory.alloc] at hs' ⊢
    rw [hs']
  rw [hv]
  exact
    { h with
      shares := { h.shares with }
      stackId := hid'.trans h.stackId
      memory := h.memory.allocOwned c
      target := hstands' }

/-- The source declares a variable that is linked to a known one of the target. -/
theorem declareAdopted (h : π.Holds T w v) {before after : List (Nat × Cell)} {j : Nat}
    {c c' : Cell} (hpins : π.pins = before ++ (j, c') :: after) (hc : Twins (¬ T.lax) c c') :
    Holds T { π with
      links := (w.memory.cells.size, j) :: π.links
      pins := before ++ after
      inner := Scope.bind c.name w.memory.cells.size π.inner } (w.declare c) v := by
  obtain ⟨s, hs, hstands, hid⟩ := h.source.declare c.name w.memory.cells.size
  have hw : w.declare c = { w with memory := (w.memory.alloc c).2, stack := s } := by
    simp only [World.declare, Memory.alloc] at hs ⊢
    rw [hs]
  have hown : π.own = before ++ (j, c') :: (after ++ π.held) := by
    rw [own, hpins, List.append_assoc, List.cons_append]
  rw [hw]
  exact
    { h with
      shares := { h.shares with }
      stackId := h.stackId.trans hid.symm
      memory := by
        have := h.memory.adopt hown hc
        rw [← List.append_assoc] at this
        exact this
      source := hstands }

/-- In a frame a local declaration is a declaration. -/
theorem declareLocal_eq {s : CallStack} {inner : Scope} {outer : List Scope} {result : Option Val}
    {below : List Frame} (h : s.Stands (inner :: outer) result below) {w : World}
    (hw : w.stack = s) (c : Cell) : w.declareLocal c = w.declare c := by
  subst hw
  obtain ⟨s', hs', -, -⟩ := h.declare c.name w.memory.cells.size
  simp only [World.declare, World.declareLocal, Memory.alloc] at hs' ⊢
  rw [hs']
  rfl

/-- The target stores in a variable whose contents are known. -/
theorem storePinned (h : π.Holds T w v) {before after : List (Nat × Cell)} {j : Nat} {c : Cell}
    (hpins : π.pins = before ++ (j, c) :: after) (c' : Cell) :
    Holds T { π with pins := before ++ (j, c') :: after } w
      { v with memory := v.memory.setCell j c' } := by
  have hown : π.own = before ++ (j, c) :: (after ++ π.held) := by
    rw [own, hpins, List.append_assoc, List.cons_append]
  exact
    { h with
      shares := { h.shares with }
      memory := by
        have := h.memory.storeOwned hown c'
        rw [← List.cons_append, ← List.append_assoc] at this
        exact this }

end Holds

end Pose

end Stepwise.Simulation
