import Stepwise.Proofs.Engine.Machine

/-!
# The limit of a machine

The stages of a machine keep every end they reach, so they have a limit, and
the limit is a fixed point of one more unit of fuel. A block is then an
iteration over its statements and a loop an iteration over its rounds, both
with the limit for everything inside. For the plain engine the limit of a
call ends exactly as the call does with some amount of fuel.
-/

namespace Stepwise.Engine

namespace Machine

variable (M : Machine)

/-- Without fuel nothing ends. -/
theorem stage_zero_compared (unlessStopped : Prop) (s : Stage) :
    StagesCompared (Run.byEnds unlessStopped) (fun _ => M.stage 0) s := by
  have hexhausted : ∀ {α : Type} (y : Run α),
      (Run.byEnds unlessStopped).rel (fun _ => .exhausted) y := by
    intro α y n w r h
    cases h
  exact ⟨⟨fun _ _ _ => hexhausted _, fun _ _ _ => hexhausted _, fun _ _ _ _ => hexhausted _⟩,
    fun _ _ _ _ => hexhausted _⟩

/-- A stage ends wherever the one before it does. -/
theorem stage_compared (n : Nat) :
    StagesCompared (Run.byEnds False) (fun _ => M.stage n) (M.stage (n + 1)) := by
  induction n with
  | zero => exact M.stage_zero_compared False _
  | succ n ih => exact M.next_compared ih

/-- What the machine does with fuel enough. -/
noncomputable def limit : Stage where
  callees :=
    { call := fun m args w => Run.lim fun n => (M.stage n).callees.call m args w
      block := fun b l w => Run.lim fun n => (M.stage n).callees.block b l w
      loop := fun k t b w => Run.lim fun n => (M.stage n).callees.loop k t b w }
  walk := fun b l rest w => Run.lim fun n => (M.stage n).walk b l rest w

/-- The stages approximate the limit. -/
theorem stages_tend : StagesCompared Run.byFuel M.stage M.limit := by
  refine ⟨⟨?_, ?_, ?_⟩, ?_⟩
  · exact fun m args w => Run.byEnds_lim fun n => (M.stage_compared n).callees.call m args w
  · exact fun b l w => Run.byEnds_lim fun n => (M.stage_compared n).callees.block b l w
  · exact fun k t b w => Run.byEnds_lim fun n => (M.stage_compared n).callees.loop k t b w
  · exact fun b l rest w => Run.byEnds_lim fun n => (M.stage_compared n).walk b l rest w

/-- How the parts of statements are run with fuel enough. -/
noncomputable def callees : Callees := M.limit.callees

/-- A call with fuel enough. -/
noncomputable def call : Caller := M.callees.call

/-- Walk the rest of a block with so much fuel, and with fuel enough inside. -/
noncomputable def path (block : Block) (inLoop : Bool) (n : Nat) (rest : List Stmt) : Exec Flow :=
  Exec.iterate (M.walkStep M.callees block inLoop) n rest

/-- Run so many rounds of a loop, with fuel enough inside. -/
noncomputable def rounds (kind : LoopKind) (test : Expr) (body : Block) (n : Nat) : Exec Flow :=
  Exec.iterate (M.loopStep M.callees kind test body) n ()

/-- Walks with more and more fuel approximate the walk of the limit. -/
theorem path_tends (b : Block) (l : Bool) (rest : List Stmt) :
    Exec.Tends (fun n => M.path b l n rest) (M.limit.walk b l rest) :=
  Exec.iterate_tends (fun rest => M.walkStep_compared M.stages_tend.callees b l rest)
    (fun rest => M.stages_tend.walk b l rest) (fun _ _ => rfl) (fun _ _ => rfl) rest

/-- A block ends as the walk through it does with some amount of fuel. -/
theorem block_tends (b : Block) (l : Bool) :
    Exec.Tends (fun n => M.path b l n b) (M.callees.block b l) := by
  intro w
  have hwalk := (M.stages_tend.walk b l b w)
  have hblock := (M.stages_tend.callees.block b l w).shift
  have hsame : Run.Same (M.limit.walk b l b w) (M.callees.block b l w) := hwalk.same hblock
  refine ⟨(M.path_tends b l b w).mono, ?_⟩
  intro w' r
  rw [← hsame w' r]
  exact (M.path_tends b l b w).limit

/-- A block with fuel enough is walked from its beginning. -/
theorem block_same (b : Block) (l : Bool) (w : World) :
    Run.Same (M.callees.block b l w) (M.limit.walk b l b w) :=
  (M.stages_tend.callees.block b l w).shift.same (M.stages_tend.walk b l b w)

/-- A walk with fuel enough goes statement by statement. -/
theorem walk_same (b : Block) (l : Bool) (rest : List Stmt) (w : World) :
    Run.Same (M.limit.walk b l rest w)
      ((M.walkStep M.callees b l rest >>= Exec.goOn (M.limit.walk b l)) w) :=
  (M.stages_tend.walk b l rest w).shift.same ((M.next_compared M.stages_tend).walk b l rest w)

/-- A loop ends as so many rounds of it do. -/
theorem loop_tends (kind : LoopKind) (test : Expr) (body : Block) :
    Exec.Tends (fun n => M.rounds kind test body n) (M.callees.loop kind test body) :=
  Exec.iterate_tends (y := fun _ => M.callees.loop kind test body)
    (x := fun n _ => (M.stage n).callees.loop kind test body)
    (fun u => M.loopStep_compared M.stages_tend.callees kind test body u)
    (fun _ => M.stages_tend.callees.loop kind test body) (fun _ _ => rfl) (fun _ _ => rfl) ()

/-- A call with fuel enough checks depth and number of arguments and runs the
body in a frame of its own. -/
theorem call_same (m : Method) (args : List Val) (w : World) :
    Run.Same (M.call m args w) (callBy M.code M.callees.block m args w) := by
  have hleft := (M.stages_tend.callees.call m args w).shift
  have hright := (M.next_compared M.stages_tend).callees.call m args w
  exact hleft.same hright

/-- The plain engine. -/
def engine (code : Code) : Machine where
  code := code
  wary := false
  returned := eval code.program
  fatal := fun _ => false
  smooth := fun h e => eval_compared h e

/-- A statement on the plain engine. -/
theorem engine_step (code : Code) (c : Callees) (inLoop : Bool) (stmt : Stmt) :
    (engine code).step c inLoop stmt = runStmt code.program c inLoop stmt := by
  have hexec : (engine code).execute c inLoop stmt = Engine.execute code.program c inLoop stmt := by
    unfold Machine.execute
    cases stmt with
    | ret value => cases value <;> rfl
    | declare => simp only [engine, valueOfOption_false, Engine.execute]
    | assign => simp only [engine, valueOf_false, Engine.execute]
    | eval => simp only [engine, valueOf_false, Engine.execute]
    | _ => rfl
  show Exec.stopOn (fun _ => false) _ = _
  rw [Exec.stopOn_none, hexec]
  rfl

/-- A step of a block on the plain engine, with what follows. -/
theorem engine_walkStep (code : Code) (c : Callees) (b : Block) (l : Bool) (stmt : Stmt)
    (rest : List Stmt) (next : List Stmt → Exec Flow) :
    ((engine code).walkStep c b l (stmt :: rest) >>= Exec.goOn next) =
      Exec.bind (runStmt code.program c l stmt) fun flow => proceed next (follow b rest flow) := by
  funext w
  show (Exec.bind (Exec.bind _ _) _) w = _
  rw [engine_step]
  unfold Exec.bind
  rw [Run.andThen_assoc]
  congr 1
  funext w r
  cases r with
  | error u => rfl
  | ok flow =>
    show Exec.goOn next (follow b rest flow) w = proceed next (follow b rest flow) w
    cases follow b rest flow <;> rfl

/-- A round on the plain engine, with what follows. -/
theorem engine_loopStep (code : Code) (c : Callees) (kind : LoopKind) (test : Expr)
    (body : Block) (next : Exec Flow) :
    ((engine code).loopStep c kind test body () >>= Exec.goOn fun _ => next) =
      Exec.bind (loopRound code.program c kind test body) (proceedLoop next) := by
  funext w
  show (Exec.bind (Exec.bind _ _) _) w = _
  unfold Exec.bind
  rw [Run.andThen_assoc]
  congr 1
  funext w r
  rcases r with u | (_ | flow) <;> rfl

/-- The stages of the plain engine are the engine with so much fuel. -/
theorem engine_stage (code : Code) (n : Nat) :
    (engine code).stage n = ⟨calleesAt code n, runFrom code n⟩ := by
  induction n with
  | zero => rfl
  | succ n ih =>
    show (engine code).next ((engine code).stage n) = _
    rw [ih]
    unfold Machine.next
    congr 1
    · unfold calleesAt
      congr 1
      funext kind test body
      rw [runLoop_succ]
      exact engine_loopStep code _ kind test body _
    · funext b l rest
      cases rest with
      | nil => rfl
      | cons stmt rest =>
        rw [runFrom_cons]
        exact engine_walkStep code _ b l stmt rest _

end Machine

end Stepwise.Engine
