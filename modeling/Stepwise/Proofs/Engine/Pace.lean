import Stepwise.Proofs.Engine.Changes
import Stepwise.Proofs.Engine.Habit

/-!
# The pace of runs

A run changes the world by elementary changes until it ends or waits at the
gate. If it is let pass, it begins the statement that it waits for and goes
on. If it is turned away, it is over: calls and scopes are closed and nothing
else happens, however many attempts it is inside of.
-/

namespace Stepwise

variable {α β : Type}

namespace Run

/-- A run that begins in a world keeps its pace; when it is turned away it
ends early for the given reason. -/
def Paced (u : Unwind) (w : World) : Run α → Prop
  | .done w' _ => w.Runs w'
  | .held w' resume =>
    w.Runs w' ∧ (∀ v, ∃ v', resume .cancelled v = .done v' (.error u) ∧ v.Closes v') ∧
      ∃ stmt, ∀ v, (resume .passed v).Paced u (v.observe true stmt)
  | .exhausted => True

variable {u u' : Unwind} {w v : World}

/-- Something else went on before. -/
theorem Paced.after {x : Run α} (hw : w.Runs v) (h : x.Paced u v) : x.Paced u w := by
  cases x with
  | done w' r => exact hw.trans h
  | held w' resume => exact ⟨hw.trans h.1, h.2⟩
  | exhausted => exact trivial

/-- Something else goes on afterwards. -/
theorem Paced.andThen {x : Run α} {k : World → Except Unwind α → Run β} (h : x.Paced u w)
    (hk : ∀ w r, (k w r).Paced u' w)
    (haway : ∀ v, ∃ v', k v (.error u) = .done v' (.error u') ∧ v.Closes v') :
    (x.andThen k).Paced u' w := by
  induction x generalizing w with
  | done w' r => exact (hk w' r).after h
  | exhausted => exact trivial
  | held w' resume ih =>
    obtain ⟨hruns, hturned, stmt, hpassed⟩ := h
    refine ⟨hruns, fun v => ?_, stmt, fun v => ih .passed v (hpassed v)⟩
    -- turned away, the first part is over at once, and the second only closes what is open
    obtain ⟨v', hv, hcloses⟩ := hturned v
    obtain ⟨v'', hv', hcloses'⟩ := haway v'
    refine ⟨v'', ?_, hcloses.trans hcloses'⟩
    show (resume .cancelled v).andThen k = _
    rw [hv]
    exact hv'

end Run

/-- A step keeps its pace wherever it begins. -/
def Exec.Paces (u : Unwind) (x : Exec α) : Prop := ∀ w, (x w).Paced u w

namespace Exec

variable {u : Unwind} {x : Exec α}

theorem paces_ret (a : α) : (pure a : Exec α).Paces u := fun w => .refl w

theorem paces_stop (u' : Unwind) : (stop u' : Exec α).Paces u := fun w => .refl w

theorem paces_lift (r : Except Fault α) : (lift r).Paces u := by
  cases r with
  | ok a => exact paces_ret a
  | error f => exact paces_stop _

theorem paces_change {f : World → World} (h : ∀ w : World, w.Runs (f w)) : (change f).Paces u := h

theorem Paces.bind {f : α → Exec β} (hx : x.Paces u) (hf : ∀ a, (f a).Paces u) :
    (x >>= f).Paces u := by
  refine fun w => (hx w).andThen (fun w' r => ?_) fun v => ⟨v, rfl, .refl v⟩
  cases r with
  | ok a => exact hf a w'
  | error u' => exact .refl w'

/-- Calls and scopes are closed when a step has ended. -/
theorem Paces.finishing {f : World → World} (hx : x.Paces u) (hf : ∀ w : World, w.Closes (f w)) :
    (x.finishing f).Paces u :=
  fun w => (hx w).andThen (fun w' _ => (hf w').changes.runs) fun v => ⟨f v, rfl, hf v⟩

/-- Being turned away is no failure, so no handler gets to see it. -/
theorem Paces.onFailure {handler : Failure → Exec α} (hx : x.Paces .cancelled)
    (hf : ∀ f, (handler f).Paces .cancelled) : (x.onFailure handler).Paces .cancelled := by
  refine fun w => (hx w).andThen (fun w' r => ?_) fun v => ⟨v, rfl, .refl v⟩
  rcases r with (f | _) | a
  · exact hf f w'
  · exact .refl w'
  · exact .refl w'

theorem paces_aside (h : Engine.Aside x) : x.Paces u := by
  intro w
  obtain ⟨heap, host, a, hx⟩ | ⟨f, hx, -⟩ := h w
  · rw [hx]
    exact (World.Change.around w heap host w.stack w.stackCount w.jobs).changes.runs
  · rw [hx]
    exact .refl w

end Exec

namespace Engine

/-- Keeping one's pace is a habit of evaluation. -/
def pace (u : Unwind) : Habit where
  has := Exec.Paces u
  ret := Exec.paces_ret
  fail := fun f => Exec.paces_stop (.failed { fault := f })
  bind := Exec.Paces.bind
  aside := Exec.paces_aside
  spawn := fun m args => Exec.paces_change fun w => w.runs_spawn m args

section Statements

variable {p : Program} {callees : Callees} {u : Unwind}

theorem paces_newVariable {bind : World → Cell → World} {name : String} {shape : Shape}
    {value : Val}
    (h : ∀ {w c}, Cell.holding name shape value = .ok c → World.Changes [] w (bind w c)) :
    (newVariable bind name shape value).Paces u := by
  intro w
  unfold newVariable
  cases hc : Cell.holding name shape value with
  | ok c => exact (h hc).runs
  | error f => exact .refl w

theorem paces_storeVariable (name : String) (isGlobal : Bool) (value : Val) :
    (storeVariable name isGlobal value).Paces u := by
  intro w
  unfold storeVariable
  cases w.lookup? name isGlobal with
  | none => exact .refl w
  | some id =>
    cases hc : (w.memory.cell id).store value with
    | ok c =>
      simp only [hc]
      exact (World.Change.store hc).changes.runs
    | error f =>
      simp only [hc]
      exact .refl w

theorem paces_assign {call : Caller} (hcall : ∀ m args, (call m args).Paces u) (target : Expr)
    (value : Val) : (assign p call target value).Paces u := by
  have heval : ∀ e, (eval p call e).Paces u := (pace u).eval hcall
  cases target with
  | var name isGlobal span => exact paces_storeVariable name isGlobal value
  | index container position span =>
    exact (heval container).bind fun _ => (heval position).bind fun _ =>
      Exec.paces_aside (aside_changeHeap fun _ => tame_setElement _ _ _ _)
  | staticProperty typeName name span =>
    exact Exec.paces_aside
      (aside_onHost (careful_setProperty (.type typeName) name value))
  | property object name span =>
    exact (heval object).bind fun _ =>
      Exec.paces_aside (aside_onHost (careful_setProperty _ _ _))
  | _ => exact Exec.paces_stop _

theorem paces_nested {x : Exec Flow} (hx : x.Paces u) : (nested x).Paces u := fun w =>
  (hx.finishing (fun v => v.closes_restoreScopes w.stack.scopeMark) w.pushScope).after
    (World.changes_stack w w.stack.pushScope).runs

/-- What statements use keeps its pace. -/
structure CalleesPace (c : Callees) : Prop where
  /-- Calls do. -/
  call : ∀ m args, (c.call m args).Paces .cancelled
  /-- Blocks do. -/
  block : ∀ block inLoop, (c.block block inLoop).Paces .cancelled
  /-- Loops do. -/
  loop : ∀ kind test body, (c.loop kind test body).Paces .cancelled

theorem paces_runHandler (h : CalleesPace callees) (catchVar : Option String) (handler : Block)
    (inLoop : Bool) (f : Failure) :
    (runHandler callees catchVar handler inLoop f).Paces .cancelled := by
  intro w
  have hopen := (World.changes_stack w w.stack.pushScope).runs
  have hblock := (h.block handler inLoop).finishing
    fun v => v.closes_restoreScopes w.stack.scopeMark
  cases catchVar with
  | some name =>
    have hbind : (newVariable World.declareLocal name .scalar f.fault.toException).Paces
        .cancelled :=
      paces_newVariable World.changes_declareLocal
    exact (hbind.bind (fun _ => hblock) w.pushScope).after hopen
  | none => exact (hblock w.pushScope).after hopen

theorem paces_execute (h : CalleesPace callees) (inLoop : Bool) (stmt : Stmt) :
    (execute p callees inLoop stmt).Paces .cancelled := by
  have heval : ∀ e, (eval p callees.call e).Paces .cancelled := (pace _).eval h.call
  have htest : ∀ e, (evalCondition p callees.call e).Paces .cancelled :=
    (pace _).evalCondition h.call
  have hoption : ∀ e, (evalOption p callees.call e).Paces .cancelled := (pace _).evalOption h.call
  have hblock : ∀ b, (nested (callees.block b inLoop)).Paces .cancelled :=
    fun b => paces_nested (h.block b inLoop)
  cases stmt with
  | declare name shape init span =>
    exact (hoption init).bind fun _ => (paces_newVariable World.changes_declare).bind fun _ =>
      Exec.paces_ret _
  | assign target value span =>
    exact (heval value).bind fun v => (paces_assign h.call target v).bind fun _ => Exec.paces_ret _
  | cond test yes no span =>
    refine (htest test).bind fun t => ?_
    cases t with
    | true => exact hblock yes
    | false =>
      cases no with
      | some no => exact hblock no
      | none => exact Exec.paces_ret _
  | branch test label span =>
    refine (htest test).bind fun t => ?_
    cases t <;> exact Exec.paces_ret _
  | loop kind test body span => exact h.loop kind test body
  | ret value span =>
    refine (hoption value).bind fun v => Exec.Paces.bind ?_ fun _ => Exec.paces_ret _
    exact Exec.paces_change fun w => (w.changes_stack (w.stack.setResult v)).runs
  | brk span =>
    unfold execute
    cases inLoop with
    | true => exact Exec.paces_ret _
    | false => exact Exec.paces_stop _
  | throw value span =>
    refine (heval value).bind fun v => ?_
    cases v <;> exact Exec.paces_stop _
  | attempt body name handler span =>
    exact (hblock body).onFailure fun f => paces_runHandler h name handler inLoop f
  | eval e span => exact (heval e).bind fun _ => Exec.paces_ret _
  | label name span => exact Exec.paces_ret _
  | goto label span => exact Exec.paces_ret _

/-- The gate before a statement, and the statement observed when it begins. -/
def beginning (stmt : Stmt) : Exec Unit := do
  checkpoint stmt
  Exec.change (·.observe true stmt)

/-- An engine comes to the gate: it begins its statement, waits or is turned away. -/
theorem paces_beginning (stmt : Stmt) : (beginning stmt).Paces .cancelled := by
  intro w
  have harrive : (∀ c, (w.controls.approach stmt).leave? ≠ some (.passed, c)) →
      w.Runs { w with controls := w.controls.act (.arrive stmt w.capture) } :=
    fun h => (World.Change.act w (.arrive stmt w.capture)
      (Controls.passes_mark?_of_not_passed h) fun hclose => by cases hclose).runs rfl
  cases h : (w.controls.approach stmt).leave? with
  | none =>
    -- it waits, and its arrival pauses the session
    have hruns := harrive fun c => by simp [h]
    rw [Controls.act_arrive_of_none h] at hruns
    simp only [beginning, Bind.bind, Exec.bind, checkpoint, h]
    exact ⟨hruns, fun v => ⟨v, rfl, .refl v⟩, stmt, fun v => .refl _⟩
  | some left =>
    obtain ⟨passage, controls⟩ := left
    have hact := Controls.act_arrive_of_some h w.capture
    cases passage with
    | passed =>
      have hruns := (World.Change.begin w (.arrive stmt w.capture) stmt
        (Controls.passes_mark?_of_passed h)).runs rfl
      rw [hact] at hruns
      simp only [beginning, Bind.bind, Exec.bind, checkpoint, h]
      exact hruns
    | cancelled =>
      have hruns := harrive fun c => by simp [h]
      rw [hact] at hruns
      simp only [beginning, Bind.bind, Exec.bind, checkpoint, h]
      exact hruns

/-- A statement on its way begins at the gate. -/
theorem runStmt_eq_beginning (inLoop : Bool) (stmt : Stmt) :
    runStmt p callees inLoop stmt = (do
      enter stmt
      beginning stmt
      let flow ← (execute p callees inLoop stmt).onFailure (locate stmt)
      Exec.change (·.observe false stmt)
      pure flow) := by
  unfold runStmt beginning
  simp only [Exec.bind_assoc]

theorem paces_runStmt (h : CalleesPace callees) (inLoop : Bool) (stmt : Stmt) :
    (runStmt p callees inLoop stmt).Paces .cancelled := by
  have henter : (enter stmt).Paces .cancelled := by
    refine Exec.paces_change fun w => ?_
    split
    · exact .refl w
    · exact (w.changes_stack (w.stack.setSpan stmt.span)).runs
  have hexecute : ((execute p callees inLoop stmt).onFailure (locate stmt)).Paces .cancelled :=
    (paces_execute h inLoop stmt).onFailure fun f w => .refl w
  have hcomplete : (Exec.change (·.observe false stmt)).Paces .cancelled :=
    Exec.paces_change fun w => (World.Change.complete w stmt).changes.runs
  rw [runStmt_eq_beginning]
  exact henter.bind fun _ => (paces_beginning stmt).bind fun _ => hexecute.bind fun _ =>
    hcomplete.bind fun _ => Exec.paces_ret _

end Statements

section Runs

variable {p : Program} {callees : Callees}

theorem paces_loopRound (h : CalleesPace callees) (kind : LoopKind) (test : Expr) (body : Block) :
    (loopRound p callees kind test body).Paces .cancelled := by
  have hbody : (nested (callees.block body true)).Paces .cancelled :=
    paces_nested (h.block body true)
  have htest : (evalCondition p callees.call test).Paces .cancelled :=
    (pace _).evalCondition h.call test
  have hguard : ∀ {x : Exec (Option Flow)}, x.Paces .cancelled →
      (unlessCancelled x).Paces .cancelled := by
    intro x hx w
    unfold unlessCancelled
    split
    · exact .refl w
    · exact hx w
  cases kind with
  | testFirst =>
    rw [loopRound_testFirst]
    refine hguard (htest.bind fun goes => ?_)
    cases goes with
    | true => exact hbody.bind fun _ => Exec.paces_ret _
    | false => exact Exec.paces_ret _
  | testLast =>
    rw [loopRound_testLast]
    refine hguard (hbody.bind fun flow => ?_)
    cases loopEnd flow with
    | some flow => exact Exec.paces_ret _
    | none =>
      refine htest.bind fun goes => ?_
      cases goes <;> exact Exec.paces_ret _

theorem paces_bindArgs {u : Unwind} : ∀ (params : List Param) (args : List Val),
    (bindArgs params args).Paces u
  | [], _ => Exec.paces_ret _
  | _ :: _, [] => Exec.paces_ret _
  | _ :: params, _ :: args =>
    (paces_newVariable World.changes_declareLocal).bind fun _ => paces_bindArgs params args

theorem paces_inFrame {u : Unwind} (m : Method) {x : Exec Unit} (hx : x.Paces u) :
    (inFrame m x).Paces u := by
  intro w
  have hbegin : w.Runs (w.pushFrame m) := (w.changes_stack _).runs
  refine ((hx (w.pushFrame m)).andThen (fun v r => ?_) fun v => ?_).after hbegin
  · cases r <;> exact v.closes_popFrame.changes.runs
  · exact ⟨v.popFrame.2, rfl, v.closes_popFrame⟩

/-- What can be done with so much fuel keeps its pace. -/
structure PacesWith (code : Code) (fuel : Nat) : Prop
    extends CalleesPace (calleesAt code fuel) where
  /-- What is left of a block does. -/
  walk : ∀ block inLoop rest, Exec.Paces .cancelled (runFrom code fuel block inLoop rest)

/-- Every call, block and loop keeps its pace. -/
theorem pacesWith (code : Code) (fuel : Nat) : PacesWith code fuel := by
  induction fuel with
  | zero =>
    exact ⟨⟨fun _ _ _ => trivial, fun _ _ _ => trivial, fun _ _ _ _ => trivial⟩,
      fun _ _ _ _ => trivial⟩
  | succ fuel ih =>
    refine ⟨⟨fun m args => ?_, fun block inLoop => ih.walk block inLoop block,
      fun kind test body => ?_⟩, fun block inLoop rest => ?_⟩
    · have hbody : (runBody (runBlock code fuel) m).Paces .cancelled := by
        refine (ih.block m.body false).bind fun flow => ?_
        cases flow with
        | jump label => exact Exec.paces_stop _
        | _ => exact Exec.paces_ret _
      have hframe := paces_inFrame m ((paces_bindArgs m.params args).bind fun _ => hbody)
      intro w
      show (invoke code (fuel + 1) m args w).Paced .cancelled w
      unfold invoke
      split
      · exact .refl w
      split
      · exact .refl w
      · exact hframe w
    · show Exec.Paces .cancelled (runLoop code (fuel + 1) kind test body)
      rw [runLoop_succ]
      refine (paces_loopRound ih.toCalleesPace kind test body).bind fun left => ?_
      cases left with
      | none => exact ih.loop kind test body
      | some flow => exact Exec.paces_ret _
    · cases rest with
      | nil => exact fun w => .refl w
      | cons stmt rest =>
        rw [runFrom_cons]
        refine (paces_runStmt ih.toCalleesPace inLoop stmt).bind fun flow => ?_
        cases follow block rest flow with
        | inl rest => exact ih.walk block inLoop rest
        | inr flow => exact Exec.paces_ret _

/-- The reason for which preparation ends when it is turned away. -/
def stoppedInGlobals : Unwind := .failed { fault := .stoppedInGlobals }

theorem paces_initialValue (code : Code) (fuel : Nat) (g : Global) (init : Expr) :
    (initialValue code fuel g init).Paces stoppedInGlobals := by
  intro w
  have heval : (eval code.program (invoke code fuel) init).Paces .cancelled :=
    (pace _).eval (pacesWith code fuel).call init
  unfold initialValue
  refine Run.Paced.after w.changes_newStack.runs
    ((heval w.newStack).andThen (fun v r => ?_) fun v => ⟨v, rfl, .refl v⟩)
  rcases r with (f | _) | value <;> exact .refl v

theorem paces_initGlobals (code : Code) (fuel : Nat) (globals : List Global) :
    (initGlobals code fuel globals).Paces stoppedInGlobals := by
  induction globals with
  | nil => exact Exec.paces_ret _
  | cons g rest ih =>
    have hdeclare : ∀ value,
        (newVariable World.declareGlobal g.name g.shape value).Paces stoppedInGlobals :=
      fun value => paces_newVariable World.changes_declareGlobal
    unfold initGlobals
    cases g.init with
    | none => exact (Exec.paces_ret Val.null).bind fun v => (hdeclare v).bind fun _ => ih
    | some init =>
      exact (paces_initialValue code fuel g init).bind fun v => (hdeclare v).bind fun _ => ih

end Runs

end Engine

end Stepwise
