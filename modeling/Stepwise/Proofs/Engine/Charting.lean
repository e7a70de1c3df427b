import Stepwise.Proofs.Engine.Course
import Stepwise.Proofs.Engine.Retelling

/-!
# Every run has a course

Whatever end a run reaches, the way its variables got there is a course, and if
it was turned away, then the gate is cancelled at that end. Statements are only
executed in calls, and calls always have a scope; so what a statement declares
is bound in a call and never becomes global.
-/

namespace Stepwise

open Engine

variable {α β : Type}

/-- What may happen while a run waits at the gate, until it leaves in the given way. -/
structure World.Pause (code : Code) (P : Stmt → Prop) (passage : Passage) (w v : World) :
    Prop where
  /-- The call stack is kept for it. -/
  stack : v.stack = w.stack
  /-- What other work does to variables has a course. -/
  course : ∃ log, Course code P w v log
  /-- It is turned away by a gate that is cancelled. -/
  gate : passage = .cancelled → v.controls.gate.cancelled = true

/-- Other work is observed meanwhile. -/
theorem World.Pause.interim {code : Code} {P : Stmt → Prop} {passage : Passage} {w v : World}
    (h : World.Pause code P passage w v) : w.Interim v :=
  have ⟨_, hcourse⟩ := h.course
  ⟨h.stack, hcourse.trace⟩

namespace Engine

variable {code : Code} {P : Stmt → Prop} {depth : Nat}

section Charted

/-- Every end that a step reaches has a course, if the step begins inside so many calls, each of
which has a scope. -/
def Charted (code : Code) (P : Stmt → Prop) (depth : Nat) (x : Exec α) : Prop :=
  ∀ w w' r, w.Scoped → depth ≤ w.stack.depth → (x w).EndsBy (World.Pause code P) w' r →
    ∃ log, Course code P w w' log ∧
      (r = .error .cancelled → w'.controls.gate.cancelled = true)

variable {x : Exec α} {f : α → Exec β}

theorem Charted.deeper (hx : Charted code P 0 x) : Charted code P depth x :=
  fun w w' r hw _ hr => hx w w' r hw (Nat.zero_le _) hr

/-- A step that is turned away is so also in the work that it is a part of. -/
theorem cancelled_of_early {u : Unwind} (h : (.error u : Except Unwind β) = .error .cancelled) :
    (.error u : Except Unwind α) = .error .cancelled := by
  cases h
  rfl

theorem Charted.bind (hx : Charted code P depth x) (hf : ∀ a, Charted code P depth (f a)) :
    Charted code P depth (x >>= f) := by
  intro w w' r hw hdepth hr
  obtain ⟨v, a, hv, hr⟩ | ⟨u, hv, rfl⟩ := Exec.endsBy_bind hr
  · obtain ⟨log, hlog, -⟩ := hx _ _ _ hw hdepth hv
    obtain ⟨log', hlog', hgate⟩ := hf a _ _ _ (hlog.holds.scopes hw)
      (hlog.holds.depth ▸ hdepth) hr
    exact ⟨log ++ log', hlog.seq hlog', hgate⟩
  · obtain ⟨log, hlog, hgate⟩ := hx _ _ _ hw hdepth hv
    exact ⟨log, hlog, fun hu => hgate (cancelled_of_early hu)⟩

/-- An elementary step. -/
theorem charted_of_step
    (h : ∀ w : World, w.Scoped → depth ≤ w.stack.depth →
      ∃ w' r, x w = .done w' r ∧ w.Step w' ∧ r ≠ .error .cancelled) :
    Charted code P depth x := by
  intro w w' r hw hdepth hr
  obtain ⟨v, r', hx, hstep, hcalm⟩ := h w hw hdepth
  rw [hx] at hr
  cases hr
  exact ⟨[], .step hstep, fun hu => absurd hu hcalm⟩

/-- Nothing happens. -/
theorem step_refl (w : World) : w.Step w :=
  .aside w w.heap w.host w.controls w.stackCount w.jobs

theorem charted_ret (a : α) : Charted code P depth (pure a : Exec α) :=
  charted_of_step fun w _ _ => ⟨w, .ok a, rfl, step_refl w, nofun⟩

theorem charted_fail (fault : Fault) : Charted code P depth (Exec.fail fault : Exec α) :=
  charted_of_step fun w _ _ => ⟨w, _, rfl, step_refl w, nofun⟩

theorem charted_change {g : World → World}
    (h : ∀ w : World, w.Scoped → depth ≤ w.stack.depth → w.Step (g w)) :
    Charted code P depth (Exec.change g) :=
  charted_of_step fun w hw hdepth => ⟨g w, .ok (), rfl, h w hw hdepth, nofun⟩

theorem charted_aside (hx : Aside x) : Charted code P depth x := by
  refine charted_of_step fun w _ _ => ?_
  obtain ⟨heap, host, a, hx⟩ | ⟨fault, hx, -⟩ := hx w
  · exact ⟨_, _, hx, .aside w heap host w.controls w.stackCount w.jobs, nofun⟩
  · exact ⟨w, _, hx, step_refl w, nofun⟩

/-- Having a course is a habit of evaluation. -/
def charting (code : Code) (P : Stmt → Prop) (depth : Nat) : Habit where
  has := Charted code P depth
  ret := charted_ret
  fail := charted_fail
  bind := Charted.bind
  aside := charted_aside
  spawn := fun _ _ => charted_change fun w _ _ => .aside w w.heap w.host _ w.stackCount _

end Charted

section Statements

theorem charted_newVariable {bind : World → Cell → World}
    (h : ∀ (w : World) c, w.Scoped → depth ≤ w.stack.depth → w.Step (bind w c))
    (name : String) (shape : Shape) (value : Val) :
    Charted code P depth (newVariable bind name shape value) := by
  unfold newVariable
  cases Cell.holding name shape value with
  | ok c => exact (charted_ret c).bind fun c => charted_change fun w => h w c
  | error fault => exact Charted.bind (charted_fail fault) fun c => charted_change fun w => h w c

/-- In a call with a scope a declaration binds a local variable. -/
theorem declare_eq_declareLocal {w : World} (hw : w.Scoped) (hdepth : 1 ≤ w.stack.depth)
    (c : Cell) : w.declare c = w.declareLocal c := by
  obtain ⟨frame, below, hframes⟩ : ∃ frame below, w.stack.frames = frame :: below := by
    refine List.exists_cons_of_ne_nil fun hnil => ?_
    rw [w.stack.depth_eq, hnil] at hdepth
    cases hdepth
  have hscopes := hw frame (hframes ▸ List.mem_cons_self)
  have hfound : w.stack.declare? c.name w.memory.cells.size =
      some (w.stack.mapCurrent (·.bind c.name w.memory.cells.size)) := by
    simp only [CallStack.declare?, hframes, List.isEmpty_iff, hscopes, if_false]
  simp only [World.declare, World.declareLocal, Memory.alloc, hfound, Option.getD_some]

/-- Work in a scope of its own has the course that it has without. -/
theorem charted_nested {x : Exec Flow} (hx : Charted code P 1 x) : Charted code P 1 (nested x) := by
  intro w w' r hw hdepth hr
  obtain ⟨v, r₁, hv, hr⟩ := Run.endsBy_andThen hr
  cases hr
  have hopen := (World.Step.openScope w).holds
  obtain ⟨log, hlog, hgate⟩ := hx _ _ _ (hopen.scopes hw) (hopen.depth ▸ hdepth) hv
  exact ⟨log, .around (.openScope w) hlog (.closeScopes v _), hgate⟩

/-- What statements use has a course. -/
structure CalleesCharted (code : Code) (P : Stmt → Prop) (callees : Callees) : Prop where
  /-- Calls do. -/
  call : ∀ m ∈ code.program.methods, ∀ args, Charted code P 0 (callees.call m args)
  /-- Blocks do. -/
  block : ∀ {block}, Stmt.everyAll P block → ∀ inLoop,
    Charted code P 1 (callees.block block inLoop)
  /-- Loops do. -/
  loop : ∀ {body}, Stmt.everyAll P body → ∀ kind test,
    Charted code P 1 (callees.loop kind test body)

variable {callees : Callees}

theorem CalleesCharted.deeper (h : CalleesCharted code P callees) :
    ∀ m ∈ code.program.methods, ∀ args, Charted code P 1 (callees.call m args) :=
  fun m hm args => (h.call m hm args).deeper

theorem CalleesCharted.eval (h : CalleesCharted code P callees) (e : Expr) :
    Charted code P 1 (Engine.eval code.program callees.call e) :=
  (charting code P 1).eval_of_methods h.deeper e

theorem CalleesCharted.test (h : CalleesCharted code P callees) (e : Expr) :
    Charted code P 1 (evalCondition code.program callees.call e) :=
  (charting code P 1).evalCondition_of_methods h.deeper e

theorem charted_assign (h : CalleesCharted code P callees) {target : Expr}
    (htarget : ∀ name isGlobal span, target ≠ .var name isGlobal span) (value : Val) :
    Charted code P 1 (assign code.program callees.call target value) := by
  cases target with
  | var name isGlobal span => exact absurd rfl (htarget name isGlobal span)
  | index container position span =>
    exact (h.eval container).bind fun _ => (h.eval position).bind fun _ =>
      charted_aside (aside_changeHeap fun _ => tame_setElement _ _ _ _)
  | staticProperty typeName name span =>
    exact charted_aside (aside_onHost (careful_setProperty (.type typeName) name value))
  | property object name span =>
    exact (h.eval object).bind fun _ =>
      charted_aside (aside_onHost (careful_setProperty _ _ _))
  | _ => exact charted_fail _

theorem charted_runHandler (h : CalleesCharted code P callees) {handler : Block}
    (hp : Stmt.everyAll P handler) (catchVar : Option String) (inLoop : Bool) (f : Failure) :
    Charted code P 1 (runHandler callees catchVar handler inLoop f) := by
  intro w w' r hw hdepth hr
  have hopen := (World.Step.openScope w).holds
  have hblock : Charted code P 1
      ((callees.block handler inLoop).finishing (·.restoreScopes w.stack.scopeMark)) := by
    intro v v' r hv hdepth hr
    obtain ⟨u, r₁, hu, hr⟩ := Run.endsBy_andThen hr
    cases hr
    obtain ⟨log, hlog, hgate⟩ := h.block hp inLoop _ _ _ hv hdepth hu
    exact ⟨log, .around (step_refl v) hlog (.closeScopes u _), hgate⟩
  have hrest : ∀ {x : Exec Unit}, Charted code P 1 x →
      ((x >>= fun _ => (callees.block handler inLoop).finishing
        (·.restoreScopes w.stack.scopeMark)) w.pushScope).EndsBy (World.Pause code P) w' r →
      ∃ log, Course code P w w' log ∧
        (r = .error .cancelled → w'.controls.gate.cancelled = true) := by
    intro x hx hr
    obtain ⟨log, hlog, hgate⟩ := hx.bind (fun _ => hblock) _ _ _ (hopen.scopes hw)
      (hopen.depth ▸ hdepth) hr
    exact ⟨log, .around (.openScope w) hlog (step_refl w'), hgate⟩
  cases catchVar with
  | some name => exact hrest (charted_newVariable (fun w c _ _ => .declare w c) _ _ _) hr
  | none => exact hrest (charted_ret ()) hr

/-- Storing a value fails, or a variable is found that takes it. -/
theorem storeVariable_cases (name : String) (isGlobal : Bool) (value : Val) (w : World) :
    (∃ fault, storeVariable name isGlobal value w = Exec.fail fault w) ∨
      ∃ id c, w.lookup? name isGlobal = some id ∧ (w.memory.cell id).store value = .ok c ∧
        storeVariable name isGlobal value w =
          .done { w with memory := w.memory.setCell id c } (.ok ()) := by
  unfold storeVariable
  cases hfound : w.lookup? name isGlobal with
  | none => exact .inl ⟨_, rfl⟩
  | some id =>
    dsimp only
    cases hstore : (w.memory.cell id).store value with
    | error fault => exact .inl ⟨fault, rfl⟩
    | ok c => exact .inr ⟨id, c, rfl, hstore, rfl⟩

/-- An assignment evaluates its expression, and then it stores the value or does nothing more. -/
theorem charted_assign_var (h : CalleesCharted code P callees) {name : String} {isGlobal : Bool}
    {place span : Span} {e : Expr} {inLoop : Bool} {w w' : World} {r : Except Unwind Flow}
    (hw : w.Scoped) (hdepth : 1 ≤ w.stack.depth)
    (hr : (execute code.program callees inLoop (.assign (.var name isGlobal place) e span)
      w).EndsBy (World.Pause code P) w' r) :
    ∃ log v, Course code P w v log ∧
      (v = w' ∨ ∃ id, (Stmt.assign (.var name isGlobal place) e span).Stores v id w') ∧
      (r = .error .cancelled → w'.controls.gate.cancelled = true) := by
  obtain ⟨v, value, hv, hr⟩ | ⟨u, hv, rfl⟩ := Exec.endsBy_bind hr
  · obtain ⟨log, hlog, -⟩ := h.eval e _ _ _ hw hdepth hv
    change ((storeVariable name isGlobal value >>= fun _ => pure Flow.next) v).EndsBy _ w' r at hr
    rcases storeVariable_cases name isGlobal value v with
      ⟨fault, hfail⟩ | ⟨id, c, hfound, hstore, hdone⟩
    · rw [Exec.bind_of_error hfail] at hr
      cases hr
      exact ⟨log, w', hlog, .inl rfl, nofun⟩
    · rw [Exec.bind_of_ok hdone] at hr
      cases hr
      refine ⟨log, v, hlog, .inr ⟨id, name, isGlobal, place, e, span, value, c, ?_⟩, nofun⟩
      exact ⟨rfl, hfound, hstore, rfl⟩
  · obtain ⟨log, hlog, hgate⟩ := h.eval e _ _ _ hw hdepth hv
    exact ⟨log, w', hlog, .inl rfl, fun hu => hgate (cancelled_of_early hu)⟩

/-- What a statement does has a course, after which an assignment may still store its value. -/
theorem charted_execute (h : CalleesCharted code P callees) {stmt : Stmt} (hp : stmt.every P)
    (inLoop : Bool) {w w' : World} {r : Except Unwind Flow} (hw : w.Scoped)
    (hdepth : 1 ≤ w.stack.depth)
    (hr : (execute code.program callees inLoop stmt w).EndsBy (World.Pause code P) w' r) :
    ∃ log v, Course code P w v log ∧ (v = w' ∨ ∃ id, stmt.Stores v id w') ∧
      (r = .error .cancelled → w'.controls.gate.cancelled = true) := by
  have hoption : ∀ e, Charted code P 1 (evalOption code.program callees.call e) :=
    (charting code P 1).evalOption_of_methods h.deeper
  have plain : ∀ {x : Exec Flow}, Charted code P 1 x → (x w).EndsBy (World.Pause code P) w' r →
      ∃ log v, Course code P w v log ∧ (v = w' ∨ ∃ id, stmt.Stores v id w') ∧
        (r = .error .cancelled → w'.controls.gate.cancelled = true) := by
    intro x hx hr
    obtain ⟨log, hlog, hgate⟩ := hx _ _ _ hw hdepth hr
    exact ⟨log, w', hlog, .inl rfl, hgate⟩
  cases stmt with
  | declare name shape init span =>
    refine plain ((hoption init).bind fun v => Charted.bind ?_ fun _ => charted_ret _) hr
    refine charted_newVariable (fun w c hw hdepth => ?_) name shape v
    rw [declare_eq_declareLocal hw hdepth]
    exact .declare w c
  | assign target value span =>
    by_cases htarget : ∃ name isGlobal place, target = .var name isGlobal place
    · obtain ⟨name, isGlobal, place, rfl⟩ := htarget
      exact charted_assign_var h hw hdepth hr
    · refine plain ((h.eval value).bind fun v => Charted.bind ?_ fun _ => charted_ret _) hr
      exact charted_assign h (fun name isGlobal place he => htarget ⟨name, isGlobal, place, he⟩) v
  | cond test yes no span =>
    refine plain ((h.test test).bind fun t => ?_) hr
    cases no with
    | none =>
      cases t with
      | true => exact charted_nested (h.block (Stmt.every_cond_none hp) inLoop)
      | false => exact charted_ret _
    | some no =>
      cases t with
      | true => exact charted_nested (h.block (Stmt.every_cond_some hp).1 inLoop)
      | false => exact charted_nested (h.block (Stmt.every_cond_some hp).2 inLoop)
  | branch test label span =>
    refine plain ((h.test test).bind fun t => ?_) hr
    cases t <;> exact charted_ret _
  | loop kind test body span => exact plain (h.loop (Stmt.every_loop hp) kind test) hr
  | ret value span =>
    refine plain ((hoption value).bind fun v => Charted.bind ?_ fun _ => charted_ret _) hr
    exact charted_change fun w _ _ => .result w v
  | brk span =>
    cases inLoop with
    | true => exact plain (charted_ret _) hr
    | false => exact plain (charted_fail _) hr
  | throw value span =>
    refine plain ((h.eval value).bind fun v => ?_) hr
    cases v <;> exact charted_fail _
  | attempt body name handler span =>
    have hbody := charted_nested (h.block (Stmt.every_attempt hp).1 inLoop)
    refine plain ?_ hr
    intro w w' r hw hdepth hr
    obtain ⟨v, f, hv, hr⟩ | ⟨hr, -⟩ := Exec.endsBy_onFailure hr
    · obtain ⟨log, hlog, -⟩ := hbody _ _ _ hw hdepth hv
      obtain ⟨log', hlog', hgate⟩ :=
        charted_runHandler h (Stmt.every_attempt hp).2 name inLoop f _ _ _
          (hlog.holds.scopes hw) (hlog.holds.depth ▸ hdepth) hr
      exact ⟨log ++ log', hlog.seq hlog', hgate⟩
    · exact hbody _ _ _ hw hdepth hr
  | eval e span => exact plain ((h.eval e).bind fun _ => charted_ret _) hr
  | label name span => exact plain (charted_ret _) hr
  | goto label span => exact plain (charted_ret _) hr

/-- Passing the gate has a course, also if other work goes on meanwhile. -/
theorem charted_checkpoint (stmt : Stmt) : Charted code P depth (checkpoint stmt) := by
  have hpass : ∀ {passage v w' r}, (passage = .cancelled → v.controls.gate.cancelled = true) →
      (pass passage v).EndsBy (World.Pause code P) w' r →
      w' = v ∧ (r = .error .cancelled → w'.controls.gate.cancelled = true) := by
    intro passage v w' r hgate hr
    cases passage with
    | passed =>
      cases hr
      exact ⟨rfl, nofun⟩
    | cancelled =>
      cases hr
      exact ⟨rfl, fun _ => hgate rfl⟩
  intro w w' r hw hdepth hr
  unfold checkpoint at hr
  dsimp only at hr
  split at hr
  · next passage controls hleave =>
    have hturned : passage = .cancelled → controls.gate.cancelled = true := by
      rintro rfl
      obtain ⟨hcancelled, rfl⟩ := Controls.eq_of_leave?_cancelled hleave
      exact hcancelled
    obtain ⟨rfl, hgate⟩ := hpass hturned hr
    exact ⟨[], .step (.aside w w.heap w.host _ w.stackCount w.jobs), hgate⟩
  · cases hr with
    | held waited rest =>
      obtain ⟨rfl, hgate⟩ := hpass waited.gate rest
      obtain ⟨log, hlog⟩ := waited.course
      exact ⟨_, (Course.step (.aside w w.heap w.host _ w.stackCount w.jobs)).seq hlog, hgate⟩

theorem charted_enter (stmt : Stmt) : Charted code P depth (enter stmt) := by
  refine charted_change fun w _ _ => ?_
  split
  · exact step_refl w
  · exact .span w stmt.span

/-- From the observation that it begins, a statement is one execution. -/
theorem charted_observed {fuel : Nat} (h : CalleesCharted code P (calleesAt code fuel))
    {stmt : Stmt} (hp : stmt.every P) (inLoop : Bool) :
    Charted code P 1 (observed code.program (calleesAt code fuel) inLoop stmt) := by
  intro w w' r hw hdepth hr
  obtain ⟨x, rfl, rfl, rfl, rfl, hx⟩ := endsBy_observed hr
  have hbegin : (x.start.observe true x.stmt).Scoped := hw
  obtain ⟨log, v, hlog, hlast, hgate⟩ := charted_execute h hp inLoop hbegin hdepth hx
  have hreal : x.Real code := ⟨fuel, inLoop, hx.mono World.Pause.interim⟩
  refine ⟨_, .execution x (Stmt.every_self hp) hreal hlog hlast, fun hcancelled => ?_⟩
  have hout := x.cancelled_of_result hcancelled
  have hleft : ¬ x.Completes := by
    rw [Execution.Completes, hout]
    decide
  rw [Execution.after_of_not_completes hleft]
  exact hgate hout

theorem charted_runStmt {fuel : Nat} (h : CalleesCharted code P (calleesAt code fuel))
    {stmt : Stmt} (hp : stmt.every P) (inLoop : Bool) :
    Charted code P 1 (runStmt code.program (calleesAt code fuel) inLoop stmt) :=
  (charted_enter stmt).bind fun _ => (charted_checkpoint stmt).bind fun _ =>
    charted_observed h hp inLoop

end Statements

section Runs

variable {callees : Callees}

theorem charted_loopRound (h : CalleesCharted code P callees) {body : Block}
    (hp : Stmt.everyAll P body) (kind : LoopKind) (test : Expr) :
    Charted code P 1 (loopRound code.program callees kind test body) := by
  have hbody := charted_nested (h.block hp true)
  have hguard : ∀ {x : Exec (Option Flow)}, Charted code P 1 x →
      Charted code P 1 (unlessCancelled x) := by
    intro x hx w w' r hw hdepth hr
    unfold unlessCancelled at hr
    split at hr
    · next hcancelled =>
      cases hr
      exact ⟨[], .refl w, fun _ => hcancelled⟩
    · exact hx _ _ _ hw hdepth hr
  cases kind with
  | testFirst =>
    rw [loopRound_testFirst]
    refine hguard ((h.test test).bind fun goes => ?_)
    cases goes with
    | true => exact hbody.bind fun _ => charted_ret _
    | false => exact charted_ret _
  | testLast =>
    rw [loopRound_testLast]
    refine hguard (hbody.bind fun flow => ?_)
    cases loopEnd flow with
    | some flow => exact charted_ret _
    | none =>
      refine (h.test test).bind fun goes => ?_
      cases goes <;> exact charted_ret _

theorem charted_bindArgs : ∀ (params : List Param) (args : List Val),
    Charted code P depth (bindArgs params args)
  | [], _ => charted_ret _
  | _ :: _, [] => charted_ret _
  | param :: params, arg :: args =>
    (charted_newVariable (fun w c _ _ => .declare w c) param.name param.shape arg).bind fun _ =>
      charted_bindArgs params args

/-- In a call of its own, work begins with a scope. -/
theorem charted_inFrame {x : Exec Unit} (hx : Charted code P 1 x) (m : Method) :
    Charted code P 0 (inFrame m x) := by
  intro w w' r hw _ hr
  obtain ⟨v, r₁, hv, hr⟩ := Run.endsBy_andThen hr
  have hscoped : (w.pushFrame m).Scoped := by
    intro f hf
    rcases List.mem_cons.mp hf with rfl | hf
    · exact List.cons_ne_nil _ _
    · exact hw f hf
  obtain ⟨log, hlog, hgate⟩ := hx _ _ _ hscoped (Nat.le_add_left 1 _) hv
  cases r₁ with
  | ok a =>
    cases hr
    exact ⟨log, hlog.call m, nofun⟩
  | error u =>
    cases hr
    exact ⟨log, hlog.call m, fun hu => hgate (cancelled_of_early hu)⟩

/-- What the engine runs has a course. -/
structure ChartedWith (code : Code) (P : Stmt → Prop) (fuel : Nat) : Prop where
  /-- Calls do. -/
  call : ∀ {m : Method}, Stmt.everyAll P m.body → ∀ args,
    Charted code P 0 (invoke code fuel m args)
  /-- Blocks do. -/
  block : ∀ {block}, Stmt.everyAll P block → ∀ inLoop,
    Charted code P 1 (runBlock code fuel block inLoop)
  /-- What is left of a block does. -/
  walk : ∀ {block rest}, Stmt.everyAll P block → (∀ stmt ∈ rest, stmt ∈ block) → ∀ inLoop,
    Charted code P 1 (runFrom code fuel block inLoop rest)
  /-- Loops do. -/
  loop : ∀ {body}, Stmt.everyAll P body → ∀ kind test,
    Charted code P 1 (runLoop code fuel kind test body)

theorem chartedWith_zero : ChartedWith code P 0 where
  call := fun _ _ _ _ _ _ _ hr => by cases hr
  block := fun _ _ _ _ _ _ _ hr => by cases hr
  walk := fun _ _ _ _ _ _ _ _ hr => by cases hr
  loop := fun _ _ _ _ _ _ _ _ hr => by cases hr

/-- A unit of fuel more is used for one step. -/
theorem ChartedWith.succ {fuel : Nat} (h : ChartedWith code P fuel)
    (hcode : ∀ m ∈ code.program.methods, Stmt.everyAll P m.body) :
    ChartedWith code P (fuel + 1) := by
  have hcallees : CalleesCharted code P (calleesAt code fuel) :=
    ⟨fun m hm => h.call (hcode m hm), h.block, h.loop⟩
  refine ⟨?_, fun hp inLoop => h.walk hp (fun _ hs => hs) inLoop, ?_, ?_⟩
  case refine_1 =>
    intro m hp args w w' r hw hdepth hr
    unfold invoke at hr
    split at hr
    · exact charted_fail _ _ _ _ hw hdepth hr
    · split at hr
      · exact charted_fail _ _ _ _ hw hdepth hr
      · have hbody : Charted code P 1 (runBody (runBlock code fuel) m) := by
          refine (h.block hp false).bind fun flow => ?_
          cases flow with
          | jump label => exact charted_fail _
          | _ => exact charted_ret _
        exact charted_inFrame ((charted_bindArgs m.params args).bind fun _ => hbody) m _ _ _
          hw hdepth hr
  case refine_2 =>
    intro block rest hp hrest inLoop
    cases rest with
    | nil =>
      intro w w' r hw hdepth hr
      cases hr
      exact ⟨[], .refl w, fun hu => by cases hu⟩
    | cons stmt rest =>
      rw [runFrom_cons]
      have hstmt : stmt.every P := Stmt.every_of_mem hp (hrest stmt List.mem_cons_self)
      refine (charted_runStmt hcallees hstmt inLoop).bind fun flow => ?_
      cases hflow : follow block rest flow with
      | inl rest' =>
        refine h.walk hp (Discipline.mem_of_follow (fun s hs => ?_) hflow) inLoop
        exact hrest s (List.mem_cons_of_mem _ hs)
      | inr flow' => exact charted_ret flow'
  case refine_3 =>
    intro body hp kind test
    rw [runLoop_succ]
    refine (charted_loopRound hcallees hp kind test).bind fun left => ?_
    cases left with
    | none => exact h.loop hp kind test
    | some flow => exact charted_ret _

/-- Every run has a course, if all methods have only statements with the property. -/
theorem chartedWith (hcode : ∀ m ∈ code.program.methods, Stmt.everyAll P m.body) (fuel : Nat) :
    ChartedWith code P fuel := by
  induction fuel with
  | zero => exact chartedWith_zero
  | succ fuel ih => exact ih.succ hcode

end Runs

end Engine

end Stepwise
