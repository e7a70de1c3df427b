import Stepwise.Proofs.Engine.Discipline

/-!
# Runs of checked programs

A checked program is jump code whose jumps land, without a `break`, and every
call of it names a method and passes as many arguments as the method takes.
Whatever is run of it, from whatever world, no fault of these kinds comes up:
not in a call from outside, a global's first value or an invocation from the
queue, nor in any statement or block inside, so that no handler gets one
either. Invocations that are started are right, and stay right in the queue.
-/

namespace Stepwise

/-- The faults that checking a program is there to prevent: wrong calls of
program methods, jumps to nowhere, and statements out of place. -/
def Fault.isPreventable : Fault → Bool
  | .methodMissing _ | .arity .. | .labelMissing .. => true
  | f => f.kind == .illegalStatement

/-- Operations raise none of them. -/
theorem Fault.isPreventable_of_isOperational {f : Fault} (h : f.isOperational = true) :
    f.isPreventable = false := by
  cases f with
  | methodMissing | arity | callDepth | labelMissing | breakOutsideLoop | thrown | rejected
  | reported => cases h
  | _ => rfl

/-- Jump code in which nothing is wrong. -/
structure Program.Checked (p : Program) : Prop where
  /-- Jumps land, breaks leave loops and calls are right. -/
  bodies : ∀ m ∈ p.methods, p.Proper false (Block.labels m.body) m.body
  /-- There are no conditions and loops. -/
  flat : ∀ m ∈ p.methods, Stmt.everyAll (·.isStructured = false) m.body
  /-- The calls in first values are right. -/
  globals : ∀ g ∈ p.globals, ∀ e ∈ g.init, e.callProblems p = []

/-- An invocation of a method of the program with as many arguments as it takes. -/
def Program.Takes (p : Program) (job : Job) : Prop :=
  job.method ∈ p.methods ∧ job.method.params.length = job.args.length

/-- Between two worlds only right invocations were added to those that wait. -/
def World.Brings (p : Program) (w w' : World) : Prop :=
  ∀ job ∈ w'.jobs, job ∈ w.jobs ∨ p.Takes job

/-- The run ends early for none of the preventable faults. -/
def Unwind.Blameless {α : Type} (r : Except Unwind α) : Prop :=
  ∀ f, r = .error (.failed f) → f.fault.isPreventable = false

/-- A run that began in a world raises, if it ends, none of the preventable
faults, and brings right invocations only, if other work does so as well
while it waits. -/
def Run.Clear {α : Type} (p : Program) (w : World) (x : Run α) : Prop :=
  x.Within (World.Brings p) (fun _ => True) fun w' r => w.Brings p w' ∧ Unwind.Blameless r

/-- A run that began in a world gives, if it ends, such a value, and brings
right invocations only, if other work does so as well while it waits. -/
def Run.Gives {α : Type} (p : Program) (w : World) (Q : α → Prop) (x : Run α) : Prop :=
  x.Within (World.Brings p) (fun _ => True) fun w' r => w.Brings p w' ∧ ∃ a, r = .ok a ∧ Q a

namespace Program.Proper

variable {p : Program} {stmt : Stmt}

mutual

/-- The parts of a proper statement of jump code are proper where they stand. -/
theorem part_of_stmt :
    ∀ (first : Stmt) (around : List String), first.every (·.isStructured = false) →
      p.Proper false around [first] → stmt ∈ first.parts → ∃ around, p.Proper false around [stmt]
  | .cond .., _, hflat, _, _ | .loop .., _, hflat, _, _ => by cases Stmt.every_self hflat
  | .attempt body _ handler _, around, hflat, h, hm => by
    rw [Stmt.parts, List.mem_cons, List.mem_append] at hm
    rcases hm with rfl | hm | hm
    · exact ⟨around, h⟩
    · exact part body _ (Stmt.every_attempt hflat).1 h.attempted hm
    · exact part handler _ (Stmt.every_attempt hflat).2 h.handler hm
  | .declare .., around, _, h, hm | .assign .., around, _, h, hm | .branch .., around, _, h, hm
  | .ret .., around, _, h, hm | .brk .., around, _, h, hm | .throw .., around, _, h, hm
  | .eval .., around, _, h, hm | .label .., around, _, h, hm | .goto .., around, _, h, hm => by
    simp only [Stmt.parts, List.mem_singleton] at hm
    exact ⟨around, hm ▸ h⟩

/-- The parts of proper jump code are proper where they stand. -/
theorem part :
    ∀ (block : List Stmt) (around : List String), Stmt.everyAll (·.isStructured = false) block →
      p.Proper false around block → stmt ∈ Stmt.partsOf block →
        ∃ around, p.Proper false around [stmt]
  | [], _, _, _, hm => by
    rw [Stmt.partsOf] at hm
    exact absurd hm List.not_mem_nil
  | first :: rest, around, hflat, h, hm => by
    rw [Stmt.partsOf, List.mem_append] at hm
    rcases hm with hm | hm
    · exact part_of_stmt first around (Stmt.everyAll_cons.mp hflat).1 (h.mem List.mem_cons_self) hm
    · exact part rest around (Stmt.everyAll_cons.mp hflat).2 h.rest hm

end

/-- The blocks of a proper statement of jump code are proper. -/
theorem block {around : List String} {block : List Stmt} (h : p.Proper false around [stmt])
    (hflat : stmt.isStructured = false) (hb : block ∈ stmt.blocks) :
    p.Proper false (Block.labels block ++ around) block := by
  cases stmt with
  | cond | loop => cases hflat
  | attempt body name handler span =>
    rcases List.mem_cons.mp hb with rfl | hb
    · exact h.attempted
    · obtain rfl := List.mem_singleton.mp hb
      exact h.handler
  | _ => exact absurd hb List.not_mem_nil

end Program.Proper

/-- The parts of the methods of a checked program are proper where they stand. -/
theorem Program.Checked.part {p : Program} (h : p.Checked) {m : Method} (hm : m ∈ p.methods)
    {stmt : Stmt} (hs : stmt ∈ Stmt.partsOf m.body) : ∃ around, p.Proper false around [stmt] :=
  Program.Proper.part m.body _ (h.flat m hm) (h.bodies m hm) hs

namespace World

variable {p : Program} {w w' w'' : World}

/-- Nothing more is waiting. -/
theorem brings_of_jobs (h : w'.jobs = w.jobs) : w.Brings p w' := fun _ hj => .inl (h ▸ hj)

theorem Brings.trans (h : w.Brings p w') (h' : w'.Brings p w'') : w.Brings p w'' :=
  fun job hj => (h' job hj).elim (h job) .inr

/-- Right invocations are brought by starting one. -/
theorem brings_spawn {m : Method} {args : List Val} (hm : m ∈ p.methods)
    (hargs : m.params.length = args.length) : w.Brings p (w.spawn m args) :=
  List.forall_mem_append.mpr ⟨fun _ hj => .inl hj, List.forall_mem_singleton.mpr (.inr ⟨hm, hargs⟩)⟩

/-- Variables are declared without starting anything. -/
theorem jobs_declare (w : World) (c : Cell) : (w.declare c).jobs = w.jobs := by
  unfold declare
  dsimp only
  cases w.stack.declare? c.name (w.memory.alloc c).1 <;> rfl

end World

namespace Engine

variable {code : Code}

/-- Only right invocations are started, and no preventable faults are raised. -/
def checked (p : Program) : Discipline where
  inv _ := True
  moves _ w w' := w.Brings p w'
  meanwhile := World.Brings p
  faults f := Mild f ∧ f.isPreventable = false

/-- Preventable faults are not allowed. -/
theorem not_lax_checked (p : Program) : ¬ (checked p).Lax :=
  fun h => Bool.noConfusion (h.breaks.2 : Fault.isPreventable .breakOutsideLoop = false)

/-- Every elementary step keeps to the discipline. -/
theorem checked_kept (code : Code) : (checked code.program).Kept code := by
  have same : ∀ {names : List String} {w w' : World}, w'.jobs = w.jobs →
      (checked code.program).step names w w' := fun h => ⟨trivial, World.brings_of_jobs h⟩
  exact
    { refl := fun _ => World.brings_of_jobs rfl
      trans := fun h h' => h.trans h'
      widen := fun h _ => h
      waits := fun _ h => ⟨trivial, h⟩
      aside := fun _ _ _ _ => same rfl
      span := fun _ _ => same rfl
      result := fun _ _ => same rfl
      observe := fun _ _ _ => same rfl
      store := fun _ _ _ => same rfl
      declare := fun _ _ => same (World.jobs_declare _ _)
      declareLocal := fun _ _ => same rfl
      spawn := fun _ hm hargs =>
        ⟨trivial, World.brings_spawn hm (hargs.resolve_left (not_lax_checked code.program))⟩
      openScope := fun _ => trivial
      closeScope := fun _ h => ⟨trivial, h.2⟩
      begin := fun _ _ _ => trivial
      finish := fun _ _ h => ⟨trivial, h.2⟩
      operational := fun h => ⟨mild_of_isOperational h, Fault.isPreventable_of_isOperational h⟩
      thrown := fun _ _ => ⟨rfl, rfl⟩
      depth := fun _ _ => ⟨rfl, rfl⟩
      mild := fun h => h.1 }

/-- The outcomes of the invocations that are run until none is waiting. -/
def outcomes (code : Code) (fuel : Nat) : Nat → Exec (List (Except Unwind Val))
  | 0 => fun _ => .exhausted
  | rounds + 1 => fun w =>
    match w.jobs with
    | [] => .done w (.ok [])
    | job :: rest =>
      (do
        let outcome ← runJob code fuel job
        let others ← outcomes code fuel rounds
        pure (outcome :: others) : Exec (List (Except Unwind Val))) { w with jobs := rest }

/-- Running the queue is running it for the outcomes and forgetting them. -/
theorem runQueue_eq_outcomes (code : Code) (fuel rounds : Nat) :
    runQueue code fuel rounds = outcomes code fuel rounds >>= fun _ => pure () := by
  induction rounds with
  | zero => rfl
  | succ rounds ih =>
    funext w
    show runQueue code fuel (rounds + 1) w = (outcomes code fuel (rounds + 1) w).andThen _
    unfold runQueue outcomes
    cases w.jobs with
    | nil => rfl
    | cons job rest =>
      rw [ih]
      have hround : (runJob code fuel job >>= fun _ =>
            outcomes code fuel rounds >>= fun _ => pure ()) =
          (runJob code fuel job >>= fun outcome => outcomes code fuel rounds >>= fun others =>
            pure (outcome :: others)) >>= fun _ => pure () := by
        simp only [Exec.bind_assoc]
        rfl
      exact congrFun hround { w with jobs := rest }

/-- Whatever is run of a program, beginning in a world, raises no preventable faults. -/
structure RunsClear (code : Code) (fuel : Nat) (w : World) : Prop where
  /-- First values of globals do not. -/
  globals : (initGlobals code fuel code.program.globals w).Clear code.program w
  /-- Calls with as many arguments as the method takes do not. -/
  call : ∀ m ∈ code.program.methods, ∀ args, m.params.length = args.length →
    (invoke code fuel m args w).Clear code.program w
  /-- Statements at any depth do not. -/
  stmt : ∀ m ∈ code.program.methods, ∀ stmt ∈ Stmt.partsOf m.body,
    (runStmt code.program (calleesAt code fuel) false stmt w).Clear code.program w
  /-- Nested blocks do not, so that no handler gets such a fault. -/
  block : ∀ m ∈ code.program.methods, ∀ stmt ∈ Stmt.partsOf m.body, ∀ block ∈ stmt.blocks,
    (runBlock code fuel block false w).Clear code.program w
  /-- Expressions do not. -/
  expr : ∀ m ∈ code.program.methods, ∀ stmt ∈ Stmt.partsOf m.body, ∀ e ∈ stmt.exprs,
    (eval code.program (invoke code fuel) e w).Clear code.program w
  /-- Invocations on call stacks of their own do not. -/
  job : ∀ job, code.program.Takes job →
    (runJob code fuel job w).Gives code.program w Unwind.Blameless
  /-- Invocations that wait do not, and neither do those that they start. -/
  queue : (∀ job ∈ w.jobs, code.program.Takes job) → ∀ rounds,
    (outcomes code fuel rounds w).Gives code.program w fun all => ∀ r ∈ all, Unwind.Blameless r

section Clear

variable {α : Type} {code : Code} {fuel : Nat} {names : List String} {Q : α → Prop}

/-- Work that keeps to the discipline is clear. -/
theorem Discipline.Keeps.clear {p : Program} {x : Exec α} (h : (checked p).Keeps names Q x)
    (w : World) : (x w).Clear p w := by
  refine (h w trivial).mono fun w' r ⟨hs, he⟩ => ⟨hs.2, ?_⟩
  rintro f rfl
  exact he.2

/-- Calls of a checked program keep to the discipline. -/
theorem checked_serves (h : code.program.Checked) (fuel : Nat) :
    (checked code.program).Serves code.program (invoke code fuel) :=
  fun m hm _ hargs => ((checked_kept code).keptWith (fun m hm => .inr (h.bodies m hm)) fuel).call
    (.inr (h.bodies m hm)) hargs

/-- What statements of a checked program use keeps to the discipline. -/
theorem checked_supports (h : code.program.Checked) (fuel : Nat) :
    (checked code.program).Supports code.program (calleesAt code fuel) :=
  have hkept := (checked_kept code).keptWith (fun m hm => .inr (h.bodies m hm)) fuel
  ⟨checked_serves h fuel, hkept.block, hkept.loop⟩

/-- The first value of a global is found on a call stack of its own. -/
theorem initialValue_checked (h : code.program.Checked) {g : Global} {init : Expr}
    (hinit : init.callProblems code.program = []) :
    (checked code.program).Keeps names (fun _ => True) (initialValue code fuel g init) := by
  intro w _
  have heval : (checked code.program).Keeps names (fun _ => True)
      (eval code.program (invoke code fuel) init) :=
    (checked_kept code).eval (checked_serves h fuel) init (.inr hinit)
  refine (heval w.newStack trivial).andThen fun w' r ⟨hs, he⟩ => ?_
  have hmoves : (checked code.program).step names w w' := ⟨trivial, hs.2⟩
  rcases r with (f | _) | v
  · refine ⟨hmoves, ?_⟩
    show (checked code.program).faults (f.atSite g.span "global-variable").fault
    rw [fault_atSite]
    exact he
  · exact ⟨hmoves, rfl, rfl⟩
  · exact ⟨hmoves, trivial⟩

/-- Globals are declared one after the other. -/
theorem initGlobals_checked (h : code.program.Checked) {gs : List Global}
    (hgs : ∀ g ∈ gs, ∀ e ∈ g.init, e.callProblems code.program = []) :
    (checked code.program).Keeps [] (fun _ => True) (initGlobals code fuel gs) := by
  have hd := checked_kept code
  induction gs with
  | nil => exact hd.ret trivial
  | cons g gs ih =>
    obtain ⟨hg, hgs⟩ := List.forall_mem_cons.mp hgs
    have hdeclare : ∀ value, (checked code.program).Keeps [] (fun _ => True)
        (newVariable World.declareGlobal g.name g.shape value) :=
      fun value => hd.bind (hd.lift (tame_holding g.name g.shape value)) fun _ _ =>
        hd.change fun _ _ => ⟨trivial, World.brings_of_jobs rfl⟩
    unfold initGlobals
    cases hinit : g.init with
    | none =>
      have hnull : (checked code.program).Keeps [] (fun _ => True) (pure Val.null) := hd.ret trivial
      exact hd.bind hnull fun v _ => hd.bind (hdeclare v) fun _ _ => ih hgs
    | some init =>
      exact hd.bind (initialValue_checked h (hg init hinit)) fun v _ =>
        hd.bind (hdeclare v) fun _ _ => ih hgs

/-- An invocation of a checked program has a blameless outcome. -/
theorem runJob_checked (h : code.program.Checked) {job : Job} (hjob : code.program.Takes job)
    (w : World) : (runJob code fuel job w).Gives code.program w Unwind.Blameless := by
  have hcall := (checked_serves h fuel job.method hjob.1 job.args (.inr hjob.2)).clear
    { w with stack := .fresh job.stack }
  exact hcall.andThen fun w' outcome ⟨hb, hr⟩ => ⟨hb, outcome, rfl, hr⟩

/-- The queue of a checked program is worked off without blame. -/
theorem outcomes_checked (h : code.program.Checked) (rounds : Nat) {w : World}
    (hjobs : ∀ job ∈ w.jobs, code.program.Takes job) :
    (outcomes code fuel rounds w).Gives code.program w fun all =>
      ∀ r ∈ all, Unwind.Blameless r := by
  induction rounds generalizing w with
  | zero => exact trivial
  | succ rounds ih =>
    unfold outcomes
    cases hw : w.jobs with
    | nil => exact ⟨World.brings_of_jobs rfl, [], rfl, by simp⟩
    | cons job rest =>
      rw [hw] at hjobs
      obtain ⟨hjob, hrest⟩ := List.forall_mem_cons.mp hjobs
      refine (runJob_checked h hjob { w with jobs := rest }).andThen ?_
      rintro w₁ r ⟨hb₁, outcome, rfl, houtcome⟩
      -- What waits now was waiting before or has been started by the invocation.
      have hjobs₁ : ∀ job ∈ w₁.jobs, code.program.Takes job :=
        fun job hj => (hb₁ job hj).elim (hrest job) id
      refine (ih hjobs₁).andThen ?_
      rintro w₂ r ⟨hb₂, others, rfl, hothers⟩
      refine ⟨?_, outcome :: others, rfl, List.forall_mem_cons.mpr ⟨houtcome, hothers⟩⟩
      exact fun job hj => .inr ((hb₂ job hj).elim (hjobs₁ job) id)

end Clear

/-- A checked program raises no preventable faults, whatever is run of it. -/
theorem RunsClear.of_checked {code : Code} (h : code.program.Checked) (fuel : Nat) (w : World) :
    RunsClear code fuel w where
  globals := (initGlobals_checked h h.globals).clear w
  call := fun m hm args hargs => (checked_serves h fuel m hm args (.inr hargs)).clear w
  stmt := by
    intro m hm stmt hs
    obtain ⟨around, hp⟩ := h.part hm hs
    have hfits : (checked code.program).Fits code.program false around [stmt] := .inr hp
    exact ((checked_kept code).runStmt (checked_supports h fuel) hfits).clear w
  block := by
    intro m hm stmt hs block hb
    obtain ⟨around, hp⟩ := h.part hm hs
    exact ((checked_supports h fuel).block (.inr (hp.block (h.flat m hm stmt hs) hb))).clear w
  expr := by
    intro m hm stmt hs e he
    obtain ⟨around, hp⟩ := h.part hm hs
    have heval : (checked code.program).Keeps [] (fun _ => True)
        (eval code.program (invoke code fuel) e) :=
      (checked_kept code).eval (checked_serves h fuel) e (.inr (hp.expr he))
    exact heval.clear w
  job := fun _ hjob => runJob_checked h hjob w
  queue := fun hjobs rounds => outcomes_checked h rounds hjobs

end Engine

end Stepwise
