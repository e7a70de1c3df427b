import Mathlib.Data.List.Find
import Stepwise.Proofs.Engine.Charting
import Stepwise.Proofs.Engine.Origins

/-!
# Failures of global variables

Global variables are declared one after the other, and the first failure ends
that. It is placed at the innermost statement that failed in a method called by the
first value, or else at the declaration. Only a first value that was evaluated and
that the shape of the variable refuses fails without a place. In each case the global
variables from before the failing one are there, with their first values, except
where a statement of some method has assigned to them since.
-/

namespace Stepwise

open Engine

/-- The statement stands in a method of the program. -/
def Program.Owns (p : Program) (stmt : Stmt) : Prop :=
  ∃ m ∈ p.methods, stmt ∈ Stmt.partsOf m.body

theorem Program.everyAll_owns {p : Program} :
    ∀ m ∈ p.methods, Stmt.everyAll p.Owns m.body :=
  fun m hm _ hpart => ⟨m, hm, hpart⟩

namespace Memory

variable {m : Memory}

/-- The variables that are global are there. -/
def Grounded (m : Memory) : Prop := ∀ id ∈ m.globals, id < m.cells.size

/-- Making a variable global changes what its name means, and nothing else. -/
theorem global?_declareGlobal (m : Memory) (new : Nat) (name : String) :
    (m.declareGlobal new).global? name =
      if (m.cell new).name = name then some new else m.global? name := by
  show (m.globals.filter (fun g => (m.cell g).name ≠ (m.cell new).name) ++ [new]).find?
    (fun g => (m.cell g).name == name) = _
  rw [List.find?_append, List.find?_filter, List.find?_singleton]
  by_cases hname : (m.cell new).name = name
  · -- all others of the name have given way
    rw [if_pos hname, if_pos (beq_iff_eq.mpr hname), List.find?_eq_none.mpr, Option.none_or]
    simp [hname]
  · rw [if_neg hname, if_neg (mt beq_iff_eq.mp hname), Option.or_none]
    refine List.find?_congr fun id _ => ?_
    by_cases h : (m.cell id).name = name
    · simp [h, Ne.symm hname]
    · simp [h]

/-- Adding a global variable changes what its name means, and nothing else. -/
theorem global?_addGlobal (hm : m.Grounded) (c : Cell) (name : String) :
    ((m.alloc c).2.declareGlobal m.cells.size).global? name =
      if c.name = name then some m.cells.size else m.global? name := by
  have hold : (m.alloc c).2.global? name = m.global? name :=
    List.find?_congr fun id hid => by rw [cell_alloc, if_neg (Nat.ne_of_lt (hm id hid))]
  rw [global?_declareGlobal, hold, cell_alloc, if_pos rfl]

theorem Grounded.declareGlobal (hm : m.Grounded) (c : Cell) :
    ((m.alloc c).2.declareGlobal m.cells.size).Grounded := by
  intro id hid
  show id < (m.alloc c).2.cells.size
  rw [size_alloc]
  rcases List.mem_append.mp hid with hid | hid
  · exact Nat.lt_succ_of_lt (hm id (List.mem_of_mem_filter hid))
  · exact List.mem_singleton.mp hid ▸ Nat.lt_succ_self _

end Memory

namespace Course

variable {code : Code} {P : Stmt → Prop} {w w' : World} {log : List Execution}

/-- The statements executed are those of a course, and the engine executes them so. -/
theorem sound (h : Course code P w w' log) : ∀ x ∈ log, P x.stmt ∧ x.Real code := by
  induction h with
  | step quiet => exact fun _ hx => absurd hx List.not_mem_nil
  | seq first second ih ih' => exact fun x hx => (List.mem_append.mp hx).elim (ih x) (ih' x)
  | call m work ih => exact ih
  | execution x fits real work last ih =>
    intro y hy
    rcases List.mem_append.mp hy with hy | hy
    · exact ih y hy
    · exact List.mem_singleton.mp hy ▸ ⟨fits, real⟩
  | others stack apart work ih => exact ih

end Course

section Presence

variable {code : Code} {P : Stmt → Prop} {fuel : Nat} {g : Global} {value : Val} {w w' : World}
  {log log' : List Execution}

/-- The global variable is there as it was declared, and holds this value unless one of the
statements has assigned to it. -/
def Global.Present (g : Global) (value : Val) (log : List Execution) (w : World) : Prop :=
  ∃ id, w.memory.global? g.name = some id ∧ (w.memory.cell id).shape = g.shape ∧
    ((w.memory.cell id).value = value ∨ ∃ x ∈ log, x.Assigns id)

theorem Global.Present.mono (h : g.Present value log w) (hlog : log ⊆ log') :
    g.Present value log' w :=
  have ⟨id, hid, hshape, hvalue⟩ := h
  ⟨id, hid, hshape, hvalue.imp_right fun ⟨x, hx, ha⟩ => ⟨x, hlog hx, ha⟩⟩

/-- On a call stack of its own, work leaves the global variables where they are. -/
theorem Course.grounded (h : Course code P w.newStack w' log) (hw : w.memory.Grounded) :
    w'.memory.Grounded := by
  intro id hid
  rw [h.respects.globals] at hid
  exact Nat.lt_of_lt_of_le (hw id hid) h.respects.grows

/-- A global variable stays present while other work is done on a call stack of its own. -/
theorem Global.Present.course (h : g.Present value log w) (hw : w.memory.Grounded)
    (hcourse : Course code P w.newStack w' log') : g.Present value (log ++ log') w' := by
  obtain ⟨id, hid, hshape, hvalue⟩ := h
  have hkept := fun j (hj : j ∈ w.memory.globals) =>
    hcourse.respects.kept j hj (hw j hj) List.not_mem_nil
  have hfound : w'.memory.global? g.name = w.memory.global? g.name := by
    unfold Memory.global?
    rw [hcourse.respects.globals]
    refine List.find?_congr fun j hj => ?_
    rw [(hkept j hj).1]
    rfl
  obtain ⟨-, hshape', hvalue'⟩ := hkept id (List.mem_of_find?_eq_some hid)
  refine ⟨id, hfound.trans hid, hshape'.trans hshape, ?_⟩
  rcases hvalue' with hsame | ⟨x, hx, ha⟩
  · rw [hsame]
    exact hvalue.imp_right fun ⟨x, hx, ha⟩ => ⟨x, List.mem_append_left _ hx, ha⟩
  · exact .inr ⟨x, List.mem_append_right _ hx, ha⟩

/-- A global variable stays present when one of another name is declared. -/
theorem Global.Present.declareGlobal (h : g.Present value log w) (hw : w.memory.Grounded)
    {c : Cell} (hname : c.name ≠ g.name) : g.Present value log (w.declareGlobal c) := by
  obtain ⟨id, hid, hshape, hvalue⟩ := h
  have hcell : (w.memory.alloc c).2.cell id = w.memory.cell id := by
    rw [Memory.cell_alloc, if_neg (Nat.ne_of_lt (hw id (List.mem_of_find?_eq_some hid)))]
  have hfound := Memory.global?_addGlobal hw c g.name
  rw [if_neg hname] at hfound
  exact ⟨id, hfound.trans hid, (congrArg Cell.shape hcell).trans hshape,
    hvalue.imp_left (congrArg Cell.value hcell).trans⟩

/-- A global variable is present when it has been declared. -/
theorem Global.present_declareGlobal (hw : w.memory.Grounded) (g : Global) (value : Val) :
    g.Present value [] (w.declareGlobal ⟨g.name, g.shape, value⟩) := by
  have hcell : (w.memory.alloc ⟨g.name, g.shape, value⟩).2.cell w.memory.cells.size =
      ⟨g.name, g.shape, value⟩ := by rw [Memory.cell_alloc, if_pos rfl]
  have hfound := Memory.global?_addGlobal hw ⟨g.name, g.shape, value⟩ g.name
  rw [if_pos rfl] at hfound
  exact ⟨_, hfound, congrArg Cell.shape hcell, .inl (congrArg Cell.value hcell)⟩

end Presence

/-- The first value of a global variable is evaluated, with the statements executed for it. -/
inductive Global.Takes (code : Code) (fuel : Nat) (g : Global) (w : World) :
    Val → World → List Execution → Prop where
  /-- None is given. -/
  | empty (init : g.init = none) : Takes code fuel g w .null w []
  /-- It is the value of an expression. -/
  | initial {e : Expr} {value : Val} {v : World} {log : List Execution} (init : g.init = some e)
      (evaluated : (eval code.program (invoke code fuel) e w.newStack).EndsBy
        (World.Pause code code.program.Owns) v (.ok value))
      (course : Course code code.program.Owns w.newStack v log) : Takes code fuel g w value v log

/-- Global variables are declared in order with their first values, with the statements executed
on the way. -/
inductive Declared (code : Code) (fuel : Nat) :
    World → List (Global × Val) → World → List Execution → Prop where
  /-- None. -/
  | nil (w : World) : Declared code fuel w [] w []
  /-- One, and then the others. -/
  | cons {g : Global} {value : Val} {rest : List (Global × Val)} {w v w' : World}
      {log log' : List Execution} (takes : g.Takes code fuel w value v log)
      (accepted : g.shape.accepts value = true)
      (others : Declared code fuel (v.declareGlobal ⟨g.name, g.shape, value⟩) rest w' log') :
      Declared code fuel w ((g, value) :: rest) w' (log ++ log')

/-- A global variable is not declared because of a failure, with the statements executed. -/
inductive Global.Fails (code : Code) (fuel : Nat) (g : Global) (w w' : World) :
    Failure → List Execution → Prop where
  /-- A statement of a method fails that is called for the first value. The failure is placed at
  the innermost one. -/
  | within {e : Expr} {f : Failure} {x : Execution} {es : List Episode} {log : List Execution}
      (init : g.init = some e)
      (evaluated : (eval code.program (invoke code fuel) e w.newStack).EndsBy
        (World.Pause code code.program.Owns) w' (.error (.failed f)))
      (course : Course code code.program.Owns w.newStack w' log)
      (chronicle : Chronicle code code.program.Owns (World.Pause code code.program.Owns) w.newStack
        (eval code.program (invoke code fuel) e w.newStack) w' (.error (.failed f)) es)
      (culprit : Culprit es x f) (real : x.Real code) (owned : code.program.Owns x.stmt)
      (site : f.site = some (x.stmt.span, x.stmt.kindName)) : Fails code fuel g w w' f log
  /-- The evaluation of the first value fails by itself. The failure is placed at the
  declaration. -/
  | itself {e : Expr} {f : Failure} {es : List Episode} {log : List Execution}
      (init : g.init = some e)
      (evaluated : (eval code.program (invoke code fuel) e w.newStack).EndsBy
        (World.Pause code code.program.Owns) w' (.error (.failed f)))
      (course : Course code code.program.Owns w.newStack w' log)
      (chronicle : Chronicle code code.program.Owns (World.Pause code code.program.Owns) w.newStack
        (eval code.program (invoke code fuel) e w.newStack) w' (.error (.failed f)) es)
      (raw : f.Raw) (alone : ¬ Broken es) :
      Fails code fuel g w w' { f with site := some (g.span, "global-variable") } log
  /-- The shape of the variable refuses the first value. The failure has no place. -/
  | refused {value : Val} {log : List Execution} (takes : g.Takes code fuel w value w' log)
      (refused : g.shape.accepts value = false) :
      Fails code fuel g w w' { fault := .shapeMismatch value.typeName g.shape g.name } log

section Outcomes

variable {code : Code} {fuel : Nat} {g : Global} {value : Val} {w w' : World} {f : Failure}
  {log : List Execution} {declared : List (Global × Val)}

namespace Global

theorem Takes.grounded (h : g.Takes code fuel w value w' log) (hw : w.memory.Grounded) :
    w'.memory.Grounded := by
  cases h with
  | empty => exact hw
  | initial _ _ course => exact course.grounded hw

theorem Takes.present {g₀ : Global} {value₀ : Val} {log₀ : List Execution}
    (h : g.Takes code fuel w value w' log) (hw : w.memory.Grounded)
    (hp : g₀.Present value₀ log₀ w) : g₀.Present value₀ (log₀ ++ log) w' := by
  cases h with
  | empty => exact hp.mono (List.subset_append_left _ _)
  | initial _ _ course => exact hp.course hw course

theorem Takes.sound (h : g.Takes code fuel w value w' log) :
    ∀ x ∈ log, code.program.Owns x.stmt ∧ x.Real code := by
  cases h with
  | empty => exact fun _ hx => absurd hx List.not_mem_nil
  | initial _ _ course => exact course.sound

theorem Fails.present {g₀ : Global} {value₀ : Val} {log₀ : List Execution}
    (h : g.Fails code fuel w w' f log) (hw : w.memory.Grounded)
    (hp : g₀.Present value₀ log₀ w) : g₀.Present value₀ (log₀ ++ log) w' := by
  cases h with
  | within _ _ course => exact hp.course hw course
  | itself _ _ course => exact hp.course hw course
  | refused takes => exact takes.present hw hp

theorem Fails.sound (h : g.Fails code fuel w w' f log) :
    ∀ x ∈ log, code.program.Owns x.stmt ∧ x.Real code := by
  cases h with
  | within _ _ course => exact course.sound
  | itself _ _ course => exact course.sound
  | refused takes => exact takes.sound

end Global

namespace Declared

theorem sound (h : Declared code fuel w declared w' log) :
    ∀ x ∈ log, code.program.Owns x.stmt ∧ x.Real code := by
  induction h with
  | nil => exact fun _ hx => absurd hx List.not_mem_nil
  | cons takes _ _ ih => exact fun x hx => (List.mem_append.mp hx).elim (takes.sound x) (ih x)

theorem grounded (h : Declared code fuel w declared w' log) (hw : w.memory.Grounded) :
    w'.memory.Grounded := by
  induction h with
  | nil => exact hw
  | cons takes _ _ ih => exact ih ((takes.grounded hw).declareGlobal _)

/-- A global variable stays present while others are declared. -/
theorem keeps (h : Declared code fuel w declared w' log) (hw : w.memory.Grounded)
    {log₀ : List Execution} (hp : g.Present value log₀ w)
    (hnames : ∀ p ∈ declared, p.1.name ≠ g.name) : g.Present value (log₀ ++ log) w' := by
  induction h generalizing log₀ with
  | nil => exact hp.mono (List.subset_append_left _ _)
  | @cons g₁ value₁ _ w v _ log _ takes _ _ ih =>
    have hv := takes.grounded hw
    have hhead : g.Present value (log₀ ++ log) (v.declareGlobal ⟨g₁.name, g₁.shape, value₁⟩) :=
      (takes.present hw hp).declareGlobal hv (hnames _ List.mem_cons_self)
    rw [← List.append_assoc]
    exact ih (hv.declareGlobal _) hhead fun p hp => hnames p (List.mem_cons_of_mem _ hp)

/-- Each global variable declared is present, unless another one has taken its name. -/
theorem present (h : Declared code fuel w declared w' log) (hw : w.memory.Grounded)
    {earlier later : List (Global × Val)} (hg : declared = earlier ++ (g, value) :: later)
    (hnames : ∀ p ∈ later, p.1.name ≠ g.name) : g.Present value log w' := by
  induction h generalizing earlier with
  | nil => exact absurd hg.symm (List.append_ne_nil_of_right_ne_nil _ (List.cons_ne_nil _ _))
  | cons takes _ others ih =>
    have hv := takes.grounded hw
    cases earlier with
    | nil =>
      obtain ⟨hhead, rfl⟩ := List.cons.inj hg
      cases hhead
      have hlast := Global.present_declareGlobal hv g value
      exact (others.keeps (hv.declareGlobal _) hlast hnames).mono (List.subset_append_right _ _)
    | cons first earlier =>
      exact (ih (hv.declareGlobal _) (List.cons.inj hg).2).mono (List.subset_append_right _ _)

end Declared

end Outcomes

/-- How a failure ends the declaration of global variables, which have been declared up to a
certain one. -/
structure Failure.EndsGlobals (f : Failure) (code : Code) (fuel : Nat) (gs : List Global)
    (w w' : World) (declared : List (Global × Val)) (g : Global) (after : List Global) (v : World)
    (log log' : List Execution) : Prop where
  /-- These are the variables. -/
  order : gs = declared.map Prod.fst ++ g :: after
  /-- The first ones are declared with their values. -/
  before : Declared code fuel w declared v log
  /-- The next one fails. -/
  fails : g.Fails code fuel v w' f log'
  /-- The statements executed on the way stand in methods, and the engine executes them so. -/
  sound : ∀ x ∈ log ++ log', code.program.Owns x.stmt ∧ x.Real code
  /-- The variables declared are present, with their values unless one of the statements has
  assigned to them. Of several with one name this is the last. -/
  present : ∀ {earlier later : List (Global × Val)} {g₀ value},
    declared = earlier ++ (g₀, value) :: later → (∀ p ∈ later, p.1.name ≠ g₀.name) →
      g₀.Present value (log ++ log') w'

namespace Engine

variable {code : Code} {fuel : Nat} {g : Global} {value : Val} {w w' : World} {f : Failure}

/-- The evaluation of a first value has a course, and if it is turned away, then by a gate that is
cancelled. -/
theorem course_of_initial {e : Expr} {r : Except Unwind Val}
    (h : (eval code.program (invoke code fuel) e w.newStack).EndsBy
      (World.Pause code code.program.Owns) w' r) :
    ∃ log, Course code code.program.Owns w.newStack w' log ∧
      (r = .error .cancelled → w'.controls.gate.cancelled = true) := by
  have hcharted : Charted code code.program.Owns 0 (eval code.program (invoke code fuel) e) :=
    (charting code code.program.Owns 0).eval_of_methods
      (fun m hm => (chartedWith Program.everyAll_owns fuel).call (Program.everyAll_owns m hm)) e
  -- the new call stack has no calls, each of which would need a scope
  exact hcharted _ _ _ (fun _ hf => absurd hf List.not_mem_nil) (Nat.zero_le _) h

/-- The evaluation of a first value has a chronicle. -/
theorem chronicle_of_initial {e : Expr} {r : Except Unwind Val}
    (h : (eval code.program (invoke code fuel) e w.newStack).EndsBy
      (World.Pause code code.program.Owns) w' r) :
    ∃ es, Chronicle code code.program.Owns (World.Pause code code.program.Owns) w.newStack
      (eval code.program (invoke code fuel) e w.newStack) w' r es := by
  have hcalls : ToldWith code code.program.Owns (World.Pause code code.program.Owns) fuel :=
    toldWith World.Pause.interim Program.everyAll_owns fuel
  obtain ⟨es, hes, -⟩ := (aloof code code.program.Owns _).eval_of_methods
    (fun m hm => hcalls.call (Program.everyAll_owns m hm)) e _ _ _ h
  exact ⟨es, hes⟩

/-- What becomes of a first value that is given. -/
theorem endsBy_initialValue {meanwhile : Passage → World → World → Prop} {e : Expr}
    {r : Except Unwind Val} (h : (initialValue code fuel g e w).EndsBy meanwhile w' r) :
    ∃ r₀, (eval code.program (invoke code fuel) e w.newStack).EndsBy meanwhile w' r₀ ∧
      ((∃ value, r₀ = .ok value ∧ r = .ok value) ∨
        (∃ f, r₀ = .error (.failed f) ∧
          r = .error (.failed (f.atSite g.span "global-variable"))) ∨
        r₀ = .error .cancelled ∧ r = .error (.failed { fault := .stoppedInGlobals })) := by
  obtain ⟨v, r₀, heval, hr⟩ := Run.endsBy_andThen h
  rcases r₀ with (f | _) | value
  · cases hr
    exact ⟨_, heval, .inr (.inl ⟨f, rfl, rfl⟩)⟩
  · cases hr
    exact ⟨_, heval, .inr (.inr ⟨rfl, rfl⟩)⟩
  · cases hr
    exact ⟨_, heval, .inl ⟨value, rfl, rfl⟩⟩

/-- A first value that is given is evaluated to what it ends with. -/
theorem takes_of_initialValue {e : Expr} (hinit : g.init = some e)
    (h : (initialValue code fuel g e w).EndsBy (World.Pause code code.program.Owns) w'
      (.ok value)) : ∃ log, g.Takes code fuel w value w' log := by
  obtain ⟨r₀, heval, hr⟩ := endsBy_initialValue h
  obtain ⟨log, hlog, -⟩ := course_of_initial heval
  rcases hr with ⟨_, rfl, hr⟩ | ⟨_, -, hr⟩ | ⟨-, hr⟩
  · cases hr
    exact ⟨log, .initial hinit heval hlog⟩
  · cases hr
  · cases hr

/-- A first value that fails does so at a statement or at the declaration. -/
theorem fails_of_initialValue {e : Expr} (hinit : g.init = some e)
    (h : (initialValue code fuel g e w).EndsBy (World.Pause code code.program.Owns) w'
      (.error (.failed f)))
    (hgate : w'.controls.gate.cancelled = false) : ∃ log, g.Fails code fuel w w' f log := by
  obtain ⟨r₀, heval, hr⟩ := endsBy_initialValue h
  obtain ⟨log, hlog, hcancelled⟩ := course_of_initial heval
  rcases hr with ⟨_, -, hr⟩ | ⟨f₀, rfl, hr⟩ | ⟨hr₀, -⟩
  · cases hr
  · cases hr
    obtain ⟨es, hes⟩ := chronicle_of_initial heval
    rcases hes.culprit rfl with ⟨hraw, halone⟩ | ⟨x, hx, hblamed⟩
    · have hplaced : f₀.atSite g.span "global-variable" =
          { f₀ with site := some (g.span, "global-variable") } := by
        rw [Failure.atSite, hraw.1]
      exact ⟨log, hplaced ▸ .itself hinit heval hlog hes hraw halone⟩
    · have hplaced : f₀.atSite g.span "global-variable" = f₀ := by
        rw [Failure.atSite, hx.located.1]
      rw [hplaced]
      exact ⟨log, .within hinit heval hlog hes hx hblamed.real hblamed.fits hx.located.1⟩
  · rw [hcancelled hr₀] at hgate
    cases hgate

/-- A global variable with its first value is declared, and others after it, or its shape
refuses the value. -/
theorem endsBy_declareGlobal {meanwhile : Passage → World → World → Prop} {gs : List Global}
    {r : Except Unwind Unit}
    (h : ((do newVariable World.declareGlobal g.name g.shape value; initGlobals code fuel gs :
      Exec Unit) w).EndsBy meanwhile w' r) :
    (g.shape.accepts value = true ∧
        (initGlobals code fuel gs (w.declareGlobal ⟨g.name, g.shape, value⟩)).EndsBy
          meanwhile w' r) ∨
      g.shape.accepts value = false ∧ w' = w ∧
        r = .error (.failed { fault := .shapeMismatch value.typeName g.shape g.name }) := by
  cases haccepts : g.shape.accepts value with
  | true =>
    have hholds : newVariable World.declareGlobal g.name g.shape value w =
        .done (w.declareGlobal ⟨g.name, g.shape, value⟩) (.ok ()) := by
      rw [newVariable, Cell.holding, if_pos haccepts]
      rfl
    rw [Exec.bind_of_ok hholds] at h
    exact .inl ⟨rfl, h⟩
  | false =>
    have hrefuses : newVariable World.declareGlobal g.name g.shape value w =
        .done w (.error (.failed { fault := .shapeMismatch value.typeName g.shape g.name })) := by
      rw [newVariable, Cell.holding, if_neg (Bool.eq_false_iff.mp haccepts)]
      rfl
    rw [Exec.bind_of_error hrefuses] at h
    cases h
    exact .inr ⟨rfl, rfl, rfl⟩

/-- When global variables fail to be declared, then the first one has no value, or it takes one
and declaring it or the others fails. -/
theorem endsBy_firstValue {gs : List Global}
    (h : (initGlobals code fuel (g :: gs) w).EndsBy (World.Pause code code.program.Owns) w'
      (.error (.failed f)))
    (hgate : w'.controls.gate.cancelled = false) :
    (∃ log, g.Fails code fuel w w' f log) ∨
      ∃ v value log, g.Takes code fuel w value v log ∧
        ((do newVariable World.declareGlobal g.name g.shape value; initGlobals code fuel gs :
          Exec Unit) v).EndsBy (World.Pause code code.program.Owns) w' (.error (.failed f)) := by
  unfold initGlobals at h
  cases hinit : g.init with
  | none =>
    rw [hinit] at h
    exact .inr ⟨w, .null, [], .empty hinit, h⟩
  | some e =>
    rw [hinit] at h
    obtain ⟨v, value, hv, hrest⟩ | ⟨u, hv, hu⟩ := Exec.endsBy_bind h
    · obtain ⟨log, htakes⟩ := takes_of_initialValue hinit hv
      exact .inr ⟨v, value, log, htakes, hrest⟩
    · cases hu
      exact .inl (fails_of_initialValue hinit hv hgate)

/-- When global variables fail to be declared, the first one does, or it is declared and the others
fail. -/
theorem endsBy_initGlobals_cons {gs : List Global}
    (h : (initGlobals code fuel (g :: gs) w).EndsBy (World.Pause code code.program.Owns) w'
      (.error (.failed f)))
    (hgate : w'.controls.gate.cancelled = false) :
    (∃ log, g.Fails code fuel w w' f log) ∨
      ∃ v value log, g.Takes code fuel w value v log ∧ g.shape.accepts value = true ∧
        (initGlobals code fuel gs (v.declareGlobal ⟨g.name, g.shape, value⟩)).EndsBy
          (World.Pause code code.program.Owns) w' (.error (.failed f)) := by
  obtain hfails | ⟨v, value, log, htakes, hrest⟩ := endsBy_firstValue h hgate
  · exact .inl hfails
  · rcases endsBy_declareGlobal hrest with ⟨haccepts, hrest⟩ | ⟨hrefuses, rfl, hf⟩
    · exact .inr ⟨v, value, log, htakes, haccepts, hrest⟩
    · cases hf
      exact .inl ⟨log, .refused htakes hrefuses⟩

/-- Global variables fail to be declared because of one of them, up to which all are declared. -/
theorem initGlobals_failure {gs : List Global}
    (h : (initGlobals code fuel gs w).EndsBy (World.Pause code code.program.Owns) w'
      (.error (.failed f)))
    (hgate : w'.controls.gate.cancelled = false) :
    ∃ declared g after v log log', gs = declared.map Prod.fst ++ g :: after ∧
      Declared code fuel w declared v log ∧ g.Fails code fuel v w' f log' := by
  induction gs generalizing w with
  | nil => cases h
  | cons g gs ih =>
    rcases endsBy_initGlobals_cons h hgate with
      ⟨log', hfails⟩ | ⟨u, value, log₁, htakes, hok, hrest⟩
    · exact ⟨[], g, gs, w, [], log', rfl, .nil w, hfails⟩
    · obtain ⟨declared, g', after, v, log, log', rfl, hdeclared, hfails⟩ := ih hrest
      exact ⟨(g, value) :: declared, g', after, v, log₁ ++ log, log', rfl,
        .cons htakes hok hdeclared, hfails⟩

/-- When global variables fail to be declared while the gate is not cancelled, then one of them
fails after others have been declared. Its failure is placed at a statement of a method or at the
declaration, unless the shape of the variable refuses its first value. -/
theorem initGlobals_failure_placed {gs : List Global} (hw : w.memory.Grounded)
    (hrun : (initGlobals code fuel gs w).EndsBy (World.Pause code code.program.Owns) w'
      (.error (.failed f)))
    (hgate : w'.controls.gate.cancelled = false) :
    ∃ declared g after v log log', f.EndsGlobals code fuel gs w w' declared g after v log log' := by
  obtain ⟨declared, g, after, v, log, log', hgs, hdeclared, hfails⟩ :=
    initGlobals_failure hrun hgate
  refine ⟨declared, g, after, v, log, log', hgs, hdeclared, hfails, fun x hx => ?_,
    fun hg hnames => ?_⟩
  · exact (List.mem_append.mp hx).elim (hdeclared.sound x) (hfails.sound x)
  · exact hfails.present (hdeclared.grounded hw) (hdeclared.present hw hg hnames)

/-- A program whose third global variable fails in a method that has changed the second one. -/
def unsettled : Code where
  program :=
    (((Program.empty.addGlobal "size" .scalar (some (.ofLiteral (.int 3)))).addGlobal
      "count" .scalar (some (.ofLiteral (.int 1)))).addGlobal
      "total" .scalar (some (.invoke "Fill" []))).addMethod
      ((Method.start "Fill").withBody
        [.atLine 6 (.store (.named "count") (.ofLiteral (.int 2))), .atLine 7 .leave])

/-- The failure is placed in the method, and the other two variables are there. -/
theorem initGlobals_unsettled_placed :
    ∃ w' f, (initGlobals unsettled 9 unsettled.program.globals {}).EndsBy
        (World.Pause unsettled unsettled.program.Owns) w' (.error (.failed f)) ∧
      f.site = some (Span.line 7, "break") ∧
      (w'.memory.globals.map fun id => ((w'.memory.cell id).name, (w'.memory.cell id).value)) =
        [("size", .int 3), ("count", .int 2)] ∧
      ∃ declared g after v log log', f.EndsGlobals unsettled 9 unsettled.program.globals {} w'
        declared g after v log log' := by
  have hrun : ((initGlobals unsettled 9 unsettled.program.globals {}).failedEnd?.map fun e =>
      (e.2.site, e.1.controls.gate.cancelled, e.1.memory.globals.map fun id =>
        ((e.1.memory.cell id).name, (e.1.memory.cell id).value))) =
      some (some (Span.line 7, "break"), false, [("size", .int 3), ("count", .int 2)]) := by
    decide +kernel
  obtain ⟨⟨w', f⟩, hend, hrun⟩ := Option.map_eq_some_iff.mp hrun
  obtain ⟨hsite, hrun⟩ := Prod.mk.inj hrun
  obtain ⟨hgate, hglobals⟩ := Prod.mk.inj hrun
  have hends : (initGlobals unsettled 9 unsettled.program.globals {}).EndsBy
      (World.Pause unsettled unsettled.program.Owns) w' (.error (.failed f)) :=
    Run.eq_done_of_failedEnd? hend ▸ .done w' _
  exact ⟨w', f, hends, hsite, hglobals,
    initGlobals_failure_placed (fun _ hid => absurd hid List.not_mem_nil) hends hgate⟩

/-- A program with a global variable whose shape refuses its first value. -/
def refusing : Code where
  program := { Program.empty with
    globals := [⟨"n", .scalar, some (.arrayOf []), Span.line 3⟩] }

/-- The failure of a first value that is refused has no place, although the gate is open and the
declaration has one. -/
theorem initGlobals_refused_unplaced :
    ∃ w' f, (initGlobals refusing 9 refusing.program.globals {}).EndsBy
        (World.Pause refusing refusing.program.Owns) w' (.error (.failed f)) ∧
      w'.controls.gate.cancelled = false ∧ f.site = none := by
  have hrun : ((initGlobals refusing 9 refusing.program.globals {}).failedEnd?.map fun e =>
      (e.1.controls.gate.cancelled, e.2.site)) = some (false, none) := by
    decide +kernel
  obtain ⟨⟨w', f⟩, hend, hrun⟩ := Option.map_eq_some_iff.mp hrun
  obtain ⟨hgate, hsite⟩ := Prod.mk.inj hrun
  exact ⟨w', f, Run.eq_done_of_failedEnd? hend ▸ .done w' _, hgate, hsite⟩

end Engine

end Stepwise
