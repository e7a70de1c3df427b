import Stepwise.Engine.Task
import Stepwise.Proofs.Engine.Faults
import Stepwise.Proofs.Engine.Settle
import Stepwise.Proofs.Program.Jumps

/-!
# Disciplines

A discipline says what holds of the world whenever work begins, waits or
ends, what work may do to the world in between, and which faults it may
raise. If every elementary step keeps a discipline, then every run does:
expressions, statements, blocks, loops and calls, however they end, and also
across a stay at the gate, where other work may go on meanwhile. Code that is
proper raises no faults of control, apart from exceptions and calls that nest
too deep; other code keeps a discipline that allows all of them.
-/

namespace Stepwise

variable {α β : Type}

namespace Run

/-- Wherever the run waits, the world has a property; and if the world has
only changed meanwhile in the given way when the run goes on, it ends as it
should, if it ends. -/
def Within (meanwhile : World → World → Prop) (waits : World → Prop)
    (ends : World → Except Unwind α → Prop) : Run α → Prop
  | .done w r => ends w r
  | .held w resume =>
    waits w ∧ ∀ passage w', meanwhile w w' → (resume passage w').Within meanwhile waits ends
  | .exhausted => True

variable {meanwhile : World → World → Prop} {waits : World → Prop}

/-- A weaker end. -/
theorem Within.mono {ends ends' : World → Except Unwind α → Prop} {x : Run α}
    (h : x.Within meanwhile waits ends) (hends : ∀ w r, ends w r → ends' w r) :
    x.Within meanwhile waits ends' := by
  induction x with
  | done w r => exact hends w r h
  | held w resume ih => exact ⟨h.1, fun passage w' hw => ih passage w' (h.2 passage w' hw)⟩
  | exhausted => exact trivial

/-- Going on from the end of a run. -/
theorem Within.andThen {ends : World → Except Unwind α → Prop}
    {ends' : World → Except Unwind β → Prop} {x : Run α} {k : World → Except Unwind α → Run β}
    (h : x.Within meanwhile waits ends)
    (hk : ∀ w r, ends w r → (k w r).Within meanwhile waits ends') :
    (x.andThen k).Within meanwhile waits ends' := by
  induction x with
  | done w r => exact hk w r h
  | held w resume ih => exact ⟨h.1, fun passage w' hw => ih passage w' (h.2 passage w' hw)⟩
  | exhausted => exact trivial

end Run

namespace Engine

/-- A step that changes values and the host at most, or fails as operations do. -/
def Aside (x : Exec α) : Prop :=
  ∀ w, (∃ heap host a, x w = .done { w with heap, host } (.ok a)) ∨
    ∃ f, x w = Exec.fail f w ∧ f.isOperational = true

section Aside

theorem aside_lift {f : World → Except Fault α} (hf : ∀ w, Tame (f w)) :
    Aside fun w => Exec.lift (f w) w := by
  intro w
  cases hr : f w with
  | ok a => exact .inl ⟨w.heap, w.host, a, congrArg (Exec.lift · w) hr⟩
  | error e => exact .inr ⟨e, congrArg (Exec.lift · w) hr, hf w e hr⟩

theorem aside_readProperty (target : Target) (name : String) : Aside (readProperty target name) :=
  aside_lift fun w => tame_getProperty w.heap target name

theorem aside_apply {f : Heap → Except Fault Val} (hf : ∀ h, Tame (f h)) : Aside (apply f) :=
  aside_lift fun w => hf w.heap

theorem aside_readVariable (name : String) (isGlobal : Bool) :
    Aside (readVariable name isGlobal) := by
  intro w
  unfold readVariable
  cases w.lookup? name isGlobal with
  | some id => exact .inl ⟨w.heap, w.host, _, rfl⟩
  | none => exact .inr ⟨_, rfl, rfl⟩

theorem aside_onHost {op : Host.Op α} (hop : Careful op) : Aside (onHost op) := by
  intro w
  unfold onHost
  rcases hr : op (w.host, w.heap) with ⟨f | a, host, heap⟩
  · obtain ⟨hsame, hf⟩ := hop _ f _ hr
    cases hsame
    exact .inr ⟨f, rfl, hf⟩
  · exact .inl ⟨heap, host, a, rfl⟩

theorem aside_newArray (items : List Val) : Aside (newArray items) :=
  fun w => .inl ⟨(w.heap.newArray items).2, w.host, (w.heap.newArray items).1, rfl⟩

theorem aside_changeHeap {f : Heap → Except Fault Heap} (hf : ∀ h, Tame (f h)) :
    Aside (changeHeap f) := by
  intro w
  unfold changeHeap
  cases hr : f w.heap with
  | ok heap => exact .inl ⟨heap, w.host, (), rfl⟩
  | error e => exact .inr ⟨e, rfl, hf w.heap e hr⟩

end Aside

/-- What work has to keep to. -/
structure Discipline where
  /-- What holds of the world whenever work begins, waits or ends. -/
  inv : World → Prop
  /-- What work does to the world, if it declares these names in the innermost scope. -/
  moves : List String → World → World → Prop
  /-- What other work may do to the world while this one waits at the gate. -/
  meanwhile : World → World → Prop
  /-- The faults that work may raise. -/
  faults : Fault → Prop

namespace Discipline

variable (d : Discipline)

/-- From one world to another that is left in order. -/
def step (names : List String) (w w' : World) : Prop := d.inv w' ∧ d.moves names w w'

/-- Ends with such a value, or early for such a fault. -/
def ends (Q : α → Prop) : Except Unwind α → Prop
  | .ok a => Q a
  | .error (.failed f) => d.faults f.fault
  | .error .cancelled => True

/-- A step of execution keeps to the discipline and ends with such a value, if with any. -/
def Keeps (names : List String) (Q : α → Prop) (x : Exec α) : Prop :=
  ∀ w, d.inv w → (x w).Within d.meanwhile d.inv fun w' r => d.step names w w' ∧ d.ends Q r

/-- All faults of calls, jumps and breaks are allowed. -/
structure Lax : Prop where
  /-- Calls of missing methods. -/
  missing : ∀ name, d.faults (.methodMissing name)
  /-- Calls with the wrong number of arguments. -/
  arity : ∀ name expected given, d.faults (.arity name expected given)
  /-- Jumps to missing labels. -/
  labels : ∀ label name, d.faults (.labelMissing label name)
  /-- Breaks outside of loops. -/
  breaks : d.faults .breakOutsideLoop

/-- Every elementary step keeps to the discipline. -/
structure Kept (code : Code) : Prop where
  /-- Doing nothing is allowed. -/
  refl : ∀ w, d.moves [] w w
  /-- One move after the other. -/
  trans : ∀ {names w w₁ w₂}, d.moves names w w₁ → d.moves names w₁ w₂ → d.moves names w w₂
  /-- More names may be declared. -/
  widen : ∀ {names names' w w'}, d.moves names w w' → (∀ x ∈ names, x ∈ names') →
    d.moves names' w w'
  /-- What happens meanwhile is in order. -/
  waits : ∀ {w w'}, d.inv w → d.meanwhile w w' → d.step [] w w'
  /-- Values, host and controls may change. -/
  aside : ∀ {w}, d.inv w → ∀ heap host controls, d.step [] w { w with heap, host, controls }
  /-- The place of a statement is noted. -/
  span : ∀ {w}, d.inv w → ∀ span, d.step [] w { w with stack := w.stack.setSpan span }
  /-- The value to return is noted. -/
  result : ∀ {w}, d.inv w → ∀ value, d.step [] w { w with stack := w.stack.setResult value }
  /-- Statements are observed. -/
  observe : ∀ {w}, d.inv w → ∀ isBefore stmt, d.step [] w (w.observe isBefore stmt)
  /-- Values are stored in variables. -/
  store : ∀ {w name isGlobal id value c}, d.inv w → w.lookup? name isGlobal = some id →
    (w.memory.cell id).store value = .ok c →
    d.step [] w { w with memory := w.memory.setCell id c }
  /-- Variables are declared. -/
  declare : ∀ {w name shape value c}, d.inv w → Cell.holding name shape value = .ok c →
    d.step [name] w (w.declare c)
  /-- Parameters and exceptions are declared. -/
  declareLocal : ∀ {w name shape value c}, d.inv w → Cell.holding name shape value = .ok c →
    d.step [name] w (w.declareLocal c)
  /-- Invocations are started. -/
  spawn : ∀ {w m args}, d.inv w → m ∈ code.program.methods →
    d.Lax ∨ m.params.length = args.length → d.step [] w (w.spawn m args)
  /-- Scopes are opened. -/
  openScope : ∀ {w}, d.inv w → d.inv w.pushScope
  /-- Scopes are closed. -/
  closeScope : ∀ {w names w'}, d.inv w → d.step names w.pushScope w' →
    d.step [] w (w'.restoreScopes w.stack.scopeMark)
  /-- Calls begin. -/
  begin : ∀ {w}, d.inv w → w.stack.depth < code.limits.maxCallDepth → ∀ m, d.inv (w.pushFrame m)
  /-- Calls end. -/
  finish : ∀ {w m names w'}, d.inv w → w.stack.depth < code.limits.maxCallDepth →
    d.step names (w.pushFrame m) w' → d.step [] w w'.popFrame.2
  /-- Operations may fail. -/
  operational : ∀ {f}, f.isOperational = true → d.faults f
  /-- Exceptions may be thrown. -/
  thrown : ∀ typeName message, d.faults (.thrown (.exception typeName message) message)
  /-- Calls may nest too deep. -/
  depth : ∀ limit name, d.faults (.callDepth limit name)
  /-- Handlers can take every exception. -/
  mild : ∀ {f}, d.faults f → Mild f

variable {d} {code : Code} {names names' : List String} {Q R : α → Prop}

namespace Kept

/-- A step that declares nothing may stand where names are declared. -/
theorem step_any (hd : d.Kept code) {w w' : World} (h : d.step [] w w') : d.step names w w' :=
  ⟨h.1, hd.widen h.2 fun _ hx => absurd hx List.not_mem_nil⟩

/-- One step after the other. -/
theorem step_trans (hd : d.Kept code) {w w₁ w₂ : World} (h : d.step names w w₁)
    (h' : d.step names w₁ w₂) : d.step names w w₂ :=
  ⟨h'.1, hd.trans h.2 h'.2⟩

/-- More names may be declared. -/
theorem wide (hd : d.Kept code) {x : Exec α} (h : d.Keeps names Q x)
    (hsub : ∀ x ∈ names, x ∈ names') : d.Keeps names' Q x :=
  fun w hw => (h w hw).mono fun _ _ ⟨hs, he⟩ => ⟨⟨hs.1, hd.widen hs.2 hsub⟩, he⟩

/-- Work that declares nothing may stand where names are declared. -/
theorem any (hd : d.Kept code) {x : Exec α} (h : d.Keeps [] Q x) : d.Keeps names Q x :=
  hd.wide h fun _ hx => absurd hx List.not_mem_nil

/-- End with a value. -/
theorem ret (hd : d.Kept code) {a : α} (h : Q a) : d.Keeps names Q (pure a) :=
  fun w hw => ⟨hd.step_any ⟨hw, hd.refl w⟩, h⟩

/-- Stop. -/
theorem stop (hd : d.Kept code) : d.Keeps names Q (Exec.stop .cancelled) :=
  fun w hw => ⟨hd.step_any ⟨hw, hd.refl w⟩, trivial⟩

/-- Fail. -/
theorem fail (hd : d.Kept code) {f : Fault} (h : d.faults f) : d.Keeps names Q (Exec.fail f) :=
  fun w hw => ⟨hd.step_any ⟨hw, hd.refl w⟩, h⟩

/-- Go on with a value. -/
theorem bind (hd : d.Kept code) {x : Exec α} {f : α → Exec β} {R : β → Prop}
    (hx : d.Keeps names Q x) (hf : ∀ a, Q a → d.Keeps names R (f a)) :
    d.Keeps names R (x >>= f) := by
  intro w hw
  refine (hx w hw).andThen fun w₁ r ⟨hs, he⟩ => ?_
  rcases r with (f' | _) | a
  · exact ⟨hs, he⟩
  · exact ⟨hs, trivial⟩
  · exact (hf a he w₁ hs.1).mono fun w₂ r ⟨hs', he'⟩ => ⟨hd.step_trans hs hs', he'⟩

/-- Hand a failure to a handler. -/
theorem onFailure (hd : d.Kept code) {x : Exec α} {handler : Failure → Exec α}
    (hx : d.Keeps names Q x)
    (hf : ∀ f : Failure, d.faults f.fault → d.Keeps names Q (handler f)) :
    d.Keeps names Q (x.onFailure handler) := by
  intro w hw
  refine (hx w hw).andThen fun w₁ r ⟨hs, he⟩ => ?_
  rcases r with (f | _) | a
  · exact (hf f he w₁ hs.1).mono fun w₂ r ⟨hs', he'⟩ => ⟨hd.step_trans hs hs', he'⟩
  · exact ⟨hs, trivial⟩
  · exact ⟨hs, he⟩

/-- Take the value of an operation. -/
theorem lift (hd : d.Kept code) {r : Except Fault α} (hr : Tame r) :
    d.Keeps names (fun a => r = .ok a) (Exec.lift r) := by
  cases r with
  | ok a => exact hd.ret rfl
  | error f => exact hd.fail (hd.operational (hr f rfl))

/-- Change the world. -/
theorem change (_ : d.Kept code) {f : World → World} (h : ∀ w, d.inv w → d.step names w (f w)) :
    d.Keeps names (fun _ => True) (Exec.change f) :=
  fun w hw => ⟨h w hw, trivial⟩

/-- Forget about the value. -/
theorem anyway (_ : d.Kept code) {x : Exec α} (h : d.Keeps names Q x) :
    d.Keeps names (fun _ => True) x := by
  refine fun w hw => (h w hw).mono fun w' r ⟨hs, he⟩ => ⟨hs, ?_⟩
  rcases r with (f | _) | a
  · exact he
  · trivial
  · trivial

/-- Run in a scope of its own. -/
theorem nested (hd : d.Kept code) {x : Exec Flow} {Q : Flow → Prop} (h : d.Keeps names' Q x) :
    d.Keeps names Q (Engine.nested x) :=
  hd.any fun w hw => (h w.pushScope (hd.openScope hw)).andThen fun _ _ ⟨hs, he⟩ =>
    ⟨hd.closeScope hw hs, he⟩

/-- Change values and the host, or fail as operations do. -/
theorem ofAside (hd : d.Kept code) {x : Exec α} (h : Aside x) :
    d.Keeps names (fun _ => True) x := by
  intro w hw
  obtain ⟨heap, host, a, hx⟩ | ⟨f, hx, hf⟩ := h w
  · rw [hx]
    exact ⟨hd.step_any (hd.aside hw heap host w.controls), trivial⟩
  · rw [hx]
    exact hd.fail (hd.operational hf) w hw

end Kept

section Expressions

variable {p : Program} {call : Caller}

/-- Calls of the program's methods keep to the discipline. -/
def Serves (d : Discipline) (p : Program) (call : Caller) : Prop :=
  ∀ m ∈ p.methods, ∀ args, d.Lax ∨ m.params.length = args.length →
    d.Keeps [] (fun _ => True) (call m args)

/-- The calls of an expression are right, unless wrong ones are allowed. -/
def Sound (d : Discipline) (p : Program) (e : Expr) : Prop := d.Lax ∨ e.callProblems p = []

/-- The calls of expressions are right, unless wrong ones are allowed. -/
def SoundAll (d : Discipline) (p : Program) (es : List Expr) : Prop :=
  d.Lax ∨ Expr.listProblems p es = []

/-- Both of two expressions are sound. -/
theorem Sound.both {found found' : List Diagnostic} (h : d.Lax ∨ found ++ found' = []) :
    (d.Lax ∨ found = []) ∧ (d.Lax ∨ found' = []) :=
  ⟨h.imp id fun hf => (List.append_eq_nil_iff.mp hf).1,
    h.imp id fun hf => (List.append_eq_nil_iff.mp hf).2⟩

/-- A binary operator keeps to the discipline if its operands do. -/
theorem Kept.operate (hd : d.Kept code) {a b : Exec Val} (op : BinaryOp)
    (ha : d.Keeps names (fun _ => True) a) (hb : d.Keeps names (fun _ => True) b) :
    d.Keeps names (fun _ => True) (Engine.operate op a b) := by
  have truth : ∀ v, d.Keeps names (fun _ => True) (Exec.lift (Operators.condition v)) :=
    fun v => hd.anyway (hd.lift (tame_condition v))
  cases op
  case and =>
    refine hd.bind ha fun _ _ => hd.bind (truth _) fun t _ => ?_
    cases t
    · exact hd.ret trivial
    · exact hd.bind hb fun _ _ => hd.bind (truth _) fun _ _ => hd.ret trivial
  case or =>
    refine hd.bind ha fun _ _ => hd.bind (truth _) fun t _ => ?_
    cases t
    · exact hd.bind hb fun _ _ => hd.bind (truth _) fun _ _ => hd.ret trivial
    · exact hd.ret trivial
  all_goals
    exact hd.bind ha fun _ _ => hd.bind hb fun _ _ =>
      hd.ofAside (aside_apply fun _ => tame_binary _ _ _ _)

/-- A call that is right, or allowed to be wrong, is made or started. -/
theorem Kept.callOrSpawn (hd : d.Kept code) (hcall : d.Serves code.program call) {m : Method}
    (hm : m ∈ code.program.methods) {args : List Val}
    (hargs : d.Lax ∨ m.params.length = args.length) :
    d.Keeps names (fun _ => True) (Engine.callOrSpawn call m args) := by
  unfold Engine.callOrSpawn
  cases m.isAsync with
  | true =>
    exact hd.bind (hd.change fun _ hw => hd.step_any (hd.spawn hw hm hargs)) fun _ _ =>
      hd.ret trivial
  | false => exact hd.any (hcall m hm args hargs)

/-- The method of a sound call is there and takes so many arguments. -/
theorem Sound.callee {name : String} {given : Nat} {span : Span}
    (h : d.Lax ∨ p.callProblem name given span = []) :
    (∃ m, p.method? name = some m ∧ (d.Lax ∨ m.params.length = given)) ∨
      (p.method? name = none ∧ d.Lax) := by
  cases hm : p.method? name with
  | none =>
    refine .inr ⟨rfl, h.resolve_right fun hp => ?_⟩
    simp [Program.callProblem, Program.resolve, hm] at hp
  | some m =>
    refine .inl ⟨m, rfl, h.imp id fun hp => ?_⟩
    by_cases hlen : m.params.length = given
    · exact hlen
    · simp [Program.callProblem, Program.resolve, hm, hlen] at hp

mutual

/-- Evaluating a sound expression keeps to the discipline. -/
theorem Kept.eval (hd : d.Kept code) (hcall : d.Serves code.program call) :
    ∀ e : Expr, d.Sound code.program e →
      d.Keeps names (fun _ => True) (Engine.eval code.program call e)
  | .literal .., _ => by
    rw [Engine.eval]
    exact hd.ret trivial
  | .var .., _ => by
    rw [Engine.eval]
    exact hd.ofAside (aside_readVariable _ _)
  | .staticProperty .., _ => by
    rw [Engine.eval]
    exact hd.ofAside (aside_readProperty _ _)
  | .property object _ _, h => by
    rw [Engine.eval]
    exact hd.bind (hd.eval hcall object h) fun _ _ => hd.ofAside (aside_readProperty _ _)
  | .index target position _, h => by
    rw [Engine.eval]
    exact hd.bind (hd.eval hcall target (Sound.both h).1) fun _ _ =>
      hd.bind (hd.eval hcall position (Sound.both h).2) fun _ _ =>
        hd.ofAside (aside_apply fun _ => tame_element _ _ _)
  | .binary op left right _, h => by
    rw [eval_binary]
    exact hd.operate op (hd.eval hcall left (Sound.both h).1)
      (hd.eval hcall right (Sound.both h).2)
  | .unary op operand _, h => by
    rw [Engine.eval]
    exact hd.bind (hd.eval hcall operand h) fun _ _ => hd.anyway (hd.lift (tame_unary _ _))
  | .call method args _, h => by
    rw [Engine.eval]
    obtain ⟨m, hm, hlen⟩ | ⟨hm, hlax⟩ := Sound.callee (Sound.both h).2
    · rw [hm]
      refine hd.bind (hd.evalList hcall args (Sound.both h).1) fun vs hvs => ?_
      exact hd.callOrSpawn hcall (Program.mem_of_method?_eq_some hm)
        (hlen.imp id fun hl => hl.trans hvs.symm)
    · rw [hm]
      exact hd.fail (hlax.missing method)
  | .callStatic _ _ args _, h => by
    rw [Engine.eval]
    exact hd.bind (hd.evalList hcall args h) fun _ _ =>
      hd.ofAside (aside_onHost (careful_invoke _ _ _))
  | .callOn object _ args _, h => by
    rw [Engine.eval]
    exact hd.bind (hd.eval hcall object (Sound.both h).2) fun _ _ =>
      hd.bind (hd.evalList hcall args (Sound.both h).1) fun _ _ =>
        hd.ofAside (aside_onHost (careful_invoke _ _ _))
  | .create _ args _, h => by
    rw [Engine.eval]
    exact hd.bind (hd.evalList hcall args h) fun _ _ =>
      hd.ofAside (aside_onHost (careful_construct _ _))
  | .array items _, h => by
    rw [Engine.eval]
    exact hd.bind (hd.evalList hcall items h) fun _ _ => hd.ofAside (aside_newArray _)

/-- Evaluating sound expressions keeps to the discipline and gives a value for each. -/
theorem Kept.evalList (hd : d.Kept code) (hcall : d.Serves code.program call) :
    ∀ es : List Expr, d.SoundAll code.program es →
      d.Keeps names (fun vs => vs.length = es.length) (Engine.evalList code.program call es)
  | [], _ => by
    rw [Engine.evalList]
    exact hd.ret rfl
  | e :: rest, h => by
    rw [Engine.evalList]
    exact hd.bind (hd.eval hcall e (Sound.both h).1) fun _ _ =>
      hd.bind (hd.evalList hcall rest (Sound.both h).2) fun _ hvs =>
        hd.ret (congrArg Nat.succ hvs)

end

/-- Testing a sound condition keeps to the discipline. -/
theorem Kept.evalCondition (hd : d.Kept code) (hcall : d.Serves code.program call) {e : Expr}
    (he : d.Sound code.program e) :
    d.Keeps names (fun _ => True) (Engine.evalCondition code.program call e) :=
  hd.bind (hd.eval hcall e he) fun v _ => hd.anyway (hd.lift (tame_condition v))

/-- Evaluating an expression that may be absent keeps to the discipline. -/
theorem Kept.evalOption (hd : d.Kept code) (hcall : d.Serves code.program call) {e : Option Expr}
    (he : ∀ e' ∈ e, d.Sound code.program e') :
    d.Keeps names (fun _ => True) (Engine.evalOption code.program call e) := by
  cases e with
  | none => exact hd.ret trivial
  | some e => exact hd.eval hcall e (he e rfl)

end Expressions

section Statements

variable {p : Program} {inLoop : Bool} {around : List String}

/-- The code is proper, unless all faults of control are allowed. -/
def Fits (d : Discipline) (p : Program) (inLoop : Bool) (around : List String)
    (block : List Stmt) : Prop :=
  d.Lax ∨ p.Proper inLoop around block

/-- A jump that leaves code goes to one of the labels around it, unless jumps
may go anywhere. -/
def leaves (d : Discipline) (around : List String) (flow : Flow) : Prop :=
  ∀ mark, flow = .jump mark → d.Lax ∨ mark ∈ around

/-- What statements use keeps to the discipline. -/
structure Supports (d : Discipline) (p : Program) (callees : Callees) : Prop where
  /-- Calls do. -/
  call : d.Serves p callees.call
  /-- Blocks do, and declare in their scope what their own statements declare. -/
  block : ∀ {block inLoop around}, d.Fits p inLoop (Block.labels block ++ around) block →
    d.Keeps (block.flatMap Stmt.adds) (d.leaves around) (callees.block block inLoop)
  /-- Loops do. -/
  loop : ∀ {kind test body around}, d.Sound p test →
    d.Fits p true (Block.labels body ++ around) body →
    d.Keeps [] (d.leaves around) (callees.loop kind test body)

/-- A way to go on that is no jump. -/
theorem leaves_of_ne {flow : Flow} (h : ∀ mark, flow ≠ .jump mark) : d.leaves around flow :=
  fun mark hm => absurd hm (h mark)

/-- A variable is made and put into the world. -/
theorem Kept.newVariable (hd : d.Kept code) {bind : World → Cell → World} {name : String}
    {shape : Shape} {value : Val}
    (h : ∀ {w c}, d.inv w → Cell.holding name shape value = .ok c → d.step [name] w (bind w c)) :
    d.Keeps [name] (fun _ => True) (Engine.newVariable bind name shape value) :=
  hd.bind (hd.lift (tame_holding name shape value)) fun _ hc => hd.change fun _ hw => h hw hc

/-- A value is stored in a variable. -/
theorem Kept.storeVariable (hd : d.Kept code) (name : String) (isGlobal : Bool) (value : Val) :
    d.Keeps names (fun _ => True) (Engine.storeVariable name isGlobal value) := by
  intro w hw
  unfold Engine.storeVariable
  cases hid : w.lookup? name isGlobal with
  | none => exact hd.fail (hd.operational rfl) w hw
  | some id =>
    cases hc : (w.memory.cell id).store value with
    | ok c =>
      simp only [hc]
      exact ⟨hd.step_any (hd.store hw hid hc), trivial⟩
    | error f =>
      simp only [hc]
      exact hd.fail (hd.operational (tame_holding _ _ _ f hc)) w hw

/-- An assignment keeps to the discipline. -/
theorem Kept.assign (hd : d.Kept code) {call : Caller} (hcall : d.Serves code.program call)
    {target : Expr} (h : d.Sound code.program target) (value : Val) :
    d.Keeps names (fun _ => True) (Engine.assign code.program call target value) := by
  cases target with
  | var name isGlobal span => exact hd.storeVariable name isGlobal value
  | index container position span =>
    exact hd.bind (hd.eval hcall container (Sound.both h).1) fun _ _ =>
      hd.bind (hd.eval hcall position (Sound.both h).2) fun _ _ =>
        hd.ofAside (aside_changeHeap fun _ => tame_setElement _ _ _ _)
  | staticProperty typeName name span =>
    exact hd.ofAside (aside_onHost (careful_setProperty (.type typeName) name value))
  | property object name span =>
    exact hd.bind (hd.eval hcall object h) fun _ _ =>
      hd.ofAside (aside_onHost (careful_setProperty _ _ _))
  | _ => exact hd.fail (hd.operational rfl)

/-- A handler keeps to the discipline. Binding the exception cannot fail, so
that the scope of the handler is always closed. -/
theorem Kept.runHandler (hd : d.Kept code) {callees : Callees}
    (hc : d.Supports code.program callees) {catchVar : Option String} {handler : Block}
    (h : d.Fits code.program inLoop (Block.labels handler ++ around) handler) {f : Failure}
    (hf : d.faults f.fault) :
    d.Keeps [] (d.leaves around) (Engine.runHandler callees catchVar handler inLoop f) := by
  have hclosed : ∀ {w w₁ : World} {declared : List String}, d.inv w →
      d.step declared w.pushScope w₁ →
      (((callees.block handler inLoop).finishing (·.restoreScopes w.stack.scopeMark)) w₁).Within
        d.meanwhile d.inv fun w' r => d.step [] w w' ∧ d.ends (d.leaves around) r := by
    intro w w₁ declared hw hs
    refine (hc.block h w₁ hs.1).andThen fun w₂ r ⟨hs', he⟩ => ⟨?_, he⟩
    have hboth : d.step (declared ++ handler.flatMap Stmt.adds) w.pushScope w₂ :=
      ⟨hs'.1, hd.trans (hd.widen hs.2 fun _ => List.mem_append_left _)
        (hd.widen hs'.2 fun _ => List.mem_append_right _)⟩
    exact hd.closeScope hw hboth
  intro w hw
  have hopen := hd.openScope hw
  cases catchVar with
  | none =>
    have hstay : d.step [] w.pushScope w.pushScope := ⟨hopen, hd.refl _⟩
    exact hclosed hw hstay
  | some name =>
    have haccepts := accepts_exception (hd.mild hf)
    have hcell : Cell.holding name .scalar f.fault.toException =
        .ok ⟨name, .scalar, f.fault.toException⟩ := by
      rw [Cell.holding, haccepts]
      rfl
    have hbound : Engine.runHandler callees (some name) handler inLoop f w =
        ((callees.block handler inLoop).finishing (·.restoreScopes w.stack.scopeMark))
          (w.pushScope.declareLocal ⟨name, .scalar, f.fault.toException⟩) := by
      simp only [Engine.runHandler, Engine.newVariable, hcell]
      rfl
    rw [hbound]
    exact hclosed hw (hd.declareLocal hopen hcell)

/-- One statement keeps to the discipline. -/
theorem Kept.execute (hd : d.Kept code) {callees : Callees}
    (hc : d.Supports code.program callees) {stmt : Stmt}
    (h : d.Fits code.program inLoop around [stmt]) :
    d.Keeps stmt.adds (d.leaves around) (Engine.execute code.program callees inLoop stmt) := by
  have hexpr : ∀ e ∈ stmt.exprs, d.Sound code.program e :=
    fun e he => h.imp id fun hp => hp.expr he
  have hnext : ∀ {names}, d.Keeps names (d.leaves around) (pure .next) :=
    hd.ret (leaves_of_ne fun _ => Flow.noConfusion)
  cases stmt with
  | declare name shape init span =>
    refine hd.bind (hd.evalOption hc.call fun e he => hexpr e ?_) fun v _ =>
      hd.bind (hd.newVariable fun hw hcell => hd.declare hw hcell) fun _ _ => hnext
    simpa [Stmt.exprs] using he
  | assign target value span =>
    exact hd.bind (hd.eval hc.call value (hexpr _ (by simp [Stmt.exprs]))) fun v _ =>
      hd.bind (hd.assign hc.call (hexpr target (by simp [Stmt.exprs])) v) fun _ _ => hnext
  | cond test yes no span =>
    refine hd.bind (hd.evalCondition hc.call (hexpr test (by simp [Stmt.exprs]))) fun t _ => ?_
    cases no with
    | none =>
      cases t with
      | true => exact hd.nested (hc.block (h.imp id fun hp => hp.onlyYes))
      | false => exact hnext
    | some no =>
      cases t with
      | true => exact hd.nested (hc.block (h.imp id fun hp => hp.yes))
      | false => exact hd.nested (hc.block (h.imp id fun hp => hp.no))
  | branch test mark span =>
    refine hd.bind (hd.evalCondition hc.call (hexpr test (by simp [Stmt.exprs]))) fun t _ => ?_
    cases t with
    | true => exact hnext
    | false =>
      refine hd.ret fun mark' hm => ?_
      cases hm
      exact h.imp id fun hp => hp.target rfl
  | loop kind test body span =>
    exact hc.loop (hexpr test (by simp [Stmt.exprs])) (h.imp id fun hp => hp.loopBody)
  | ret value span =>
    refine hd.bind (hd.evalOption hc.call fun e he => hexpr e ?_) fun v _ =>
      hd.bind (hd.change fun w hw => hd.step_any (hd.result hw v)) fun _ _ =>
        hd.ret (leaves_of_ne fun _ => Flow.noConfusion)
    simpa [Stmt.exprs] using he
  | brk span =>
    unfold Engine.execute
    cases inLoop with
    | true => exact hd.ret (leaves_of_ne fun _ => Flow.noConfusion)
    | false => exact hd.fail (h.resolve_right fun hp => absurd hp.brk (by decide)).breaks
  | throw value span =>
    refine hd.bind (hd.eval hc.call value (hexpr value (by simp [Stmt.exprs]))) fun v _ => ?_
    cases v with
    | exception typeName message => exact hd.fail (hd.thrown typeName message)
    | _ => exact hd.fail (hd.operational rfl)
  | attempt body name handler span =>
    exact hd.onFailure (hd.nested (hc.block (h.imp id fun hp => hp.attempted))) fun f hf =>
      hd.runHandler hc (h.imp id fun hp => hp.handler) hf
  | eval e span =>
    exact hd.bind (hd.eval hc.call e (hexpr e (by simp [Stmt.exprs]))) fun _ _ => hnext
  | label name span => exact hnext
  | goto mark span =>
    refine hd.ret fun mark' hm => ?_
    cases hm
    exact h.imp id fun hp => hp.target rfl

/-- The gate is passed, possibly after a while. -/
theorem Kept.checkpoint (hd : d.Kept code) (stmt : Stmt) :
    d.Keeps names (fun _ => True) (Engine.checkpoint stmt) := by
  have hpass : ∀ {w w' : World} (passage : Passage), d.step [] w w' →
      (pass passage w').Within d.meanwhile d.inv fun w₁ r =>
        d.step names w w₁ ∧ d.ends (fun _ => True) r := by
    intro w w' passage hs
    cases passage <;> exact ⟨hd.step_any hs, trivial⟩
  intro w hw
  unfold Engine.checkpoint
  dsimp only
  cases (w.controls.approach stmt).leave? with
  | some left => exact hpass left.1 (hd.aside hw w.heap w.host left.2)
  | none =>
    have hheld := hd.aside hw w.heap w.host
      ((w.controls.approach stmt).pauseWith (World.capture { w with
        controls := w.controls.approach stmt })).2
    refine ⟨hheld.1, fun passage w' hm => ?_⟩
    exact hpass passage (hd.step_trans hheld (hd.waits hheld.1 hm))

/-- A statement on its way keeps to the discipline. -/
theorem Kept.runStmt (hd : d.Kept code) {callees : Callees}
    (hc : d.Supports code.program callees) {stmt : Stmt}
    (h : d.Fits code.program inLoop around [stmt]) :
    d.Keeps stmt.adds (d.leaves around) (Engine.runStmt code.program callees inLoop stmt) := by
  have henter : d.Keeps stmt.adds (fun _ => True) (enter stmt) := by
    refine hd.change fun w hw => ?_
    cases stmt.span.isBlank with
    | true => exact hd.step_any ⟨hw, hd.refl w⟩
    | false => exact hd.step_any (hd.span hw stmt.span)
  have hobserve : ∀ isBefore, d.Keeps stmt.adds (fun _ => True)
      (Exec.change (·.observe isBefore stmt)) :=
    fun isBefore => hd.change fun w hw => hd.step_any (hd.observe hw isBefore stmt)
  have hlocate : ∀ f : Failure, d.faults f.fault →
      d.Keeps stmt.adds (d.leaves around) (locate stmt f) :=
    fun f hf w hw => ⟨hd.step_any ⟨hw, hd.refl w⟩, by
      show d.faults ((f.atSite stmt.span stmt.kindName).withSnapshot w.capture).fault
      rw [fault_withSnapshot, fault_atSite]
      exact hf⟩
  exact hd.bind henter fun _ _ => hd.bind (hd.checkpoint stmt) fun _ _ =>
    hd.bind (hobserve true) fun _ _ => hd.bind (hd.onFailure (hd.execute hc h) hlocate) fun _ hf =>
      hd.bind (hobserve false) fun _ _ => hd.ret hf

end Statements

section Runs

variable {inLoop : Bool} {around : List String}

/-- A round of a loop keeps to the discipline. -/
theorem Kept.loopRound (hd : d.Kept code) {callees : Callees}
    (hc : d.Supports code.program callees) {kind : LoopKind} {test : Expr} {body : Block}
    (ht : d.Sound code.program test)
    (h : d.Fits code.program true (Block.labels body ++ around) body) :
    d.Keeps [] (fun left => ∀ flow ∈ left, d.leaves around flow)
      (Engine.loopRound code.program callees kind test body) := by
  have hbody : d.Keeps [] (d.leaves around) (Engine.nested (callees.block body true)) :=
    hd.nested (hc.block h)
  have htest : d.Keeps [] (fun _ => True) (Engine.evalCondition code.program callees.call test) :=
    hd.evalCondition hc.call ht
  have hnext : d.leaves around .next := leaves_of_ne fun _ => Flow.noConfusion
  have hend : ∀ {flow flow'}, d.leaves around flow → loopEnd flow = some flow' →
      d.leaves around flow' := by
    intro flow flow' hf he
    cases flow with
    | next => cases he
    | leaveLoop => cases he; exact hnext
    | jump mark => cases he; exact hf
    | leaveMethod => cases he; exact hf
  have hguard : ∀ {x : Exec (Option Flow)} {Q}, d.Keeps [] Q x →
      d.Keeps [] Q (unlessCancelled x) := by
    intro x Q hx w hw
    unfold unlessCancelled
    cases w.controls.gate.cancelled with
    | true => exact hd.stop w hw
    | false => exact hx w hw
  cases kind with
  | testFirst =>
    rw [loopRound_testFirst]
    refine hguard (hd.bind htest fun goes _ => ?_)
    cases goes with
    | false => exact hd.ret fun flow hf => by cases hf; exact hnext
    | true => exact hd.bind hbody fun flow hf => hd.ret fun flow' he => hend hf he
  | testLast =>
    rw [loopRound_testLast]
    refine hguard (hd.bind hbody fun flow hf => ?_)
    cases he : loopEnd flow with
    | some flow' => exact hd.ret fun _ hm => by cases hm; exact hend hf he
    | none =>
      refine hd.bind htest fun goes _ => ?_
      cases goes with
      | false => exact hd.ret fun flow hf => by cases hf; exact hnext
      | true => exact hd.ret fun flow hf => by cases hf

/-- The arguments of a call are bound. -/
theorem Kept.bindArgs (hd : d.Kept code) :
    ∀ (params : List Param) (args : List Val),
      d.Keeps (params.map (·.name)) (fun _ => True) (Engine.bindArgs params args)
  | [], _ => hd.ret trivial
  | _ :: _, [] => hd.ret trivial
  | param :: params, arg :: args =>
    hd.bind (hd.wide (hd.newVariable fun hw hc => hd.declareLocal hw hc) (by simp)) fun _ _ =>
      hd.wide (hd.bindArgs params args) fun _ hx => List.mem_cons_of_mem _ hx

/-- A call keeps to the discipline if its body does. -/
theorem Kept.inFrame (hd : d.Kept code) {m : Method} {x : Exec Unit} {w : World} (hw : d.inv w)
    (hdepth : w.stack.depth < code.limits.maxCallDepth) (hx : d.Keeps names (fun _ => True) x) :
    (Engine.inFrame m x w).Within d.meanwhile d.inv fun w' r =>
      d.step [] w w' ∧ d.ends (fun _ => True) r := by
  refine (hx _ (hd.begin hw hdepth m)).andThen fun w₁ r ⟨hs, he⟩ => ?_
  have hpopped := hd.finish hw hdepth hs
  rcases r with (f | _) | u
  · exact ⟨hpopped, he⟩
  · exact ⟨hpopped, trivial⟩
  · exact ⟨hpopped, trivial⟩

/-- The body of a call keeps to the discipline if blocks do. -/
theorem Kept.callBody (hd : d.Kept code) {block : Block → Bool → Exec Flow}
    (hblock : ∀ {b inLoop around}, d.Fits code.program inLoop (Block.labels b ++ around) b →
      d.Keeps (b.flatMap Stmt.adds) (d.leaves around) (block b inLoop)) {m : Method}
    (hm : d.Fits code.program false (Block.labels m.body) m.body) (args : List Val) :
    d.Keeps (m.params.map (·.name) ++ m.body.flatMap Stmt.adds) (fun _ => True)
      ((Engine.bindArgs m.params args).bind fun _ => runBody block m) := by
  have hfits : d.Fits code.program false (Block.labels m.body ++ []) m.body := by
    rw [List.append_nil]
    exact hm
  refine hd.bind (hd.wide (hd.bindArgs _ _) fun _ => List.mem_append_left _) fun _ _ => ?_
  refine hd.bind (hd.wide (hblock hfits) fun _ => List.mem_append_right _) fun flow hflow => ?_
  cases flow with
  | jump mark =>
    have hlax := (hflow mark rfl).resolve_right List.not_mem_nil
    exact hd.fail (hlax.labels mark m.name)
  | _ => exact hd.ret trivial

/-- What can be done with so much fuel keeps to the discipline. -/
structure KeptWith (d : Discipline) (code : Code) (fuel : Nat) : Prop where
  /-- Calls do. -/
  call : ∀ {m args}, d.Fits code.program false (Block.labels m.body) m.body →
    d.Lax ∨ m.params.length = args.length →
    d.Keeps [] (fun _ => True) (invoke code fuel m args)
  /-- Blocks do. -/
  block : ∀ {block inLoop around}, d.Fits code.program inLoop (Block.labels block ++ around) block →
    d.Keeps (block.flatMap Stmt.adds) (d.leaves around) (runBlock code fuel block inLoop)
  /-- What is left of a block does. -/
  walk : ∀ {block inLoop around rest},
    d.Fits code.program inLoop (Block.labels block ++ around) block →
    (∀ stmt ∈ rest, stmt ∈ block) →
    d.Keeps (block.flatMap Stmt.adds) (d.leaves around) (runFrom code fuel block inLoop rest)
  /-- Loops do. -/
  loop : ∀ {kind test body around}, d.Sound code.program test →
    d.Fits code.program true (Block.labels body ++ around) body →
    d.Keeps [] (d.leaves around) (runLoop code fuel kind test body)

/-- A jump inside a block goes on with statements of the block. -/
theorem mem_of_fromLabel? {label : String} {block rest : List Stmt}
    (h : Block.fromLabel? label block = some rest) : ∀ stmt ∈ rest, stmt ∈ block := by
  rw [Block.fromLabel?_eq_map_drop] at h
  obtain ⟨n, -, rfl⟩ := Option.map_eq_some_iff.mp h
  exact fun stmt hs => List.mem_of_mem_drop hs

/-- So does what follows a statement. -/
theorem mem_of_follow {block rest rest' : List Stmt} {flow : Flow}
    (hrest : ∀ stmt ∈ rest, stmt ∈ block) (h : follow block rest flow = .inl rest') :
    ∀ stmt ∈ rest', stmt ∈ block := by
  unfold follow at h
  split at h
  · cases h
    exact hrest
  · split at h
    · rename_i hl
      cases h
      exact mem_of_fromLabel? hl
    · cases h
  · cases h

/-- Every block goes on with its own statements, or is left for a label around it. -/
theorem follow_cases {block rest : List Stmt} {flow : Flow} (hrest : ∀ stmt ∈ rest, stmt ∈ block)
    (hflow : d.leaves (Block.labels block ++ around) flow) :
    (∃ rest', follow block rest flow = .inl rest' ∧ ∀ stmt ∈ rest', stmt ∈ block) ∨
      ∃ flow', follow block rest flow = .inr flow' ∧ d.leaves around flow' := by
  cases flow with
  | next => exact .inl ⟨rest, rfl, hrest⟩
  | leaveMethod => exact .inr ⟨_, rfl, leaves_of_ne fun _ => Flow.noConfusion⟩
  | leaveLoop => exact .inr ⟨_, rfl, leaves_of_ne fun _ => Flow.noConfusion⟩
  | jump mark =>
    cases hl : Block.fromLabel? mark block with
    | some rest' => exact .inl ⟨rest', by simp only [follow, hl], mem_of_fromLabel? hl⟩
    | none =>
      refine .inr ⟨.jump mark, by simp only [follow, hl], ?_⟩
      intro mark' hm
      cases hm
      refine (hflow mark rfl).imp id fun hmem => (List.mem_append.mp hmem).resolve_left ?_
      intro hown
      obtain ⟨before, span, after, rfl⟩ := Block.mem_labels.mp hown
      rw [Block.fromLabel?_eq_none_iff] at hl
      have := hl (.label mark span) (by simp)
      simp [Stmt.declares] at this

/-- With no fuel nothing is done. -/
theorem keptWith_zero : d.KeptWith code 0 where
  call := fun _ _ _ _ => trivial
  block := fun _ _ _ => trivial
  walk := fun _ _ _ _ => trivial
  loop := fun _ _ _ _ => trivial

/-- A unit of fuel more is used for one step. -/
theorem Kept.keptWith_succ (hd : d.Kept code)
    (hcode : ∀ m ∈ code.program.methods, d.Fits code.program false (Block.labels m.body) m.body)
    {fuel : Nat} (h : d.KeptWith code fuel) : d.KeptWith code (fuel + 1) where
  call := by
    intro m args hm hargs w hw
    unfold invoke
    by_cases hdeep : code.limits.maxCallDepth ≤ w.stack.depth
    · rw [if_pos hdeep]
      exact hd.fail (hd.depth _ _) w hw
    rw [if_neg hdeep]
    by_cases hlen : m.params.length = args.length
    · rw [if_neg (fun hne => hne hlen)]
      exact hd.inFrame hw (Nat.lt_of_not_le hdeep) (hd.callBody h.block hm args)
    · rw [if_pos hlen]
      exact hd.fail ((hargs.resolve_right hlen).arity _ _ _) w hw
  block := fun hb => h.walk hb fun _ hs => hs
  walk := by
    intro block inLoop around rest hb hrest
    cases rest with
    | nil => exact fun w hw => hd.ret (leaves_of_ne fun _ => Flow.noConfusion) w hw
    | cons stmt rest =>
      have hmem := hrest stmt List.mem_cons_self
      have hstmt : d.Fits code.program inLoop (Block.labels block ++ around) [stmt] :=
        hb.imp id fun hp => hp.mem hmem
      have hsupports : d.Supports code.program (calleesAt code fuel) :=
        ⟨fun m hm args hargs => h.call (hcode m hm) hargs, h.block, h.loop⟩
      have hadds : ∀ x ∈ stmt.adds, x ∈ block.flatMap Stmt.adds :=
        fun x hx => List.mem_flatMap.mpr ⟨stmt, hmem, hx⟩
      rw [runFrom_cons]
      refine hd.bind (hd.wide (hd.runStmt hsupports hstmt) hadds) fun flow hflow => ?_
      obtain ⟨rest', hf, hrest'⟩ | ⟨flow', hf, hleaves⟩ :=
        follow_cases (fun s hs => hrest s (List.mem_cons_of_mem _ hs)) hflow
      · rw [hf]
        exact h.walk hb hrest'
      · rw [hf]
        exact hd.ret hleaves
  loop := by
    intro kind test body around ht hbody
    have hsupports : d.Supports code.program (calleesAt code fuel) :=
      ⟨fun m hm args hargs => h.call (hcode m hm) hargs, h.block, h.loop⟩
    rw [runLoop_succ]
    refine hd.bind (hd.loopRound hsupports ht hbody) fun left hleft => ?_
    cases left with
    | none => exact h.loop ht hbody
    | some flow => exact hd.ret (hleft flow rfl)

/-- A discipline that every elementary step keeps is kept by every run. -/
theorem Kept.keptWith (hd : d.Kept code)
    (hcode : ∀ m ∈ code.program.methods, d.Fits code.program false (Block.labels m.body) m.body)
    (fuel : Nat) : d.KeptWith code fuel := by
  induction fuel with
  | zero => exact keptWith_zero
  | succ fuel ih => exact hd.keptWith_succ hcode ih

end Runs

end Discipline

end Engine

end Stepwise
