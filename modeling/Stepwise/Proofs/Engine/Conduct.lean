import Stepwise.Proofs.Control.Acts
import Stepwise.Proofs.Engine.Habit

/-!
# The conduct of engines

All that an engine does to the world is to change values, variables, the host
and its call stack, to observe statements, to start invocations, and to come
to the gate and leave it. What these steps keep to, every run keeps to until
it ends or waits at the gate, and again whenever it goes on from there.
-/

namespace Stepwise

variable {α β : Type}

/-- A relation between worlds that the steps of an engine keep to. -/
structure Conduct where
  /-- The relation. -/
  goes : World → World → Prop
  /-- Nothing happens. -/
  refl : ∀ w, goes w w
  /-- One thing after the other. -/
  trans : ∀ {w v w'}, goes w v → goes v w' → goes w w'
  /-- Values, variables, the host, the call stack at work and the trace change. -/
  aside : ∀ (w : World) (heap : Heap) (memory : Memory) (host : Host) (stack : CallStack)
    (stackCount : Nat) (trace : Array TraceEntry) (clock : Array Nat),
    goes w { w with heap, memory, host, stack, stackCount, trace, clock }
  /-- An invocation is started. -/
  spawn : ∀ (w : World) (m : Method) (args : List Val), goes w (w.spawn m args)
  /-- The engine comes to the gate. -/
  approach : ∀ (w : World) (stmt : Stmt), goes w { w with controls := w.controls.approach stmt }
  /-- The engine leaves the gate. -/
  leave : ∀ {w : World} {passage : Passage} {controls : Controls},
    w.controls.leave? = some (passage, controls) → goes w { w with controls }

namespace Conduct

/-- The call stack at work and variables change. -/
theorem locals (k : Conduct) (w : World) (memory : Memory) (stack : CallStack) :
    k.goes w { w with memory, stack } :=
  k.aside w w.heap memory w.host stack w.stackCount w.trace w.clock

theorem newStack (k : Conduct) (w : World) : k.goes w w.newStack :=
  k.aside w w.heap w.memory w.host _ _ w.trace w.clock

theorem declareLocal (k : Conduct) (w : World) (c : Cell) : k.goes w (w.declareLocal c) :=
  k.locals w _ _

theorem declareGlobal (k : Conduct) (w : World) (c : Cell) : k.goes w (w.declareGlobal c) :=
  k.locals w _ w.stack

theorem declare (k : Conduct) (w : World) (c : Cell) : k.goes w (w.declare c) := by
  unfold World.declare
  dsimp only
  split
  · exact k.locals w _ _
  · exact k.locals w _ w.stack

theorem restoreScopes (k : Conduct) (w : World) (mark : Nat) : k.goes w (w.restoreScopes mark) :=
  k.locals w _ _

theorem popFrame (k : Conduct) (w : World) : k.goes w w.popFrame.2 := k.locals w _ _

end Conduct

namespace Run

/-- A run that begins in a world follows a conduct until it ends, or until it
waits at the gate and has paused the session; it goes on so from any world in
which it leaves the gate. -/
def Follows (k : Conduct) (w : World) : Run α → Prop
  | .done w' _ => k.goes w w'
  | .held w' resume =>
    (∃ v snapshot, k.goes w v ∧ v.controls.leave? = none ∧
      w' = { v with controls := (v.controls.pauseWith snapshot).2 }) ∧
      ∀ passage v, (resume passage v).Follows k v
  | .exhausted => True

variable {k : Conduct} {w v : World}

/-- Something else went on before. -/
theorem Follows.after {x : Run α} (hw : k.goes w v) (h : x.Follows k v) : x.Follows k w := by
  cases x with
  | done w' r => exact k.trans hw h
  | held w' resume =>
    obtain ⟨⟨u, snapshot, hu, hnone, hw'⟩, hresume⟩ := h
    exact ⟨⟨u, snapshot, k.trans hw hu, hnone, hw'⟩, hresume⟩
  | exhausted => exact trivial

/-- Something else goes on afterwards. -/
theorem Follows.andThen {x : Run α} {f : World → Except Unwind α → Run β} (h : x.Follows k w)
    (hf : ∀ v r, (f v r).Follows k v) : (x.andThen f).Follows k w := by
  induction x generalizing w with
  | done w' r => exact (hf w' r).after h
  | held w' resume ih => exact ⟨h.1, fun passage v => ih passage v (h.2 passage v)⟩
  | exhausted => exact trivial

end Run

/-- A step follows a conduct wherever it begins. -/
def Exec.Follows (k : Conduct) (x : Exec α) : Prop := ∀ w, (x w).Follows k w

namespace Exec

variable {k : Conduct} {x : Exec α}

theorem follows_ret (a : α) : (pure a : Exec α).Follows k := k.refl

theorem follows_stop (u : Unwind) : (stop u : Exec α).Follows k := k.refl

theorem follows_lift (r : Except Fault α) : (lift r).Follows k := by
  cases r with
  | ok a => exact follows_ret a
  | error f => exact follows_stop _

theorem follows_change {f : World → World} (h : ∀ w : World, k.goes w (f w)) :
    (change f).Follows k := h

theorem Follows.bind {f : α → Exec β} (hx : x.Follows k) (hf : ∀ a, (f a).Follows k) :
    (x >>= f).Follows k := by
  refine fun w => (hx w).andThen fun v r => ?_
  cases r with
  | ok a => exact hf a v
  | error u => exact k.refl v

theorem Follows.finishing {f : World → World} (hx : x.Follows k) (hf : ∀ w, k.goes w (f w)) :
    (x.finishing f).Follows k :=
  fun w => (hx w).andThen fun v _ => hf v

theorem Follows.onFailure {handler : Failure → Exec α} (hx : x.Follows k)
    (hf : ∀ f, (handler f).Follows k) : (x.onFailure handler).Follows k := by
  refine fun w => (hx w).andThen fun v r => ?_
  rcases r with (f | _) | a
  · exact hf f v
  · exact k.refl v
  · exact k.refl v

theorem follows_aside (h : Engine.Aside x) : x.Follows k := by
  intro w
  obtain ⟨heap, host, a, hx⟩ | ⟨f, hx, -⟩ := h w
  · rw [hx]
    exact k.aside w heap w.memory host w.stack w.stackCount w.trace w.clock
  · rw [hx]
    exact k.refl w

end Exec

namespace Engine

/-- Following a conduct is a habit of evaluation. -/
def following (k : Conduct) : Habit where
  has := Exec.Follows k
  ret := Exec.follows_ret
  fail := fun f => Exec.follows_stop (.failed { fault := f })
  bind := Exec.Follows.bind
  aside := Exec.follows_aside
  spawn := fun m args => Exec.follows_change fun w => k.spawn w m args

section Statements

variable {k : Conduct} {p : Program} {callees : Callees}

theorem follows_newVariable {bind : World → Cell → World} (h : ∀ w c, k.goes w (bind w c))
    (name : String) (shape : Shape) (value : Val) :
    (newVariable bind name shape value).Follows k :=
  (Exec.follows_lift _).bind fun c => Exec.follows_change (h · c)

theorem follows_storeVariable (name : String) (isGlobal : Bool) (value : Val) :
    (storeVariable name isGlobal value).Follows k := by
  intro w
  unfold storeVariable
  split
  · exact k.refl w
  · split
    · exact k.locals w _ w.stack
    · exact k.refl w

theorem follows_assign {call : Caller} (hcall : ∀ m args, (call m args).Follows k) (target : Expr)
    (value : Val) : (assign p call target value).Follows k := by
  have heval : ∀ e, (eval p call e).Follows k := (following k).eval hcall
  cases target with
  | var name isGlobal span => exact follows_storeVariable name isGlobal value
  | index container position span =>
    exact (heval container).bind fun _ => (heval position).bind fun _ =>
      Exec.follows_aside (aside_changeHeap fun _ => tame_setElement _ _ _ _)
  | staticProperty typeName name span =>
    exact Exec.follows_aside
      (aside_onHost (careful_setProperty (.type typeName) name value))
  | property object name span =>
    exact (heval object).bind fun _ =>
      Exec.follows_aside (aside_onHost (careful_setProperty _ _ _))
  | _ => exact Exec.follows_stop _

theorem follows_nested {x : Exec Flow} (hx : x.Follows k) : (nested x).Follows k := fun w =>
  (hx.finishing (fun v => k.restoreScopes v w.stack.scopeMark) w.pushScope).after
    (k.locals w w.memory _)

/-- What statements use follows a conduct. -/
structure CalleesFollow (k : Conduct) (c : Callees) : Prop where
  /-- Calls do. -/
  call : ∀ m args, (c.call m args).Follows k
  /-- Blocks do. -/
  block : ∀ block inLoop, (c.block block inLoop).Follows k
  /-- Loops do. -/
  loop : ∀ kind test body, (c.loop kind test body).Follows k

theorem follows_runHandler (h : CalleesFollow k callees) (catchVar : Option String)
    (handler : Block) (inLoop : Bool) (f : Failure) :
    (runHandler callees catchVar handler inLoop f).Follows k := by
  intro w
  have hopen : k.goes w w.pushScope := k.locals w w.memory _
  have hblock := (h.block handler inLoop).finishing
    fun v => k.restoreScopes v w.stack.scopeMark
  cases catchVar with
  | some name =>
    have hbind := follows_newVariable k.declareLocal name .scalar f.fault.toException
    exact (hbind.bind (fun _ => hblock) w.pushScope).after hopen
  | none => exact (hblock w.pushScope).after hopen

theorem follows_execute (h : CalleesFollow k callees) (inLoop : Bool) (stmt : Stmt) :
    (execute p callees inLoop stmt).Follows k := by
  have heval : ∀ e, (eval p callees.call e).Follows k := (following k).eval h.call
  have htest : ∀ e, (evalCondition p callees.call e).Follows k :=
    (following k).evalCondition h.call
  have hoption : ∀ e, (evalOption p callees.call e).Follows k := (following k).evalOption h.call
  have hblock : ∀ b, (nested (callees.block b inLoop)).Follows k :=
    fun b => follows_nested (h.block b inLoop)
  cases stmt with
  | declare name shape init span =>
    exact (hoption init).bind fun _ => (follows_newVariable k.declare _ _ _).bind fun _ =>
      Exec.follows_ret _
  | assign target value span =>
    exact (heval value).bind fun v => (follows_assign h.call target v).bind fun _ =>
      Exec.follows_ret _
  | cond test yes no span =>
    refine (htest test).bind fun t => ?_
    cases t with
    | true => exact hblock yes
    | false =>
      cases no with
      | some no => exact hblock no
      | none => exact Exec.follows_ret _
  | branch test label span =>
    refine (htest test).bind fun t => ?_
    cases t <;> exact Exec.follows_ret _
  | loop kind test body span => exact h.loop kind test body
  | ret value span =>
    refine (hoption value).bind fun v => Exec.Follows.bind ?_ fun _ => Exec.follows_ret _
    exact Exec.follows_change fun w => k.locals w w.memory (w.stack.setResult v)
  | brk span =>
    unfold execute
    cases inLoop with
    | true => exact Exec.follows_ret _
    | false => exact Exec.follows_stop _
  | throw value span =>
    refine (heval value).bind fun v => ?_
    cases v <;> exact Exec.follows_stop _
  | attempt body name handler span =>
    exact (hblock body).onFailure fun f => follows_runHandler h name handler inLoop f
  | eval e span => exact (heval e).bind fun _ => Exec.follows_ret _
  | label name span => exact Exec.follows_ret _
  | goto label span => exact Exec.follows_ret _

/-- An engine comes to the gate and leaves it, or waits there and pauses the session. -/
theorem follows_checkpoint (stmt : Stmt) : (checkpoint stmt).Follows k := by
  have hpass : ∀ passage, (pass passage).Follows k := by
    intro passage
    cases passage with
    | passed => exact Exec.follows_ret ()
    | cancelled => exact Exec.follows_stop _
  intro w
  have hcome := k.approach w stmt
  unfold checkpoint
  dsimp only
  split
  · exact (hpass _ _).after (k.trans hcome (k.leave ‹_›))
  · exact ⟨⟨_, _, hcome, ‹_›, rfl⟩, hpass⟩

theorem follows_runStmt (h : CalleesFollow k callees) (inLoop : Bool) (stmt : Stmt) :
    (runStmt p callees inLoop stmt).Follows k := by
  have henter : (enter stmt).Follows k := by
    refine Exec.follows_change fun w => ?_
    split
    · exact k.refl w
    · exact k.locals w w.memory _
  have hobserve : ∀ isBefore, (Exec.change (·.observe isBefore stmt)).Follows k := fun isBefore =>
    Exec.follows_change fun w => k.aside w w.heap w.memory w.host w.stack w.stackCount _ _
  have hexecute : ((execute p callees inLoop stmt).onFailure (locate stmt)).Follows k :=
    (follows_execute h inLoop stmt).onFailure fun f => k.refl
  unfold runStmt
  exact henter.bind fun _ => (follows_checkpoint stmt).bind fun _ => (hobserve true).bind fun _ =>
    hexecute.bind fun _ => (hobserve false).bind fun _ => Exec.follows_ret _

end Statements

section Runs

variable {k : Conduct} {p : Program} {callees : Callees}

theorem follows_loopRound (h : CalleesFollow k callees) (kind : LoopKind) (test : Expr)
    (body : Block) : (loopRound p callees kind test body).Follows k := by
  have hbody : (nested (callees.block body true)).Follows k := follows_nested (h.block body true)
  have htest : (evalCondition p callees.call test).Follows k :=
    (following k).evalCondition h.call test
  have hguard : ∀ {x : Exec (Option Flow)}, x.Follows k → (unlessCancelled x).Follows k := by
    intro x hx w
    unfold unlessCancelled
    split
    · exact k.refl w
    · exact hx w
  cases kind with
  | testFirst =>
    rw [loopRound_testFirst]
    refine hguard (htest.bind fun goes => ?_)
    cases goes with
    | true => exact hbody.bind fun _ => Exec.follows_ret _
    | false => exact Exec.follows_ret _
  | testLast =>
    rw [loopRound_testLast]
    refine hguard (hbody.bind fun flow => ?_)
    cases loopEnd flow with
    | some flow => exact Exec.follows_ret _
    | none =>
      refine htest.bind fun goes => ?_
      cases goes <;> exact Exec.follows_ret _

theorem follows_bindArgs : ∀ (params : List Param) (args : List Val),
    (bindArgs params args).Follows k
  | [], _ => Exec.follows_ret _
  | _ :: _, [] => Exec.follows_ret _
  | _ :: params, _ :: args =>
    (follows_newVariable k.declareLocal _ _ _).bind fun _ => follows_bindArgs params args

theorem follows_inFrame (m : Method) {x : Exec Unit} (hx : x.Follows k) :
    (inFrame m x).Follows k := by
  intro w
  have hbegin : k.goes w (w.pushFrame m) := k.locals w w.memory _
  refine ((hx (w.pushFrame m)).andThen fun v r => ?_).after hbegin
  cases r <;> exact k.popFrame v

/-- What can be done with so much fuel follows a conduct. -/
structure FollowsWith (k : Conduct) (code : Code) (fuel : Nat) : Prop
    extends CalleesFollow k (calleesAt code fuel) where
  /-- What is left of a block does. -/
  walk : ∀ block inLoop rest, Exec.Follows k (runFrom code fuel block inLoop rest)

/-- Every call, block and loop follows every conduct. -/
theorem followsWith (k : Conduct) (code : Code) (fuel : Nat) : FollowsWith k code fuel := by
  induction fuel with
  | zero =>
    exact ⟨⟨fun _ _ _ => trivial, fun _ _ _ => trivial, fun _ _ _ _ => trivial⟩,
      fun _ _ _ _ => trivial⟩
  | succ fuel ih =>
    refine ⟨⟨fun m args => ?_, fun block inLoop => ih.walk block inLoop block,
      fun kind test body => ?_⟩, fun block inLoop rest => ?_⟩
    · have hbody : (runBody (runBlock code fuel) m).Follows k := by
        refine (ih.block m.body false).bind fun flow => ?_
        cases flow with
        | jump label => exact Exec.follows_stop _
        | _ => exact Exec.follows_ret _
      have hframe := follows_inFrame m ((follows_bindArgs m.params args).bind fun _ => hbody)
      intro w
      show (invoke code (fuel + 1) m args w).Follows k w
      unfold invoke
      split
      · exact k.refl w
      split
      · exact k.refl w
      · exact hframe w
    · show Exec.Follows k (runLoop code (fuel + 1) kind test body)
      rw [runLoop_succ]
      refine (follows_loopRound ih.toCalleesFollow kind test body).bind fun left => ?_
      cases left with
      | none => exact ih.loop kind test body
      | some flow => exact Exec.follows_ret _
    · cases rest with
      | nil => exact k.refl
      | cons stmt rest =>
        rw [runFrom_cons]
        refine (follows_runStmt ih.toCalleesFollow inLoop stmt).bind fun flow => ?_
        cases follow block rest flow with
        | inl rest => exact ih.walk block inLoop rest
        | inr flow => exact Exec.follows_ret _

theorem follows_initialValue (code : Code) (fuel : Nat) (g : Global) (init : Expr) :
    (initialValue code fuel g init).Follows k := by
  intro w
  have heval : (eval code.program (invoke code fuel) init).Follows k :=
    (following k).eval (followsWith k code fuel).call init
  unfold initialValue
  refine ((heval w.newStack).andThen fun v r => ?_).after (k.newStack w)
  rcases r with (f | _) | value <;> exact k.refl v

theorem follows_initGlobals (code : Code) (fuel : Nat) (globals : List Global) :
    (initGlobals code fuel globals).Follows k := by
  induction globals with
  | nil => exact Exec.follows_ret _
  | cons g rest ih =>
    have hdeclare : ∀ value, (newVariable World.declareGlobal g.name g.shape value).Follows k :=
      fun value => follows_newVariable k.declareGlobal _ _ _
    unfold initGlobals
    cases g.init with
    | none => exact (Exec.follows_ret Val.null).bind fun v => (hdeclare v).bind fun _ => ih
    | some init =>
      exact (follows_initialValue code fuel g init).bind fun v => (hdeclare v).bind fun _ => ih

/-- Calling a method on a call stack of its own follows every conduct. -/
theorem follows_invokeOn (code : Code) (fuel stack : Nat) (m : Method) (args : List Val) :
    (invokeOn code fuel stack m args).Follows k := fun w =>
  ((followsWith k code fuel).call m args _).after (k.locals w w.memory (.fresh stack))

end Runs

end Engine

end Stepwise
