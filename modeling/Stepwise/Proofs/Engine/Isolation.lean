import Stepwise.Program.Construct
import Stepwise.Proofs.Engine.Balance
import Stepwise.Proofs.Engine.Mirror
import Stepwise.Proofs.Engine.Observation
import Stepwise.Proofs.Engine.Settle
import Stepwise.Proofs.Program.Scoping

/-!
# Calls do not see their callers

A call can neither read nor change what the calls below it hold. Two runs of
one call, over call stacks that are equally deep and have nothing else in
common, go side by side: every step leads from mirrored worlds to mirrored
worlds, up to the end, where both have the same outcome. A run that waits at
the gate waits in both, and goes on side by side from any mirrored worlds in
which it may leave the gate. The same holds of blocks that run in one of the
callers, as far as they keep to names that both sides see alike.
-/

namespace Stepwise

/-- The same outcome: the same value, the same failure at the same place, or
cancellation. What the call stack looked like at a failure does not count. -/
inductive Outcome.Same {α : Type} : Except Unwind α → Except Unwind α → Prop where
  /-- Both have the value. -/
  | value (a : α) : Same (.ok a) (.ok a)
  /-- Both have failed for one cause and at one statement. -/
  | failed {f f' : Failure} (fault : f'.fault = f.fault) (site : f'.site = f.site) :
    Same (.error (.failed f)) (.error (.failed f'))
  /-- Both were stopped. -/
  | cancelled : Same (.error .cancelled) (.error .cancelled)

/-- Two runs that go side by side and end in worlds that stand in a relation,
which may depend on the outcome. -/
inductive Run.Matches {α : Type} (F : Footing) (R : Except Unwind α → World → World → Prop) :
    Run α → Run α → Prop where
  /-- Both have ended in the same way. -/
  | done {w v : World} {r s : Except Unwind α} (hw : R r w v) (hr : Outcome.Same r s) :
    Matches F R (.done w r) (.done v s)
  /-- Both wait at the gate, within so many calls, and go on side by side. -/
  | held {k : Nat} {w v : World} {resume resume' : Passage → World → Run α}
    (hw : w.Mirrors F k v)
    (hresume : ∀ (passage : Passage) (w v : World), w.Mirrors F k v →
      Matches F R (resume passage w) (resume' passage v)) :
    Matches F R (.held w resume) (.held v resume')
  /-- Neither has had enough fuel. -/
  | exhausted : Matches F R .exhausted .exhausted

namespace Run.Matches

variable {α β : Type} {F : Footing} {R : Except Unwind α → World → World → Prop}

/-- The runs go on side by side. -/
theorem andThen {R' : Except Unwind β → World → World → Prop} {x y : Run α}
    {f g : World → Except Unwind α → Run β} (h : Matches F R x y)
    (hf : ∀ {w v r s}, R r w v → Outcome.Same r s → Matches F R' (f w r) (g v s)) :
    Matches F R' (x.andThen f) (y.andThen g) := by
  induction h with
  | done hw hr => exact hf hw hr
  | held hw _ ih => exact .held hw ih
  | exhausted => exact .exhausted

/-- The ends stand in a weaker relation, too. -/
theorem imp {R' : Except Unwind α → World → World → Prop} {x y : Run α} (h : Matches F R x y)
    (hR : ∀ r w v, R r w v → R' r w v) : Matches F R' x y := by
  induction h with
  | done hw hr => exact .done (hR _ _ _ hw) hr
  | held hw _ ih => exact .held hw ih
  | exhausted => exact .exhausted

end Run.Matches

/-- Two steps that go side by side, within so many calls. -/
def Exec.Matches {α : Type} (F : Footing) (k : Nat) (x y : Exec α) : Prop :=
  ∀ ⦃w v : World⦄, w.Mirrors F k v → Run.Matches F (fun _ => World.Mirrors F k) (x w) (y v)

/-- A step that goes side by side with itself. -/
abbrev Exec.Isolated {α : Type} (F : Footing) (k : Nat) (x : Exec α) : Prop := x.Matches F k x

namespace Exec

variable {α β : Type} {F : Footing} {k : Nat}

theorem isolated_ret (a : α) : (pure a : Exec α).Isolated F k := fun _ _ h => .done h (.value a)

theorem isolated_fail (f : Fault) : (fail f : Exec α).Isolated F k :=
  fun _ _ h => .done h (.failed rfl rfl)

theorem isolated_cancelled : (stop .cancelled : Exec α).Isolated F k :=
  fun _ _ h => .done h .cancelled

theorem isolated_lift (r : Except Fault α) : (lift r).Isolated F k := by
  cases r with
  | ok a => exact isolated_ret a
  | error f => exact isolated_fail f

theorem isolated_change {f : World → World}
    (hf : ∀ ⦃w v : World⦄, w.Mirrors F k v → (f w).Mirrors F k (f v)) : (change f).Isolated F k :=
  fun _ _ h => .done (hf h) (.value ())

theorem Matches.bind {x y : Exec α} {f g : α → Exec β} (hx : x.Matches F k y)
    (hf : ∀ a, (f a).Matches F k (g a)) : (x >>= f).Matches F k (y >>= g) := by
  refine fun _ _ h => (hx h).andThen fun hw hr => ?_
  cases hr with
  | value a => exact hf a hw
  | failed fault site => exact .done hw (.failed fault site)
  | cancelled => exact .done hw .cancelled

theorem Matches.finishing {x y : Exec α} {f : World → World} (hx : x.Matches F k y)
    (hf : ∀ ⦃w v : World⦄, w.Mirrors F k v → (f w).Mirrors F k (f v)) :
    (x.finishing f).Matches F k (y.finishing f) :=
  fun _ _ h => (hx h).andThen fun hw hr => .done (hf hw) hr

/-- Handlers may look at cause and place of a failure. -/
theorem Matches.onFailure {x y : Exec α} {handler handler' : Failure → Exec α}
    (hx : x.Matches F k y) (hf : ∀ f f', f'.fault = f.fault → f'.site = f.site →
      (handler f).Matches F k (handler' f')) :
    (x.onFailure handler).Matches F k (y.onFailure handler') := by
  refine fun _ _ h => (hx h).andThen fun hw hr => ?_
  cases hr with
  | value a => exact .done hw (.value a)
  | failed fault site => exact hf _ _ fault site hw
  | cancelled => exact .done hw .cancelled

end Exec

/-- Worlds in which work can begin keep their global variables, and so do those
that it leaves behind. -/
theorem World.Tidy.keepsGlobals {w : World} (hw : w.Tidy) :
    w.memory.KeepsGlobals where
  lt := fun g hg => hw.known g (List.mem_append_right _ hg)
  nodup := (List.nodup_append.mp hw.once).2.1

/-- The names that the statement itself declares or uses are among certain ones. -/
structure Stmt.Within (usable : String → Prop) (stmt : Stmt) : Prop where
  /-- Names that are declared. -/
  binds : ∀ x ∈ stmt.binds, usable x
  /-- Names in expressions. -/
  exprs : ∀ e ∈ stmt.exprs, ∀ x ∈ e.locals, usable x

namespace Engine

section Expressions

variable {F : Footing} {k : Nat} {p : Program} {call : Caller}

theorem isolated_readVariable {name : String} {isGlobal : Bool}
    (hseen : isGlobal = false → Seen F k name) : (readVariable name isGlobal).Isolated F k := by
  rintro w v ⟨links, h⟩
  have hfound := h.lookup? hseen
  unfold readVariable
  generalize w.lookup? name isGlobal = found, v.lookup? name isGlobal = found' at hfound
  cases hfound with
  | none => exact Exec.isolated_fail _ ⟨links, h⟩
  | some hij =>
    simp only [(h.memory.linked hij).2.2]
    exact .done ⟨links, h⟩ (.value _)

theorem isolated_storeVariable {name : String} {isGlobal : Bool}
    (hseen : isGlobal = false → Seen F k name) (value : Val) :
    (storeVariable name isGlobal value).Isolated F k := by
  rintro w v ⟨links, h⟩
  have hfound := h.lookup? hseen
  unfold storeVariable
  generalize w.lookup? name isGlobal = found, v.lookup? name isGlobal = found' at hfound
  cases hfound with
  | none => exact Exec.isolated_fail _ ⟨links, h⟩
  | @some i j hij =>
    simp only [(h.memory.linked hij).2.2]
    cases (w.memory.cell i).store value with
    | ok c => exact .done (h.setCell hij c) (.value ())
    | error f => exact Exec.isolated_fail f ⟨links, h⟩

theorem isolated_onHost (op : Host.Op α) : (onHost op).Isolated F k := by
  intro w v h
  have hsame := h.sameButCalls
  simp only [onHost, hsame.heap, hsame.host]
  rcases op (w.host, w.heap) with ⟨f | a, host, heap⟩
  · exact Exec.isolated_fail f (h.aside heap host)
  · exact .done (h.aside heap host) (.value a)

theorem isolated_newArray (items : List Val) : (newArray items).Isolated F k := by
  intro w v h
  simp only [newArray, h.sameButCalls.heap]
  exact .done (h.withHeap _) (.value _)

theorem isolated_apply (f : Heap → Except Fault Val) : (apply f).Isolated F k := by
  intro w v h
  simp only [apply, h.sameButCalls.heap]
  exact Exec.isolated_lift (f w.heap) h

theorem isolated_readProperty (target : Target) (name : String) :
    (readProperty target name).Isolated F k :=
  isolated_apply (Host.getProperty · target name)

theorem isolated_changeHeap (f : Heap → Except Fault Heap) : (changeHeap f).Isolated F k := by
  intro w v h
  simp only [changeHeap, h.sameButCalls.heap]
  cases f w.heap with
  | ok heap => exact .done (h.withHeap heap) (.value ())
  | error f => exact Exec.isolated_fail f h

theorem isolated_callOrSpawn (hcall : ∀ m args, (call m args).Isolated F k) (m : Method)
    (args : List Val) : (callOrSpawn call m args).Isolated F k := by
  unfold callOrSpawn
  split
  · exact (Exec.isolated_change fun _ _ h => h.spawn m args).bind fun _ => Exec.isolated_ret _
  · exact hcall m args

theorem isolated_operate {a b : Exec Val} (op : BinaryOp) (ha : a.Isolated F k)
    (hb : b.Isolated F k) : (operate op a b).Isolated F k := by
  cases op
  case and =>
    refine ha.bind fun _ => (Exec.isolated_lift _).bind fun t => ?_
    cases t with
    | false => exact Exec.isolated_ret _
    | true => exact hb.bind fun _ => (Exec.isolated_lift _).bind fun _ => Exec.isolated_ret _
  case or =>
    refine ha.bind fun _ => (Exec.isolated_lift _).bind fun t => ?_
    cases t with
    | false => exact hb.bind fun _ => (Exec.isolated_lift _).bind fun _ => Exec.isolated_ret _
    | true => exact Exec.isolated_ret _
  all_goals exact ha.bind fun _ => hb.bind fun _ => isolated_apply _

mutual

/-- Expressions see nothing but the names in them, the globals and the heap. -/
theorem isolated_eval (hcall : ∀ m args, (call m args).Isolated F k) :
    ∀ e : Expr, (∀ x ∈ e.locals, Seen F k x) → (eval p call e).Isolated F k
  | .literal .., _ => by
    rw [eval]
    exact Exec.isolated_ret _
  | .var name isGlobal _, h => by
    rw [eval]
    exact isolated_readVariable fun hg => h name (by simp [Expr.locals, hg])
  | .staticProperty typeName name _, _ => by
    rw [eval]
    exact isolated_readProperty _ name
  | .property object name _, h => by
    rw [Expr.locals] at h
    rw [eval]
    exact (isolated_eval hcall object h).bind fun _ => isolated_readProperty _ name
  | .index target position _, h => by
    rw [Expr.locals] at h
    obtain ⟨ht, hp⟩ := List.forall_mem_append.mp h
    rw [eval]
    exact (isolated_eval hcall target ht).bind fun _ =>
      (isolated_eval hcall position hp).bind fun _ => isolated_apply _
  | .binary op left right _, h => by
    rw [Expr.locals] at h
    obtain ⟨hl, hr⟩ := List.forall_mem_append.mp h
    rw [eval_binary]
    exact isolated_operate op (isolated_eval hcall left hl) (isolated_eval hcall right hr)
  | .unary op operand _, h => by
    rw [Expr.locals] at h
    rw [eval]
    exact (isolated_eval hcall operand h).bind fun _ => Exec.isolated_lift _
  | .call method args _, h => by
    rw [Expr.locals] at h
    rw [eval]
    cases p.method? method with
    | none => exact Exec.isolated_fail _
    | some callee =>
      exact (isolated_evalList hcall args h).bind fun vs => isolated_callOrSpawn hcall callee vs
  | .callStatic typeName method args _, h => by
    rw [Expr.locals] at h
    rw [eval]
    exact (isolated_evalList hcall args h).bind fun vs => isolated_onHost (.invoke _ method vs)
  | .callOn object method args _, h => by
    rw [Expr.locals] at h
    obtain ⟨ho, ha⟩ := List.forall_mem_append.mp h
    rw [eval]
    exact (isolated_eval hcall object ho).bind fun _ =>
      (isolated_evalList hcall args ha).bind fun vs => isolated_onHost (.invoke _ method vs)
  | .create typeName args _, h => by
    rw [Expr.locals] at h
    rw [eval]
    exact (isolated_evalList hcall args h).bind fun _ => isolated_onHost _
  | .array items _, h => by
    rw [Expr.locals] at h
    rw [eval]
    exact (isolated_evalList hcall items h).bind fun vs => isolated_newArray vs

/-- Lists of expressions see nothing but the names in them, the globals and the heap. -/
theorem isolated_evalList (hcall : ∀ m args, (call m args).Isolated F k) :
    ∀ es : List Expr, (∀ x ∈ Expr.listLocals es, Seen F k x) → (evalList p call es).Isolated F k
  | [], _ => by
    rw [evalList]
    exact Exec.isolated_ret _
  | e :: rest, h => by
    rw [Expr.listLocals] at h
    obtain ⟨he, hrest⟩ := List.forall_mem_append.mp h
    rw [evalList]
    exact (isolated_eval hcall e he).bind fun _ =>
      (isolated_evalList hcall rest hrest).bind fun _ => Exec.isolated_ret _

end

end Expressions

/-- What statements do in the innermost call goes side by side, as long as they
use certain names only and leave so many scopes open. -/
structure Carries (F : Footing) (k : Nat) (usable : String → Prop) (floor : Nat) : Prop where
  /-- The names are seen alike. -/
  seen : ∀ x, usable x → Seen F k x
  /-- The place of a statement is noted. -/
  setSpan : ∀ {w v : World} (span : Span), w.Mirrors F k v →
    World.Mirrors F k { w with stack := w.stack.setSpan span }
      { v with stack := v.stack.setSpan span }
  /-- The value to return is noted. -/
  setResult : ∀ {w v : World} (value : Val), w.Mirrors F k v →
    World.Mirrors F k { w with stack := w.stack.setResult value }
      { v with stack := v.stack.setResult value }
  /-- Statements are observed. -/
  observe : ∀ {w v : World} (isBefore : Bool) (stmt : Stmt), w.Mirrors F k v →
    World.Mirrors F k (w.observe isBefore stmt) (v.observe isBefore stmt)
  /-- Scopes are opened. -/
  pushScope : ∀ {w v : World}, w.Mirrors F k v → w.pushScope.Mirrors F k v.pushScope
  /-- As many are open, and enough of them. -/
  scopeMark : ∀ {w v : World}, w.Mirrors F k v →
    v.stack.scopeMark = w.stack.scopeMark ∧ floor ≤ w.stack.scopeMark
  /-- Scopes are closed. -/
  restoreScopes : ∀ {w v : World} {mark : Nat}, floor ≤ mark → w.Mirrors F k v →
    World.Mirrors F k (w.restoreScopes mark) (v.restoreScopes mark)
  /-- Variables are declared. -/
  declare : ∀ {w v : World} (c : Cell), usable c.name → w.Mirrors F k v →
    World.Mirrors F k (w.declare c) (v.declare c)
  /-- Exceptions are, too. -/
  declareLocal : ∀ {w v : World} (c : Cell), usable c.name → w.Mirrors F k v →
    World.Mirrors F k (w.declareLocal c) (v.declareLocal c)

/-- Inside a call that mirrors another one all names can be used. -/
theorem carries_succ (F : Footing) (k : Nat) : Carries F (k + 1) (fun _ => True) 0 where
  seen := fun x _ => seen_succ F k x
  setSpan := fun span h => h.setSpan span
  setResult := fun value h => h.setResult value
  observe := fun isBefore stmt h => h.observe isBefore stmt
  pushScope := fun h => h.pushScope
  scopeMark := fun h => ⟨h.scopeMark, Nat.zero_le _⟩
  restoreScopes := fun _ h => h.restoreScopes _
  declare := fun c _ h => h.declare c
  declareLocal := fun c _ h => h.declareLocal c

/-- What statements use goes side by side. -/
structure CalleesIsolated (F : Footing) (k : Nat) (usable : String → Prop) (c : Callees) :
    Prop where
  /-- Calls do. -/
  call : ∀ m args, (c.call m args).Isolated F k
  /-- Blocks do. -/
  block : ∀ {block} inLoop, Stmt.everyAll (Stmt.Within usable) block →
    (c.block block inLoop).Isolated F k
  /-- Loops do. -/
  loop : ∀ kind {test body}, (∀ x ∈ test.locals, usable x) →
    Stmt.everyAll (Stmt.Within usable) body → (c.loop kind test body).Isolated F k

section Statements

variable {F : Footing} {k floor : Nat} {usable : String → Prop} {p : Program} {callees : Callees}

/-- Expressions with usable names are seen alike. -/
theorem isolated_value (hF : Carries F k usable floor) (hc : CalleesIsolated F k usable callees)
    {e : Expr} (he : ∀ x ∈ e.locals, usable x) : (eval p callees.call e).Isolated F k :=
  isolated_eval hc.call e fun x hx => hF.seen x (he x hx)

theorem isolated_test (hF : Carries F k usable floor) (hc : CalleesIsolated F k usable callees)
    {e : Expr} (he : ∀ x ∈ e.locals, usable x) : (evalCondition p callees.call e).Isolated F k :=
  (isolated_value hF hc he).bind fun _ => Exec.isolated_lift _

theorem isolated_option (hF : Carries F k usable floor) (hc : CalleesIsolated F k usable callees)
    {e : Option Expr} (he : ∀ e' ∈ e.toList, ∀ x ∈ e'.locals, usable x) :
    (evalOption p callees.call e).Isolated F k := by
  cases e with
  | none => exact Exec.isolated_ret _
  | some e => exact isolated_value hF hc (he e List.mem_cons_self)

theorem isolated_assign (hF : Carries F k usable floor) (hc : CalleesIsolated F k usable callees)
    {target : Expr} (ht : ∀ x ∈ target.locals, usable x) (value : Val) :
    (assign p callees.call target value).Isolated F k := by
  cases target with
  | var name isGlobal span =>
    refine isolated_storeVariable (fun hg => hF.seen name (ht name ?_)) value
    simp [Expr.locals, hg]
  | index container position span =>
    rw [Expr.locals] at ht
    obtain ⟨hcontainer, hposition⟩ := List.forall_mem_append.mp ht
    exact (isolated_value hF hc hcontainer).bind fun _ =>
      (isolated_value hF hc hposition).bind fun _ => isolated_changeHeap _
  | staticProperty typeName name span =>
    exact isolated_onHost (.setProperty (.type typeName) name value)
  | property object name span =>
    rw [Expr.locals] at ht
    exact (isolated_value hF hc ht).bind fun _ => isolated_onHost _
  | _ => exact Exec.isolated_fail _

theorem isolated_newVariable {bind : World → Cell → World} {name : String}
    (h : ∀ (c : Cell) ⦃w v : World⦄, c.name = name → w.Mirrors F k v →
      (bind w c).Mirrors F k (bind v c)) (shape : Shape) (value : Val) :
    (newVariable bind name shape value).Isolated F k := by
  unfold newVariable
  cases hnew : Cell.holding name shape value with
  | ok c => exact Exec.isolated_change fun _ _ hw => h c (Cell.name_of_holding hnew) hw
  | error f => exact Exec.isolated_fail f

theorem isolated_nested (hF : Carries F k usable floor) {x : Exec Flow} (hx : x.Isolated F k) :
    (nested x).Isolated F k := by
  intro w v h
  obtain ⟨hmark, hfloor⟩ := hF.scopeMark h
  unfold nested
  rw [hmark]
  exact hx.finishing (fun _ _ h => hF.restoreScopes hfloor h) (hF.pushScope h)

/-- A handler sees the exception, which the cause of the failure makes. -/
theorem matches_runHandler (hF : Carries F k usable floor) (hc : CalleesIsolated F k usable callees)
    {catchVar : Option String} (hcatch : ∀ x ∈ catchVar, usable x) {handler : Block}
    (hhandler : Stmt.everyAll (Stmt.Within usable) handler) (inLoop : Bool) {f f' : Failure}
    (hfault : f'.fault = f.fault) :
    (runHandler callees catchVar handler inLoop f).Matches F k
      (runHandler callees catchVar handler inLoop f') := by
  intro w v h
  obtain ⟨hmark, hfloor⟩ := hF.scopeMark h
  unfold runHandler
  rw [hfault, hmark]
  have hblock := (hc.block inLoop hhandler).finishing fun _ _ h => hF.restoreScopes hfloor h
  cases catchVar with
  | none => exact (Exec.isolated_ret ()).bind (fun _ => hblock) (hF.pushScope h)
  | some name =>
    have hbind : (newVariable World.declareLocal name .scalar f.fault.toException).Isolated F k :=
      isolated_newVariable (fun c _ _ hc h => hF.declareLocal c (hc ▸ hcatch name rfl) h) _ _
    exact hbind.bind (fun _ => hblock) (hF.pushScope h)

theorem isolated_execute (hF : Carries F k usable floor) (hc : CalleesIsolated F k usable callees)
    (inLoop : Bool) {stmt : Stmt} (hs : stmt.every (Stmt.Within usable)) :
    (execute p callees inLoop stmt).Isolated F k := by
  have hself := Stmt.every_self hs
  have hblock {b : Block} (hb : Stmt.everyAll (Stmt.Within usable) b) :
      (nested (callees.block b inLoop)).Isolated F k := isolated_nested hF (hc.block inLoop hb)
  cases stmt with
  | declare name shape init span =>
    have hname : usable name := hself.binds name List.mem_cons_self
    have hdeclare (value : Val) : (newVariable World.declare name shape value).Isolated F k :=
      isolated_newVariable (fun c _ _ hc h => hF.declare c (hc ▸ hname) h) _ _
    exact (isolated_option hF hc hself.exprs).bind fun value => (hdeclare value).bind fun _ =>
      Exec.isolated_ret _
  | assign target value span =>
    have hvalue : ∀ x ∈ value.locals, usable x :=
      hself.exprs value (List.mem_cons_of_mem _ List.mem_cons_self)
    exact (isolated_value hF hc hvalue).bind fun v =>
      (isolated_assign hF hc (hself.exprs target List.mem_cons_self) v).bind fun _ =>
        Exec.isolated_ret _
  | cond test yes no span =>
    refine (isolated_test hF hc (hself.exprs test List.mem_cons_self)).bind fun t => ?_
    cases no with
    | some no =>
      obtain ⟨hyes, hno⟩ := Stmt.every_cond_some hs
      cases t with
      | true => exact hblock hyes
      | false => exact hblock hno
    | none =>
      cases t with
      | true => exact hblock (Stmt.every_cond_none hs)
      | false => exact Exec.isolated_ret _
  | branch test label span =>
    refine (isolated_test hF hc (hself.exprs test List.mem_cons_self)).bind fun t => ?_
    cases t <;> exact Exec.isolated_ret _
  | loop kind test body span =>
    exact hc.loop kind (hself.exprs test List.mem_cons_self) (Stmt.every_loop hs)
  | ret value span =>
    exact (isolated_option hF hc hself.exprs).bind fun v =>
      (Exec.isolated_change fun _ _ h => hF.setResult v h).bind fun _ => Exec.isolated_ret _
  | brk span =>
    unfold execute
    cases inLoop with
    | true => exact Exec.isolated_ret _
    | false => exact Exec.isolated_fail _
  | throw value span =>
    refine (isolated_value hF hc (hself.exprs value List.mem_cons_self)).bind fun v => ?_
    cases v <;> exact Exec.isolated_fail _
  | attempt body name handler span =>
    obtain ⟨hbody, hhandler⟩ := Stmt.every_attempt hs
    have hname : ∀ x ∈ name, usable x := fun x hx => hself.binds x (by
      cases hx
      exact List.mem_cons_self)
    exact (hblock hbody).onFailure fun f f' hfault _ =>
      matches_runHandler hF hc hname hhandler inLoop hfault
  | eval e span =>
    exact (isolated_value hF hc (hself.exprs e List.mem_cons_self)).bind fun _ =>
      Exec.isolated_ret _
  | label name span => exact Exec.isolated_ret _
  | goto label span => exact Exec.isolated_ret _

/-- The gate decides for both alike. -/
theorem isolated_checkpoint (stmt : Stmt) : (checkpoint stmt).Isolated F k := by
  have hpass (passage : Passage) : (pass passage).Isolated F k := by
    cases passage with
    | passed => exact Exec.isolated_ret ()
    | cancelled => exact Exec.isolated_cancelled
  intro w v h
  have hgate : (v.controls.approach stmt).gate = (w.controls.approach stmt).gate := by
    simp only [Controls.approach, h.sameButCalls.gate]
  simp only [checkpoint, Controls.leave?, hgate]
  cases (w.controls.approach stmt).gate.leave? with
  | some left => exact hpass left.1 (h.withControls rfl)
  | none => exact .held (h.withControls hgate) fun passage _ _ h => hpass passage h

/-- A failure that a statement lets through gets the same place on both sides. -/
theorem matches_locate (stmt : Stmt) {f f' : Failure} (hfault : f'.fault = f.fault)
    (hsite : f'.site = f.site) : (locate stmt f).Matches F k (locate stmt f') := by
  intro w v h
  have hparts (f : Failure) (s : Snapshot) :
      ((f.atSite stmt.span stmt.kindName).withSnapshot s).fault = f.fault ∧
        ((f.atSite stmt.span stmt.kindName).withSnapshot s).site =
          f.site.or (some (stmt.span, stmt.kindName)) := by
    obtain ⟨fault, site, snapshot⟩ := f
    cases site <;> cases snapshot <;> exact ⟨rfl, rfl⟩
  obtain ⟨hf, hs⟩ := hparts f w.capture
  obtain ⟨hf', hs'⟩ := hparts f' v.capture
  exact .done h (.failed (by rw [hf, hf', hfault]) (by rw [hs, hs', hsite]))

theorem isolated_runStmt (hF : Carries F k usable floor) (hc : CalleesIsolated F k usable callees)
    (inLoop : Bool) {stmt : Stmt} (hs : stmt.every (Stmt.Within usable)) :
    (runStmt p callees inLoop stmt).Isolated F k := by
  have henter : (enter stmt).Isolated F k := by
    refine Exec.isolated_change fun _ _ h => ?_
    split
    · exact h
    · exact hF.setSpan stmt.span h
  have hobserve (isBefore : Bool) : (Exec.change (·.observe isBefore stmt)).Isolated F k :=
    Exec.isolated_change fun _ _ h => hF.observe isBefore stmt h
  have hexecute : ((execute p callees inLoop stmt).onFailure (locate stmt)).Isolated F k :=
    (isolated_execute hF hc inLoop hs).onFailure fun _ _ hfault hsite =>
      matches_locate stmt hfault hsite
  unfold runStmt
  exact henter.bind fun _ => (isolated_checkpoint stmt).bind fun _ => (hobserve true).bind fun _ =>
    hexecute.bind fun _ => (hobserve false).bind fun _ => Exec.isolated_ret _

theorem isolated_loopRound (hF : Carries F k usable floor) (hc : CalleesIsolated F k usable callees)
    (kind : LoopKind) {test : Expr} (ht : ∀ x ∈ test.locals, usable x) {body : Block}
    (hb : Stmt.everyAll (Stmt.Within usable) body) :
    (loopRound p callees kind test body).Isolated F k := by
  have hbody : (nested (callees.block body true)).Isolated F k :=
    isolated_nested hF (hc.block true hb)
  have htest : (evalCondition p callees.call test).Isolated F k := isolated_test hF hc ht
  have hguard {x : Exec (Option Flow)} (hx : x.Isolated F k) :
      (unlessCancelled x).Isolated F k := by
    intro w v h
    simp only [unlessCancelled, h.sameButCalls.gate]
    split
    · exact Exec.isolated_cancelled h
    · exact hx h
  cases kind with
  | testFirst =>
    rw [loopRound_testFirst]
    refine hguard (htest.bind fun goes => ?_)
    cases goes with
    | true => exact hbody.bind fun _ => Exec.isolated_ret _
    | false => exact Exec.isolated_ret _
  | testLast =>
    rw [loopRound_testLast]
    refine hguard (hbody.bind fun flow => ?_)
    cases loopEnd flow with
    | some flow => exact Exec.isolated_ret _
    | none =>
      refine htest.bind fun goes => ?_
      cases goes <;> exact Exec.isolated_ret _

theorem isolated_bindArgs : ∀ (params : List Param) (args : List Val),
    (bindArgs params args).Isolated F (k + 1)
  | [], _ => Exec.isolated_ret _
  | _ :: _, [] => Exec.isolated_ret _
  | _ :: params, _ :: args =>
    (isolated_newVariable (fun c _ _ _ h => h.declareLocal c) _ _).bind fun _ =>
      isolated_bindArgs params args

/-- A call begins and ends over callers that it does not touch. -/
theorem isolated_inFrame (m : Method) {x : Exec Unit} (hx : x.Isolated F (k + 1)) :
    (inFrame m x).Isolated F k := by
  refine fun _ _ h => (hx (h.pushFrame m)).andThen fun hw hr => ?_
  obtain ⟨hresult, hpop⟩ := hw.popFrame
  cases hr with
  | value => exact .done hpop (hresult ▸ .value _)
  | failed fault site => exact .done hpop (.failed fault site)
  | cancelled => exact .done hpop .cancelled

end Statements

/-- Blocks and loops with usable names go side by side with so much fuel. -/
structure BlocksIsolated (F : Footing) (k : Nat) (usable : String → Prop) (code : Code)
    (fuel : Nat) : Prop where
  /-- Blocks do. -/
  block : ∀ {block} inLoop, Stmt.everyAll (Stmt.Within usable) block →
    Exec.Isolated F k (runBlock code fuel block inLoop)
  /-- Loops do. -/
  loop : ∀ kind {test body}, (∀ x ∈ test.locals, usable x) →
    Stmt.everyAll (Stmt.Within usable) body → Exec.Isolated F k (runLoop code fuel kind test body)
  /-- What is left of a block does. -/
  walk : ∀ {block rest} inLoop, Stmt.everyAll (Stmt.Within usable) block →
    (∀ stmt ∈ rest, stmt ∈ block) → Exec.Isolated F k (runFrom code fuel block inLoop rest)

section Blocks

variable {F : Footing} {k floor : Nat} {usable : String → Prop} {code : Code} {fuel : Nat}

theorem blocksIsolated_zero : BlocksIsolated F k usable code 0 where
  block := fun _ _ _ _ _ => .exhausted
  loop := fun _ _ _ _ _ _ _ _ => .exhausted
  walk := fun _ _ _ _ _ _ => .exhausted

/-- A unit of fuel more is used for one step. -/
theorem BlocksIsolated.succ (hF : Carries F k usable floor)
    (hcall : ∀ m args, Exec.Isolated F k (invoke code fuel m args))
    (h : BlocksIsolated F k usable code fuel) : BlocksIsolated F k usable code (fuel + 1) := by
  have hc : CalleesIsolated F k usable (calleesAt code fuel) := ⟨hcall, h.block, h.loop⟩
  refine ⟨fun inLoop hb => h.walk inLoop hb fun _ hs => hs, fun kind test body ht hb => ?_,
    fun {block rest} inLoop hb hrest => ?_⟩
  · rw [runLoop_succ]
    refine (isolated_loopRound hF hc kind ht hb).bind fun left => ?_
    cases left with
    | none => exact h.loop kind ht hb
    | some flow => exact Exec.isolated_ret _
  · cases rest with
    | nil => exact Exec.isolated_ret _
    | cons stmt rest =>
      rw [runFrom_cons]
      have hs := Stmt.every_of_mem hb (hrest stmt List.mem_cons_self)
      refine (isolated_runStmt hF hc inLoop hs).bind fun flow => ?_
      cases hflow : follow block rest flow with
      | inl rest' =>
        refine h.walk inLoop hb (Discipline.mem_of_follow (fun s hs => ?_) hflow)
        exact hrest s (List.mem_cons_of_mem _ hs)
      | inr flow => exact Exec.isolated_ret _

end Blocks

/-- What can be done with so much fuel goes side by side. -/
structure IsolatedWith (F : Footing) (code : Code) (fuel : Nat) : Prop where
  /-- Calls do, over any callers. -/
  call : ∀ k m args, Exec.Isolated F k (invoke code fuel m args)
  /-- Blocks do, in any call. -/
  blocks : ∀ k, BlocksIsolated F (k + 1) (fun _ => True) code fuel

/-- Every call, block and loop goes side by side with itself. -/
theorem isolatedWith (F : Footing) (code : Code) (fuel : Nat) : IsolatedWith F code fuel := by
  induction fuel with
  | zero => exact ⟨fun _ _ _ _ _ _ => .exhausted, fun _ => blocksIsolated_zero⟩
  | succ fuel ih =>
    refine ⟨fun k m args w v h => ?_, fun k => (ih.blocks k).succ (carries_succ F k) (ih.call _)⟩
    have hbody : (runBody (runBlock code fuel) m).Isolated F (k + 1) := by
      have hall : Stmt.everyAll (Stmt.Within fun _ => True) m.body :=
        fun _ _ => ⟨fun _ _ => trivial, fun _ _ _ _ => trivial⟩
      refine ((ih.blocks k).block false hall).bind fun flow => ?_
      cases flow with
      | jump label => exact Exec.isolated_fail _
      | _ => exact Exec.isolated_ret _
    have hframe := isolated_inFrame m ((isolated_bindArgs m.params args).bind fun _ => hbody)
    simp only [invoke, h.sameButCalls.depth]
    split
    · exact Exec.isolated_fail _ h
    split
    · exact Exec.isolated_fail _ h
    · exact hframe h

/-- Wherever statements go side by side, blocks and loops with usable names do. -/
theorem Carries.blocks {F : Footing} {k floor : Nat} {usable : String → Prop}
    (hF : Carries F k usable floor) (code : Code) (fuel : Nat) :
    BlocksIsolated F k usable code fuel := by
  induction fuel with
  | zero => exact blocksIsolated_zero
  | succ fuel ih => exact ih.succ hF ((isolatedWith F code fuel).call k)

/-- A call over two call stacks of one depth, whatever their frames hold, has
the same outcome, and leaves the same heap, host, global variables, waiting
invocations and observed statements. -/
theorem invoke_isolated (code : Code) (fuel : Nat) (m : Method) (args : List Val) {w v : World}
    (h : w.SameButCalls v) (hw : w.memory.KeepsGlobals) (hv : v.memory.KeepsGlobals) :
    Run.Matches .any (fun _ => World.SameButCalls) (invoke code fuel m args w)
      (invoke code fuel m args v) :=
  ((isolatedWith .any code fuel).call 0 m args (h.mirrors hw hv)).imp
    fun _ _ _ hends => hends.sameButCalls

/-- A method that looks for a variable of its caller and counts how often it
does not find it. -/
def prying : Method :=
  (Method.start "Pry").withBody
    [.tryCatch [.giveBack (some (.named "secret"))] none
      [.store (.named "misses") (.op .add (.named "misses") (.ofLiteral (.int 1))),
        .giveBack (some (.named "misses"))]]

/-- A caller with a secret, and a global variable from before. -/
def secretive : World :=
  ((World.declareGlobal {} ⟨"misses", .scalar, .int 6⟩).pushFrame (.start "Main")).declareLocal
    ⟨"secret", .scalar, .int 41⟩

/-- A caller with another secret and one more variable, which has already set
its result, and the same global variable from later on. -/
def guarded : World :=
  let w := (World.pushFrame {} (.start "Other")).declareLocal ⟨"more", .array, .null⟩
  let w := w.declareLocal ⟨"secret", .dynamic, .bool true⟩
  let w := w.declareGlobal ⟨"misses", .scalar, .int 6⟩
  { w with stack := w.stack.setResult (.int 5) }

/-- The secret is found in neither run, and both count. -/
theorem prying_isolated :
    secretive.SameButCalls guarded ∧ secretive.memory.KeepsGlobals ∧
      guarded.memory.KeepsGlobals ∧
      (invoke ⟨.empty, {}⟩ 9 prying [] secretive).integer? = some 7 ∧
      Run.Matches .any (fun _ => World.SameButCalls) (invoke ⟨.empty, {}⟩ 9 prying [] secretive)
        (invoke ⟨.empty, {}⟩ 9 prying [] guarded) := by
  have hsame : secretive.SameButCalls guarded := ⟨rfl, rfl, rfl, rfl, rfl, rfl, rfl⟩
  have hw := World.Tidy.keepsGlobals (w := secretive) ⟨by decide, by decide, by decide⟩
  have hv := World.Tidy.keepsGlobals (w := guarded) ⟨by decide, by decide, by decide⟩
  exact ⟨hsame, hw, hv, by decide +kernel, invoke_isolated _ 9 prying [] hsame hw hv⟩

end Engine

end Stepwise
