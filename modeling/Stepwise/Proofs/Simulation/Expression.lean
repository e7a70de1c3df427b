import Stepwise.Proofs.Simulation.Layer
import Stepwise.Proofs.Lowering.Render
import Stepwise.Proofs.Program.Scoping

/-!
# Expressions in both programs

Evaluating an expression keeps the pose. Operators and the host see the same
heap on both sides; a variable denotes linked variables, the same global, or
nothing on both sides; calls of program methods are assumed to keep the pose,
which is shown elsewhere.
-/

namespace Stepwise.Simulation

open Engine
open Lowering hiding Target

variable {α β : Type} {T : Tie} {π : Pose}

/-- Values are the same and the pose is kept. -/
def Kept (T : Tie) (π : Pose) (w : World) (a : α) (v : World) (b : α) : Prop :=
  b = a ∧ π.Holds T w v

/-- Early ends are the same and the pose is kept. -/
def KeptError (T : Tie) (π : Pose) (w : World) (u : Unwind) (v : World) (u' : Unwind) : Prop :=
  Alike T.sharp none u u' ∧ π.Holds T w v

/-- A step of the source and a step of the target that do the same at a pose. -/
def Steady (T : Tie) (π : Pose) (x y : Exec α) : Prop :=
  ∀ w v, π.Holds T w v → Mirrors T.terms (x w) (y v) (Kept T π) (KeptError T π)

namespace Steady

/-- Both give a value. -/
theorem ret (a : α) : Steady T π (pure a) (pure a) :=
  fun _ _ h => .ok ⟨rfl, h⟩

/-- Both go on with the value of a step. -/
theorem bind {x y : Exec α} {f g : α → Exec β} (h : Steady T π x y)
    (hf : ∀ a, Steady T π (f a) (g a)) : Steady T π (x >>= f) (y >>= g) := by
  intro w v hw
  refine (h w v hw).bind fun w a v b hq => ?_
  obtain ⟨rfl, hw⟩ := hq
  exact hf b w v hw

/-- Both fail for the same cause. -/
theorem fail {f : Fault} (hf : Mild f) : Steady T π (Exec.fail f : Exec α) (Exec.fail f) :=
  fun _ _ h => .error ⟨⟨rfl, hf, fun _ => rfl⟩, h⟩

/-- Both take the result of an operation without effect. -/
theorem lift {r : Except Fault α} (hr : Tame r) : Steady T π (Exec.lift r) (Exec.lift r) := by
  cases r with
  | ok a => exact ret a
  | error f => exact fail (hr.mild rfl)

/-- Both apply an operation that reads the heap. -/
theorem apply {f : Heap → Except Fault Val} (hf : ∀ h, Tame (f h)) :
    Steady T π (Engine.apply f) (Engine.apply f) := by
  intro w v h
  show Mirrors _ (Exec.lift (f w.heap) w) (Exec.lift (f v.heap) v) _ _
  rw [h.shares.heap]
  exact lift (hf w.heap) w v h

/-- Both apply an operator to values that are found alike. -/
theorem operate {a b a' b' : Exec Val} (op : BinaryOp) (ha : Steady T π a a')
    (hb : Steady T π b b') : Steady T π (Engine.operate op a b) (Engine.operate op a' b') := by
  cases op
  case and =>
    refine ha.bind fun _ => (lift (tame_condition _)).bind fun t => ?_
    cases t
    · exact ret _
    · exact hb.bind fun _ => (lift (tame_condition _)).bind fun _ => ret _
  case or =>
    refine ha.bind fun _ => (lift (tame_condition _)).bind fun t => ?_
    cases t
    · exact hb.bind fun _ => (lift (tame_condition _)).bind fun _ => ret _
    · exact ret _
  all_goals exact ha.bind fun _ => hb.bind fun _ => apply fun _ => tame_binary _ _ _ _

/-- Both read a property. -/
theorem readProperty (target : Target) (name : String) :
    Steady T π (Engine.readProperty target name) (Engine.readProperty target name) := by
  intro w v h
  show Mirrors _ (Exec.lift (Host.getProperty w.heap target name) w)
    (Exec.lift (Host.getProperty v.heap target name) v) _ _
  rw [h.shares.heap]
  exact lift (tame_getProperty w.heap target name) w v h

/-- Both let the host do something. -/
theorem onHost {α : Type} {op : Host.Op α} (hop : Careful op) :
    Steady T π (Engine.onHost op) (Engine.onHost op) := by
  intro w v h
  simp only [Engine.onHost, h.shares.heap, h.shares.host]
  rcases hr : op (w.host, w.heap) with ⟨f | a, host, heap⟩
  · obtain ⟨hsame, hf⟩ := hop _ f _ hr
    cases hsame
    exact fail (mild_of_isOperational hf) _ _ (h.withHeap w.heap w.host)
  · exact .ok ⟨rfl, h.withHeap heap host⟩

/-- Both make an array. -/
theorem newArray (items : List Val) :
    Steady T π (Engine.newArray items) (Engine.newArray items) := by
  intro w v h
  simp only [Engine.newArray, h.shares.heap]
  exact .ok ⟨rfl, h.withNewHeap _⟩

/-- Both change the heap. -/
theorem changeHeap {f : Heap → Except Fault Heap} (hf : ∀ h, Tame (f h)) :
    Steady T π (Engine.changeHeap f) (Engine.changeHeap f) := by
  intro w v h
  simp only [Engine.changeHeap, h.shares.heap]
  cases hr : f w.heap with
  | ok heap => exact .ok ⟨rfl, h.withNewHeap heap⟩
  | error e => exact fail ((hf w.heap).mild hr) w v h

/-- A step that ends early as a risk is forgiven. -/
theorem spoiled_stopIf {w w' : World} {u : Unwind} {r : Except Unwind α}
    (h : (Exec.stop u).stopIf true w = .done w' r) : T.terms.Spoiled r := by
  cases r with
  | error u' => exact ⟨u', rfl, .inl (Exec.cancelled_of_stopIf h)⟩
  | ok a =>
    have hstop := Exec.ok_of_stopIf h
    cases hstop

/-- Both let failures of a step stop the run. -/
theorem stopIf {x y : Exec α} (h : Steady T π x y) (risk : Bool) :
    Steady T π (x.stopIf risk) (y.stopIf risk) := by
  cases risk with
  | false => exact h
  | true =>
    intro w v hw
    refine (h w v hw).andThen Iff.rfl id ?_ (fun _ _ _ _ _ _ => spoiled_stopIf) fun v => ⟨v, rfl⟩
    intro w r v r' hr
    rcases r with (f | _) | a <;> rcases r' with (f' | _) | b
    · exact .error ⟨trivial, hr.2⟩
    · exact absurd hr.1 id
    · exact absurd hr id
    · exact absurd hr.1 id
    · exact .error hr
    · exact absurd hr id
    · exact absurd hr id
    · exact absurd hr id
    · exact .ok hr

/-- Only the source lets failures of a step stop the run, and that is forgiven. -/
theorem stopIfSource {x y : Exec α} (h : Steady T π x y) (hlax : T.lax) (risk : Bool) :
    Steady T π (x.stopIf risk) y := by
  cases risk with
  | false => exact h
  | true =>
    intro w v hw
    show Mirrors T.terms (x.onFailure _ w) (y v) _ _
    rw [← Run.andThen_done (y v)]
    refine (h w v hw).andThen Iff.rfl id ?_ (fun _ _ _ _ _ _ => spoiled_stopIf) fun v => ⟨v, rfl⟩
    intro w r v r' hr
    rcases r with (f | _) | a
    · exact .spoiled hlax (.inl rfl)
    · exact .spoiled hlax (.inl rfl)
    · rcases r' with u' | b
      · exact absurd hr id
      · exact .ok hr

/-- Both find one value and others, and heed the same parameter, or the target heeds none where
that is forgiven. -/
theorem consFor {a b : Exec Val} {as bs : Exec (List Val)} {param param' : Option Param}
    (h : Steady T π a b) (hrest : Steady T π as bs)
    (hparam : param' = param ∨ T.lax ∧ param' = none) :
    Steady T π (Engine.consFor param a as) (Engine.consFor param' b bs) := by
  refine h.bind fun v => ?_
  obtain rfl | ⟨hlax, rfl⟩ := hparam
  · exact (hrest.stopIf _).bind fun _ => .ret _
  · exact (hrest.stopIfSource hlax _).bind fun _ => .ret _

/-- Both start an invocation. -/
theorem spawn {m m' : Method} (hm : m'.outline = m.outline) (args : List Val) :
    Steady T π (Exec.change (·.spawn m args)) (Exec.change (·.spawn m' args)) :=
  fun _ _ h => .ok ⟨rfl, h.spawn hm args⟩

end Steady

/-- A name denotes the same on both sides. -/
def Pose.Matches (π : Pose) (x : String) : Option String → Prop
  | none => π.find x = none
  | some y => (y = x ∧ π.find x = none ∧ π.find' y = none) ∨
    ∃ i j, π.find x = some i ∧ π.find' y = some j ∧ (i, j) ∈ π.links

/-- All names of a kind denote the same on both sides. -/
def Pose.Sees (π : Pose) (naming : Naming) (ok : String → Prop) : Prop :=
  ∀ x, ok x → π.Matches x (naming x)

/-- What the two sides find for a name: linked variables, one common variable,
or nothing under the same name. -/
inductive Resolved (T : Tie) (π : Pose) (x y : String) : Option Nat → Option Nat → Prop where
  /-- Two linked variables. -/
  | linked {i j : Nat} (h : (i, j) ∈ π.links) : Resolved T π x y (some i) (some j)
  /-- One common variable. -/
  | common {i : Nat} (h : i < T.base) : Resolved T π x y (some i) (some i)
  /-- Nothing. -/
  | missing (h : y = x) : Resolved T π x y none none

variable {w v : World}

/-- Looking up a global name. -/
theorem Pose.Holds.resolveGlobal (h : π.Holds T w v) (x : String) :
    Resolved T π x x (w.memory.global? x) (v.memory.global? x) := by
  rw [h.global x]
  cases hg : w.memory.global? x with
  | none => exact .missing rfl
  | some i => exact .common (h.memory.globals_lt i (List.mem_of_find?_eq_some hg))

/-- Looking up a name that denotes the same on both sides. -/
theorem Pose.Holds.resolve (h : π.Holds T w v) {naming : Naming} {x : String} {isGlobal : Bool}
    (hx : isGlobal = false → π.Matches x (naming x)) :
    Resolved T π x (naming.refer x isGlobal).1 (w.lookup? x isGlobal)
      (v.lookup? (naming.refer x isGlobal).1 (naming.refer x isGlobal).2) := by
  cases isGlobal with
  | true => exact h.resolveGlobal x
  | false =>
    have hw : w.lookup? x false = (π.find x).or (w.memory.global? x) := by
      simp only [World.lookup?, h.source.lookup]
      rfl
    have hm := hx rfl
    simp only [Naming.refer, hw]
    cases hn : naming x with
    | none =>
      rw [hn] at hm
      rw [show π.find x = none from hm]
      exact h.resolveGlobal x
    | some y =>
      have hv : v.lookup? y false = (π.find' y).or (v.memory.global? y) := by
        simp only [World.lookup?, h.target.lookup]
        rfl
      rw [hn] at hm
      simp only [Bool.false_eq_true, if_false, hv]
      rcases hm with ⟨rfl, hf, hf'⟩ | ⟨i, j, hf, hf', hij⟩
      · rw [hf, hf']
        exact h.resolveGlobal y
      · rw [hf, hf']
        exact .linked hij

/-- Both read a variable. -/
theorem Steady.readVariable {naming : Naming} {x : String} {isGlobal : Bool}
    (hx : isGlobal = false → π.Matches x (naming x)) :
    Steady T π (Engine.readVariable x isGlobal)
      (Engine.readVariable (naming.refer x isGlobal).1 (naming.refer x isGlobal).2) := by
  intro w v h
  have hr := h.resolve hx
  unfold Engine.readVariable
  generalize w.lookup? x isGlobal = found at hr
  generalize v.lookup? _ _ = found' at hr
  cases hr with
  | linked hij =>
    obtain ⟨-, -, -, -, htw⟩ := h.memory.linked _ _ hij
    exact .ok ⟨htw.value, h⟩
  | common hi => exact .ok ⟨by rw [h.memory.common _ hi], h⟩
  | missing hy =>
    rw [hy]
    refine Steady.fail ?_ w v h
    rfl

/-- Both store in a variable. A value that does not fit is refused on both
sides; the messages may name different variables when that is forgiven. -/
theorem Steady.storeVariable {naming : Naming} {x : String} {isGlobal : Bool}
    (hx : isGlobal = false → π.Matches x (naming x)) (value : Val) :
    Steady T π (Engine.storeVariable x isGlobal value)
      (Engine.storeVariable (naming.refer x isGlobal).1 (naming.refer x isGlobal).2 value) := by
  intro w v h
  have hr := h.resolve hx
  unfold Engine.storeVariable
  generalize w.lookup? x isGlobal = found at hr
  generalize v.lookup? _ _ = found' at hr
  cases hr with
  | @linked i j hij =>
    obtain ⟨-, -, -, -, htw⟩ := h.memory.linked _ _ hij
    simp only [Cell.store, Cell.holding, htw.shape]
    by_cases hacc : (w.memory.cell i).shape.accepts value = true
    · simp only [hacc, if_true]
      refine .ok ⟨rfl, ?_⟩
      exact
        { h with
          shares := { h.shares with }
          memory := h.memory.storeLinked hij ⟨rfl, rfl, htw.name⟩ }
    · simp only [hacc]
      by_cases hlax : T.lax
      · exact .spoiled hlax (.inr ⟨_, rfl, (T.fatal_shape hlax).1⟩)
      · rw [htw.name hlax]
        refine Steady.fail ?_ w v h
        rfl
  | @common i hi =>
    simp only [h.memory.common _ hi]
    cases hs : (w.memory.cell i).store value with
    | ok c =>
      refine .ok ⟨rfl, ?_⟩
      exact
        { h with
          shares := { h.shares with }
          memory := h.memory.storeCommon hi c }
    | error f => exact Steady.fail ((tame_holding _ _ _).mild hs) w v h
  | missing hy =>
    rw [hy]
    refine Steady.fail ?_ w v h
    rfl

/-- Methods are found on both sides, and calls of synchronous ones keep the pose. -/
structure Callable (T : Tie) (π : Pose) : Prop where
  /-- What the source does not find, the target does not find. -/
  missing : ∀ name, T.source.code.program.method? name = none →
    T.target.code.program.method? name = none
  /-- What the source finds, the target finds. -/
  found : ∀ name m, T.source.code.program.method? name = some m →
    ∃ m', T.target.code.program.method? name = some m' ∧ m'.outline = m.outline ∧
      (m.isAsync = false → ∀ args, Steady T π (T.source.call m args) (T.target.call m' args))

/-- Wary calls heed the same parameters on both sides, or the target heeds none where that is
forgiven. -/
theorem Callable.heeded (h : Callable T π) (name : String) :
    T.target.code.program.heeded T.target.wary name =
        T.source.code.program.heeded T.source.wary name ∨
      T.lax ∧ T.target.code.program.heeded T.target.wary name = [] := by
  by_cases hlax : T.lax
  · rw [Tie.target_wary_of_lax hlax]
    exact .inr ⟨hlax, Program.heeded_false _ _⟩
  · left
    rw [Tie.target_wary_of_not_lax hlax]
    unfold Program.heeded
    cases hm : T.source.code.program.method? name with
    | none => rw [h.missing name hm]
    | some m =>
      obtain ⟨m', hm', hout, -⟩ := h.found name m hm
      have hasync : m'.isAsync = m.isAsync := congrArg (·.isAsync) hout
      have hparams : m'.params = m.params := congrArg (·.params) hout
      simp only [hm', hasync, hparams]

/-- Both call or start a method. -/
theorem Callable.callOrSpawn {m m' : Method} (hm : m'.outline = m.outline)
    (hcall : m.isAsync = false → ∀ args, Steady T π (T.source.call m args) (T.target.call m' args))
    (args : List Val) :
    Steady T π (Engine.callOrSpawn T.source.call m args)
      (Engine.callOrSpawn T.target.call m' args) := by
  have hasync : m'.outline.isAsync = m.outline.isAsync := congrArg Method.isAsync hm
  change m'.isAsync = m.isAsync at hasync
  unfold Engine.callOrSpawn
  rw [hasync]
  cases ha : m.isAsync with
  | true => exact (Steady.spawn hm args).bind fun _ => .ret _
  | false => exact hcall ha args

section Evaluation

variable {site : Site} {scopes : Renaming} {ok : String → Prop}

mutual

/-- An expression has the same value in both programs. -/
theorem eval_steady (hcall : Callable T π) (hsees : π.Sees (naming site scopes) ok) :
    ∀ e : Expr, (∀ x ∈ e.locals, ok x) →
      Steady T π (eval T.source.code.program T.source.call e)
        (eval T.target.code.program T.target.call (render site scopes e))
  | .literal .., _ => by
    rw [render_literal]
    simp only [eval]
    exact .ret _
  | .var x isGlobal _, h => by
    rw [render_var]
    simp only [eval]
    refine Steady.readVariable fun hg => hsees x (h x ?_)
    simp [Expr.locals, hg]
  | .staticProperty .., _ => by
    rw [render_staticProperty]
    simp only [eval]
    exact .readProperty _ _
  | .property object _ _, h => by
    rw [render_property]
    simp only [eval]
    have ho := eval_steady hcall hsees object fun x hx => h x (by rw [Expr.locals]; exact hx)
    exact ho.bind fun _ => .readProperty _ _
  | .index target position _, h => by
    rw [render_index]
    simp only [eval]
    rw [Expr.locals] at h
    have ht := eval_steady hcall hsees target fun x hx => h x (List.mem_append_left _ hx)
    have hp := eval_steady hcall hsees position fun x hx => h x (List.mem_append_right _ hx)
    exact ht.bind fun _ => hp.bind fun _ => .apply fun _ => tame_element _ _ _
  | .unary _ operand _, h => by
    rw [render_unary]
    simp only [eval]
    rw [Expr.locals] at h
    exact (eval_steady hcall hsees operand h).bind fun _ => .lift (tame_unary _ _)
  | .call method args _, h => by
    rw [render_call]
    simp only [eval]
    rw [Expr.locals] at h
    have hargs := evalList_steady hcall hsees args h
    cases hm : T.source.code.program.method? method with
    | none =>
      rw [hcall.missing method hm]
      exact .fail rfl
    | some m =>
      obtain ⟨m', hm', hout, hsteady⟩ := hcall.found method m hm
      rw [hm']
      exact hargs.bind fun vs => Callable.callOrSpawn hout hsteady vs
  | .callStatic _ _ args _, h => by
    rw [render_callStatic]
    simp only [eval]
    rw [Expr.locals] at h
    exact (evalList_steady hcall hsees args h).bind fun _ => .onHost (careful_invoke _ _ _)
  | .callOn object _ args _, h => by
    rw [render_callOn]
    simp only [eval]
    rw [Expr.locals] at h
    have ho := eval_steady hcall hsees object fun x hx => h x (List.mem_append_left _ hx)
    have ha := evalList_steady hcall hsees args fun x hx => h x (List.mem_append_right _ hx)
    exact ho.bind fun _ => ha.bind fun _ => .onHost (careful_invoke _ _ _)
  | .create _ args _, h => by
    rw [render_create]
    simp only [eval]
    rw [Expr.locals] at h
    exact (evalList_steady hcall hsees args h).bind fun _ => .onHost (careful_construct _ _)
  | .array items _, h => by
    rw [render_array]
    simp only [eval]
    rw [Expr.locals] at h
    exact (evalList_steady hcall hsees items h).bind fun _ => .newArray _
  | .binary op left right _, h => by
    rw [render_binary]
    rw [Expr.locals] at h
    have hl := eval_steady hcall hsees left fun x hx => h x (List.mem_append_left _ hx)
    have hr := eval_steady hcall hsees right fun x hx => h x (List.mem_append_right _ hx)
    rw [eval_binary, eval_binary]
    exact hl.operate op hr

/-- Expressions have the same values in both programs. -/
theorem evalList_steady (hcall : Callable T π) (hsees : π.Sees (naming site scopes) ok) :
    ∀ es : List Expr, (∀ x ∈ Expr.listLocals es, ok x) →
      Steady T π (evalList T.source.code.program T.source.call es)
        (evalList T.target.code.program T.target.call (renderList site scopes es))
  | [], _ => by
    rw [renderList_nil]
    simp only [evalList]
    exact .ret _
  | e :: rest, h => by
    rw [renderList_cons]
    simp only [evalList]
    rw [Expr.listLocals] at h
    have he := eval_steady hcall hsees e fun x hx => h x (List.mem_append_left _ hx)
    have hr := evalList_steady hcall hsees rest fun x hx => h x (List.mem_append_right _ hx)
    exact he.bind fun _ => hr.bind fun _ => .ret _

end

/-- A condition has the same truth in both programs. -/
theorem evalCondition_steady (hcall : Callable T π) (hsees : π.Sees (naming site scopes) ok)
    (e : Expr) (he : ∀ x ∈ e.locals, ok x) :
    Steady T π (evalCondition T.source.code.program T.source.call e)
      (evalCondition T.target.code.program T.target.call (render site scopes e)) :=
  (eval_steady hcall hsees e he).bind fun _ => .lift (tame_condition _)

/-- A value is stored in the same place in both programs. -/
theorem assign_steady (hcall : Callable T π) (hsees : π.Sees (naming site scopes) ok)
    (target : Expr) (ht : ∀ x ∈ target.locals, ok x) (value : Val) :
    Steady T π (assign T.source.code.program T.source.call target value)
      (assign T.target.code.program T.target.call (render site scopes target) value) := by
  cases target with
  | var x isGlobal s =>
    rw [render_var]
    refine Steady.storeVariable (fun hg => hsees x (ht x ?_)) value
    simp [Expr.locals, hg]
  | index container position s =>
    rw [render_index]
    rw [Expr.locals] at ht
    have hc := eval_steady hcall hsees container fun x hx => ht x (List.mem_append_left _ hx)
    have hp := eval_steady hcall hsees position fun x hx => ht x (List.mem_append_right _ hx)
    exact hc.bind fun _ => hp.bind fun _ => .changeHeap fun _ => tame_setElement _ _ _ _
  | staticProperty typeName name s =>
    rw [render_staticProperty]
    exact .onHost (careful_setProperty (.type typeName) name value)
  | property object name s =>
    rw [render_property]
    rw [Expr.locals] at ht
    exact (eval_steady hcall hsees object ht).bind fun _ =>
      .onHost (careful_setProperty _ _ _)
  | literal => rw [render_literal]; exact .fail rfl
  | binary => rw [render_binary]; exact .fail rfl
  | unary => rw [render_unary]; exact .fail rfl
  | call => rw [render_call]; exact .fail rfl
  | callStatic => rw [render_callStatic]; exact .fail rfl
  | callOn => rw [render_callOn]; exact .fail rfl
  | create => rw [render_create]; exact .fail rfl
  | array => rw [render_array]; exact .fail rfl

end Evaluation

end Stepwise.Simulation
