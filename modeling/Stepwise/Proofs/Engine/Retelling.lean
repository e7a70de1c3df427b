import Stepwise.Proofs.Engine.Chronicle

/-!
# Every run has a chronicle

Whatever end a run reaches, its way there can be told as a chronicle. Three
remarks are made along the way. Expressions and calls leave all calls in
progress where they are. A block fails only through one of its statements. A
statement other than a condition or a loop fails in one of these two ways: for
`try` this is so because a handler can take every exception.
-/

namespace Stepwise

variable {α β : Type}

/-- Why an outcome is an early one, if it is. -/
def Outcome.early? : Except Unwind α → Option Unwind
  | .ok _ => none
  | .error u => some u

theorem Outcome.eq_of_early? {r : Except Unwind α} {u : Unwind} (h : early? r = some u) :
    r = .error u := by
  cases r with
  | ok a => cases h
  | error u' =>
    cases h
    rfl

namespace Engine

variable {code : Code} {P : Stmt → Prop} {meanwhile : Passage → World → World → Prop}

section Told

/-- Something to know of a chronicle. -/
abbrev Remark := World → World → Option Unwind → List Episode → Prop

/-- All calls stay where they are. -/
def unmoved : Remark := fun w w' _ _ => w'.stack.headings = w.stack.headings

/-- A failure comes from a statement. -/
def toppled : Remark := fun _ _ u es => ∀ f, u = some (.failed f) → Broken es

/-- A failure comes from a statement, or all calls stay where they are. -/
def upright : Remark := fun w w' u es =>
  ∀ f, u = some (.failed f) → Broken es ∨ w'.stack.headings = w.stack.headings

/-- Nothing in particular. -/
def anyhow : Remark := fun _ _ _ _ => True

/-- Every end that a step comes to has a chronicle to which the remark applies. -/
def Told (code : Code) (P : Stmt → Prop) (meanwhile : Passage → World → World → Prop)
    (Q : Remark) (x : Exec α) : Prop :=
  ∀ w w' r, (x w).EndsBy meanwhile w' r →
    ∃ es, Chronicle code P meanwhile w (x w) w' r es ∧ Q w w' (Outcome.early? r) es

variable {Q Q' R : Remark} {x : Exec α} {f : α → Exec β}

theorem Told.mono (hx : Told code P meanwhile Q x)
    (h : ∀ {w w' u es}, Q w w' u es → R w w' u es) : Told code P meanwhile R x := by
  intro w w' r hr
  obtain ⟨es, hes, hq⟩ := hx _ _ _ hr
  exact ⟨es, hes, h hq⟩

theorem Told.anyhow (hx : Told code P meanwhile Q x) : Told code P meanwhile anyhow x :=
  hx.mono fun _ => trivial

theorem Told.upright (hx : Told code P meanwhile unmoved x) : Told code P meanwhile upright x :=
  hx.mono fun h _ _ => .inr h

/-- Two steps in a row, with what the remarks on them come to. -/
theorem Told.bindWith (hx : Told code P meanwhile Q x)
    (hf : ∀ a, Told code P meanwhile Q' (f a))
    (early : ∀ {w w' u es}, Q w w' (some u) es → R w w' (some u) es)
    (seq : ∀ {w v w' u es es'}, Q w v none es → Q' v w' u es' → R w w' u (es ++ es')) :
    Told code P meanwhile R (x >>= f) := by
  intro w w' r hr
  obtain ⟨v, a, hv, hr⟩ | ⟨u, hv, rfl⟩ := Exec.endsBy_bind hr
  · obtain ⟨es, hes, hq⟩ := hx _ _ _ hv
    obtain ⟨es', hes', hq'⟩ := hf a _ _ _ hr
    exact ⟨es ++ es', hes.bind hes', seq hq hq'⟩
  · obtain ⟨es, hes, hq⟩ := hx _ _ _ hv
    exact ⟨es, hes.early, early hq⟩

theorem Told.bind {T : Remark} (hx : Told code P meanwhile Q x)
    (hf : ∀ a, Told code P meanwhile T (f a)) : Told code P meanwhile Engine.anyhow (x >>= f) :=
  hx.bindWith hf (fun _ => trivial) fun _ _ => trivial

theorem Told.bind_unmoved (hx : Told code P meanwhile unmoved x)
    (hf : ∀ a, Told code P meanwhile unmoved (f a)) : Told code P meanwhile unmoved (x >>= f) :=
  hx.bindWith hf (fun h => h) fun h h' => Eq.trans h' h

theorem Told.bind_toppled (hx : Told code P meanwhile toppled x)
    (hf : ∀ a, Told code P meanwhile toppled (f a)) : Told code P meanwhile toppled (x >>= f) :=
  hx.bindWith hf (fun h => h) fun _ h' f hu => (h' f hu).append _

/-- A step that ends at once. -/
theorem told_of_elementary
    (h : ∀ w, ∃ w' r, x w = .done w' r ∧ w.Elementary w' ∧ ∀ f, r = .error (.failed f) → f.Raw) :
    Told code P meanwhile unmoved x := by
  intro w w' r hr
  obtain ⟨v, r', hx, hquiet, hraw⟩ := h w
  rw [hx] at hr ⊢
  cases hr
  exact ⟨[], .step hquiet hraw, hquiet.still.headings⟩

theorem told_ret (a : α) : Told code P meanwhile unmoved (pure a : Exec α) :=
  told_of_elementary fun w => ⟨w, .ok a, rfl, .refl w, fun _ => nofun⟩

theorem told_cancelled : Told code P meanwhile unmoved (Exec.stop .cancelled : Exec α) :=
  told_of_elementary fun w => ⟨w, _, rfl, .refl w, fun _ => nofun⟩

/-- A failure that has just come up is raw. -/
theorem fail_elementary (fault : Fault) (w : World) :
    ∃ w' r, (Exec.fail fault : Exec α) w = .done w' r ∧ w.Elementary w' ∧
      ∀ f, r = .error (.failed f) → f.Raw := by
  refine ⟨w, _, rfl, .refl w, fun f hf => ?_⟩
  cases hf
  exact ⟨rfl, rfl⟩

theorem told_fail (fault : Fault) : Told code P meanwhile unmoved (Exec.fail fault : Exec α) :=
  told_of_elementary (fail_elementary fault)

theorem told_change {g : World → World} (h : ∀ w : World, w.Elementary (g w)) :
    Told code P meanwhile unmoved (Exec.change g) :=
  told_of_elementary fun w => ⟨g w, .ok (), rfl, h w, fun _ => nofun⟩

theorem told_aside (hx : Aside x) : Told code P meanwhile unmoved x := by
  refine told_of_elementary fun w => ?_
  obtain ⟨heap, host, a, hx⟩ | ⟨f, hx, -⟩ := hx w
  · exact ⟨_, _, hx, .aside w heap host w.controls w.jobs, fun _ => nofun⟩
  · rw [hx]
    exact fail_elementary f w

/-- Having a chronicle that leaves all calls where they are is a habit of evaluation. -/
def aloof (code : Code) (P : Stmt → Prop) (meanwhile : Passage → World → World → Prop) :
    Habit where
  has := Told code P meanwhile unmoved
  ret := told_ret
  fail := told_fail
  bind := Told.bind_unmoved
  aside := told_aside
  spawn := fun _ _ => told_change fun w => .aside w w.heap w.host _ _

end Told

section Statements

theorem told_newVariable {bind : World → Cell → World}
    (h : ∀ (w : World) c, w.Elementary (bind w c)) (name : String) (shape : Shape) (value : Val) :
    Told code P meanwhile unmoved (newVariable bind name shape value) := by
  unfold newVariable
  cases Cell.holding name shape value with
  | ok c => exact (told_ret c).bind_unmoved fun c => told_change fun w => h w c
  | error f => exact Told.bind_unmoved (told_fail f) fun c => told_change fun w => h w c

theorem told_storeVariable (name : String) (isGlobal : Bool) (value : Val) :
    Told code P meanwhile unmoved (storeVariable name isGlobal value) := by
  refine told_of_elementary fun w => ?_
  unfold storeVariable
  cases w.lookup? name isGlobal with
  | none => exact fail_elementary _ w
  | some id =>
    dsimp only
    cases (w.memory.cell id).store value with
    | error fault => exact fail_elementary fault w
    | ok c => exact ⟨_, _, rfl, .store w id c, fun _ => nofun⟩

theorem told_assign {call : Caller}
    (hcall : ∀ m ∈ code.program.methods, ∀ args, Told code P meanwhile unmoved (call m args))
    (target : Expr) (value : Val) :
    Told code P meanwhile unmoved (assign code.program call target value) := by
  have heval : ∀ e, Told code P meanwhile unmoved (eval code.program call e) :=
    (aloof code P meanwhile).eval_of_methods hcall
  cases target with
  | var name isGlobal span => exact told_storeVariable name isGlobal value
  | index container position span =>
    exact (heval container).bind_unmoved fun _ => (heval position).bind_unmoved fun _ =>
      told_aside (aside_changeHeap fun _ => tame_setElement _ _ _ _)
  | staticProperty typeName name span =>
    exact told_aside (aside_onHost (careful_setProperty (.type typeName) name value))
  | property object name span =>
    exact (heval object).bind_unmoved fun _ =>
      told_aside (aside_onHost (careful_setProperty _ _ _))
  | _ => exact told_fail _

/-- Work in a scope of its own fails as the work does. -/
theorem toppled_scope {w w' v v' : World} {u : Option Unwind} {mark : Nat} {es : List Episode}
    (h : toppled v v' u es) : toppled w w' u [.scope mark v' es] := by
  intro f hf
  obtain ⟨x, inner, f₀, hlast, hx⟩ := h f hf
  exact ⟨x, inner, f₀, by rwa [Episode.lastOf?, Episode.last?], hx⟩

theorem told_nested {x : Exec Flow} (hx : Told code P meanwhile toppled x) :
    Told code P meanwhile toppled (nested x) := by
  intro w w' r hr
  obtain ⟨v, r₁, hv, hr⟩ := Run.endsBy_andThen hr
  cases hr
  obtain ⟨es, hes, hq⟩ := hx _ _ _ hv
  exact ⟨_, .scope (.empty w) hes, toppled_scope hq⟩

/-- What statements use has chronicles, and handlers can take what blocks fail with. -/
structure CalleesTold (code : Code) (P : Stmt → Prop)
    (meanwhile : Passage → World → World → Prop) (callees : Callees) : Prop where
  /-- Calls do. -/
  call : ∀ m ∈ code.program.methods, ∀ args, Told code P meanwhile unmoved (callees.call m args)
  /-- Blocks do. -/
  block : ∀ {block}, Stmt.everyAll P block → ∀ inLoop,
    Told code P meanwhile toppled (callees.block block inLoop)
  /-- Loops do. -/
  loop : ∀ {body}, Stmt.everyAll P body → ∀ kind test,
    Told code P meanwhile anyhow (callees.loop kind test body)
  /-- Blocks fail mildly. -/
  mild : ∀ {block inLoop w v f},
    (callees.block block inLoop w).EndsBy meanwhile v (.error (.failed f)) → Mild f.fault

variable {callees : Callees} {fuel : Nat}

/-- A handler that can take the exception fails only through its statements. -/
theorem told_runHandler (h : CalleesTold code P meanwhile callees) {handler : Block}
    (hp : Stmt.everyAll P handler) (catchVar : Option String) (inLoop : Bool) {f : Failure}
    (hf : Mild f.fault) :
    Told code P meanwhile toppled (runHandler callees catchVar handler inLoop f) := by
  -- with the exception in its scope, the handler is a block
  have hblock : ∀ {w v w' r}, w.Opens v →
      ((callees.block handler inLoop v).andThen fun u r =>
        .done (u.restoreScopes w.stack.scopeMark) r).EndsBy meanwhile w' r →
      ∃ es, Chronicle code P meanwhile w ((callees.block handler inLoop v).andThen fun u r =>
          .done (u.restoreScopes w.stack.scopeMark) r) w' r es ∧
        toppled w w' (Outcome.early? r) es := by
    intro w v w' r hv hr
    obtain ⟨v₁, r₁, hv₁, hr⟩ := Run.endsBy_andThen hr
    cases hr
    obtain ⟨es, hes, hq⟩ := h.block hp inLoop _ _ _ hv₁
    exact ⟨_, .scope hv hes, toppled_scope hq⟩
  intro w w' r hr
  cases catchVar with
  | none => exact hblock (.empty w) hr
  | some name =>
    have hbind : newVariable World.declareLocal name .scalar f.fault.toException w.pushScope =
        .done (w.pushScope.declareLocal ⟨name, .scalar, f.fault.toException⟩) (.ok ()) := by
      unfold newVariable Cell.holding
      rw [if_pos (accepts_exception hf)]
      rfl
    have hrun : runHandler callees (some name) handler inLoop f w = _ := Exec.bind_of_ok hbind
    rw [hrun] at hr ⊢
    exact hblock (.exception w _) hr

/-- A `try` statement fails only through the statements of its handler. -/
theorem told_attempt (h : CalleesTold code P meanwhile (calleesAt code fuel))
    {body handler : Block} (hp : Stmt.everyAll P body ∧ Stmt.everyAll P handler)
    (catchVar : Option String) (inLoop : Bool) (span : Span) :
    Told code P meanwhile toppled (execute code.program (calleesAt code fuel) inLoop
      (.attempt body catchVar handler span)) := by
  intro w w' r hr
  have hbody := told_nested (h.block hp.1 inLoop)
  obtain ⟨v, f, hv, hr⟩ | ⟨hr, hfine⟩ := Exec.endsBy_onFailure hr
  · have hmild : Mild f.fault := by
      obtain ⟨v₁, r₁, hv₁, hv⟩ := Run.endsBy_andThen hv
      cases hv
      exact h.mild hv₁
    obtain ⟨es, hes, -⟩ := hbody _ _ _ hv
    obtain ⟨es', hes', hq⟩ := told_runHandler h hp.2 catchVar inLoop hmild _ _ _ hr
    exact ⟨_, .rescued hes hes', fun f hf => (hq f hf).append [.rescued es]⟩
  · obtain ⟨es, hes, hq⟩ := hbody _ _ _ hr
    exact ⟨es, .spared hes hfine, hq⟩

/-- What a statement does has a chronicle. -/
theorem told_execute (h : CalleesTold code P meanwhile (calleesAt code fuel)) {stmt : Stmt}
    (hp : stmt.every P) (inLoop : Bool) :
    Told code P meanwhile (fun w w' u es => stmt.isStructured = false → upright w w' u es)
      (execute code.program (calleesAt code fuel) inLoop stmt) := by
  have heval : ∀ e, Told code P meanwhile unmoved
      (eval code.program (calleesAt code fuel).call e) :=
    (aloof code P meanwhile).eval_of_methods h.call
  have htest : ∀ e, Told code P meanwhile unmoved
      (evalCondition code.program (calleesAt code fuel).call e) :=
    (aloof code P meanwhile).evalCondition_of_methods h.call
  have hoption : ∀ e, Told code P meanwhile unmoved
      (evalOption code.program (calleesAt code fuel).call e) :=
    (aloof code P meanwhile).evalOption_of_methods h.call
  have simple : ∀ {x : Exec Flow}, Told code P meanwhile unmoved x →
      Told code P meanwhile (fun w w' u es => stmt.isStructured = false → upright w w' u es) x :=
    fun hx => hx.upright.mono fun hq _ => hq
  cases stmt with
  | declare name shape init span =>
    exact simple ((hoption init).bind_unmoved fun v =>
      (told_newVariable .declare name shape v).bind_unmoved fun _ => told_ret _)
  | assign target value span =>
    exact simple ((heval value).bind_unmoved fun v =>
      (told_assign h.call target v).bind_unmoved fun _ => told_ret _)
  | cond test yes no span =>
    -- a condition is structured, so that nothing is to be remarked
    have hno : ∀ block ∈ no, Stmt.everyAll P block := by
      intro block hb
      cases hb
      exact (Stmt.every_cond_some hp).2
    have hyes : Stmt.everyAll P yes := by
      cases no with
      | none => exact Stmt.every_cond_none hp
      | some no => exact (Stmt.every_cond_some hp).1
    refine Told.mono (Q := anyhow) ?_ fun _ hs => by cases hs
    refine (htest test).bind (T := anyhow) fun t => ?_
    cases t with
    | true => exact (told_nested (h.block hyes inLoop)).anyhow
    | false =>
      cases no with
      | none => exact (told_ret _).anyhow
      | some no => exact (told_nested (h.block (hno no rfl) inLoop)).anyhow
  | branch test label span =>
    refine simple ((htest test).bind_unmoved fun t => ?_)
    cases t <;> exact told_ret _
  | loop kind test body span =>
    exact (h.loop (Stmt.every_loop hp) kind test).mono fun _ hs => by cases hs
  | ret value span =>
    refine simple ((hoption value).bind_unmoved fun v => Told.bind_unmoved ?_ fun _ => told_ret _)
    exact told_change fun w => .result w v
  | brk span =>
    cases inLoop with
    | true => exact simple (told_ret _)
    | false => exact simple (told_fail _)
  | throw value span =>
    refine simple ((heval value).bind_unmoved fun v => ?_)
    cases v <;> exact told_fail _
  | attempt body name handler span =>
    exact (told_attempt h (Stmt.every_attempt hp) name inLoop span).mono
      fun hq _ f hf => .inl (hq f hf)
  | eval e span => exact simple ((heval e).bind_unmoved fun _ => told_ret _)
  | label name span => exact simple (told_ret _)
  | goto label span => exact simple (told_ret _)

/-- Passing the gate keeps the call stack and does not fail. -/
theorem told_checkpoint (hm : ∀ {passage w v}, meanwhile passage w v → w.Interim v) (stmt : Stmt) :
    Told code P meanwhile (fun w w' u _ => w'.stack = w.stack ∧ ∀ f, u ≠ some (.failed f))
      (checkpoint stmt) := by
  have hpass : ∀ (passage : Passage) (v : World), ∃ r, pass passage v = .done v r ∧
      (∀ f, r ≠ .error (.failed f)) ∧ ∀ f, Outcome.early? r ≠ some (.failed f) := by
    intro passage v
    cases passage with
    | passed => exact ⟨_, rfl, fun _ => nofun, fun _ => nofun⟩
    | cancelled => exact ⟨_, rfl, fun _ => nofun, fun _ => nofun⟩
  intro w w' r hr
  unfold checkpoint at hr ⊢
  dsimp only at hr ⊢
  split at hr
  · rename_i passage controls hleave
    obtain ⟨r', hdone, hcalm, hearly⟩ := hpass passage { w with controls }
    rw [hdone] at hr ⊢
    cases hr
    exact ⟨[], .step (.aside w w.heap w.host controls w.jobs) fun f hf => absurd hf (hcalm f),
      rfl, hearly⟩
  · rename_i hleave
    cases hr with
    | held waited rest =>
      rename_i v passage
      obtain ⟨r', hdone, hcalm, hearly⟩ := hpass passage v
      rw [hdone] at rest
      cases rest
      obtain ⟨hstack, seen, hseen⟩ := hm waited
      exact ⟨_, .waits (.aside w w.heap w.host _ w.jobs) waited hstack hseen hdone hcalm,
        hstack, hearly⟩

/-- Coming to a statement: the innermost call stands at it now. -/
theorem entered_of_enter {stmt : Stmt} {w w' : World} (h : enter stmt w = .done w' (.ok ())) :
    stmt.span.isBlank = false → ∀ f, w'.stack.current? = some f → f.span = stmt.span := by
  intro hb f hf
  cases h
  dsimp only at hf
  rw [if_neg (Bool.eq_false_iff.mp hb)] at hf
  change (w.stack.frames.modifyHead _).head? = some f at hf
  cases hs : w.stack.frames with
  | nil => simp [hs] at hf
  | cons g below =>
    rw [hs] at hf
    cases hf
    rfl

/-- From the observation that it begins, a statement is one execution. -/
theorem endsBy_observed {p : Program} {callees : Callees} {inLoop : Bool} {stmt : Stmt}
    {w w' : World} {r : Except Unwind Flow}
    (h : (observed p callees inLoop stmt w).EndsBy meanwhile w' r) :
    ∃ x : Execution, x.stmt = stmt ∧ x.start = w ∧ w' = x.after ∧ r = x.result ∧
      (execute p callees inLoop stmt (w.observe true stmt)).EndsBy meanwhile x.finish
        x.outcome := by
  obtain ⟨v, _, hv, hr⟩ | ⟨u, hr, -⟩ := Exec.endsBy_bind h
  · cases hv
    obtain ⟨v, flow, hv, hr⟩ | ⟨u, hv, rfl⟩ := Exec.endsBy_bind hr
    · -- the statement is completed and observed once more
      cases hr
      obtain ⟨v₁, f, -, hl⟩ | ⟨hx, -⟩ := Exec.endsBy_onFailure hv
      · cases hl
      · exact ⟨⟨stmt, w, v, .ok flow⟩, rfl, rfl, rfl, rfl, hx⟩
    · obtain ⟨v₁, f, hx, hl⟩ | ⟨hx, hne⟩ := Exec.endsBy_onFailure hv
      · -- a failure gets its place and its call stack
        cases hl
        exact ⟨⟨stmt, w, w', .error (.failed f)⟩, rfl, rfl, rfl, rfl, hx⟩
      · cases u with
        | failed f => exact absurd rfl (hne f)
        | cancelled => exact ⟨⟨stmt, w, w', .error .cancelled⟩, rfl, rfl, rfl, rfl, hx⟩
  · cases hr

/-- A statement on its way fails only by being executed. -/
theorem told_runStmt (hm : ∀ {passage w v}, meanwhile passage w v → w.Interim v)
    (h : CalleesTold code P meanwhile (calleesAt code fuel)) {stmt : Stmt} (hp : stmt.every P)
    (inLoop : Bool) :
    Told code P meanwhile toppled (runStmt code.program (calleesAt code fuel) inLoop stmt) := by
  have hobserved : ∀ {w w' r}, (stmt.span.isBlank = false →
      ∀ f, w.stack.current? = some f → f.span = stmt.span) →
      (observed code.program (calleesAt code fuel) inLoop stmt w).EndsBy meanwhile w' r →
      ∃ es, Chronicle code P meanwhile w
          (observed code.program (calleesAt code fuel) inLoop stmt w) w' r es ∧
        toppled w w' (Outcome.early? r) es := by
    intro w w' r hentered hr
    obtain ⟨x, rfl, rfl, rfl, rfl, hx⟩ := endsBy_observed hr
    obtain ⟨es, hes, hq⟩ := told_execute h hp inLoop _ _ _ hx
    have hown : x.stmt.isStructured = false → ∀ f, x.outcome = .error (.failed f) →
        Broken es ∨ x.finish.stack.headings = x.start.stack.headings :=
      fun hs f hf => hq hs f (by rw [hf]; rfl)
    refine ⟨_, .execution x (Stmt.every_self hp) hentered hes hown, fun f hf => ?_⟩
    obtain ⟨f₀, hf₀⟩ := x.fails_of_result (Outcome.eq_of_early? hf)
    exact ⟨x, es, f₀, rfl, hf₀⟩
  intro w w' r hr
  rw [runStmt_eq] at hr ⊢
  obtain ⟨v, _, hv, hr⟩ | ⟨u, hv, -⟩ := Exec.endsBy_bind hr
  · have hnoted : enter stmt w = .done v (.ok ()) := by
      cases hv
      rfl
    have henter : Chronicle code P meanwhile w (enter stmt w) v (.ok ()) [] := .enter stmt hnoted
    obtain ⟨v', _, hv', hr⟩ | ⟨u, hv', rfl⟩ := Exec.endsBy_bind hr
    · obtain ⟨es, hes, hstack, -⟩ := told_checkpoint hm stmt _ _ _ hv'
      obtain ⟨es', hes', hq⟩ := hobserved (hstack ▸ entered_of_enter hnoted) hr
      exact ⟨_, henter.bind (hes.bind hes'), fun f hf => ((hq f hf).append es).append []⟩
    · obtain ⟨es, hes, -, hcalm⟩ := told_checkpoint hm stmt _ _ _ hv'
      exact ⟨_, henter.bind hes.early, fun f hf => absurd hf (hcalm f)⟩
  · cases hv

end Statements

section Runs

variable {callees : Callees}

theorem told_loopRound (h : CalleesTold code P meanwhile callees) {body : Block}
    (hp : Stmt.everyAll P body) (kind : LoopKind) (test : Expr) :
    Told code P meanwhile anyhow (loopRound code.program callees kind test body) := by
  have hbody := told_nested (h.block hp true)
  have htest : Told code P meanwhile unmoved (evalCondition code.program callees.call test) :=
    (aloof code P meanwhile).evalCondition_of_methods h.call test
  have hguard : ∀ {x : Exec (Option Flow)}, Told code P meanwhile anyhow x →
      Told code P meanwhile anyhow (unlessCancelled x) := by
    intro x hx w w' r hr
    unfold unlessCancelled at hr ⊢
    split at hr <;> rename_i hcancelled
    · rw [if_pos hcancelled]
      exact (told_cancelled.anyhow : Told code P meanwhile anyhow _) _ _ _ hr
    · rw [if_neg hcancelled]
      exact hx _ _ _ hr
  cases kind with
  | testFirst =>
    rw [loopRound_testFirst]
    refine hguard (htest.bind (T := anyhow) fun goes => ?_)
    cases goes with
    | true => exact hbody.bind fun _ => told_ret _
    | false => exact (told_ret _).anyhow
  | testLast =>
    rw [loopRound_testLast]
    refine hguard (hbody.bind (T := anyhow) fun flow => ?_)
    cases loopEnd flow with
    | some flow => exact (told_ret _).anyhow
    | none =>
      refine htest.bind (T := unmoved) fun goes => ?_
      cases goes <;> exact told_ret _

theorem told_bindArgs : ∀ (params : List Param) (args : List Val),
    Told code P meanwhile unmoved (bindArgs params args)
  | [], _ => told_ret _
  | _ :: _, [] => told_ret _
  | param :: params, arg :: args =>
    (told_newVariable .declareLocal param.name param.shape arg).bind_unmoved fun _ =>
      told_bindArgs params args

/-- A call leaves the calls below it where they are. -/
theorem told_invoke {fuel : Nat} {m : Method} {args : List Val} {Q : Remark}
    (hbody : Told code P meanwhile Q (callBody code fuel m args)) :
    Told code P meanwhile unmoved (invoke code (fuel + 1) m args) := by
  intro w w' r hr
  by_cases hdepth : w.stack.depth < code.limits.maxCallDepth
  · by_cases harity : m.params.length = args.length
    · rw [invoke_eq hdepth harity] at hr
      obtain ⟨v, r₁, hv, hr⟩ := Run.endsBy_andThen hr
      obtain ⟨es, hes, -⟩ := hbody _ _ _ hv
      have hcall := Chronicle.call hdepth harity hes
      cases r₁ with
      | ok a =>
        cases hr
        exact ⟨_, hcall, hes.stays.popFrame⟩
      | error u =>
        cases hr
        exact ⟨_, hcall, hes.stays.popFrame⟩
    · have hrefused : invoke code (fuel + 1) m args w =
          Exec.fail (.arity m.name m.params.length args.length) w := by
        unfold invoke
        rw [if_neg (Nat.not_le_of_lt hdepth), if_pos harity]
      rw [hrefused] at hr ⊢
      exact told_fail _ _ _ _ hr
  · have hrefused : invoke code (fuel + 1) m args w =
        Exec.fail (.callDepth code.limits.maxCallDepth m.name) w := by
      unfold invoke
      rw [if_pos (Nat.le_of_not_lt hdepth)]
    rw [hrefused] at hr ⊢
    exact told_fail _ _ _ _ hr

/-- All failures are mild. -/
def mildness : Discipline where
  inv := fun _ => True
  moves := fun _ _ _ => True
  meanwhile := World.Interim
  faults := Mild

theorem mildness_lax : mildness.Lax := ⟨fun _ => rfl, fun _ _ _ => rfl, fun _ _ => rfl, rfl⟩

theorem mildness_kept (code : Code) : mildness.Kept code where
  refl := fun _ => trivial
  trans := fun _ _ => trivial
  widen := fun _ _ => trivial
  waits := fun _ _ => ⟨trivial, trivial⟩
  aside := fun _ _ _ _ => ⟨trivial, trivial⟩
  span := fun _ _ => ⟨trivial, trivial⟩
  result := fun _ _ => ⟨trivial, trivial⟩
  observe := fun _ _ _ => ⟨trivial, trivial⟩
  store := fun _ _ _ => ⟨trivial, trivial⟩
  declare := fun _ _ => ⟨trivial, trivial⟩
  declareLocal := fun _ _ => ⟨trivial, trivial⟩
  spawn := fun _ _ _ => ⟨trivial, trivial⟩
  openScope := fun _ => trivial
  closeScope := fun _ _ => ⟨trivial, trivial⟩
  begin := fun _ _ _ => trivial
  finish := fun _ _ _ => ⟨trivial, trivial⟩
  operational := mild_of_isOperational
  thrown := fun _ _ => rfl
  depth := fun _ _ => rfl
  mild := fun h => h

/-- A block fails only with what a handler can take. -/
theorem mild_of_endsBy (hm : ∀ {passage w v}, meanwhile passage w v → w.Interim v) {fuel : Nat}
    {block : Block} {inLoop : Bool} {w v : World} {f : Failure}
    (h : (runBlock code fuel block inLoop w).EndsBy meanwhile v (.error (.failed f))) :
    Mild f.fault :=
  have hkept := (mildness_kept code).keptWith (fun _ _ => .inl mildness_lax) fuel
  have hblock : mildness.Keeps (block.flatMap Stmt.adds) (mildness.leaves [])
      (runBlock code fuel block inLoop) := hkept.block (.inl mildness_lax)
  ((hblock w trivial).endsBy h hm).2

/-- What the engine runs has chronicles. -/
structure ToldWith (code : Code) (P : Stmt → Prop)
    (meanwhile : Passage → World → World → Prop) (fuel : Nat) : Prop where
  /-- Calls do. -/
  call : ∀ {m : Method}, Stmt.everyAll P m.body → ∀ args,
    Told code P meanwhile unmoved (invoke code fuel m args)
  /-- Blocks do. -/
  block : ∀ {block}, Stmt.everyAll P block → ∀ inLoop,
    Told code P meanwhile toppled (runBlock code fuel block inLoop)
  /-- What is left of a block does. -/
  walk : ∀ {block rest}, Stmt.everyAll P block → (∀ stmt ∈ rest, stmt ∈ block) → ∀ inLoop,
    Told code P meanwhile toppled (runFrom code fuel block inLoop rest)
  /-- Loops do. -/
  loop : ∀ {body}, Stmt.everyAll P body → ∀ kind test,
    Told code P meanwhile anyhow (runLoop code fuel kind test body)

theorem toldWith_zero : ToldWith code P meanwhile 0 where
  call := fun _ _ _ _ _ hr => by cases hr
  block := fun _ _ _ _ _ hr => by cases hr
  walk := fun _ _ _ _ _ _ hr => by cases hr
  loop := fun _ _ _ _ _ _ hr => by cases hr

/-- What follows a statement is again part of the block, or the block is left. -/
theorem told_proceed {fuel : Nat} {block rest : Block} (h : ToldWith code P meanwhile fuel)
    (hp : Stmt.everyAll P block) (hrest : ∀ stmt ∈ rest, stmt ∈ block) (inLoop : Bool)
    (flow : Flow) :
    Told code P meanwhile toppled
      (proceed (runFrom code fuel block inLoop) (follow block rest flow)) := by
  cases hflow : follow block rest flow with
  | inl rest' => exact h.walk hp (Discipline.mem_of_follow hrest hflow) inLoop
  | inr flow' =>
    intro w w' r hr
    obtain ⟨es, hes, -⟩ := told_ret flow' _ _ _ hr
    cases hr
    exact ⟨es, hes, fun f hf => by cases hf⟩

/-- A unit of fuel more is used for one step. -/
theorem ToldWith.succ {fuel : Nat} (hm : ∀ {passage w v}, meanwhile passage w v → w.Interim v)
    (h : ToldWith code P meanwhile fuel)
    (hcode : ∀ m ∈ code.program.methods, Stmt.everyAll P m.body) :
    ToldWith code P meanwhile (fuel + 1) := by
  have hcallees : CalleesTold code P meanwhile (calleesAt code fuel) :=
    ⟨fun m hm => h.call (hcode m hm), h.block, h.loop, mild_of_endsBy hm⟩
  refine ⟨?_, fun hp inLoop => h.walk hp (fun _ hs => hs) inLoop, ?_, ?_⟩
  case refine_1 =>
    intro m hp args
    have hbody : Told code P meanwhile anyhow (runBody (runBlock code fuel) m) := by
      refine (h.block hp false).bind (T := unmoved) fun flow => ?_
      cases flow with
      | jump label => exact told_fail _
      | _ => exact told_ret _
    exact told_invoke ((told_bindArgs m.params args).bind fun _ => hbody)
  case refine_2 =>
    intro block rest hp hrest inLoop
    cases rest with
    | nil =>
      intro w w' r hr
      cases hr
      exact ⟨[], .step (.refl w) fun _ => nofun, fun _ => nofun⟩
    | cons stmt rest =>
      rw [runFrom_cons]
      have hstmt : stmt.every P := Stmt.every_of_mem hp (hrest stmt List.mem_cons_self)
      exact (told_runStmt hm hcallees hstmt inLoop).bind_toppled fun flow =>
        told_proceed h hp (fun s hs => hrest s (List.mem_cons_of_mem _ hs)) inLoop flow
  case refine_3 =>
    intro body hp kind test
    rw [runLoop_succ]
    refine (told_loopRound hcallees hp kind test).bind (T := anyhow) fun left => ?_
    cases left with
    | none => exact h.loop hp kind test
    | some flow => exact (told_ret _).anyhow

/-- Every run has a chronicle, if all methods have only statements with the property. -/
theorem toldWith (hm : ∀ {passage w v}, meanwhile passage w v → w.Interim v)
    (hcode : ∀ m ∈ code.program.methods, Stmt.everyAll P m.body) (fuel : Nat) :
    ToldWith code P meanwhile fuel := by
  induction fuel with
  | zero => exact toldWith_zero
  | succ fuel ih => exact ih.succ hm hcode

end Runs

/-- What an engine runs on a call stack. -/
inductive Work (code : Code) : {α : Type} → Exec α → Prop where
  /-- A block. -/
  | block (fuel : Nat) (block : Block) (inLoop : Bool) : Work code (runBlock code fuel block inLoop)
  /-- A call. -/
  | call (fuel : Nat) (m : Method) (args : List Val) : Work code (invoke code fuel m args)
  /-- An expression. -/
  | expression (fuel : Nat) (e : Expr) : Work code (eval code.program (invoke code fuel) e)

/-- Whatever an engine runs has a chronicle, if its call stack is kept for it whenever it
waits. -/
theorem Work.told {code : Code} {meanwhile : Passage → World → World → Prop}
    (hm : ∀ {passage w v}, meanwhile passage w v → w.Interim v) {x : Exec α} (h : Work code x)
    {w w' : World} {r : Except Unwind α} (hr : (x w).EndsBy meanwhile w' r) :
    ∃ es, Chronicle code (fun _ => True) meanwhile w (x w) w' r es := by
  have htold : ∀ fuel, ToldWith code (fun _ => True) meanwhile fuel :=
    toldWith hm fun _ _ _ _ => trivial
  have hall : ∀ block, Stmt.everyAll (fun _ => True) block := fun _ _ _ => trivial
  cases h with
  | block fuel block inLoop =>
    obtain ⟨es, hes, -⟩ := (htold fuel).block (hall block) inLoop _ _ _ hr
    exact ⟨es, hes⟩
  | call fuel m args =>
    obtain ⟨es, hes, -⟩ := (htold fuel).call (hall m.body) args _ _ _ hr
    exact ⟨es, hes⟩
  | expression fuel e =>
    obtain ⟨es, hes, -⟩ := (aloof code (fun _ => True) meanwhile).eval_of_methods
      (fun m _ => (htold fuel).call (hall m.body)) e _ _ _ hr
    exact ⟨es, hes⟩

end Engine

end Stepwise
