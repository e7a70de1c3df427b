import Mathlib.Data.List.Dedup
import Stepwise.Proofs.Lowering.Bench
import Stepwise.Proofs.Lowering.Methods

/-!
# Copies nest only so deep

The work on the bench always comes to an end, with the result of lowering and
with both stacks empty. A copy is begun only while its method is being copied
fewer times than the limit allows, so on no stack that there ever was does a
method stand more often than that, and no stack is longer than the limit times
the number of methods.
-/

namespace Stepwise

namespace Lowering

variable {α β : Type}

/-- A stack of copies on which only methods of the program stand, and none of
them too often. -/
structure Within (setting : Setting) (stack : List Nat) : Prop where
  /-- Methods of the program are copied. -/
  ids : ∀ i ∈ stack, i ∈ setting.program.methods.map (·.id)
  /-- No method is copied too often. -/
  counts : ∀ i, stack.count i ≤ setting.options.recursionLimit

theorem Within.nil (setting : Setting) : Within setting [] where
  ids := fun _ hi => absurd hi List.not_mem_nil
  counts := fun _ => Nat.zero_le _

/-- Such a stack is not longer than the limit times the number of different
numbers of methods. -/
theorem Within.length_le {setting : Setting} {stack : List Nat} (h : Within setting stack) :
    stack.length ≤ setting.options.recursionLimit *
      (setting.program.methods.map (·.id)).dedup.length :=
  length_le_of_count_le (fun i hi => List.mem_dedup.mpr (h.ids i hi)) h.counts

theorem Ample.within {setting : Setting} {site : Site} {depth : Nat}
    (h : Ample setting site depth) : Within setting site.active :=
  ⟨h.ids, h.counts⟩

/-- All stacks that were added to those seen are within the limit. -/
def Adds (setting : Setting) (seen seen' : List (List Nat)) : Prop :=
  ∀ stack ∈ seen', stack ∈ seen ∨ Within setting stack

namespace Adds

variable {setting : Setting} {seen seen₁ seen₂ : List (List Nat)}

theorem refl : Adds setting seen seen := fun _ h => .inl h

theorem trans (h₁ : Adds setting seen seen₁) (h₂ : Adds setting seen₁ seen₂) :
    Adds setting seen seen₂ :=
  fun stack hstack => (h₂ stack hstack).elim (h₁ stack) .inr

theorem cons {stack : List Nat} (h : Within setting stack) : Adds setting seen (stack :: seen) := by
  intro stack' hstack'
  rcases List.mem_cons.mp hstack' with rfl | hstack'
  · exact .inr h
  · exact .inl hstack'

end Adds

/-- Work on the bench under the given stacks comes to an end, does what a step
of lowering does, leaves both stacks as they were, and all stacks of copies
that there were meanwhile are within the limit. -/
def Mirrors (setting : Setting) (loops : List String) (contexts : List Context)
    (work : Work α) (step : Lower α) : Prop :=
  ∀ (progress : Progress) (seen : List (List Nat)), ∃ seen' : List (List Nat),
    work.run ⟨progress, loops, contexts, seen⟩ =
        some ((step.run progress).1, ⟨(step.run progress).2, loops, contexts, seen'⟩) ∧
      Adds setting seen seen'

section Steps

variable {setting : Setting} {loops : List String} {contexts : List Context}

theorem mirrors_pure (a : α) : Mirrors setting loops contexts (pure a) (pure a) :=
  fun _ seen => ⟨seen, rfl, .refl⟩

theorem mirrors_here (step : Site → Lower α) :
    Mirrors setting loops contexts (Work.here step) (step (siteOf loops contexts)) :=
  fun _ seen => ⟨seen, rfl, .refl⟩

/-- Steps one after the other, where the second may rest on what the first gives. -/
theorem Mirrors.bindOf {work : Work α} {step : Lower α} {next : α → Work β} {next' : α → Lower β}
    (h : Mirrors setting loops contexts work step)
    (hnext : ∀ a s s', Emits step s a s' → Mirrors setting loops contexts (next a) (next' a)) :
    Mirrors setting loops contexts (work >>= next) (step >>= next') := by
  intro progress seen
  obtain ⟨seen₁, hrun, hseen₁⟩ := h progress seen
  obtain ⟨seen₂, hrun', hseen₂⟩ := hnext _ progress _ rfl (step.run progress).2 seen₁
  refine ⟨seen₂, ?_, hseen₁.trans hseen₂⟩
  rw [StateT.run_bind, hrun]
  exact hrun'

theorem Mirrors.bind {work : Work α} {step : Lower α} {next : α → Work β} {next' : α → Lower β}
    (h : Mirrors setting loops contexts work step)
    (hnext : ∀ a, Mirrors setting loops contexts (next a) (next' a)) :
    Mirrors setting loops contexts (work >>= next) (step >>= next') :=
  h.bindOf fun a _ _ _ => hnext a

/-- A step before a value is put together. -/
theorem Mirrors.andPure {work : Work α} {step : Lower α}
    (h : Mirrors setting loops contexts work step) (f : α → β) :
    Mirrors setting loops contexts (work >>= fun a => pure (f a)) (step >>= fun a => pure (f a)) :=
  h.bind fun a => mirrors_pure (f a)

/-- Looking at the stacks. -/
theorem Mirrors.look {f : Site → α} {next : α → Work β} {step : Lower β}
    (h : Mirrors setting loops contexts (next (f (siteOf loops contexts))) step) :
    Mirrors setting loops contexts (Work.here (fun site => pure (f site)) >>= next) step :=
  h

/-- Work inside a loop. -/
theorem Mirrors.insideLoop {endLabel : String} {work : Work α} {step : Lower α}
    {next : α → Work β} {next' : α → Lower β}
    (h : Mirrors setting (endLabel :: loops) contexts work step)
    (hnext : ∀ a, Mirrors setting loops contexts (next a) (next' a)) :
    Mirrors setting loops contexts
      (do Work.pushLoop endLabel; let a ← work; Work.popLoop; next a) (step >>= next') := by
  intro progress seen
  obtain ⟨seen₁, hrun, hseen₁⟩ := h progress seen
  obtain ⟨seen₂, hrun', hseen₂⟩ := hnext (step.run progress).1 (step.run progress).2 seen₁
  refine ⟨seen₂, ?_, hseen₁.trans hseen₂⟩
  show (work.run ⟨progress, endLabel :: loops, contexts, seen⟩ >>= _) = _
  rw [hrun]
  exact hrun'

/-- Work in a scope of names. -/
theorem Mirrors.inScope {work : Work α} {step : Lower α} {next : α → Work β}
    {next' : α → Lower β} (h : Mirrors setting loops contexts work step)
    (hnext : ∀ a, Mirrors setting loops contexts (next a) (next' a)) :
    Mirrors setting loops contexts
      (do Work.pushScope; let a ← work; Work.popScope; next a)
      (Lowering.inScope step >>= next') := by
  have hscope : Lowering.inScope step >>= next' =
      (do modify fun s => { s with scopes := s.scopes.push }
          let a ← step
          modify fun s => { s with scopes := s.scopes.pop }
          next' a) := rfl
  rw [hscope]
  exact (mirrors_here _).bind fun _ => h.bind fun a => (mirrors_here _).bind fun _ => hnext a

/-- Work on a handler, in a scope of names that has the name of the exception. -/
theorem Mirrors.handler {naming : Site → Lower (Option String)} {work : Work Block}
    {step : Lower Block} (h : Mirrors setting loops contexts work step)
    (build : Option String → Block → Block) :
    Mirrors setting loops contexts
      (do Work.pushScope
          let name ← Work.here naming
          let code ← work
          Work.popScope
          pure (build name code))
      (do let (name, code) ← Lowering.inScope do
            let name ← naming (siteOf loops contexts)
            pure (name, ← step)
          pure (build name code)) := by
  show Mirrors setting loops contexts _
    (do modify fun s => { s with scopes := s.scopes.push }
        let name ← naming (siteOf loops contexts)
        let code ← step
        modify fun s => { s with scopes := s.scopes.pop }
        pure (build name code))
  exact (mirrors_here _).bind fun _ => (mirrors_here naming).bind fun _ => h.bind fun _ =>
    (mirrors_here _).bind fun _ => mirrors_pure _

/-- Work in a copy, with the loops of the caller put aside. -/
theorem Mirrors.insideCopy {callee : Method} {target : Target} {names : Renaming}
    {work : Work α} {step : Lower α} {next : α → Work β} {next' : α → Lower β}
    (h : ∀ outer, Mirrors setting [] (⟨callee.id, target, outer⟩ :: contexts) work step)
    (hinside : Within setting (callee.id :: contexts.map (·.method)))
    (hnext : ∀ a, Mirrors setting loops contexts (next a) (next' a)) :
    Mirrors setting loops contexts
      (do let callerLoops ← Work.exchangeLoops []
          Work.pushContext callee target names
          let a ← work
          Work.popContext
          let _ ← Work.exchangeLoops callerLoops
          next a) (withRenaming names step >>= next') := by
  intro progress seen
  obtain ⟨seen₁, hrun, hseen₁⟩ := h progress.scopes { progress with scopes := names }
    ((callee.id :: contexts.map (·.method)) :: seen)
  obtain ⟨seen₂, hrun', hseen₂⟩ := hnext (step.run { progress with scopes := names }).1
    { (step.run { progress with scopes := names }).2 with scopes := progress.scopes }
    (contexts.map (·.method) :: seen₁)
  have houtside : Within setting (contexts.map (·.method)) :=
    ⟨fun i hi => hinside.ids i (List.mem_cons_of_mem _ hi),
      fun i => Nat.le_trans List.count_le_count_cons (hinside.counts i)⟩
  refine ⟨seen₂, ?_, (((Adds.cons hinside).trans hseen₁).trans (.cons houtside)).trans hseen₂⟩
  show (work.run ⟨{ progress with scopes := names }, [],
    ⟨callee.id, target, progress.scopes⟩ :: contexts,
    (callee.id :: contexts.map (·.method)) :: seen⟩ >>= _) = _
  rw [hrun]
  exact hrun'

end Steps

section Functions

variable {setting : Setting} {loops : List String} {contexts : List Context} {depth : Nat}
  {splice : Splicing}

/-- Callees are mirrored wherever copies may still be nested `depth` deep. -/
def SpliceMirrors (setting : Setting) (depth : Nat) (splice : Splicing) : Prop :=
  ∀ (loops : List String) (contexts : List Context) (block : Block),
    Ample setting (siteOf loops contexts) depth →
      Mirrors setting loops contexts (splice block)
        (lowerBlock setting depth (siteOf loops contexts) block)

theorem emitCall_mirrors (hsplice : SpliceMirrors setting depth splice)
    (hsite : Ample setting (siteOf loops contexts) (depth + 1)) (name : String)
    (args : List Expr) (dest : Option Expr) (callSpan span : Span) :
    Mirrors setting loops contexts (Bench.emitCall setting splice name args dest callSpan span)
      (emitCall setting (lowerBlock setting depth) (siteOf loops contexts) name args dest
        callSpan span) := by
  rw [Bench.emitCall, emitCall]
  refine (mirrors_here _).bindOf fun callee s s' hcallee => ?_
  cases callee with
  | none => cases dest <;> exact mirrors_pure _
  | some callee =>
    have hinlinable := (emits_inlinee hcallee).2 callee rfl
    refine (mirrors_here _).bind fun startLabel => (mirrors_here _).bind fun endLabel =>
      (mirrors_here _).bind fun receiver => (mirrors_here _).bind fun ⟨names, declarations⟩ => ?_
    have hinside := hsite.insideCopy hinlinable ⟨receiver, endLabel⟩
    refine Mirrors.insideCopy (fun outer => ?_) hinside.within fun body => ?_
    · exact hsplice [] (⟨callee.id, ⟨receiver, endLabel⟩, outer⟩ :: contexts) callee.body hinside
    · cases dest <;> exact mirrors_pure _

theorem lowerCall_mirrors (hsplice : SpliceMirrors setting depth splice)
    (hsite : Ample setting (siteOf loops contexts) (depth + 1)) (name : String)
    (args : List Expr) (dest : Option Expr) (callSpan span : Span) :
    Mirrors setting loops contexts (Bench.lowerCall setting splice name args dest callSpan span)
      (lowerCall setting (lowerBlock setting depth) (siteOf loops contexts) name args dest
        callSpan span) := by
  rw [Bench.lowerCall]
  exact (mirrors_here _).bind fun args =>
    emitCall_mirrors hsplice hsite name args dest callSpan span

mutual

theorem hoist_mirrors (hsplice : SpliceMirrors setting depth splice)
    (hsite : Ample setting (siteOf loops contexts) (depth + 1)) :
    ∀ e : Expr, Mirrors setting loops contexts (Bench.hoist setting splice e)
      (hoist setting (lowerBlock setting depth) (siteOf loops contexts) e)
  | .call method args span => by
    rw [Bench.hoist, hoist]
    refine (hoistList_mirrors hsplice hsite args).bind fun ⟨before, lowered⟩ => ?_
    dsimp only
    split
    · exact (mirrors_here _).bind fun temp =>
        (emitCall_mirrors hsplice hsite method lowered _ span span).andPure _
    · exact (mirrors_here _).andPure _
  | .callStatic _ _ args _ => by
    rw [Bench.hoist, hoist]
    exact (hoistList_mirrors hsplice hsite args).andPure _
  | .callOn object _ args _ => by
    rw [Bench.hoist, hoist]
    exact (hoistList_mirrors hsplice hsite args).bind fun _ =>
      (hoist_mirrors hsplice hsite object).andPure _
  | .binary op left right _ => by
    rw [Bench.hoist, hoist]
    refine (hoist_mirrors hsplice hsite left).bind fun ⟨before, lowered⟩ => ?_
    dsimp only
    split
    · exact (mirrors_here _).andPure _
    · exact (hoist_mirrors hsplice hsite right).andPure _
  | .unary _ operand _ => by
    rw [Bench.hoist, hoist]
    exact (hoist_mirrors hsplice hsite operand).andPure _
  | .index target position _ => by
    rw [Bench.hoist, hoist]
    exact (hoist_mirrors hsplice hsite target).bind fun _ =>
      (hoist_mirrors hsplice hsite position).andPure _
  | .property object _ _ => by
    rw [Bench.hoist, hoist]
    exact (hoist_mirrors hsplice hsite object).andPure _
  | .create _ args _ => by
    rw [Bench.hoist, hoist]
    exact (hoistList_mirrors hsplice hsite args).andPure _
  | .array items _ => by
    rw [Bench.hoist, hoist]
    exact (hoistList_mirrors hsplice hsite items).andPure _
  | .literal .. => by
    rw [Bench.hoist, hoist]
    exact (mirrors_here _).andPure _
  | .var .. => by
    rw [Bench.hoist, hoist]
    exact (mirrors_here _).andPure _
  | .staticProperty .. => by
    rw [Bench.hoist, hoist]
    exact mirrors_pure _

theorem hoistList_mirrors (hsplice : SpliceMirrors setting depth splice)
    (hsite : Ample setting (siteOf loops contexts) (depth + 1)) :
    ∀ es : List Expr, Mirrors setting loops contexts (Bench.hoistList setting splice es)
      (hoistList setting (lowerBlock setting depth) (siteOf loops contexts) es)
  | [] => by
    rw [Bench.hoistList, hoistList]
    exact mirrors_pure _
  | e :: rest => by
    rw [Bench.hoistList, hoistList]
    exact (hoist_mirrors hsplice hsite e).bind fun _ =>
      (hoistList_mirrors hsplice hsite rest).andPure _

end

theorem lowerReturned_mirrors (hsplice : SpliceMirrors setting depth splice)
    (hsite : Ample setting (siteOf loops contexts) (depth + 1)) (value : Expr) (span : Span) :
    Mirrors setting loops contexts (Bench.lowerReturned setting splice value span)
      (lowerReturned setting (lowerBlock setting depth) (siteOf loops contexts) value span) := by
  rw [Bench.lowerReturned, lowerReturned]
  refine Mirrors.look ?_
  cases (siteOf loops contexts).copy with
  | none => exact (hoist_mirrors hsplice hsite value).andPure _
  | some target =>
    cases value with
    | call method args callSpan =>
      exact (lowerCall_mirrors hsplice hsite method args _ callSpan span).andPure _
    | _ => exact (hoist_mirrors hsplice hsite _).andPure _

theorem lowerReturn_mirrors (hsplice : SpliceMirrors setting depth splice)
    (hsite : Ample setting (siteOf loops contexts) (depth + 1)) (value : Option Expr)
    (span : Span) :
    Mirrors setting loops contexts (Bench.lowerStmt setting splice (.ret value span))
      (lowerReturn setting (lowerBlock setting depth) (siteOf loops contexts) value span) := by
  cases value with
  | some value =>
    rw [Bench.lowerStmt, lowerReturn]
    exact lowerReturned_mirrors hsplice hsite value span
  | none =>
    rw [Bench.lowerStmt, lowerReturn]
    refine Mirrors.look ?_
    cases (siteOf loops contexts).copy <;> exact mirrors_pure _

theorem lowerDeclare_mirrors (hsplice : SpliceMirrors setting depth splice)
    (hsite : Ample setting (siteOf loops contexts) (depth + 1)) (name : String) (shape : Shape)
    (init : Option Expr) (span : Span) :
    Mirrors setting loops contexts (Bench.lowerDeclare setting splice name shape init span)
      (lowerDeclare setting (lowerBlock setting depth) (siteOf loops contexts) name shape init
        span) := by
  rw [Bench.lowerDeclare.eq_def, lowerDeclare.eq_def]
  cases init with
  | none => exact (mirrors_here _).andPure _
  | some value =>
    cases value with
    | call method args callSpan =>
      exact (mirrors_here _).bind fun args => (mirrors_here _).bind fun name =>
        (emitCall_mirrors hsplice hsite method args _ callSpan span).andPure _
    | _ => exact (mirrors_here _).bind fun _ => (mirrors_here _).andPure _

theorem lowerAssign_mirrors (hsplice : SpliceMirrors setting depth splice)
    (hsite : Ample setting (siteOf loops contexts) (depth + 1)) (target value : Expr)
    (span : Span) :
    Mirrors setting loops contexts (Bench.lowerAssign setting splice target value span)
      (lowerAssign setting (lowerBlock setting depth) (siteOf loops contexts) target value
        span) := by
  rw [Bench.lowerAssign, lowerAssign]
  refine (mirrors_here _).bind fun target => ?_
  cases value with
  | call method args callSpan => exact lowerCall_mirrors hsplice hsite method args _ callSpan span
  | _ => exact (mirrors_here _).andPure _

theorem lowerEval_mirrors (hsplice : SpliceMirrors setting depth splice)
    (hsite : Ample setting (siteOf loops contexts) (depth + 1)) (e : Expr) (span : Span) :
    Mirrors setting loops contexts (Bench.lowerEval setting splice e span)
      (lowerEval setting (lowerBlock setting depth) (siteOf loops contexts) e span) := by
  rw [Bench.lowerEval.eq_def, lowerEval.eq_def]
  cases e with
  | call method args callSpan => exact lowerCall_mirrors hsplice hsite method args _ callSpan span
  | _ => exact (mirrors_here _).andPure _

mutual

theorem lowerStmt_mirrors (hsplice : SpliceMirrors setting depth splice) :
    ∀ (stmt : Stmt) {loops : List String} {contexts : List Context},
      Ample setting (siteOf loops contexts) (depth + 1) →
      Mirrors setting loops contexts (Bench.lowerStmt setting splice stmt)
        (lowerStmt setting (lowerBlock setting depth) (siteOf loops contexts) stmt)
  | .declare name shape init span, _, _, hsite => by
    rw [Bench.lowerStmt, lowerStmt]
    exact lowerDeclare_mirrors hsplice hsite name shape init span
  | .assign target value span, _, _, hsite => by
    rw [Bench.lowerStmt, lowerStmt]
    exact lowerAssign_mirrors hsplice hsite target value span
  | .eval e span, _, _, hsite => by
    rw [Bench.lowerStmt, lowerStmt]
    exact lowerEval_mirrors hsplice hsite e span
  | .cond test yes none span, _, _, hsite => by
    rw [Bench.lowerStmt, lowerStmt]
    exact (mirrors_here _).bind fun _ => (mirrors_here _).bind fun _ =>
      (lowerStmts_mirrors hsplice yes hsite).andPure _
  | .cond test yes (some no) span, _, _, hsite => by
    rw [Bench.lowerStmt, lowerStmt]
    exact (mirrors_here _).bind fun _ => (mirrors_here _).bind fun _ =>
      (mirrors_here _).bind fun _ => (lowerStmts_mirrors hsplice yes hsite).bind fun _ =>
        (lowerStmts_mirrors hsplice no hsite).andPure _
  | .loop .testFirst test body span, loops, contexts, hsite => by
    rw [Bench.lowerStmt, lowerStmt]
    refine (mirrors_here _).bind fun _ => (mirrors_here _).bind fun endLabel =>
      (mirrors_here _).bind fun _ => ?_
    have hinside : Ample setting (siteOf (endLabel :: loops) contexts) (depth + 1) :=
      hsite.insideLoop endLabel
    exact (lowerStmts_mirrors hsplice body hinside).insideLoop fun _ => mirrors_pure _
  | .loop .testLast test body span, loops, contexts, hsite => by
    rw [Bench.lowerStmt, lowerStmt]
    refine (mirrors_here _).bind fun _ => (mirrors_here _).bind fun endLabel => ?_
    have hinside : Ample setting (siteOf (endLabel :: loops) contexts) (depth + 1) :=
      hsite.insideLoop endLabel
    exact (lowerStmts_mirrors hsplice body hinside).insideLoop fun _ => (mirrors_here _).andPure _
  | .brk span, loops, contexts, _ => by
    rw [Bench.lowerStmt, lowerStmt]
    refine Mirrors.look ?_
    cases (siteOf loops contexts).loopEnds with
    | nil => exact (mirrors_here _).andPure _
    | cons endLabel rest => exact mirrors_pure _
  | .ret value span, _, _, hsite => by
    rw [lowerStmt]
    exact lowerReturn_mirrors hsplice hsite value span
  | .throw value span, _, _, _ => by
    rw [Bench.lowerStmt, lowerStmt]
    exact (mirrors_here _).andPure _
  | .attempt body catchVar handler span, _, _, hsite => by
    rw [Bench.lowerStmt, lowerStmt]
    refine (lowerStmts_mirrors hsplice body hsite).inScope fun body => ?_
    cases catchVar <;>
      exact (lowerStmts_mirrors hsplice handler hsite).handler
        fun name code => [.attempt body name code span]
  | .branch .., _, _, _ => by
    rw [Bench.lowerStmt, lowerStmt]
    exact mirrors_pure _
  | .label .., _, _, _ => by
    rw [Bench.lowerStmt, lowerStmt]
    exact mirrors_pure _
  | .goto .., _, _, _ => by
    rw [Bench.lowerStmt, lowerStmt]
    exact mirrors_pure _

theorem lowerStmts_mirrors (hsplice : SpliceMirrors setting depth splice) :
    ∀ (block : List Stmt) {loops : List String} {contexts : List Context} {after : Option Span},
      Ample setting (siteOf loops contexts) (depth + 1) →
      Mirrors setting loops contexts (Bench.lowerStmts setting splice after block)
        (lowerStmts setting (lowerBlock setting depth) (siteOf loops contexts) after block)
  | [], _, _, _, _ => by
    rw [Bench.lowerStmts, lowerStmts]
    exact mirrors_pure _
  | stmt :: rest, _, _, _, hsite => by
    rw [Bench.lowerStmts, lowerStmts]
    exact (mirrors_here _).bind fun _ => (lowerStmt_mirrors hsplice stmt hsite).bind fun _ =>
      (lowerStmts_mirrors hsplice rest hsite).andPure _

end

/-- Lowering a block is mirrored as deep as copies can nest. The depth is never
used up, since a stack within the limit is not longer than that. -/
theorem lowerBody_mirrors (setting : Setting) : ∀ {depth deeper : Nat}, depth ≤ deeper →
    SpliceMirrors setting depth (Bench.lowerBody setting deeper)
  | 0, _, _ => fun _ _ _ hsite => absurd hsite.pos (Nat.lt_irrefl 0)
  | depth + 1, deeper + 1, hle => fun _ _ block hsite => by
    have hsplice := lowerBody_mirrors setting (Nat.le_of_succ_le_succ hle)
    rw [Bench.lowerBody, lowerBlock]
    exact lowerStmts_mirrors hsplice block hsite

theorem lowerMethod_mirrors (hdepth : setting.depth ≤ depth) (m : Method) :
    Mirrors setting [] [] (Bench.lowerMethod setting depth m) (lowerMethod setting m) := by
  intro progress seen
  have hbody := lowerBody_mirrors setting hdepth [] [] m.body (.top setting)
  obtain ⟨seen', hrun, hseen'⟩ := hbody { progress with scopes := [] } ([] :: seen)
  refine ⟨seen', ?_, (Adds.cons (.nil setting)).trans hseen'⟩
  show ((Bench.lowerBody setting depth m.body).run
    ⟨{ progress with scopes := [] }, [], [], [] :: seen⟩ >>= _) = _
  rw [hrun]
  rfl

theorem lowerMethods_mirrors (hdepth : setting.depth ≤ depth) :
    ∀ ms : List Method, Mirrors setting [] [] (Bench.lowerMethods setting depth ms)
      (lowerMethods setting ms)
  | [] => mirrors_pure _
  | m :: rest =>
    (lowerMethod_mirrors hdepth m).bind fun _ => (lowerMethods_mirrors hdepth rest).andPure _

theorem lowerProgram_mirrors (hdepth : setting.depth ≤ depth) :
    Mirrors setting [] [] (Bench.lowerProgram setting depth) (lowerProgram setting) :=
  (mirrors_here _).bind fun _ => (lowerMethods_mirrors hdepth _).bind fun _ =>
    (mirrors_here _).bind fun _ => mirrors_pure _

end Functions

end Lowering

open Lowering

/-- Turn a program into jump code on the bench, with copies nested at most
`depth` deep. The answer is what comes out and what lies on the bench in the
end. -/
def Program.lowerOnBench (p : Program) (options : Options) (depth : Nat) :
    Option (Result × Bench) :=
  if p.lowered then some (⟨p, []⟩, {})
  else do
    let (lowered, bench) ← (Bench.lowerProgram ⟨p, options⟩ depth).run {}
    pure (⟨lowered, bench.progress.diagnostics⟩, bench)

/-- However methods call each other, lowering comes to an end: it has an answer
at all depths from some depth on. Both stacks are empty then. Meanwhile no
method was ever being copied more often than the limit allows, and no more
copies than that for each number of a method were nested. -/
theorem Program.lowerOnBench_ends (p : Program) (options : Options) :
    ∃ enough, ∀ depth, enough ≤ depth → ∃ bench,
      p.lowerOnBench options depth = some (p.lower options, bench) ∧
      bench.contexts = [] ∧ bench.loops = [] ∧
      ∀ stack ∈ bench.seen,
        (∀ id, stack.count id ≤ options.recursionLimit) ∧
          stack.length ≤ options.recursionLimit * (p.methods.map (·.id)).dedup.length := by
  refine ⟨(⟨p, options⟩ : Setting).depth, fun depth hdepth => ?_⟩
  unfold Program.lowerOnBench Program.lower
  cases p.lowered with
  | true => exact ⟨{}, rfl, rfl, rfl, fun _ hstack => absurd hstack List.not_mem_nil⟩
  | false =>
    obtain ⟨seen, hrun, hseen⟩ := lowerProgram_mirrors hdepth {} []
    refine ⟨⟨((lowerProgram ⟨p, options⟩).run {}).2, [], [], seen⟩, ?_, rfl, rfl,
      fun stack hstack => ?_⟩
    · rw [if_neg Bool.false_ne_true, if_neg Bool.false_ne_true]
      show ((Bench.lowerProgram ⟨p, options⟩ depth).run {} >>= _) = _
      rw [hrun]
      rfl
    · have hwithin := (hseen stack hstack).resolve_left List.not_mem_nil
      exact ⟨hwithin.counts, hwithin.length_le⟩

end Stepwise
