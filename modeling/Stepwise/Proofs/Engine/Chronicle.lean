import Stepwise.Proofs.Engine.Habit

/-!
# Chronicles of runs

A chronicle tells a run as a tree: which methods were called, which scopes were
opened, which statements were executed, what went on inside each of them, how each
of them ended, and what was observed of other work while the run waited at the gate.
There is a rule for each way in which the engine puts a run together, and each rule
names the run that it tells of. So a chronicle is one of this run, and the run ends
as the chronicle says. What is known of all runs can then be read off the rules, one
case for each of them.
-/

namespace Stepwise

open Engine

variable {α β : Type}

/-- What may happen while a run waits at the gate: its call stack is kept for it,
and the statements of other work are observed. -/
structure World.Interim (w w' : World) : Prop where
  /-- The call stack is the same. -/
  stack : w'.stack = w.stack
  /-- The trace goes on. -/
  trace : ∃ seen, w'.trace.toList = w.trace.toList ++ seen

namespace Run

/-- A run ends in this way, perhaps after waiting at the gate. What happens while it waits
depends on how it leaves the gate. -/
inductive EndsBy (meanwhile : Passage → World → World → Prop) :
    Run α → World → Except Unwind α → Prop where
  /-- It has ended. -/
  | done (w : World) (r : Except Unwind α) : EndsBy meanwhile (.done w r) w r
  /-- It has waited and goes on. -/
  | held {w v w' : World} {resume : Passage → World → Run α} {passage : Passage}
      {r : Except Unwind α} (waited : meanwhile passage w v)
      (rest : EndsBy meanwhile (resume passage v) w' r) : EndsBy meanwhile (.held w resume) w' r

variable {meanwhile meanwhile' : Passage → World → World → Prop}

/-- The end of a run that has not had to wait. -/
def end? : Run α → Option (World × Except Unwind α)
  | .done w r => some (w, r)
  | _ => none

theorem eq_done_of_end? {x : Run α} {e : World × Except Unwind α} (h : x.end? = some e) :
    x = .done e.1 e.2 := by
  cases x with
  | done w r =>
    cases h
    rfl
  | held => cases h
  | exhausted => cases h

/-- The world and the failure in which a run ends that has not had to wait. -/
def failedEnd? : Run α → Option (World × Failure)
  | .done w (.error (.failed f)) => some (w, f)
  | _ => none

theorem eq_done_of_failedEnd? {x : Run α} {w : World} {f : Failure}
    (h : x.failedEnd? = some (w, f)) : x = .done w (.error (.failed f)) := by
  unfold failedEnd? at h
  split at h
  · cases h
    rfl
  · cases h

/-- A run that does not wait has one end. -/
theorem eq_of_endsBy_done {v w' : World} {s r : Except Unwind α}
    (h : (Run.done v s).EndsBy meanwhile w' r) : w' = v ∧ r = s := by
  cases h
  exact ⟨rfl, rfl⟩

/-- More may happen while the run waits. -/
theorem EndsBy.mono {x : Run α} {w' : World} {r : Except Unwind α}
    (h : x.EndsBy meanwhile w' r)
    (hm : ∀ {passage w v}, meanwhile passage w v → meanwhile' passage w v) :
    x.EndsBy meanwhile' w' r := by
  induction h with
  | done w r => exact .done w r
  | held waited rest ih => exact .held (hm waited) ih

/-- A run goes on where it ends. -/
theorem EndsBy.andThen {x : Run α} {k : World → Except Unwind α → Run β} {v w' : World}
    {r₁ : Except Unwind α} {r : Except Unwind β} (h : x.EndsBy meanwhile v r₁)
    (hk : (k v r₁).EndsBy meanwhile w' r) : (x.andThen k).EndsBy meanwhile w' r := by
  induction h with
  | done v r₁ => exact hk
  | held waited rest ih => exact .held waited (ih hk)

/-- A run that goes on ends where its second part does. -/
theorem endsBy_andThen {x : Run α} {k : World → Except Unwind α → Run β} {w' : World}
    {r : Except Unwind β} (h : (x.andThen k).EndsBy meanwhile w' r) :
    ∃ v r₁, x.EndsBy meanwhile v r₁ ∧ (k v r₁).EndsBy meanwhile w' r := by
  induction x with
  | done v r₁ => exact ⟨v, r₁, .done v r₁, h⟩
  | exhausted => cases h
  | held u resume ih =>
    cases h with
    | held waited rest =>
      obtain ⟨v, r₁, hx, hk⟩ := ih _ _ rest
      exact ⟨v, r₁, .held waited hx, hk⟩

/-- What holds at all ends of a run holds at the one it comes to. -/
theorem Within.endsBy {apart : World → World → Prop} {waits : World → Prop}
    {ends : World → Except Unwind α → Prop} {x : Run α} {w' : World} {r : Except Unwind α}
    (h : x.Within apart waits ends) (hx : x.EndsBy meanwhile w' r)
    (hm : ∀ {passage w v}, meanwhile passage w v → apart w v) : ends w' r := by
  induction hx with
  | done w r => exact h
  | held waited rest ih => exact ih (h.2 _ _ (hm waited))

end Run

namespace Exec

variable {meanwhile : Passage → World → World → Prop}

/-- Two steps in a row end with the second one, or early with the first. -/
theorem endsBy_bind {x : Exec α} {f : α → Exec β} {w w' : World} {r : Except Unwind β}
    (h : ((x >>= f) w).EndsBy meanwhile w' r) :
    (∃ v a, (x w).EndsBy meanwhile v (.ok a) ∧ (f a v).EndsBy meanwhile w' r) ∨
      ∃ u, (x w).EndsBy meanwhile w' (.error u) ∧ r = .error u := by
  obtain ⟨v, r₁, hx, hk⟩ := Run.endsBy_andThen h
  cases r₁ with
  | ok a => exact .inl ⟨v, a, hx, hk⟩
  | error u =>
    cases hk
    exact .inr ⟨u, hx, rfl⟩

/-- A step whose failures are handled ends with the handler, or as it would without. -/
theorem endsBy_onFailure {x : Exec α} {handler : Failure → Exec α} {w w' : World}
    {r : Except Unwind α} (h : ((x.onFailure handler) w).EndsBy meanwhile w' r) :
    (∃ v f, (x w).EndsBy meanwhile v (.error (.failed f)) ∧
      (handler f v).EndsBy meanwhile w' r) ∨
      ((x w).EndsBy meanwhile w' r ∧ ∀ f, r ≠ .error (.failed f)) := by
  obtain ⟨v, r₁, hx, hk⟩ := Run.endsBy_andThen h
  rcases r₁ with (f | _) | a
  · exact .inl ⟨v, f, hx, hk⟩
  · cases hk
    exact .inr ⟨hx, fun _ => nofun⟩
  · cases hk
    exact .inr ⟨hx, fun _ => nofun⟩

end Exec

/-- A failure to which neither place nor call stack have been added. -/
def Failure.Raw (f : Failure) : Prop := f.site = none ∧ f.snapshot = none

section Headings

/-- A call as it is named in traces and snapshots: the method and the place. -/
def Frame.heading (f : Frame) : Nat × String × Span := (f.method, f.name, f.span)

namespace CallStack

/-- The calls in progress, innermost first, without their variables. -/
def headings (s : CallStack) : List (Nat × String × Span) := s.frames.map Frame.heading

/-- The names of the methods called, innermost first. -/
def callNames (s : CallStack) : List String := s.frames.map (·.name)

theorem callNames_eq_headings (s : CallStack) : s.callNames = s.headings.map (·.2.1) := by
  rw [callNames, headings, List.map_map]
  rfl

theorem headings_mapCurrent (s : CallStack) {g : Frame → Frame}
    (hg : ∀ f, (g f).heading = f.heading) : (s.mapCurrent g).headings = s.headings := by
  show (s.frames.modifyHead g).map _ = s.frames.map _
  cases s.frames with
  | nil => rfl
  | cons f below => simp only [List.modifyHead_cons, List.map_cons, hg]

theorem headings_restoreScopes (s : CallStack) (mark : Nat) :
    (s.restoreScopes mark).1.headings = s.headings := by
  unfold restoreScopes
  split
  · exact s.headings_mapCurrent fun _ => rfl
  · rfl

theorem headings_declare? {s s' : CallStack} {name : String} {id : Nat}
    (h : s.declare? name id = some s') : s'.headings = s.headings := by
  unfold declare? at h
  split at h
  · split at h
    · cases h
    · cases h
      refine s.headings_mapCurrent fun f => ?_
      unfold Frame.bind
      split <;> rfl
  · cases h

/-- Ending a call leaves the calls below it. -/
theorem headings_popFrame (s : CallStack) : s.popFrame.2.1.headings = s.headings.tail := by
  unfold popFrame
  cases hs : s.frames with
  | nil => simp [headings, hs]
  | cons f below => simp [headings, CallStack.below, hs]

end CallStack

end Headings

namespace World

/-- Nothing happens that traces and snapshots name calls by. -/
structure Still (w w' : World) : Prop where
  /-- All calls stay where they are. -/
  headings : w'.stack.headings = w.stack.headings
  /-- Nothing is observed. -/
  trace : w'.trace = w.trace

/-- The same calls are in progress, and only the innermost one may have moved on. -/
structure Stays (w w' : World) : Prop where
  /-- The same methods are called. -/
  callNames : w'.stack.callNames = w.stack.callNames
  /-- The calls below stay where they are. -/
  below : w'.stack.headings.tail = w.stack.headings.tail

variable {w v w' : World}

theorem Still.stays (h : w.Still w') : w.Stays w' where
  callNames := by
    rw [CallStack.callNames_eq_headings, CallStack.callNames_eq_headings, h.headings]
  below := by rw [h.headings]

theorem Stays.trans (h : w.Stays v) (h' : v.Stays w') : w.Stays w' :=
  ⟨h'.callNames.trans h.callNames, h'.below.trans h.below⟩

/-- There are as many calls in progress. -/
theorem Stays.depth (h : w.Stays w') : w'.stack.depth = w.stack.depth := by
  have hlength := congrArg List.length h.callNames
  simpa only [CallStack.callNames, List.length_map, ← CallStack.depth_eq] using hlength

theorem still_pushScope (w : World) : w.Still w.pushScope :=
  ⟨w.stack.headings_mapCurrent fun _ => rfl, rfl⟩

theorem still_restoreScopes (w : World) (mark : Nat) : w.Still (w.restoreScopes mark) :=
  ⟨w.stack.headings_restoreScopes mark, rfl⟩

theorem still_setResult (w : World) (value : Val) :
    w.Still { w with stack := w.stack.setResult value } :=
  ⟨w.stack.headings_mapCurrent fun _ => rfl, rfl⟩

theorem still_declareLocal (w : World) (c : Cell) : w.Still (w.declareLocal c) := by
  refine ⟨?_, rfl⟩
  show (((w.stack.declare? c.name w.memory.cells.size).getD w.stack)).headings = w.stack.headings
  cases hs : w.stack.declare? c.name w.memory.cells.size with
  | none => rfl
  | some s => exact CallStack.headings_declare? hs

theorem still_declare (w : World) (c : Cell) : w.Still (w.declare c) := by
  unfold declare
  dsimp only
  split
  · rename_i hs
    exact ⟨CallStack.headings_declare? hs, rfl⟩
  · exact ⟨rfl, rfl⟩

/-- The calls below the innermost one end where they were. -/
theorem Stays.popFrame {m : Method} (h : (w.pushFrame m).Stays w') :
    w'.popFrame.2.stack.headings = w.stack.headings :=
  (w'.stack.headings_popFrame).trans h.below

/-- An elementary step of work. No call and no scope begins or ends with it, and nothing is
observed. -/
inductive Elementary : World → World → Prop where
  /-- Values, the host, the controls and the work that waits change. -/
  | aside (w : World) (heap : Heap) (host : Host) (controls : Controls) (jobs : List Job) :
      Elementary w { w with heap, host, controls, jobs }
  /-- A variable is declared. -/
  | declare (w : World) (c : Cell) : Elementary w (w.declare c)
  /-- A parameter or an exception is declared. -/
  | declareLocal (w : World) (c : Cell) : Elementary w (w.declareLocal c)
  /-- A value is stored in a variable. -/
  | store (w : World) (id : Nat) (c : Cell) :
      Elementary w { w with memory := w.memory.setCell id c }
  /-- The value to return is noted. -/
  | result (w : World) (value : Val) :
      Elementary w { w with stack := w.stack.setResult value }

theorem Elementary.refl (w : World) : w.Elementary w :=
  .aside w w.heap w.host w.controls w.jobs

theorem Elementary.still (h : w.Elementary w') : w.Still w' := by
  cases h with
  | aside => exact ⟨rfl, rfl⟩
  | declare c => exact w.still_declare c
  | declareLocal c => exact w.still_declareLocal c
  | store => exact ⟨rfl, rfl⟩
  | result value => exact w.still_setResult value

/-- A scope is opened for some work, and an exception may be declared in it. -/
inductive Opens : World → World → Prop where
  /-- The scope is empty. -/
  | empty (w : World) : Opens w w.pushScope
  /-- The scope holds an exception. -/
  | exception (w : World) (c : Cell) : Opens w (w.pushScope.declareLocal c)

theorem Opens.still (h : w.Opens w') : w.Still w' := by
  cases h with
  | empty => exact w.still_pushScope
  | exception c =>
    exact ⟨(w.pushScope.still_declareLocal c).headings.trans w.still_pushScope.headings, rfl⟩

/-- The world after a statement was come to: its place is noted, if it has one. -/
theorem stays_enter {stmt : Stmt} (h : enter stmt w = .done w' (.ok ())) :
    w.Stays w' ∧ w'.trace = w.trace := by
  cases h
  split
  · exact ⟨⟨rfl, rfl⟩, rfl⟩
  · refine ⟨⟨?_, ?_⟩, rfl⟩
    · show (w.stack.frames.modifyHead _).map _ = w.stack.frames.map _
      cases w.stack.frames <;> rfl
    · show ((w.stack.frames.modifyHead _).map _).tail = (w.stack.frames.map _).tail
      cases w.stack.frames <;> rfl

end World

/-- One execution of a statement. -/
structure Execution where
  /-- The statement. -/
  stmt : Stmt
  /-- The world when it is observed to begin. -/
  start : World
  /-- The world when its work has ended. -/
  finish : World
  /-- How its work has ended. -/
  outcome : Except Unwind Flow

namespace Execution

/-- The statement is completed: its work has not ended early. -/
def Completes (x : Execution) : Prop := x.outcome.isOk = true

instance (x : Execution) : Decidable x.Completes := inferInstanceAs (Decidable (_ = true))

/-- The world after the execution, which is observed only if it is completed. -/
def after (x : Execution) : World :=
  match x.outcome with
  | .ok _ => x.finish.observe false x.stmt
  | .error _ => x.finish

theorem after_of_completes {x : Execution} (h : x.Completes) :
    x.after = x.finish.observe false x.stmt := by
  unfold Completes at h
  unfold after
  cases hx : x.outcome with
  | ok flow => rfl
  | error u =>
    rw [hx] at h
    cases h

theorem after_of_not_completes {x : Execution} (h : ¬ x.Completes) : x.after = x.finish := by
  unfold Completes at h
  unfold after
  cases hx : x.outcome with
  | ok flow =>
    rw [hx] at h
    exact absurd rfl h
  | error u => rfl

/-- A failure to which place and call stack have been added, where they were missing. -/
def located (x : Execution) (f : Failure) : Failure :=
  (f.atSite x.stmt.span x.stmt.kindName).withSnapshot x.finish.capture

/-- What the execution lets through: to a failure it adds place and call stack. -/
def result (x : Execution) : Except Unwind Flow :=
  match x.outcome with
  | .error (.failed f) => .error (.failed (x.located f))
  | r => r

/-- A statement lets a failure through only if its work fails. -/
theorem fails_of_result (x : Execution) {f : Failure} (h : x.result = .error (.failed f)) :
    ∃ f₀, x.outcome = .error (.failed f₀) := by
  unfold result at h
  split at h
  · exact ⟨_, by assumption⟩
  · exact ⟨f, h⟩

/-- A statement is left because the session was stopped only if its work is. -/
theorem cancelled_of_result (x : Execution) (h : x.result = .error .cancelled) :
    x.outcome = .error .cancelled := by
  unfold result at h
  split at h
  · cases h
  · exact h

/-- The engine executes the statement in this way. -/
def Real (code : Code) (x : Execution) : Prop :=
  ∃ fuel inLoop, (execute code.program (calleesAt code fuel) inLoop x.stmt
    (x.start.observe true x.stmt)).EndsBy (fun _ => World.Interim) x.finish x.outcome

/-- The innermost call stands at the statement, if that has a place. -/
def Entered (x : Execution) : Prop :=
  x.stmt.span.isBlank = false → ∀ f, x.start.stack.current? = some f → f.span = x.stmt.span

end Execution

/-- A part of a run. -/
inductive Episode where
  /-- The run waits at the gate; other work is observed from this place of the trace on. -/
  | away (place : Nat) (seen : List TraceEntry)
  /-- A statement is executed, with the episodes of its parts. -/
  | execution (x : Execution) (inner : List Episode)
  /-- A scope is opened; in the last world of the work in it, scopes are closed until `mark` are
  left. -/
  | scope (mark : Nat) (last : World) (inner : List Episode)
  /-- A method is called; in the last world of its work the call is ended. -/
  | call (m : Method) (first last : World) (inner : List Episode)
  /-- The body of a `try` statement fails, and the handler takes over. -/
  | rescued (inner : List Episode)

mutual

/-- The statement with which an episode ends, with its own episodes. -/
def Episode.last? : Episode → Option (Execution × List Episode)
  | .execution x inner => some (x, inner)
  | .scope _ _ inner => Episode.lastOf? inner
  | .call _ _ _ inner => Episode.lastOf? inner
  | .away _ _ => none
  | .rescued _ => none

/-- The statement with which episodes end, with its own episodes. -/
def Episode.lastOf? : List Episode → Option (Execution × List Episode)
  | [] => none
  | [e] => e.last?
  | _ :: e :: rest => Episode.lastOf? (e :: rest)

end

/-- What went before does not matter. -/
theorem Episode.lastOf?_append {es' : List Episode} (h : es' ≠ []) (es : List Episode) :
    lastOf? (es ++ es') = lastOf? es' := by
  induction es with
  | nil => rfl
  | cons e es ih =>
    obtain ⟨e', rest, hrest⟩ := List.exists_cons_of_ne_nil (List.append_ne_nil_of_right_ne_nil es h)
    rw [List.cons_append, ← ih, hrest, lastOf?]

/-- The last that happened is an execution that failed. -/
def Broken (es : List Episode) : Prop :=
  ∃ x inner f, Episode.lastOf? es = some (x, inner) ∧ x.outcome = .error (.failed f)

theorem not_broken_nil : ¬ Broken [] := by
  rintro ⟨x, inner, f, hlast, -⟩
  rw [Episode.lastOf?] at hlast
  cases hlast

theorem Broken.append {es : List Episode} (h : Broken es) (before : List Episode) :
    Broken (before ++ es) := by
  obtain ⟨x, inner, f, hlast, hx⟩ := h
  have hne : es ≠ [] := by
    rintro rfl
    rw [Episode.lastOf?] at hlast
    cases hlast
  exact ⟨x, inner, f, (Episode.lastOf?_append hne before).trans hlast, hx⟩

namespace Engine

/-- A statement from the observation that it begins to the observation that it is completed. -/
def observed (p : Program) (callees : Callees) (inLoop : Bool) (stmt : Stmt) : Exec Flow := do
  Exec.change (·.observe true stmt)
  let flow ← (execute p callees inLoop stmt).onFailure (locate stmt)
  Exec.change (·.observe false stmt)
  pure flow

theorem runStmt_eq (p : Program) (callees : Callees) (inLoop : Bool) (stmt : Stmt) :
    runStmt p callees inLoop stmt =
      enter stmt >>= fun _ => checkpoint stmt >>= fun _ => observed p callees inLoop stmt := rfl

/-- What is done in a call: the arguments are bound, and the body is run. -/
def callBody (code : Code) (fuel : Nat) (m : Method) (args : List Val) : Exec Unit :=
  bindArgs m.params args >>= fun _ => runBody (runBlock code fuel) m

/-- A call that is not refused is done in a frame of its own. -/
theorem invoke_eq {code : Code} {fuel : Nat} {m : Method} {args : List Val} {w : World}
    (hdepth : w.stack.depth < code.limits.maxCallDepth) (harity : m.params.length = args.length) :
    invoke code (fuel + 1) m args w = inFrame m (callBody code fuel m args) w := by
  unfold invoke
  rw [if_neg (Nat.not_le_of_lt hdepth), if_neg (fun hne => hne harity)]
  rfl

end Engine

/-- How a run that begins in a world goes on to another one and ends there. All statements
executed have the property `P`, and while the run waits at the gate, `meanwhile` says what may
happen. -/
inductive Chronicle (code : Code) (P : Stmt → Prop)
    (meanwhile : Passage → World → World → Prop) :
    {α : Type} → World → Run α → World → Except Unwind α → List Episode → Prop where
  /-- The run ends with an elementary step. Its failure is raw. -/
  | step {α : Type} {w w' : World} {r : Except Unwind α} (quiet : w.Elementary w')
      (raw : ∀ f, r = .error (.failed f) → f.Raw) :
      Chronicle code P meanwhile w (.done w' r) w' r []
  /-- A statement is come to. -/
  | enter {w w' : World} (stmt : Stmt) (noted : enter stmt w = .done w' (.ok ())) :
      Chronicle code P meanwhile w (enter stmt w) w' (.ok ()) []
  /-- The run is held at the gate, and other work may be observed until it leaves. -/
  | waits {α : Type} {w held v : World} {resume : Passage → World → Run α} {passage : Passage}
      {r : Except Unwind α} {seen : List TraceEntry} (turn : w.Elementary held)
      (waited : meanwhile passage held v) (stack : v.stack = held.stack)
      (trace : v.trace.toList = held.trace.toList ++ seen)
      (leaves : resume passage v = .done v r) (calm : ∀ f, r ≠ .error (.failed f)) :
      Chronicle code P meanwhile w (.held held resume) v r [.away held.trace.size seen]
  /-- One step after the other. -/
  | bind {α β : Type} {x : Exec α} {f : α → Exec β} {w v w' : World} {a : α}
      {r : Except Unwind β} {es es' : List Episode}
      (first : Chronicle code P meanwhile w (x w) v (.ok a) es)
      (second : Chronicle code P meanwhile v (f a v) w' r es') :
      Chronicle code P meanwhile w ((x >>= f) w) w' r (es ++ es')
  /-- The first of two steps ends early. -/
  | early {α β : Type} {x : Exec α} {f : α → Exec β} {w w' : World} {u : Unwind}
      {es : List Episode} (first : Chronicle code P meanwhile w (x w) w' (.error u) es) :
      Chronicle code P meanwhile w ((x >>= f) w) w' (.error u) es
  /-- Work in a scope of its own, which is closed however the work ends. -/
  | scope {w v last : World} {work : Run Flow} {r : Except Unwind Flow} {es : List Episode}
      (opens : w.Opens v) (inside : Chronicle code P meanwhile v work last r es) :
      Chronicle code P meanwhile w
        (work.andThen fun v r => .done (v.restoreScopes w.stack.scopeMark) r)
        (last.restoreScopes w.stack.scopeMark) r [.scope w.stack.scopeMark last es]
  /-- A call that is not refused, which is ended however its work ends. -/
  | call {fuel : Nat} {m : Method} {args : List Val} {w last : World} {r : Except Unwind Unit}
      {es : List Episode} (shallow : w.stack.depth < code.limits.maxCallDepth)
      (arity : m.params.length = args.length)
      (inside : Chronicle code P meanwhile (w.pushFrame m)
        (callBody code fuel m args (w.pushFrame m)) last r es) :
      Chronicle code P meanwhile w (invoke code (fuel + 1) m args w) last.popFrame.2
        (r.map fun _ => last.popFrame.1.getD .null) [.call m w last es]
  /-- A statement is executed. If it has no blocks that it runs in between, then a
  failure of its own leaves the call where it was. -/
  | execution {fuel : Nat} {inLoop : Bool} (x : Execution) {inner : List Episode} (fits : P x.stmt)
      (entered : x.Entered)
      (work : Chronicle code P meanwhile (x.start.observe true x.stmt)
        (execute code.program (calleesAt code fuel) inLoop x.stmt (x.start.observe true x.stmt))
        x.finish x.outcome inner)
      (own : x.stmt.isStructured = false → ∀ f, x.outcome = .error (.failed f) →
        Broken inner ∨ x.finish.stack.headings = x.start.stack.headings) :
      Chronicle code P meanwhile x.start
        (observed code.program (calleesAt code fuel) inLoop x.stmt x.start) x.after x.result
        [.execution x inner]
  /-- The body of a `try` statement does not fail. -/
  | spared {fuel : Nat} {inLoop : Bool} {body handler : Block} {name : Option String} {span : Span}
      {w w' : World} {r : Except Unwind Flow} {es : List Episode}
      (tried : Chronicle code P meanwhile w (nested (runBlock code fuel body inLoop) w) w' r es)
      (fine : ∀ f, r ≠ .error (.failed f)) :
      Chronicle code P meanwhile w
        (execute code.program (calleesAt code fuel) inLoop (.attempt body name handler span) w)
        w' r es
  /-- The body of a `try` statement fails, and its handler takes over. -/
  | rescued {fuel : Nat} {inLoop : Bool} {body handler : Block} {name : Option String}
      {span : Span} {w v w' : World} {f : Failure} {r : Except Unwind Flow} {es es' : List Episode}
      (tried : Chronicle code P meanwhile w (nested (runBlock code fuel body inLoop) w) v
        (.error (.failed f)) es)
      (handled : Chronicle code P meanwhile v
        (runHandler (calleesAt code fuel) name handler inLoop f v) w' r es') :
      Chronicle code P meanwhile w
        (execute code.program (calleesAt code fuel) inLoop (.attempt body name handler span) w)
        w' r (.rescued es :: es')

namespace Chronicle

variable {code : Code} {P : Stmt → Prop} {meanwhile : Passage → World → World → Prop}
  {w w' : World} {ρ : Run α} {r : Except Unwind α} {es : List Episode}

/-- The run that a chronicle tells of ends as the chronicle says. -/
theorem endsBy (h : Chronicle code P meanwhile w ρ w' r es) :
    ρ.EndsBy (fun passage u v => meanwhile passage u v ∧ u.Interim v) w' r := by
  induction h with
  | step quiet raw => exact .done _ _
  | enter stmt noted =>
    rw [noted]
    exact .done _ _
  | waits turn waited stack trace leaves calm =>
    refine .held ⟨waited, stack, _, trace⟩ ?_
    rw [leaves]
    exact .done _ _
  | bind first second ih ih' => exact ih.andThen ih'
  | early first ih => exact ih.andThen (.done _ _)
  | scope opens inside ih => exact ih.andThen (.done _ _)
  | call shallow arity inside ih =>
    rename_i r _
    rw [invoke_eq shallow arity]
    refine ih.andThen ?_
    cases r <;> exact .done _ _
  | execution x fits entered work own ih =>
    refine .andThen (.done (x.start.observe true x.stmt) (.ok ())) ?_
    refine .andThen (?_ : Run.EndsBy _ _ x.finish x.result) ?_
    · refine ih.andThen ?_
      unfold Execution.result
      cases x.outcome with
      | ok flow => exact .done _ _
      | error u => cases u <;> exact .done _ _
    · unfold Execution.result Execution.after
      cases x.outcome with
      | ok flow => exact .done _ _
      | error u => cases u <;> exact .done _ _
  | spared tried fine ih =>
    rename_i r _
    refine ih.andThen ?_
    rcases r with (f | _) | flow
    · exact absurd rfl (fine f)
    · exact .done _ _
    · exact .done _ _
  | rescued tried handled ih ih' =>
    show Run.EndsBy _ ((nested _ _).andThen _) _ _
    exact ih.andThen ih'

/-- After a run the same calls are in progress as before. -/
theorem stays (h : Chronicle code P meanwhile w ρ w' r es) : w.Stays w' := by
  induction h with
  | step quiet raw => exact quiet.still.stays
  | enter stmt noted => exact (World.stays_enter noted).1
  | waits turn waited stack trace leaves calm =>
    exact turn.still.stays.trans ⟨by rw [stack], by rw [stack]⟩
  | bind first second ih ih' => exact ih.trans ih'
  | early first ih => exact ih
  | scope opens inside ih =>
    exact (opens.still.stays.trans ih).trans (World.still_restoreScopes _ _).stays
  | call shallow arity inside ih =>
    refine ⟨?_, by rw [ih.popFrame]⟩
    rw [CallStack.callNames_eq_headings, CallStack.callNames_eq_headings, ih.popFrame]
  | execution x fits entered work own ih =>
    have hstays : x.start.Stays x.finish := ⟨ih.callNames, ih.below⟩
    by_cases hx : x.Completes
    · rw [Execution.after_of_completes hx]
      exact ⟨hstays.callNames, hstays.below⟩
    · rwa [Execution.after_of_not_completes hx]
  | spared tried fine ih => exact ih
  | rescued tried handled ih ih' => exact ih.trans ih'

/-- If the last that happened is an execution that failed, the run fails with it. -/
theorem fails_of_last (h : Chronicle code P meanwhile w ρ w' r es) {x : Execution}
    {inner : List Episode} {f : Failure} (hlast : Episode.lastOf? es = some (x, inner))
    (hx : x.outcome = .error (.failed f)) : r = .error (.failed (x.located f)) := by
  induction h with
  | step quiet raw =>
    rw [Episode.lastOf?] at hlast
    cases hlast
  | enter stmt noted =>
    rw [Episode.lastOf?] at hlast
    cases hlast
  | waits turn waited stack trace leaves calm =>
    rw [Episode.lastOf?, Episode.last?] at hlast
    cases hlast
  | bind first second ih ih' =>
    rename_i es es'
    by_cases hne : es' = []
    · -- nothing happened after the execution, but the first step did not fail
      rw [hne, List.append_nil] at hlast
      cases ih hlast
    · rw [Episode.lastOf?_append hne] at hlast
      exact ih' hlast
  | early first ih => cases ih hlast; rfl
  | scope opens inside ih =>
    rw [Episode.lastOf?, Episode.last?] at hlast
    exact ih hlast
  | call shallow arity inside ih =>
    rw [Episode.lastOf?, Episode.last?] at hlast
    rw [ih hlast]
    rfl
  | execution y fits entered work own ih =>
    rw [Episode.lastOf?, Episode.last?] at hlast
    cases hlast
    rw [Execution.result, hx]
  | spared tried fine ih => exact ih hlast
  | rescued tried handled ih ih' =>
    rename_i es es'
    cases es' with
    | nil =>
      rw [Episode.lastOf?, Episode.last?] at hlast
      cases hlast
    | cons e rest =>
      rw [Episode.lastOf?] at hlast
      exact ih' hlast

/-- A run that does not fail is not left by an execution that fails. -/
theorem not_broken (h : Chronicle code P meanwhile w ρ w' r es)
    (hr : ∀ f, r ≠ .error (.failed f)) : ¬ Broken es := by
  rintro ⟨x, inner, f, hlast, hx⟩
  exact hr _ (h.fails_of_last hlast hx)

end Chronicle

end Stepwise
