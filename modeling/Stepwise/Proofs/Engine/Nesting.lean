import Stepwise.Program.Construct
import Stepwise.Proofs.Engine.Retelling

/-!
# Traces are well nested

Every statement is observed when it begins, and once more when it is completed.
The observations of a run nest like brackets, however the run ends: what begins
between the two observations of a statement is completed between them as well,
unless it was left by a failure or because the session was stopped. Statements of
that kind, and only these, are observed once.
-/

namespace Stepwise

open Engine

variable {α : Type}

/-- What is noted of a statement that is observed in a world. -/
def World.sight (w : World) (isBefore : Bool) (stmt : Stmt) : TraceEntry :=
  ⟨isBefore, (w.stack.current?.map (·.name)).getD "<global>", w.stack.depth, stmt.kindName,
    stmt.span.startLine⟩

theorem World.trace_observe (w : World) (isBefore : Bool) (stmt : Stmt) :
    (w.observe isBefore stmt).trace = w.trace.push (w.sight isBefore stmt) := rfl

/-- Where the same calls are in progress, a statement is noted in the same call. -/
theorem World.Stays.sight {w w' : World} (h : w.Stays w') (isBefore isBefore' : Bool)
    (stmt : Stmt) : (w'.sight isBefore' stmt).method = (w.sight isBefore stmt).method ∧
      (w'.sight isBefore' stmt).depth = (w.sight isBefore stmt).depth := by
  refine ⟨?_, h.depth⟩
  have hhead := congrArg List.head? h.callNames
  rw [CallStack.callNames, CallStack.callNames, List.head?_map, List.head?_map] at hhead
  exact congrArg (·.getD "<global>") hhead

/-- An entry of the trace of a run. -/
inductive Mark where
  /-- A statement begins. -/
  | begins (x : Execution)
  /-- A statement is completed. -/
  | ends (x : Execution)
  /-- Other work is observed. -/
  | other (place : Nat) (entry : TraceEntry)

namespace Mark

/-- What is noted. -/
def entry : Mark → TraceEntry
  | .begins x => x.start.sight true x.stmt
  | .ends x => x.finish.sight false x.stmt
  | .other _ e => e

/-- Where it is noted. -/
def place : Mark → Nat
  | .begins x => x.start.trace.size
  | .ends x => x.finish.trace.size
  | .other n _ => n

end Mark

mutual

/-- The entries of an episode, in order. -/
def Episode.marks : Episode → List Mark
  | .away place seen => (seen.zipIdx place).map fun noted => .other noted.2 noted.1
  | .execution x inner =>
    .begins x :: (Episode.marksOf inner ++ if x.Completes then [.ends x] else [])
  | .scope _ _ inner => Episode.marksOf inner
  | .call _ _ _ inner => Episode.marksOf inner
  | .rescued inner => Episode.marksOf inner

/-- The entries of episodes, in order. -/
def Episode.marksOf : List Episode → List Mark
  | [] => []
  | e :: rest => e.marks ++ Episode.marksOf rest

end

/-- Every statement that begins is completed, and what begins in between is too. -/
inductive Balanced : List Mark → Prop where
  /-- Nothing. -/
  | nil : Balanced []
  /-- Other work. -/
  | other (place : Nat) (entry : TraceEntry) {rest : List Mark} (after : Balanced rest) :
      Balanced (.other place entry :: rest)
  /-- A statement from beginning to end. -/
  | pair (x : Execution) {inner rest : List Mark} (within : Balanced inner)
      (after : Balanced rest) : Balanced (.begins x :: (inner ++ .ends x :: rest))

/-- How the entries of a run that goes from one world to another nest. -/
structure WellNested (code : Code) (w w' : World) (r : Except Unwind α) (ms : List Mark) :
    Prop where
  /-- These are the entries that the run adds to the trace. -/
  trace : w'.trace.toList = w.trace.toList ++ ms.map Mark.entry
  /-- Each stands where it is said to. -/
  places : ms.map Mark.place = List.range' w.trace.size ms.length
  /-- What begins is an execution of a statement by the engine. -/
  real : ∀ x, .begins x ∈ ms → x.Real code
  /-- A statement is completed just when it began and did not end early. -/
  ends_iff : ∀ x, .ends x ∈ ms ↔ .begins x ∈ ms ∧ x.Completes
  /-- It is completed after it began, in the same call. -/
  pairs : ∀ x, .ends x ∈ ms → (Mark.begins x).place < (Mark.ends x).place ∧
    (Mark.ends x).entry.method = (Mark.begins x).entry.method ∧
    (Mark.ends x).entry.depth = (Mark.begins x).entry.depth
  /-- What begins in between is completed in between, or ended early. -/
  nested : ∀ x y, .ends x ∈ ms → .begins y ∈ ms → (Mark.begins x).place < (Mark.begins y).place →
    (Mark.begins y).place < (Mark.ends x).place →
    (.ends y ∈ ms ∧ (Mark.ends y).place < (Mark.ends x).place) ∨ ¬ y.Completes
  /-- Entries give the number of calls in progress. -/
  depth : ∀ x, (Mark.begins x).entry.depth = x.start.stack.frames.length ∧
    (Mark.ends x).entry.depth = x.finish.stack.frames.length
  /-- If nothing fails and the session is not stopped, every statement is completed. -/
  balanced : (∀ x f, .begins x ∈ ms → x.outcome ≠ .error (.failed f)) → r ≠ .error .cancelled →
    Balanced ms

theorem Balanced.append {ms ms' : List Mark} (h : Balanced ms) (h' : Balanced ms') :
    Balanced (ms ++ ms') := by
  induction h with
  | nil => exact h'
  | other place entry after ih => exact .other place entry ih
  | pair x within after ih₁ ih₂ =>
    rw [List.cons_append, List.append_assoc]
    exact .pair x within ih₂

section Marks

open Episode

@[simp] theorem Episode.marksOf_append (es es' : List Episode) :
    marksOf (es ++ es') = marksOf es ++ marksOf es' := by
  induction es with
  | nil => rfl
  | cons e rest ih => rw [List.cons_append, marksOf, marksOf, ih, List.append_assoc]

theorem Episode.marksOf_singleton (e : Episode) : marksOf [e] = e.marks := by
  rw [marksOf, marksOf, List.append_nil]

theorem Episode.not_mem_marks_away {m : Mark} {place : Nat} {seen : List TraceEntry}
    (h : m ∈ (Episode.away place seen).marks) : ∃ n e, m = .other n e := by
  rw [marks] at h
  obtain ⟨noted, -, rfl⟩ := List.mem_map.mp h
  exact ⟨_, _, rfl⟩

/-- The beginnings in an execution. -/
theorem Episode.begins_mem_execution {x y : Execution} {inner : List Episode} :
    .begins y ∈ (Episode.execution x inner).marks ↔ y = x ∨ .begins y ∈ marksOf inner := by
  rw [marks, List.mem_cons, List.mem_append, Mark.begins.injEq]
  refine or_congr_right ⟨fun h => h.resolve_right ?_, .inl⟩
  split <;> simp

/-- The ends in an execution. -/
theorem Episode.ends_mem_execution {x y : Execution} {inner : List Episode} :
    .ends y ∈ (Episode.execution x inner).marks ↔
      (y = x ∧ x.Completes) ∨ .ends y ∈ marksOf inner := by
  rw [marks, List.mem_cons, List.mem_append]
  by_cases hx : x.Completes <;> simp [hx, or_comm]

mutual

/-- A statement is completed just when it began and did not end early. -/
theorem Episode.ends_mem_marks (x : Execution) :
    ∀ e : Episode, .ends x ∈ e.marks ↔ .begins x ∈ e.marks ∧ x.Completes
  | .away place seen => by
    constructor
    · intro h
      obtain ⟨_, _, h⟩ := not_mem_marks_away h
      cases h
    · rintro ⟨h, -⟩
      obtain ⟨_, _, h⟩ := not_mem_marks_away h
      cases h
  | .execution y inner => by
    rw [ends_mem_execution, begins_mem_execution, ends_mem_marksOf x inner, or_and_right]
    exact or_congr_left ⟨fun ⟨h, ho⟩ => ⟨h, h ▸ ho⟩, fun ⟨h, ho⟩ => ⟨h, h ▸ ho⟩⟩
  | .scope _ _ inner | .call _ _ _ inner | .rescued inner => by
    rw [marks]
    exact ends_mem_marksOf x inner

/-- The same for many episodes. -/
theorem Episode.ends_mem_marksOf (x : Execution) :
    ∀ es : List Episode, .ends x ∈ marksOf es ↔ .begins x ∈ marksOf es ∧ x.Completes
  | [] => by simp [marksOf]
  | e :: rest => by
    rw [marksOf, List.mem_append, List.mem_append, ends_mem_marks x e, ends_mem_marksOf x rest,
      or_and_right]

end

mutual

/-- If every statement in it is completed, an episode is balanced. -/
theorem Episode.balanced_marks :
    ∀ e : Episode, (∀ x, .begins x ∈ e.marks → x.Completes) → Balanced e.marks
  | .away place seen, _ => by
    rw [marks]
    generalize seen.zipIdx place = noted
    induction noted with
    | nil => exact .nil
    | cons first rest ih => exact .other _ _ ih
  | .execution x inner, h => by
    have hx := h x (begins_mem_execution.mpr (.inl rfl))
    rw [marks, if_pos hx]
    exact .pair x (balanced_marksOf inner fun y hy => h y (begins_mem_execution.mpr (.inr hy))) .nil
  | .scope _ _ inner, h | .call _ _ _ inner, h | .rescued inner, h => by
    rw [marks] at h ⊢
    exact balanced_marksOf inner h

/-- If every statement in them is completed, episodes are balanced. -/
theorem Episode.balanced_marksOf :
    ∀ es : List Episode, (∀ x, .begins x ∈ marksOf es → x.Completes) → Balanced (marksOf es)
  | [], _ => .nil
  | e :: rest, h => by
    rw [marksOf] at h ⊢
    exact (balanced_marks e fun x hx => h x (List.mem_append_left _ hx)).append
      (balanced_marksOf rest fun x hx => h x (List.mem_append_right _ hx))

end

end Marks

namespace Chronicle

open Episode

variable {code : Code} {P : Stmt → Prop} {meanwhile : Passage → World → World → Prop}
  {w w' : World} {ρ : Run α} {r : Except Unwind α} {es : List Episode}

/-- The entries of a run are those it adds to the trace. -/
theorem trace_eq (h : Chronicle code P meanwhile w ρ w' r es) :
    w'.trace.toList = w.trace.toList ++ (marksOf es).map Mark.entry := by
  induction h with
  | step quiet raw => rw [quiet.still.trace, marksOf, List.map_nil, List.append_nil]
  | enter stmt noted => rw [(World.stays_enter noted).2, marksOf, List.map_nil, List.append_nil]
  | waits turn waited stack trace leaves calm =>
    rw [trace, turn.still.trace, marksOf_singleton, marks, List.map_map]
    congr 1
    exact (List.zipIdx_map_fst _ _).symm
  | bind first second ih ih' => rw [ih', ih, marksOf_append, List.map_append, List.append_assoc]
  | early first ih => exact ih
  | scope opens inside ih =>
    rw [marksOf_singleton, marks, ← opens.still.trace]
    exact ih
  | call shallow arity inside ih =>
    rw [marksOf_singleton, marks]
    exact ih
  | execution x fits entered work own ih =>
    rw [World.trace_observe, Array.toList_push] at ih
    rw [marksOf_singleton, marks]
    by_cases hx : x.Completes
    · simp [Execution.after_of_completes hx, if_pos hx, World.trace_observe, ih, Mark.entry]
    · simp [Execution.after_of_not_completes hx, if_neg hx, ih, Mark.entry]
  | spared tried fine ih => exact ih
  | rescued tried handled ih ih' =>
    rw [ih', ih, marksOf, marks, List.map_append, List.append_assoc]

/-- So many entries are added. -/
theorem size_trace (h : Chronicle code P meanwhile w ρ w' r es) :
    w'.trace.size = w.trace.size + (marksOf es).length := by
  have hlength := congrArg List.length h.trace_eq
  simpa using hlength

/-- Each entry stands where it is said to. -/
theorem places (h : Chronicle code P meanwhile w ρ w' r es) :
    (marksOf es).map Mark.place = List.range' w.trace.size (marksOf es).length := by
  induction h with
  | step | enter => rfl
  | waits turn waited stack trace leaves calm =>
    rw [marksOf_singleton, marks, List.map_map, List.length_map, List.length_zipIdx,
      turn.still.trace]
    exact List.zipIdx_map_snd _ _
  | bind first second ih ih' =>
    rw [marksOf_append, List.map_append, List.length_append, ih, ih', first.size_trace,
      List.range'_append_1]
  | early first ih => exact ih
  | scope opens inside ih =>
    rw [marksOf_singleton, marks, ← opens.still.trace]
    exact ih
  | call shallow arity inside ih =>
    rw [marksOf_singleton, marks]
    exact ih
  | execution x fits entered work own ih =>
    have hsize := work.size_trace
    rw [World.trace_observe, Array.size_push] at ih hsize
    rw [marksOf_singleton, marks]
    by_cases hx : x.Completes
    · have hend : x.finish.trace.size = x.start.trace.size + 1 + (marksOf _).length := hsize
      simp only [if_pos hx, List.map_cons, List.map_append, List.length_cons,
        List.length_append, ih, List.map_nil, List.length_nil, Mark.place, hend]
      rw [List.range'_succ, ← List.range'_append_1]
      simp
    · simp [if_neg hx, ih, Mark.place, List.range'_succ]
  | spared tried fine ih => exact ih
  | rescued tried handled ih ih' =>
    rw [marksOf, marks, List.map_append, List.length_append, ih, ih', tried.size_trace,
      List.range'_append_1]

/-- Entries stand between the two ends of the run. -/
theorem place_bounds (h : Chronicle code P meanwhile w ρ w' r es) {m : Mark}
    (hm : m ∈ marksOf es) : w.trace.size ≤ m.place ∧ m.place < w'.trace.size := by
  have hplace : m.place ∈ (marksOf es).map Mark.place := List.mem_map_of_mem hm
  rw [h.places, List.mem_range'_1] at hplace
  rw [h.size_trace]
  exact hplace

/-- What is known of every statement that begins: it is one of those that may be executed,
the engine executes it so, afterwards the same calls are in progress, and its end is noted
behind its beginning. -/
theorem of_begins (h : Chronicle code P meanwhile w ρ w' r es) {x : Execution}
    (hx : .begins x ∈ marksOf es) : P x.stmt ∧ x.Real code ∧ x.start.Stays x.finish ∧
      (Mark.begins x).place < (Mark.ends x).place := by
  induction h with
  | step | enter => simp [marksOf] at hx
  | waits turn waited stack trace leaves calm =>
    rw [marksOf_singleton] at hx
    obtain ⟨_, _, h⟩ := not_mem_marks_away hx
    cases h
  | bind first second ih ih' =>
    rw [marksOf_append, List.mem_append] at hx
    exact hx.elim ih ih'
  | early first ih => exact ih hx
  | scope opens inside ih | call shallow arity inside ih =>
    rw [marksOf_singleton, marks] at hx
    exact ih hx
  | execution y fits entered work own ih =>
    rw [marksOf_singleton, begins_mem_execution] at hx
    rcases hx with rfl | hx
    · have hsize := work.size_trace
      rw [World.trace_observe, Array.size_push] at hsize
      refine ⟨fits, ⟨_, _, work.endsBy.mono And.right⟩,
        ⟨work.stays.callNames, work.stays.below⟩, ?_⟩
      show x.start.trace.size < x.finish.trace.size
      omega
    · exact ih hx
  | spared tried fine ih => exact ih hx
  | rescued tried handled ih ih' =>
    rw [marksOf, marks, List.mem_append] at hx
    exact hx.elim ih ih'

/-- No handler takes over when the session is stopped: all the run ends with the statement. -/
theorem cancelled_of_begins (h : Chronicle code P meanwhile w ρ w' r es) {x : Execution}
    (hx : .begins x ∈ marksOf es) (hc : x.outcome = .error .cancelled) :
    r = .error .cancelled := by
  induction h with
  | step | enter => simp [marksOf] at hx
  | waits turn waited stack trace leaves calm =>
    rw [marksOf_singleton] at hx
    obtain ⟨_, _, h⟩ := not_mem_marks_away hx
    cases h
  | bind first second ih ih' =>
    rw [marksOf_append, List.mem_append] at hx
    rcases hx with hx | hx
    · cases ih hx
    · exact ih' hx
  | early first ih =>
    cases ih hx
    rfl
  | scope opens inside ih =>
    rw [marksOf_singleton, marks] at hx
    exact ih hx
  | call shallow arity inside ih =>
    rw [marksOf_singleton, marks] at hx
    rw [ih hx]
    rfl
  | execution y fits entered work own ih =>
    rw [marksOf_singleton, begins_mem_execution] at hx
    have hy : y.outcome = .error .cancelled := hx.elim (fun hxy => hxy ▸ hc) ih
    rw [Execution.result, hy]
  | spared tried fine ih => exact ih hx
  | rescued tried handled ih ih' =>
    rw [marksOf, marks, List.mem_append] at hx
    rcases hx with hx | hx
    · cases ih hx
    · exact ih' hx

/-- What begins between the two observations of a statement and does not end early
is completed between them. -/
theorem ends_within (h : Chronicle code P meanwhile w ρ w' r es) {x y : Execution}
    (hx : .ends x ∈ marksOf es) (hy : .begins y ∈ marksOf es) (hdone : y.Completes)
    (hafter : (Mark.begins x).place < (Mark.begins y).place)
    (hbefore : (Mark.begins y).place < (Mark.ends x).place) :
    (Mark.ends y).place < (Mark.ends x).place := by
  have hends : ∀ {es}, .begins y ∈ marksOf es → .ends y ∈ marksOf es :=
    fun hy => (ends_mem_marksOf y _).mpr ⟨hy, hdone⟩
  have hbegins : ∀ {es}, .ends x ∈ marksOf es → .begins x ∈ marksOf es :=
    fun hx => ((ends_mem_marksOf x _).mp hx).1
  -- what begins in another part of the run begins too late or too early
  have hparts : ∀ {v : World} {es es'}, (∀ {m}, m ∈ marksOf es → m.place < v.trace.size) →
      (∀ {m}, m ∈ marksOf es' → v.trace.size ≤ m.place) →
      (.ends x ∈ marksOf es → .begins y ∈ marksOf es →
        (Mark.ends y).place < (Mark.ends x).place) →
      (.ends x ∈ marksOf es' → .begins y ∈ marksOf es' →
        (Mark.ends y).place < (Mark.ends x).place) →
      .ends x ∈ marksOf es ++ marksOf es' → .begins y ∈ marksOf es ++ marksOf es' →
        (Mark.ends y).place < (Mark.ends x).place := by
    intro v es es' hlow hhigh ih ih' hx hy
    rcases List.mem_append.mp hx with hx | hx <;> rcases List.mem_append.mp hy with hy | hy
    · exact ih hx hy
    · have h₁ := hlow hx
      have h₂ := hhigh hy
      omega
    · have h₁ := hlow hy
      have h₂ := hhigh (hbegins hx)
      omega
    · exact ih' hx hy
  induction h with
  | step | enter => simp [marksOf] at hx
  | waits turn waited stack trace leaves calm =>
    rw [marksOf_singleton] at hx
    obtain ⟨_, _, h⟩ := not_mem_marks_away hx
    cases h
  | bind first second ih ih' =>
    rw [marksOf_append] at hx hy
    exact hparts (fun hm => (first.place_bounds hm).2) (fun hm => (second.place_bounds hm).1)
      ih ih' hx hy
  | early first ih => exact ih hx hy
  | scope opens inside ih | call shallow arity inside ih =>
    rw [marksOf_singleton, marks] at hx hy
    exact ih hx hy
  | execution z fits entered work own ih =>
    rw [marksOf_singleton, ends_mem_execution] at hx
    rw [marksOf_singleton, begins_mem_execution] at hy
    rcases hx with ⟨rfl, -⟩ | hx <;> rcases hy with rfl | hy
    · omega
    · exact (work.place_bounds (hends hy)).2
    · have h₁ := (work.place_bounds (hbegins hx)).1
      rw [World.trace_observe, Array.size_push] at h₁
      change _ < y.start.trace.size at hafter
      omega
    · exact ih hx hy
  | spared tried fine ih => exact ih hx hy
  | rescued tried handled ih ih' =>
    rw [marksOf, marks] at hx hy
    exact hparts (fun hm => (tried.place_bounds hm).2) (fun hm => (handled.place_bounds hm).1)
      ih ih' hx hy

/-- The entries of every chronicle nest. -/
theorem wellNested (h : Chronicle code P meanwhile w ρ w' r es) :
    WellNested code w w' r (marksOf es) where
  trace := h.trace_eq
  places := h.places
  real := fun _ hx => (h.of_begins hx).2.1
  ends_iff := fun x => ends_mem_marksOf x es
  pairs := fun x hx =>
    have ⟨_, _, hstays, hplace⟩ := h.of_begins ((ends_mem_marksOf x es).mp hx).1
    ⟨hplace, hstays.sight true false x.stmt⟩
  nested := by
    intro x y hx hy hafter hbefore
    by_cases hdone : y.Completes
    · exact .inl ⟨(ends_mem_marksOf y es).mpr ⟨hy, hdone⟩,
        h.ends_within hx hy hdone hafter hbefore⟩
    · exact .inr hdone
  depth := fun x => ⟨x.start.stack.depth_eq, x.finish.stack.depth_eq⟩
  balanced := by
    intro hfailed hstopped
    refine balanced_marksOf es fun x hx => ?_
    unfold Execution.Completes
    rcases hout : x.outcome with (f | _) | flow
    · exact absurd hout (hfailed x f hx)
    · exact absurd (h.cancelled_of_begins hx hout) hstopped
    · rfl

/-- A run that does not wait at the gate notes nothing of other work. -/
theorem own_marks (h : Chronicle code P meanwhile w ρ w' r es)
    (hρ : ∃ v s, ρ = .done v s) {m : Mark} (hm : m ∈ marksOf es) :
    ∃ x, m = .begins x ∨ m = .ends x := by
  induction h with
  | step | enter => simp [marksOf] at hm
  | waits turn waited stack trace leaves calm =>
    obtain ⟨_, _, hρ⟩ := hρ
    cases hρ
  | bind first second ih ih' =>
    obtain ⟨v, s, hρ⟩ := hρ
    obtain ⟨v₁, s₁, hx, hf⟩ := Run.andThen_eq_done.mp hρ
    obtain ⟨rfl, rfl⟩ := Run.eq_of_endsBy_done (hx ▸ first.endsBy)
    rw [marksOf_append, List.mem_append] at hm
    exact hm.elim (ih ⟨_, _, hx⟩) (ih' ⟨_, _, hf⟩)
  | early first ih =>
    obtain ⟨v, s, hρ⟩ := hρ
    obtain ⟨v₁, s₁, hx, -⟩ := Run.andThen_eq_done.mp hρ
    exact ih ⟨_, _, hx⟩ hm
  | scope opens inside ih =>
    obtain ⟨v, s, hρ⟩ := hρ
    obtain ⟨v₁, s₁, hx, -⟩ := Run.andThen_eq_done.mp hρ
    rw [marksOf_singleton, marks] at hm
    exact ih ⟨_, _, hx⟩ hm
  | call shallow arity inside ih =>
    obtain ⟨v, s, hρ⟩ := hρ
    rw [invoke_eq shallow arity] at hρ
    obtain ⟨v₁, s₁, hx, -⟩ := Run.andThen_eq_done.mp hρ
    rw [marksOf_singleton, marks] at hm
    exact ih ⟨_, _, hx⟩ hm
  | execution y fits entered work own ih =>
    obtain ⟨v, s, hρ⟩ := hρ
    obtain ⟨_, _, hbegin, hρ⟩ := Run.andThen_eq_done.mp hρ
    cases hbegin
    obtain ⟨_, _, hx, -⟩ := Run.andThen_eq_done.mp hρ
    obtain ⟨_, _, hx, -⟩ := Run.andThen_eq_done.mp hx
    rw [marksOf_singleton, marks, List.mem_cons, List.mem_append] at hm
    rcases hm with rfl | hm | hm
    · exact ⟨y, .inl rfl⟩
    · exact ih ⟨_, _, hx⟩ hm
    · split at hm
      · exact ⟨y, .inr (List.mem_singleton.mp hm)⟩
      · cases hm
  | spared tried fine ih =>
    obtain ⟨v, s, hρ⟩ := hρ
    obtain ⟨v₁, s₁, hx, -⟩ := Run.andThen_eq_done.mp hρ
    exact ih ⟨_, _, hx⟩ hm
  | rescued tried handled ih ih' =>
    obtain ⟨v, s, hρ⟩ := hρ
    obtain ⟨v₁, s₁, hx, hf⟩ := Run.andThen_eq_done.mp hρ
    obtain ⟨rfl, rfl⟩ := Run.eq_of_endsBy_done (hx ▸ tried.endsBy)
    rw [marksOf, marks, List.mem_append] at hm
    exact hm.elim (ih ⟨_, _, hx⟩) (ih' ⟨_, _, hf⟩)

end Chronicle

namespace Engine

/-- The chronicles of a run, and how the entries of each nest in the trace. -/
structure Nests (code : Code) (w : World) (ρ : Run α) (w' : World) (r : Except Unwind α) :
    Prop where
  /-- The run has a chronicle. -/
  told : ∃ es, Chronicle code (fun _ => True) (fun _ => World.Interim) w ρ w' r es
  /-- The entries of its chronicles nest. -/
  nested : ∀ es, Chronicle code (fun _ => True) (fun _ => World.Interim) w ρ w' r es →
    WellNested code w w' r (Episode.marksOf es)
  /-- If the run does not wait at the gate, they are all its own. -/
  own : ρ = .done w' r → ∀ es, Chronicle code (fun _ => True) (fun _ => World.Interim) w ρ w' r es →
    ∀ m ∈ Episode.marksOf es, ∃ x, m = .begins x ∨ m = .ends x

/-- Whatever an engine runs and however it ends, the entries of the run nest in the trace. -/
theorem Work.traces_nest {code : Code} {x : Exec α} (h : Work code x) {w w' : World}
    {r : Except Unwind α} (hr : (x w).EndsBy (fun _ => World.Interim) w' r) :
    Nests code w (x w) w' r where
  told := h.told (fun hm => hm) hr
  nested := fun _ hes => hes.wellNested
  own := fun hdone _ hes _ => hes.own_marks ⟨_, _, hdone⟩

/-- A method that recovers from the failure of another. -/
def recovering : Method :=
  (Method.start "Main").withBody [.tryCatch [.perform (.invoke "Fail" [])] none [], .giveBack none]

/-- A program with both methods. -/
def recovery : Code where
  program :=
    (Program.empty.addMethod ((Method.start "Fail").withBody [.leave])).addMethod recovering

/-- Two statements are left by the failure and observed once; the others are completed. -/
theorem Work.traces_nest_recovery :
    ∃ w' r, invoke recovery 9 recovering [] {} = .done w' r ∧
      (w'.trace.toList.map fun e => (e.isBefore, e.kind, e.depth)) =
        [(true, "try-catch", 1), (true, "expression", 1), (true, "break", 2),
          (false, "try-catch", 1), (true, "return", 1), (false, "return", 1)] ∧
      Nests recovery {} (invoke recovery 9 recovering [] {}) w' r := by
  have htrace : ((invoke recovery 9 recovering [] {}).end?.map fun e =>
      e.1.trace.toList.map fun e => (e.isBefore, e.kind, e.depth)) =
        some [(true, "try-catch", 1), (true, "expression", 1), (true, "break", 2),
          (false, "try-catch", 1), (true, "return", 1), (false, "return", 1)] := by
    decide +kernel
  obtain ⟨e, he, htrace⟩ := Option.map_eq_some_iff.mp htrace
  have hdone := Run.eq_done_of_end? he
  have hends : (invoke recovery 9 recovering [] {}).EndsBy (fun _ => World.Interim) e.1 e.2 :=
    hdone ▸ .done e.1 e.2
  exact ⟨e.1, e.2, hdone, htrace, Work.traces_nest (.call 9 recovering []) hends⟩

end Engine

end Stepwise
