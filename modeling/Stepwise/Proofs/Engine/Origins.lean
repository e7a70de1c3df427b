import Stepwise.Proofs.Engine.Retelling
import Stepwise.Proofs.Program.Interchange

/-!
# Where failures come from

A failure that leaves a block carries the place of the statement that was
executing when it came up, and the call stack of that moment. The statement is
found by going down the chronicle of the run: the last execution is one that
failed, and so is the last one inside it, until one is reached whose failure came
from none of its parts. That one adds place and call stack; all executions around
it, in the same call or in the calls below, hand the failure on as it is.
-/

namespace Stepwise

open Engine

/-- The statement at which a failure came up that has left a run. -/
inductive Culprit : List Episode → Execution → Failure → Prop where
  /-- The last statement failed by itself. -/
  | self {es inner : List Episode} {x : Execution} {f : Failure}
      (last : Episode.lastOf? es = some (x, inner)) (fails : x.outcome = .error (.failed f))
      (raw : f.Raw) (alone : ¬ Broken inner) : Culprit es x (x.located f)
  /-- The last statement failed, with the same failure, because of a statement inside it. -/
  | within {es inner : List Episode} {x y : Execution} {f : Failure}
      (last : Episode.lastOf? es = some (y, inner)) (fails : y.outcome = .error (.failed f))
      (inside : Culprit inner x f) : Culprit es x f

namespace Culprit

variable {es es' : List Episode} {x : Execution} {f : Failure}

/-- The last statement decides. -/
theorem congr (h : Culprit es x f) (hlast : Episode.lastOf? es' = Episode.lastOf? es) :
    Culprit es' x f := by
  cases h with
  | self last fails raw alone => exact .self (hlast.trans last) fails raw alone
  | within last fails inside => exact .within (hlast.trans last) fails inside

theorem ne_nil (h : Culprit es x f) : es ≠ [] := by
  rintro rfl
  cases h with
  | self last => cases last
  | within last => cases last

/-- What came before does not matter. -/
theorem append (h : Culprit es x f) (before : List Episode) : Culprit (before ++ es) x f :=
  h.congr (Episode.lastOf?_append h.ne_nil before)

/-- The failure carries the place of the statement and the call stack at its end. -/
theorem located (h : Culprit es x f) :
    f.site = some (x.stmt.span, x.stmt.kindName) ∧ f.snapshot = some x.finish.capture := by
  induction h with
  | self last fails raw alone =>
    simp [Execution.located, Failure.atSite, Failure.withSnapshot, raw.1, raw.2]
  | within last fails inside ih => exact ih

end Culprit

/-- Place and call stack are added to a failure once. -/
theorem Failure.located_again {f : Failure} {site : Span × String} {s : Snapshot}
    (hsite : f.site = some site) (hs : f.snapshot = some s) (span : Span) (node : String)
    (s' : Snapshot) : (f.atSite span node).withSnapshot s' = f := by
  simp [atSite, withSnapshot, hsite, hs]

/-- What is known of the statement at which a failure came up, in a run that began in a world. -/
structure Execution.Blamed (code : Code) (P : Stmt → Prop) (w : World) (x : Execution) : Prop where
  /-- It is one that may be executed. -/
  fits : P x.stmt
  /-- The innermost call stood at it. -/
  entered : x.Entered
  /-- The engine executes it so. -/
  real : x.Real code
  /-- The same calls are in progress at its end. -/
  stays : x.start.Stays x.finish
  /-- Unless it runs blocks in between, the calls have not moved on. -/
  place : x.stmt.isStructured = false → x.finish.stack.headings = x.start.stack.headings
  /-- The calls of the beginning are in progress. -/
  below : w.stack.callNames <:+ x.start.stack.callNames

/-- The calls in progress may have been known earlier. -/
theorem Execution.Blamed.weaken {code : Code} {P : Stmt → Prop} {v w : World} {x : Execution}
    (h : x.Blamed code P v) (hw : w.stack.callNames <:+ v.stack.callNames) : x.Blamed code P w :=
  { h with below := hw.trans h.below }

/-- The last statement decides whether it was left by an execution that failed. -/
theorem broken_congr {es es' : List Episode} (h : Episode.lastOf? es' = Episode.lastOf? es) :
    Broken es' ↔ Broken es := by
  unfold Broken
  rw [h]

namespace Chronicle

variable {α : Type} {code : Code} {P : Stmt → Prop} {meanwhile : Passage → World → World → Prop}
  {w w' : World} {ρ : Run α} {r : Except Unwind α} {es : List Episode}

/-- A failure is raw and comes from no statement, or a statement is to blame. -/
theorem culprit (h : Chronicle code P meanwhile w ρ w' r es) {f : Failure}
    (hr : r = .error (.failed f)) :
    (f.Raw ∧ ¬ Broken es) ∨ ∃ x, Culprit es x f ∧ x.Blamed code P w := by
  induction h generalizing f with
  | step quiet raw => exact .inl ⟨raw f hr, not_broken_nil⟩
  | enter stmt noted => cases hr
  | waits turn waited stack trace leaves calm => exact absurd hr (calm f)
  | bind first second ih ih' =>
    rename_i es es'
    have hcalls := first.stays.callNames
    rcases ih' hr with ⟨hraw, hwhole⟩ | ⟨x, hx, hblamed⟩
    · refine .inl ⟨hraw, ?_⟩
      by_cases hne : es' = []
      · -- the last execution would be one of the first step, which did not fail
        rw [hne, List.append_nil]
        exact first.not_broken fun _ hf => by cases hf
      · rwa [broken_congr (Episode.lastOf?_append hne es)]
    · exact .inr ⟨x, hx.append _, hblamed.weaken (hcalls ▸ List.suffix_refl _)⟩
  | early first ih => exact ih (by cases hr; rfl)
  | scope opens inside ih =>
    have hlast : ∀ {mark last es}, Episode.lastOf? [.scope mark last es] = Episode.lastOf? es :=
      fun {_ _ _} => by rw [Episode.lastOf?, Episode.last?]
    refine (ih hr).imp (And.imp_right (mt (broken_congr hlast).mp)) ?_
    rintro ⟨x, hx, hblamed⟩
    exact ⟨x, hx.congr hlast, hblamed.weaken (opens.still.stays.callNames ▸ List.suffix_refl _)⟩
  | call shallow arity inside ih =>
    rename_i r es
    have hlast : ∀ {m first last es}, Episode.lastOf? [.call m first last es] =
        Episode.lastOf? es := fun {_ _ _ _} => by rw [Episode.lastOf?, Episode.last?]
    have hr' : r = .error (.failed f) := by
      cases r with
      | ok a => cases hr
      | error u =>
        cases hr
        rfl
    refine (ih hr').imp (And.imp_right (mt (broken_congr hlast).mp)) ?_
    rintro ⟨x, hx, hblamed⟩
    exact ⟨x, hx.congr hlast, hblamed.weaken (List.suffix_cons _ _)⟩
  | execution x fits entered work own ih =>
    right
    have hstays : x.start.Stays x.finish := ⟨work.stays.callNames, work.stays.below⟩
    have hreal : x.Real code := ⟨_, _, work.endsBy.mono And.right⟩
    obtain ⟨f₀, hx⟩ := x.fails_of_result hr
    have hf : x.located f₀ = f := by
      rw [Execution.result, hx] at hr
      cases hr
      rfl
    subst hf
    rcases ih hx with ⟨hraw, halone⟩ | ⟨y, hy, hblamed⟩
    · refine ⟨x, .self (by rw [Episode.lastOf?, Episode.last?]) hx hraw halone, fits, entered,
        hreal, hstays, fun hs => ?_, List.suffix_refl _⟩
      exact (own hs f₀ hx).resolve_left halone
    · refine ⟨y, ?_, hblamed.weaken (List.suffix_refl _)⟩
      rw [Execution.located, Failure.located_again hy.located.1 hy.located.2]
      exact .within (by rw [Episode.lastOf?, Episode.last?]) hx hy
  | spared tried fine ih => exact ih hr
  | rescued tried handled ih ih' =>
    rename_i es es'
    have hcalls := tried.stays.callNames
    rcases ih' hr with ⟨hraw, hwhole⟩ | ⟨x, hx, hblamed⟩
    · refine .inl ⟨hraw, ?_⟩
      by_cases hne : es' = []
      · rw [hne]
        rintro ⟨x, inner, f, hlast, -⟩
        cases hlast
      · rwa [← List.singleton_append, broken_congr (Episode.lastOf?_append hne _)]
    · exact .inr ⟨x, hx.append [.rescued es], hblamed.weaken (hcalls ▸ List.suffix_refl _)⟩

end Chronicle

/-- The statement stands in the block or in a method of the program. -/
def Program.Holds (p : Program) (block : Block) (stmt : Stmt) : Prop :=
  stmt ∈ Stmt.partsOf block ∨ ∃ m ∈ p.methods, stmt ∈ Stmt.partsOf m.body

mutual

/-- What stands in a block inside a statement stands in the statement. -/
theorem Stmt.mem_parts_of_blocks {part stmt : Stmt} {block : List Stmt} (hb : block ∈ part.blocks)
    (hs : stmt ∈ partsOf block) : ∀ whole : Stmt, part ∈ whole.parts → stmt ∈ whole.parts
  | .cond test yes none span, h => by
    rw [parts, List.mem_cons] at h ⊢
    rcases h with rfl | h
    · cases List.mem_singleton.mp hb
      exact .inr hs
    · exact .inr (mem_partsOf_of_blocks hb hs yes h)
  | .cond test yes (some no) span, h => by
    rw [parts, List.mem_cons, List.mem_append] at h ⊢
    rcases h with rfl | h | h
    · rcases List.mem_cons.mp hb with rfl | hb
      · exact .inr (.inl hs)
      · exact .inr (.inr (List.mem_singleton.mp hb ▸ hs))
    · exact .inr (.inl (mem_partsOf_of_blocks hb hs yes h))
    · exact .inr (.inr (mem_partsOf_of_blocks hb hs no h))
  | .loop kind test body span, h => by
    rw [parts, List.mem_cons] at h ⊢
    rcases h with rfl | h
    · cases List.mem_singleton.mp hb
      exact .inr hs
    · exact .inr (mem_partsOf_of_blocks hb hs body h)
  | .attempt body name handler span, h => by
    rw [parts, List.mem_cons, List.mem_append] at h ⊢
    rcases h with rfl | h | h
    · rcases List.mem_cons.mp hb with rfl | hb
      · exact .inr (.inl hs)
      · exact .inr (.inr (List.mem_singleton.mp hb ▸ hs))
    · exact .inr (.inl (mem_partsOf_of_blocks hb hs body h))
    · exact .inr (.inr (mem_partsOf_of_blocks hb hs handler h))
  | .declare .., h | .assign .., h | .branch .., h | .ret .., h | .brk .., h | .throw .., h
  | .eval .., h | .label .., h | .goto .., h => by
    simp only [parts, List.mem_singleton] at h
    subst h
    cases hb

/-- What stands in a block inside statements stands in the statements. -/
theorem Stmt.mem_partsOf_of_blocks {part stmt : Stmt} {block : List Stmt} (hb : block ∈ part.blocks)
    (hs : stmt ∈ partsOf block) : ∀ whole : List Stmt, part ∈ partsOf whole → stmt ∈ partsOf whole
  | [], h => by
    rw [partsOf] at h
    cases h
  | first :: rest, h => by
    rw [partsOf, List.mem_append] at h ⊢
    exact h.imp (mem_parts_of_blocks hb hs first) (mem_partsOf_of_blocks hb hs rest)

end

/-- The statements of each block of a program stand in one of its methods. -/
theorem Program.holds_of_blocks {p : Program} {block : Block} (hb : block ∈ p.blocks) {stmt : Stmt}
    (hs : stmt ∈ Stmt.partsOf block) : ∃ m ∈ p.methods, stmt ∈ Stmt.partsOf m.body := by
  obtain ⟨m, hm, hb⟩ := List.mem_flatMap.mp hb
  refine ⟨m, hm, ?_⟩
  rcases List.mem_cons.mp hb with rfl | hb
  · exact hs
  · obtain ⟨part, hpart, hb⟩ := List.mem_flatMap.mp hb
    exact Stmt.mem_partsOf_of_blocks hb hs m.body hpart

namespace Execution

variable {code : Code} {P : Stmt → Prop} {w : World} {x : Execution}

/-- A snapshot shows the calls in progress, innermost first. -/
theorem Blamed.frames_capture (h : x.Blamed code P w) :
    x.finish.capture.frames.map (·.method) = x.start.stack.callNames := by
  rw [← h.stays.callNames]
  show (x.finish.stack.frames.map _).map _ = x.finish.stack.frames.map _
  rw [List.map_map]
  rfl

/-- A snapshot shows the innermost call at the statement, if that has a place and runs
no blocks in between. -/
theorem Blamed.span_capture (h : x.Blamed code P w) (hs : x.stmt.isStructured = false)
    (hframe : x.start.stack.frames ≠ []) (hspan : x.stmt.span.isBlank = false) :
    x.finish.capture.frames.head?.map (·.span) = some x.stmt.span := by
  obtain ⟨frame, hframe⟩ := Option.ne_none_iff_exists'.mp (mt List.head?_eq_none_iff.mp hframe)
  have hheading := congrArg List.head? (h.place hs)
  rw [CallStack.headings, CallStack.headings, List.head?_map, List.head?_map, hframe] at hheading
  obtain ⟨frame', hframe', hheading⟩ := Option.map_eq_some_iff.mp hheading
  show ((x.finish.stack.frames.map (Snapshot.frameInfo _ _)).head?).map _ = _
  rw [List.head?_map, hframe', Option.map_some, Option.map_some, ← h.entered hspan frame hframe]
  exact congrArg (fun heading => some heading.2.2) hheading

end Execution

/-- How a failure of a block points at the statement at which it came up. The run of
the block is told by `es`, the statement was executed as `x`, and `s` is the snapshot. -/
structure Failure.PointsAt (f : Failure) (code : Code) (fuel : Nat) (block : Block)
    (inLoop : Bool) (w w' : World) (es : List Episode) (x : Execution) (s : Snapshot) : Prop where
  /-- This is how the block was run. -/
  chronicle : Chronicle code (code.program.Holds block) (fun _ => World.Interim) w
    (runBlock code fuel block inLoop w) w' (.error (.failed f)) es
  /-- The statement is the innermost one that was executing. -/
  culprit : Culprit es x f
  /-- The engine executes it so. -/
  real : x.Real code
  /-- It stands in the block or in a method of the program. -/
  holds : code.program.Holds block x.stmt
  /-- The failure carries its place and kind. -/
  site : f.site = some (x.stmt.span, x.stmt.kindName)
  /-- The failure carries the snapshot. -/
  snapshot : f.snapshot = some s
  /-- The snapshot was made when the execution had ended. -/
  moment : s = x.finish.capture
  /-- It shows the calls in progress at the statement, innermost first. -/
  calls : s.frames.map (·.method) = x.start.stack.callNames
  /-- The calls around the block are among them. -/
  below : w.stack.callNames <:+ x.start.stack.callNames
  /-- In lowered code, and wherever the statement is no condition and no loop, it shows
  the innermost call at the place of the statement. -/
  span : (x.stmt.isStructured = false ∨
      (∀ m ∈ code.program.methods, Stmt.everyAll (·.isStructured = false) m.body) ∧
        (block ∈ code.program.blocks ∨ Stmt.everyAll (·.isStructured = false) block)) →
    x.start.stack.frames ≠ [] → x.stmt.span.isBlank = false →
    s.frames.head?.map (·.span) = f.site.map (·.1)

namespace Engine

/-- A block that fails does so at the innermost statement that was executing. -/
theorem failure_pointsAt {code : Code} {fuel : Nat} {block : Block} {inLoop : Bool} {w w' : World}
    {f : Failure} (h : (runBlock code fuel block inLoop w).EndsBy (fun _ => World.Interim) w'
      (.error (.failed f))) :
    ∃ es x s, f.PointsAt code fuel block inLoop w w' es x s := by
  have htold : ToldWith code (code.program.Holds block) (fun _ => World.Interim) fuel :=
    toldWith (fun hm => hm) (fun m hm part hpart => .inr ⟨m, hm, hpart⟩) fuel
  obtain ⟨es, hes, hbroken⟩ := htold.block (fun _ hpart => .inl hpart) inLoop _ _ _ h
  obtain ⟨x, hx, hblamed⟩ :=
    (hes.culprit rfl).resolve_left fun hraw => hraw.2 (hbroken f rfl)
  refine ⟨es, x, _, hes, hx, hblamed.real, hblamed.fits, hx.located.1, hx.located.2, rfl,
    hblamed.frames_capture, hblamed.below, fun hlowered hframe hspan => ?_⟩
  have hstmt : x.stmt.isStructured = false := by
    rcases hlowered with hs | ⟨hmethods, hblock⟩
    · exact hs
    · rcases hblamed.fits with hpart | ⟨m, hm, hpart⟩
      · rcases hblock with hb | hflat
        · obtain ⟨m, hm, hpart⟩ := Program.holds_of_blocks hb hpart
          exact hmethods m hm _ hpart
        · exact hflat _ hpart
      · exact hmethods m hm _ hpart
  rw [hblamed.span_capture hstmt hframe hspan, hx.located.1]
  rfl

end Engine

namespace Engine

/-- A method that calls another one from inside a handler. -/
def stumbling : Method :=
  (Method.start "Main").withBody
    [.atLine 2 (.tryCatch [.atLine 3 .leave] none [.atLine 5 (.perform (.invoke "Fail" []))])]

/-- A program in which the other method fails. -/
def stumble : Code where
  program :=
    (Program.empty.addMethod
      ((Method.start "Fail").withBody [.atLine 7 .leave])).addMethod stumbling

/-- The first failure is caught; the second one points into the method called from the handler. -/
theorem failure_pointsAt_stumble :
    ∃ w' f, runBlock stumble 9 stumbling.body false (({} : World).pushFrame stumbling) =
        .done w' (.error (.failed f)) ∧
      f.site = some (Span.line 7, "break") ∧
      (f.snapshot.map fun s => s.frames.map fun i => (i.method, i.span)) =
        some [("Fail", Span.line 7), ("Main", Span.line 5)] ∧
      ∃ es x s, f.PointsAt stumble 9 stumbling.body false (({} : World).pushFrame stumbling) w'
        es x s := by
  have hrun : ((runBlock stumble 9 stumbling.body false
      (({} : World).pushFrame stumbling)).failedEnd?.map fun e =>
        (e.2.site, e.2.snapshot.map fun s => s.frames.map fun i => (i.method, i.span))) =
      some (some (Span.line 7, "break"), some [("Fail", Span.line 7), ("Main", Span.line 5)]) := by
    decide +kernel
  obtain ⟨⟨w', f⟩, hend, hrun⟩ := Option.map_eq_some_iff.mp hrun
  obtain ⟨hsite, hsnapshot⟩ := Prod.mk.inj hrun
  have hdone := Run.eq_done_of_failedEnd? hend
  exact ⟨w', f, hdone, hsite, hsnapshot, failure_pointsAt (hdone ▸ .done w' _)⟩

end Engine

end Stepwise
