import Stepwise.Proofs.Simulation.Expression

/-!
# Statements on their way

What surrounds the execution of a statement, on either machine: passing the
open gate and observing the statement change nothing that counts, and a
failure gets a place or stops the machine. Then the relation between the end
of a statement of the source and the place that the target has come to.
-/

namespace Stepwise.Simulation

open Engine

/-- The world in which a statement is executed. -/
def arrive (stmt : Stmt) (w : World) : World :=
  (if stmt.span.isBlank then w else { w with stack := w.stack.setSpan stmt.span }).observe true stmt

/-- What follows the execution of a statement. -/
def finish (fatal : FaultKind → Bool) (stmt : Stmt) (w : World) :
    Except Unwind Flow → Run Flow
  | .ok flow => .done (w.observe false stmt) (.ok flow)
  | .error .cancelled => .done w (.error .cancelled)
  | .error (.failed f) =>
    if fatal f.fault.kind then .done w (.error .cancelled)
    else
      .done w (.error (.failed ((f.atSite stmt.span stmt.kindName).withSnapshot w.capture)))

@[simp] theorem site_withSnapshot (f : Failure) (s : Snapshot) :
    (f.withSnapshot s).site = f.site := by
  unfold Failure.withSnapshot
  split <;> rfl

/-- The place of a failure after a statement has let it through. -/
theorem site_atSite (f : Failure) (span : Span) (node : String) :
    (f.atSite span node).site.map (·.1) = (f.site.map (·.1)).or (some span) := by
  unfold Failure.atSite
  cases h : f.site with
  | none => rfl
  | some place => simp [h]

/-- An open gate lets every statement pass at once. -/
theorem checkpoint_open {w : World} (h : w.controls.gate.Open) (stmt : Stmt) :
    checkpoint stmt w = .done w (.ok ()) := by
  have happroach : w.controls.approach stmt = w.controls := by
    simp [Controls.approach, Gate.approach, h.hits stmt]
  have hleave : w.controls.leave? = some (.passed, w.controls) := by
    simp [Controls.leave?, Gate.leave?, h.cancelled, h.armed]
  simp only [checkpoint, happroach, hleave]
  rfl

/-- A statement on its way, with an open gate. -/
theorem step_open {M : Machine} {c : Callees} {inLoop : Bool} {stmt : Stmt} {w : World}
    (h : w.controls.gate.Open) :
    M.step c inLoop stmt w =
      (M.execute c inLoop stmt (arrive stmt w)).andThen (finish M.fatal stmt) := by
  have henter : enter stmt w = .done
      (if stmt.span.isBlank then w else { w with stack := w.stack.setSpan stmt.span })
      (.ok ()) := rfl
  have hopen : (if stmt.span.isBlank then w
      else { w with stack := w.stack.setSpan stmt.span }).controls.gate.Open := by
    split <;> exact h
  have hstep : around stmt (M.execute c inLoop stmt) w =
      ((M.execute c inLoop stmt).onFailure (locate stmt) >>= fun flow =>
        Exec.change (·.observe false stmt) >>= fun _ => pure flow) (arrive stmt w) := by
    unfold around
    rw [Exec.bind_of_ok henter, Exec.bind_of_ok (checkpoint_open hopen stmt)]
    rfl
  show (around stmt (M.execute c inLoop stmt) w).andThen _ = _
  rw [hstep]
  show (((M.execute c inLoop stmt (arrive stmt w)).andThen _).andThen _).andThen _ = _
  rw [Run.andThen_assoc, Run.andThen_assoc]
  congr 1
  funext w' r
  rcases r with (f | _) | flow
  · simp only [locate, Run.andThen, finish, fault_withSnapshot, fault_atSite]
  · rfl
  · rfl

section Places

variable {T : Tie} {π : Pose} {w v : World}

/-- The source arrives at a statement. -/
theorem Pose.Holds.arriveSource (h : π.Holds T w v) (stmt : Stmt) :
    π.Holds T (arrive stmt w) v := by
  unfold arrive
  split
  · exact h.observeSource true stmt
  · exact (h.spanSource stmt.span).observeSource true stmt

/-- The target arrives at a statement. -/
theorem Pose.Holds.arriveTarget (h : π.Holds T w v) (stmt : Stmt) :
    π.Holds T w (arrive stmt v) := by
  unfold arrive
  split
  · exact h.observeTarget true stmt
  · exact (h.spanTarget stmt.span).observeTarget true stmt

/-- The gate is open for the target, too. -/
theorem Pose.Holds.gate' (h : π.Holds T w v) : v.controls.gate.Open := by
  rw [h.shares.controls]
  exact h.gate

end Places

/-- Early ends of statements on both machines: the same failure, with a place
and not fatal, or a stop. -/
def Closed (T : Tie) : Unwind → Unwind → Prop
  | .failed f, .failed f' => Alike T.sharp none (.failed f) (.failed f') ∧ f'.site.isSome ∧
      T.source.fatal f.fault.kind = false
  | .cancelled, .cancelled => True
  | _, _ => False

/-- An early end of a part of a source statement against the end of a target
statement: the first gets its place, or is found fatal, later. -/
def Closes (T : Tie) (span : Span) : Unwind → Unwind → Prop
  | .failed f, .failed f' => Alike T.sharp (some span) (.failed f) (.failed f') ∧
      f'.site.isSome ∧ T.source.fatal f.fault.kind = false
  | .failed f, .cancelled => T.source.fatal f.fault.kind = true
  | .cancelled, .cancelled => True
  | _, _ => False

/-- The end of an inner statement passes through an outer one. -/
theorem Closed.closes {T : Tie} {u u' : Unwind} (h : Closed T u u') (span : Span) :
    Closes T span u u' := by
  cases u with
  | cancelled =>
    cases u' with
    | cancelled => trivial
    | failed f' => exact h
  | failed f =>
    cases u' with
    | cancelled => cases h
    | failed f' =>
      obtain ⟨⟨hfault, hmild, hplace⟩, hsome, hfatal⟩ := h
      refine ⟨⟨hfault, hmild, fun hs => ?_⟩, hsome, hfatal⟩
      have hp := hplace hs
      rw [Option.or_none] at hp
      obtain ⟨place, hplace'⟩ := Option.isSome_iff_exists.mp hsome
      rw [hp.symm, hplace']
      rfl

/-- Early ends of statements are the same but for their records. -/
theorem Closed.alike {T : Tie} {u u' : Unwind} (h : Closed T u u') : Alike T.sharp none u u' := by
  cases u with
  | cancelled => cases u' <;> exact h
  | failed f =>
    cases u' with
    | cancelled => cases h
    | failed f' => exact h.1

/-- What the source makes of an early end when its statement is over. -/
theorem Closes.finish {T : Tie} {stmt : Stmt} {u u' : Unwind} (h : Closes T stmt.span u u')
    (w : World) :
    ∃ u₁, Simulation.finish T.source.fatal stmt w (.error u) = .done w (.error u₁) ∧
      Closed T u₁ u' := by
  cases u with
  | cancelled =>
    cases u' with
    | cancelled => exact ⟨.cancelled, rfl, trivial⟩
    | failed f' => cases h
  | failed f =>
    cases u' with
    | cancelled =>
      refine ⟨.cancelled, ?_, trivial⟩
      simp only [Simulation.finish, show T.source.fatal f.fault.kind = true from h, if_true]
    | failed f' =>
      obtain ⟨⟨hfault, hmild, hplace⟩, hsome, hfatal⟩ := h
      refine ⟨.failed ((f.atSite stmt.span stmt.kindName).withSnapshot w.capture), ?_, ?_⟩
      · simp only [Simulation.finish, hfatal]
        rfl
      · refine ⟨⟨?_, ?_, fun hs => ?_⟩, hsome, ?_⟩
        · simpa using hfault
        · simpa using hmild
        · rw [hplace hs, site_withSnapshot, site_atSite, Option.or_none]
        · simpa using hfatal

/-- What the target makes of an early end when its statement is over. -/
theorem Alike.finish {T : Tie} {u u' : Unwind} (h : Alike T.sharp none u u') (stmt : Stmt)
    (v : World) (hspoil : T.lax → ¬ T.terms.spoil u) :
    ∃ u₁, Simulation.finish T.target.fatal stmt v (.error u') = .done v (.error u₁) ∧
      Closes T stmt.span u u₁ := by
  cases u with
  | cancelled =>
    cases u' with
    | cancelled => exact ⟨.cancelled, rfl, trivial⟩
    | failed f' => cases h
  | failed f =>
    cases u' with
    | cancelled => cases h
    | failed f' =>
      obtain ⟨hfault, hmild, hplace⟩ := h
      by_cases hfatal : T.target.fatal f'.fault.kind = true
      · refine ⟨.cancelled, ?_, ?_⟩
        · simp only [Simulation.finish, hfatal, if_true]
        · show T.source.fatal f.fault.kind = true
          rw [← hfault]
          exact T.fatal_le _ hfatal
      · have hfatal' : T.source.fatal f.fault.kind = false := by
          by_cases hlax : T.lax
          · refine Bool.eq_false_iff.mpr fun hk => hspoil hlax (.inr ⟨f, rfl, hk⟩)
          · rw [← T.fatal_eq (Tie.not_lax hlax), ← hfault]
            exact Bool.eq_false_iff.mpr hfatal
        refine ⟨.failed ((f'.atSite stmt.span stmt.kindName).withSnapshot v.capture), ?_, ?_⟩
        · simp only [Simulation.finish, hfatal]
          rfl
        · refine ⟨⟨?_, hmild, fun hs => ?_⟩, ?_, hfatal'⟩
          · simpa using hfault
          · have hp := hplace hs
            rw [Option.or_none] at hp
            rw [site_withSnapshot, site_atSite, hp]
          · rw [site_withSnapshot, ← Option.isSome_map (f := (·.1)), site_atSite,
              Option.isSome_or]
            simp

/-- What compares statements compares the expressions that they are part of. -/
theorem Mirrors.toTerms {α β : Type} {T : Tie} {x : Run α} {y : Run β}
    {Q : World → α → World → β → Prop} {E : World → Unwind → World → Unwind → Prop}
    (h : Mirrors T.strictTerms x y Q E) : Mirrors T.terms x y Q E :=
  h.forgive Iff.rfl id fun _ hu => .inl hu

/-- What compares statements compares the statements that they are part of. -/
theorem Leads.toTerms {α β : Type} {T : Tie} {x : Run α} {Y : Nat → Run β}
    {Q : World → Except Unwind α → (Nat → Run β) → Prop} (h : Leads T.strictTerms x Y Q) :
    Leads T.terms x Y Q :=
  h.forgive Iff.rfl id fun _ hu => .inl hu

/-- The place of an early end matters only where places are compared. -/
theorem Closes.respan {T : Tie} {span span' : Span} {u u' : Unwind} (h : Closes T span u u')
    (hs : T.sharp → span = span') : Closes T span' u u' := by
  cases u with
  | cancelled => cases u' <;> exact h
  | failed f =>
    cases u' with
    | cancelled => exact h
    | failed f' =>
      obtain ⟨⟨hfault, hmild, hplace⟩, hsome, hfatal⟩ := h
      refine ⟨⟨hfault, hmild, fun hsharp => ?_⟩, hsome, hfatal⟩
      rw [← hs hsharp]
      exact hplace hsharp

/-- A statement that is executed without failure, with an open gate. -/
theorem step_ok {N : Machine} {stmt : Stmt} {v v' : World} {flow : Flow}
    (hv : v.controls.gate.Open)
    (h : N.execute N.callees false stmt (arrive stmt v) = .done v' (.ok flow)) :
    N.step N.callees false stmt v = .done (v'.observe false stmt) (.ok flow) := by
  rw [step_open hv, h]
  rfl

/-- The target passes a label. -/
theorem Pose.Holds.passLabel {T : Tie} {π : Pose} {w v : World} (h : π.Holds T w v)
    (block : List Stmt) (label : String) (span : Span) (rest : List Stmt) :
    ∃ v', Reaches 1 (route T.target block (.label label span :: rest) v)
      (route T.target block rest v') ∧ π.Holds T w v' := by
  have hstep : T.target.step T.target.callees false (.label label span) v = .done _ (.ok .next) :=
    step_ok h.gate' rfl
  exact ⟨_, route_step hstep, (h.arriveTarget _).observeTarget false _⟩

/-- The target jumps. -/
theorem Pose.Holds.passJump {T : Tie} {π : Pose} {w v : World} (h : π.Holds T w v)
    (block : List Stmt) (label : String) (span : Span) (rest : List Stmt) :
    ∃ v', Reaches 1 (route T.target block (.goto label span :: rest) v)
      (land T.target block rest (.jump label) v') ∧ π.Holds T w v' := by
  have hstep : T.target.step T.target.callees false (.goto label span) v =
      .done _ (.ok (.jump label)) := step_ok h.gate' rfl
  exact ⟨_, route_step hstep, (h.arriveTarget _).observeTarget false _⟩

/-- The rest of a statement of the target and the way on. -/
noncomputable def concluding (N : Machine) (block rest : List Stmt) (stmt : Stmt) (z : Exec Flow)
    (v : World) : Nat → Run Flow := fun n =>
  ((z v).andThen (finish N.fatal stmt)).andThen fun v r =>
    match r with
    | .ok flow => land N block rest flow v n
    | .error u => .done v (.error u)

/-- A statement whose rest is over leads on. -/
theorem concluding_ok {N : Machine} {block rest : List Stmt} {stmt : Stmt} {z : Exec Flow}
    {v v' : World} {flow : Flow} (h : z v = .done v' (.ok flow)) :
    concluding N block rest stmt z v = land N block rest flow (v'.observe false stmt) := by
  funext n
  simp only [concluding, h]
  rfl

/-- A fatal failure in the rest of a statement stops the machine, if it may be stopped. -/
theorem concluding_fatal {t : Terms} {N : Machine} {block rest : List Stmt} {stmt : Stmt}
    {z : Exec Flow} {v v' : World} {f : Failure} (hstops : t.stops)
    (h : z v = .done v' (.error (.failed f))) (hf : N.fatal f.fault.kind = true) :
    EscapesLater t (concluding N block rest stmt z v) := by
  refine ⟨0, hstops, v', ?_⟩
  simp only [concluding, h, Run.andThen, finish, hf, if_true]

/-- An end of the source that is forgiven leads anywhere. -/
theorem Leads.spoiled {α β : Type} {t : Terms} {w : World} {u : Unwind} {Y : Nat → Run β}
    {R : World → Except Unwind α → (Nat → Run β) → Prop} (hlax : t.lax) (hu : t.spoil u) :
    Leads t (.done w (.error u)) Y R where
  forth := by
    intro w r hx
    cases hx
    exact .inl ⟨hlax, .inl ⟨u, rfl, hu⟩⟩
  back := fun hl => absurd hlax hl

/-- A machine that is stopped is forgiven. -/
theorem Leads.escaped {α β : Type} {t : Terms} {x : Run α} {Y : Nat → Run β}
    {R : World → Except Unwind α → (Nat → Run β) → Prop} (hlax : t.lax) (h : EscapesLater t Y) :
    Leads t x Y R where
  forth := fun _ => .inl ⟨hlax, .inr h⟩
  back := fun hl => absurd hlax hl

/-- The source alone decides, if every end of it is forgiven or fine. -/
theorem Leads.alone {α β : Type} {t : Terms} {x : Run α} {Y : Nat → Run β}
    {R : World → Except Unwind α → (Nat → Run β) → Prop} (hlax : t.lax)
    (h : ∀ w r, x = .done w r → t.Spoiled r ∨ R w r Y) : Leads t x Y R where
  forth := by
    intro w r hx
    exact (h w r hx).imp (fun hs => ⟨hlax, .inl hs⟩) fun hr => ⟨0, Y, .refl Y, hr⟩
  back := fun hl => absurd hlax hl

/-- With an open gate the way through a block begins with the execution of its first statement. -/
theorem route_concluding {N : Machine} {block rest : List Stmt} {stmt : Stmt} {v : World}
    (hv : v.controls.gate.Open) :
    Reaches 1 (route N block (stmt :: rest) v) (concluding N block rest stmt
      (N.execute N.callees false stmt) (arrive stmt v)) := by
  have hcons : Reaches 1 (route N block (stmt :: rest) v) _ := route_cons stmt
  rw [step_open hv] at hcons
  exact hcons

/-- The rest of a statement of the source against the rest of one of the target. -/
theorem Leads.ofRest {α : Type} {T : Tie} {x : Run α} {stmt : Stmt} {v : World} {z : Exec Flow}
    {block rest : List Stmt} {P : World → α → World → Flow → Prop} {P' : World → World → Prop}
    {R : World → Except Unwind α → (Nat → Run Flow) → Prop}
    (h : Mirrors T.terms x (z v) P fun w u v u' => Alike T.sharp none u u' ∧ P' w v)
    (hok : ∀ w a v flow, P w a v flow →
      R w (.ok a) (land T.target block rest flow (v.observe false stmt)))
    (herr : ∀ w u v u', Closes T stmt.span u u' → P' w v → R w (.error u) (halted v u')) :
    Leads T.terms x (concluding T.target block rest stmt z v) R where
  forth := by
    intro w r hx
    obtain ⟨hlax, hs | ⟨hstops, v', hv'⟩⟩ | ⟨v', r', hv', hr⟩ := h.forth hx
    · exact .inl ⟨hlax, .inl hs⟩
    · refine .inl ⟨hlax, .inr ⟨0, hstops, v', ?_⟩⟩
      simp only [concluding, hv']
      rfl
    · cases r with
      | ok a =>
        cases r' with
        | error u' => cases hr
        | ok flow =>
          refine .inr ⟨0, _, .refl _, ?_⟩
          rw [concluding_ok hv']
          exact hok w a v' flow hr
      | error u =>
        cases r' with
        | ok flow => cases hr
        | error u' =>
          by_cases hspoil : T.lax ∧ T.terms.spoil u
          · exact .inl ⟨hspoil.1, .inl ⟨u, rfl, hspoil.2⟩⟩
          · obtain ⟨u₁, hu₁, hc⟩ := hr.1.finish stmt v' fun hl hu => hspoil ⟨hl, hu⟩
            refine .inr ⟨0, _, .refl _, ?_⟩
            have hhalted : concluding T.target block rest stmt z v = halted v' u₁ := by
              funext n
              simp only [concluding, hv', Run.andThen, hu₁]
              rfl
            rw [hhalted]
            exact herr w u v' u₁ hc hr.2
  back := by
    rintro hlax n ⟨v', r', hy⟩
    obtain ⟨v₁, r₁, h₁, -⟩ := Run.andThen_eq_done.mp hy
    obtain ⟨v₂, r₂, h₂, -⟩ := Run.andThen_eq_done.mp h₁
    exact h.back hlax ⟨v₂, r₂, h₂⟩

/-- A part of the source against the first part of a statement of the target. -/
theorem Leads.ofPart {α : Type} {T : Tie} {x : Run α} {stmt : Stmt} {v : World} {y : Exec α}
    {g : α → Exec Flow} {block rest : List Stmt} {P : World → α → World → α → Prop}
    {P' : World → World → Prop} {R : World → Except Unwind α → (Nat → Run Flow) → Prop}
    (hv : v.controls.gate.Open)
    (hexec : T.target.execute T.target.callees false stmt = (y >>= g))
    (h : Mirrors T.terms x (y (arrive stmt v)) P fun w u v u' => Alike T.sharp none u u' ∧ P' w v)
    (hok : ∀ w a v b, P w a v b → R w (.ok a) (concluding T.target block rest stmt (g b) v))
    (herr : ∀ w u v u', Closes T stmt.span u u' → P' w v → R w (.error u) (halted v u')) :
    Leads T.terms x (route T.target block (stmt :: rest) v) R := by
  refine Leads.after (route_cons stmt) ⟨?_, ?_⟩
  · intro w r hx
    rw [step_open hv, hexec]
    obtain ⟨hlax, hs | ⟨hstops, v', hv'⟩⟩ | ⟨v', r', hv', hr⟩ := h.forth hx
    · exact .inl ⟨hlax, .inl hs⟩
    · refine .inl ⟨hlax, .inr ⟨0, hstops, v', ?_⟩⟩
      simp only [Exec.bind_of_error hv']
      rfl
    · cases r with
      | ok a =>
        cases r' with
        | error u' => cases hr
        | ok b =>
          refine .inr ⟨0, _, .refl _, ?_⟩
          simp only [Exec.bind_of_ok hv']
          exact hok w a v' b hr
      | error u =>
        cases r' with
        | ok b => cases hr
        | error u' =>
          by_cases hspoil : T.lax ∧ T.terms.spoil u
          · exact .inl ⟨hspoil.1, .inl ⟨u, rfl, hspoil.2⟩⟩
          · obtain ⟨u₁, hu₁, hc⟩ := hr.1.finish stmt v' fun hl hu => hspoil ⟨hl, hu⟩
            refine .inr ⟨0, _, .refl _, ?_⟩
            simp only [Exec.bind_of_error hv', Run.andThen, hu₁]
            exact herr w u v' u₁ hc hr.2
  · rintro hlax n ⟨v', r', hy⟩
    rw [step_open hv, hexec] at hy
    obtain ⟨v₁, r₁, h₁, -⟩ := Run.andThen_eq_done.mp hy
    obtain ⟨v₂, r₂, h₂, -⟩ := Run.andThen_eq_done.mp h₁
    obtain ⟨v₃, b, h₃, -⟩ | ⟨u, h₃, -⟩ := Exec.bind_eq_done.mp h₂
    · exact h.back hlax ⟨v₃, _, h₃⟩
    · exact h.back hlax ⟨_, _, h₃⟩

/-- How the target leaves a method at a site: out of the method, or behind the copy. -/
def leaving (site : Lowering.Site) : Flow :=
  match site.copy with
  | none => .leaveMethod
  | some target => .jump target.endLabel

/-- How a way of control of the source goes on in the target. -/
inductive Sends (site : Lowering.Site) : Flow → Flow → Prop where
  /-- To what follows. -/
  | next : Sends site .next .next
  /-- Behind the innermost loop. -/
  | leaveLoop {label : String} (h : site.loopEnds.head? = some label) :
    Sends site .leaveLoop (.jump label)
  /-- Out of the method. -/
  | leaveMethod : Sends site .leaveMethod (leaving site)

/-- Both sides have run statements: the pose has grown, and satisfies `next` if
control stays in the method. -/
def Flows (T : Tie) (new : String → Prop) (π : Pose) (next : Pose → Prop) (site : Lowering.Site)
    (w : World) (flow : Flow) (v : World) (flow' : Flow) : Prop :=
  Sends site flow flow' ∧ ∃ π', Grows T new π π' ∧ π'.Holds T w v ∧
    (flow ≠ .leaveMethod → π'.result = none) ∧ (flow ≠ .leaveMethod → next π')

/-- Both sides have come to an early end in related ways. -/
def Halts (T : Tie) (C : Unwind → Unwind → Prop) (new : String → Prop) (π : Pose) (w : World)
    (u : Unwind) (v : World) (u' : Unwind) : Prop :=
  C u u' ∧ ∃ π', Grows T new π π' ∧ π'.Holds T w v ∧ π'.result = none

/-- The source has run statements, and the target has come to the statements `rest`
of a block, or to where control goes instead. -/
def Post (T : Tie) (C : Unwind → Unwind → Prop) (new : String → Prop) (π : Pose)
    (next : Pose → Prop) (site : Lowering.Site) (block rest : List Stmt) (w : World)
    (r : Except Unwind Flow) (Z : Nat → Run Flow) : Prop :=
  match r with
  | .ok flow => ∃ v flow', Flows T new π next site w flow v flow' ∧
      Z = land T.target block rest flow' v
  | .error u => ∃ v u', Halts T C new π w u v u' ∧ Z = halted v u'

section Post

variable {T : Tie} {C C' : Unwind → Unwind → Prop} {new new' : String → Prop} {π π' : Pose}
  {next next' : Pose → Prop} {site : Lowering.Site} {block rest : List Stmt} {w v : World}

/-- Weaker conditions on the ways of control. -/
theorem Flows.mono {flow flow' : Flow} (h : Flows T new π' next site w flow v flow')
    (g : Grows T new' π π') (hnew : ∀ y, new y → new' y) (hnext : ∀ π'', Grows T new π' π'' →
      next π'' → next' π'') : Flows T new' π next' site w flow v flow' := by
  obtain ⟨hs, π'', hg, hh, hr, hn⟩ := h
  exact ⟨hs, π'', g.trans (hg.mono hnew), hh, hr, fun he => hnext π'' hg (hn he)⟩

/-- Weaker conditions on early ends. -/
theorem Halts.mono {u u' : Unwind} (h : Halts T C new π' w u v u') (g : Grows T new' π π')
    (hnew : ∀ y, new y → new' y) (hC : C u u' → C' u u') : Halts T C' new' π w u v u' := by
  obtain ⟨hc, π'', hg, hh, hr⟩ := h
  exact ⟨hC hc, π'', g.trans (hg.mono hnew), hh, hr⟩

/-- Weaker conditions on what a statement leads to. -/
theorem Post.mono {r : Except Unwind Flow} {Z : Nat → Run Flow}
    (h : Post T C new π' next site block rest w r Z) (g : Grows T new' π π')
    (hnew : ∀ y, new y → new' y)
    (hnext : ∀ π'', Grows T new π' π'' → next π'' → next' π'')
    (hC : ∀ u u', C u u' → C' u u') : Post T C' new' π next' site block rest w r Z := by
  cases r with
  | ok flow =>
    obtain ⟨v, flow', hf, hz⟩ := h
    exact ⟨v, flow', hf.mono g hnew hnext, hz⟩
  | error u =>
    obtain ⟨v, u', hh, hz⟩ := h
    exact ⟨v, u', hh.mono g hnew (hC u u'), hz⟩

/-- Only control that goes on meets the statements that follow. -/
theorem land_of_ne_next {flow flow' : Flow} (hs : Sends site flow flow') (hn : flow ≠ .next)
    (rest' : List Stmt) (v : World) :
    land T.target block rest flow' v = land T.target block rest' flow' v := by
  cases hs with
  | next => exact absurd rfl hn
  | leaveLoop h => rfl
  | leaveMethod =>
    unfold leaving
    split <;> rfl

/-- A source statement is over when what it does is over. -/
theorem Leads.stepSource {c : Callees} {inLoop : Bool} {stmt : Stmt} {Y : Nat → Run Flow}
    (hw : w.controls.gate.Open)
    (h : Leads T.terms (T.source.execute c inLoop stmt (arrive stmt w)) Y
      (Post T (Closes T stmt.span) new π next site block rest)) :
    Leads T.strictTerms (T.source.step c inLoop stmt w) Y
      (Post T (Closed T) new π next site block rest) := by
  rw [step_open hw]
  refine h.andThen Iff.rfl id ?_ ?_
  · intro w' r Z hpost
    cases r with
    | ok flow =>
      obtain ⟨v, flow', ⟨hs, π', hg, hh, hr, hn⟩, hz⟩ := hpost
      exact Leads.done ⟨v, flow', ⟨hs, π', hg, hh.observeSource false stmt, hr, hn⟩, hz⟩
    | error u =>
      obtain ⟨v, u', ⟨hc, π', hg, hh, hr⟩, hz⟩ := hpost
      obtain ⟨u₁, hu₁, hclosed⟩ := hc.finish w'
      rw [hu₁]
      exact Leads.done ⟨v, u', ⟨hclosed, π', hg, hh, hr⟩, hz⟩
  · rintro hlax w' u hspoil w'' r hr
    refine ⟨.cancelled, ?_, rfl⟩
    rcases hspoil with rfl | ⟨f, rfl, hf⟩
    · cases hr
      rfl
    · simp only [Simulation.finish, hf, if_true] at hr
      cases hr
      rfl

end Post

end Stepwise.Simulation
