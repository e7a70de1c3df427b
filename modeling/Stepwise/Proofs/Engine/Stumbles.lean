import Stepwise.Proofs.Engine.Watch

/-!
# Calls that stumble

A call stumbles if an argument fails behind one that its parameter is going
to refuse. The machine whose calls are wary is stopped there. A run without
such calls is the same on that machine: a watched run that has met none of the
failures it is watched for either stumbles without being watched, or ends in
the same way while it is watched and wary.
-/

namespace Stepwise

/-- One thing first and another one ever after. -/
def fork {α : Type} (a b : α) : Nat → α
  | 0 => a
  | _ + 1 => b

/-- Every end of the first member is an end of the second one and of the run
beside the family. Stops of the first member do not count, and stops of the
second one excuse everything. -/
def Run.byStumbling : Run.Comparison where
  rel := fun x y => ∀ w r, x 0 = .done w r →
    r = .error .cancelled ∨ (∃ w', x 1 = .done w' (.error .cancelled)) ∨
      x 1 = .done w r ∧ y = .done w r
  const := fun _ _ _ h => .inr (.inr ⟨h, h⟩)
  andThen := by
    intro α β x y k k' h hk hc w r hw
    obtain ⟨w₁, r₁, hx, hw⟩ := Run.andThen_eq_done.mp hw
    obtain rfl | ⟨w', hstop⟩ | ⟨hsecond, hy⟩ := h w₁ r₁ hx
    · obtain ⟨w', hw'⟩ := hc 0 w₁
      rw [hw'] at hw
      cases hw
      exact .inl rfl
    · obtain ⟨w'', hw''⟩ := hc 1 w'
      exact .inr (.inl ⟨w'', Run.andThen_eq_done.mpr ⟨w', _, hstop, hw''⟩⟩)
    · refine (hk w₁ r₁ w r hw).imp id (.imp (fun ⟨w', hw'⟩ => ⟨w', ?_⟩) fun ⟨hl, hr⟩ => ?_)
      · exact Run.andThen_eq_done.mpr ⟨w₁, r₁, hsecond, hw'⟩
      · exact ⟨Run.andThen_eq_done.mpr ⟨w₁, r₁, hsecond, hl⟩,
          Run.andThen_eq_done.mpr ⟨w₁, r₁, hy, hr⟩⟩

namespace Engine

section Calls

variable {p : Program} {call : Nat → Caller} {call' : Caller}

/-- A step that is a risk only for the wary. -/
theorem stopIf_stumbling {α : Type} {x : Nat → Exec α} {y : Exec α} (risk : Bool)
    (h : Exec.Compared Run.byStumbling x y) :
    Exec.Compared Run.byStumbling (fun n => (x n).stopIf (fork false risk n)) (y.stopIf risk) := by
  cases risk with
  | false =>
    have hplain : (fun n => (x n).stopIf (fork false false n)) = x := by
      funext n
      cases n <;> rfl
    rw [hplain]
    exact h
  | true =>
    intro w w' r hx
    obtain rfl | ⟨w₁, hstop⟩ | ⟨hsecond, hy⟩ := h w w' r hx
    · exact .inl rfl
    · exact .inr (.inl ⟨w₁, Run.andThen_eq_done.mpr ⟨w₁, _, hstop, rfl⟩⟩)
    · rcases r with (f | _) | a
      · exact .inr (.inl ⟨w', Run.andThen_eq_done.mpr ⟨w', _, hsecond, rfl⟩⟩)
      · exact .inl rfl
      · exact .inr (.inr ⟨Run.andThen_eq_done.mpr ⟨w', _, hsecond, rfl⟩,
          Run.andThen_eq_done.mpr ⟨w', _, hy, rfl⟩⟩)

/-- Arguments whose parameters are heeded only by the wary. -/
theorem evalFor_stumbling (h : CallerCompared Run.byStumbling call call') :
    ∀ params es, Exec.Compared Run.byStumbling
      (fun n => evalFor p (call n) (fork [] params n) es) (evalFor p call' params es)
  | _, [] => by
    simp only [evalFor]
    exact .const _
  | params, e :: rest => by
    have htail : ∀ n, (fork [] params n).tail = fork [] params.tail n := fun n => by
      cases n <;> rfl
    simp only [evalFor, htail]
    refine (eval_compared h e).bind fun v => ?_
    have hrest := stopIf_stumbling (params.head?.any fun param => !param.shape.accepts v)
      (evalFor_stumbling h params.tail rest)
    have hrisk : ∀ n, ((fork [] params n).head?.any fun param => !param.shape.accepts v) =
        fork false (params.head?.any fun param => !param.shape.accepts v) n := fun n => by
      cases n <;> rfl
    simp only [hrisk]
    exact hrest.bind fun _ => .const _

/-- The value of an expression that only the wary find warily. -/
theorem valueOf_stumbling (h : CallerCompared Run.byStumbling call call') (e : Expr) :
    Exec.Compared Run.byStumbling (fun n => valueOf p (fork false true n) (call n) e)
      (valueOf p true call' e) := by
  cases e with
  | call method args span =>
    have hheeded : ∀ n, p.heeded (fork false true n) method =
        fork [] (p.heeded true method) n := fun n => by
      cases n with
      | zero => exact p.heeded_false method
      | succ n => rfl
    simp only [valueOf, hheeded]
    exact calling_compared h method (evalFor_stumbling h _ args)
  | _ => exact eval_compared h _

theorem valueOfOption_stumbling (h : CallerCompared Run.byStumbling call call') :
    ∀ e, Exec.Compared Run.byStumbling (fun n => valueOfOption p (fork false true n) (call n) e)
      (valueOfOption p true call' e)
  | some e => valueOf_stumbling h e
  | none => .const _

end Calls

namespace Machine

/-- The machine whose calls are wary, or not. -/
def withCare (M : Machine) (wary : Bool) : Machine := { M with wary }

variable (code : Code) (kinds : FaultKind → Bool)

/-- The engine watched for some kinds of failure, and the engine whose calls are wary. -/
def watchedOrWary : Nat → Machine :=
  fork ((engine code).watched kinds) ((engine code).withCare true)

variable {code kinds} {c : Nat → Callees} {c' : Callees}

/-- What a statement does is the same unless it stumbles. -/
theorem execute_stumbling (h : CalleesCompared Run.byStumbling c c') (inLoop : Bool)
    (stmt : Stmt) :
    Exec.Compared Run.byStumbling (fun n => (watchedOrWary code kinds n).execute (c n) inLoop stmt)
      (((engine code).withCare true).execute c' inLoop stmt) := by
  have hwary : ∀ n, (watchedOrWary code kinds n).wary = fork false true n := fun n => by
    cases n <;> rfl
  have hcode : ∀ n, (watchedOrWary code kinds n).code = code := fun n => by cases n <;> rfl
  have hreturned : ∀ n, (watchedOrWary code kinds n).returned = eval code.program := fun n => by
    cases n <;> rfl
  have hplain := Engine.execute_compared (p := code.program) h inLoop stmt
  unfold execute
  simp only [hwary, hcode, hreturned]
  split
  · exact (eval_compared h.call _).bind fun _ => .const _
  · exact (valueOfOption_stumbling h.call _).bind fun _ => .const _
  · exact (valueOf_stumbling h.call _).bind fun _ =>
      (assign_compared h.call _ _).bind fun _ => .const _
  · exact (valueOf_stumbling h.call _).bind fun _ => .const _
  · exact hplain

/-- Watching a step that is the same unless it stumbles. -/
theorem stopOn_stumbling {α : Type} {x : Nat → Exec α} {y : Exec α}
    (h : Exec.Compared Run.byStumbling x y) :
    Exec.Compared Run.byStumbling
      (fun n => (x n).stopOn (watchedOrWary code kinds n).fatal) (y.stopOn kinds) := by
  intro w w' r hx
  obtain ⟨w₁, r₁, hx, hr⟩ := Run.andThen_eq_done.mp hx
  show _ ∨ (∃ w', (x 1).stopOn (fun _ => false) w = _) ∨ (x 1).stopOn (fun _ => false) w = _ ∧ _
  rw [Exec.stopOn_none]
  obtain rfl | hstop | ⟨hsecond, hy⟩ := h w w₁ r₁ hx
  · cases hr
    exact .inl rfl
  · exact .inr (.inl hstop)
  · have hwatched : y.stopOn kinds w = .done w' r := Run.andThen_eq_done.mpr ⟨w₁, r₁, hy, hr⟩
    rcases r₁ with (f | _) | a
    · change (if kinds f.fault.kind then _ else _) = _ at hr
      split at hr
      · cases hr
        exact .inl rfl
      · cases hr
        exact .inr (.inr ⟨hsecond, hwatched⟩)
    · cases hr
      exact .inl rfl
    · cases hr
      exact .inr (.inr ⟨hsecond, hwatched⟩)

/-- A statement is the same unless it stumbles. -/
theorem step_stumbling (h : CalleesCompared Run.byStumbling c c') (inLoop : Bool) (stmt : Stmt) :
    Exec.Compared Run.byStumbling (fun n => (watchedOrWary code kinds n).step (c n) inLoop stmt)
      ((((engine code).withCare true).watched kinds).step c' inLoop stmt) :=
  stopOn_stumbling (around_compared stmt (execute_stumbling h inLoop stmt))

/-- One unit of fuel more keeps the relation. -/
theorem next_stumbling {s : Nat → Stage} {s' : Stage} (h : StagesCompared Run.byStumbling s s') :
    StagesCompared Run.byStumbling (fun n => (watchedOrWary code kinds n).next (s n))
      ((((engine code).withCare true).watched kinds).next s') where
  callees := by
    have hsame : (fun n => ((watchedOrWary code kinds n).next (s n)).callees) =
        fun n => ((((engine code).withCare true).watched kinds).next (s n)).callees := by
      funext n
      cases n <;> rfl
    rw [hsame]
    exact (next_compared _ h).callees
  walk := by
    intro b l rest
    refine Exec.Compared.bind ?_ (goOn_compared fun rest => h.walk b l rest)
    cases rest with
    | nil => exact .const _
    | cons stmt rest => exact (step_stumbling h.callees l stmt).bind fun _ => .const _

/-- With every amount of fuel the runs are the same unless one stumbles. -/
theorem stage_stumbling (fuel : Nat) :
    StagesCompared Run.byStumbling (fun n => (watchedOrWary code kinds n).stage fuel)
      ((((engine code).withCare true).watched kinds).stage fuel) := by
  induction fuel with
  | zero =>
    refine ⟨⟨?_, ?_, ?_⟩, ?_⟩
    · exact fun _ _ _ _ _ h => nomatch h
    · exact fun _ _ _ _ _ h => nomatch h
    · exact fun _ _ _ _ _ _ h => nomatch h
    · exact fun _ _ _ _ _ _ h => nomatch h
  | succ fuel ih => exact next_stumbling ih

end Machine

/-- In a call that a statement makes an argument fails behind one that its
parameter is going to refuse. As long as the gate is open, nothing else stops
the machine. -/
def Stumbles (code : Code) (stack : Nat) (m : Method) (args : List Val) (w : World) : Prop :=
  ∃ fuel w', ((Machine.engine code).withCare true).invokeOn fuel stack m args w =
    .done w' (.error .cancelled)

/-- A call that comes to an end warily does not stumble. -/
theorem not_stumbles {code : Code} {fuel stack : Nat} {m : Method} {args : List Val}
    {w w' : World} {r : Except Unwind Val}
    (h : ((Machine.engine code).withCare true).invokeOn fuel stack m args w = .done w' r)
    (hr : r ≠ .error .cancelled) : ¬ Stumbles code stack m args w := by
  rintro ⟨fuel', v, hv⟩
  have htends := ((Machine.engine code).withCare true).invokeOn_tends stack m args w
  have hend := htends.limit.mpr ⟨fuel, h⟩
  have hstop := htends.limit.mpr ⟨fuel', hv⟩
  rw [hend] at hstop
  cases hstop
  exact hr rfl

/-- A call that meets no failure of some kinds stumbles or ends in the same way warily. -/
theorem EndsWithout.stumbles_or {kinds : FaultKind → Bool} {code : Code} {stack : Nat}
    {m : Method} {args : List Val} {w w' : World} {r : Except Unwind Val}
    (h : EndsWithout kinds code stack m args w w' r) :
    Stumbles code stack m args w ∨
      ∃ fuel, (((Machine.engine code).withCare true).watched kinds).invokeOn fuel stack m args w =
        .done w' r := by
  obtain ⟨fuel, hrun, hr⟩ := h
  have hstage := @Machine.stage_stumbling code kinds fuel
  have hcall := Machine.stopOn_stumbling (hstage.callees.call m args)
    { w with stack := .fresh stack } w' r hrun
  obtain hstopped | ⟨w₁, hstumbles⟩ | ⟨-, hwary⟩ := hcall
  · exact absurd hstopped hr
  · exact .inl ⟨fuel, w₁, hstumbles⟩
  · exact .inr ⟨fuel, hwary⟩

end Engine

end Stepwise
