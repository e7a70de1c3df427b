import Stepwise.Proofs.Simulation.Call

/-!
# Copies of callees

A call of the source against a copy of the callee in the target. The target
first evaluates the arguments and declares a variable for each, then the
receiver; the source makes a frame and binds its parameters, each of which is
linked to the variable that is there already. The body is compared in the
copy, and when the source leaves the frame the receiver holds the result.
-/

namespace Stepwise.Simulation

open Engine
open Lowering hiding Target

variable {T : Tie} {π : Pose} {w v : World}

/-- A declaration in the target alone lets the pose grow. -/
theorem Pose.Holds.grows_declarePinned (h : π.Holds T w v) {new : String → Prop} (y : String)
    (hy : new y) (shape : Shape) (value : Val) :
    Grows T new π { π with
      pins := (v.memory.cells.size, ⟨y, shape, value⟩) :: π.pins
      flat := Scope.bind y v.memory.cells.size π.flat } where
  links := fun _ hp => hp
  pins := ⟨[_], rfl⟩
  slot := rfl
  outer := rfl
  below := rfl
  rest := rfl
  under := rfl
  fresh := fun _ he => .inl he
  fresh' := by
    intro e he
    refine (Scope.mem_bind he).symm.imp id ?_
    rintro rfl
    exact ⟨h.memory.base_le', h.memory.next_notMem'⟩
  same := fun z hz => Scope.lookup_bind_ne _ _ fun he => hz (he ▸ hy)

/-- A variable of the target that was just declared is known. -/
theorem Pose.Holds.later_declarePinned (h : π.Holds T w v) (hs : ¬ T.sharp) (recalled : String)
    (n : Nat) (shape : Shape) (value : Val) :
    Later T n (n + 1) π { π with
      pins := (v.memory.cells.size, ⟨Lowering.fresh recalled (n + 1), shape, value⟩) :: π.pins
      flat := Scope.bind (Lowering.fresh recalled (n + 1)) v.memory.cells.size π.flat } :=
  { h.grows_declarePinned (Lowering.fresh recalled (n + 1))
      ⟨hs, recalled, n + 1, Nat.lt_succ_self n, Nat.le_refl _, rfl⟩ shape value with
    inner := rfl
    result := rfl
    bounds := Nat.le_succ n }

/-- Variables of the target that are ready to become the parameters of a copy. -/
inductive Ready : Nat → List Param → List Val → List (Nat × Cell) → Prop where
  /-- There are no parameters. -/
  | nil {n : Nat} : Ready n [] [] []
  /-- One parameter and others. -/
  | cons {n : Nat} {param : Param} {params : List Param} {value : Val} {values : List Val}
    {j : Nat} {cells : List (Nat × Cell)} (fits : param.shape.accepts value = true)
    (rest : Ready (n + 1) params values cells) :
    Ready n (param :: params) (value :: values)
      ((j, ⟨Lowering.fresh param.name (n + 1), param.shape, value⟩) :: cells)

/-- The target has declared variables for the arguments of a copy. -/
def Declared (T : Tie) (π : Pose) (n : Nat) (params : List Param) (w : World) (values : List Val)
    (v : World) : Prop :=
  ∃ π' cells, Ready n params values cells ∧ Later T n (n + params.length) π π' ∧
    π'.pins = cells.reverse ++ π.pins ∧ (∀ e ∈ cells, π'.find' e.2.name = some e.1) ∧
    π'.Holds T w v

/-- There are as many values as parameters, and some parameter refuses its value. -/
inductive Misfit : List Param → List Val → Prop where
  /-- The first one does. -/
  | here {param : Param} {params : List Param} {value : Val} {values : List Val}
    (refuses : ¬ param.shape.accepts value = true) (same : params.length = values.length) :
    Misfit (param :: params) (value :: values)
  /-- A later one does. -/
  | later {param : Param} {params : List Param} {value : Val} {values : List Val}
    (rest : Misfit params values) : Misfit (param :: params) (value :: values)

/-- What a step of the source leads to in the target when a copy is prepared. A wary source may
find values that are going to be refused; the target has refused them already. -/
def Prepares (T : Tie) (π : Pose) (n : Nat) (params : List Param) (block rest : List Stmt)
    (span : Span) (w : World) (r : Except Unwind (List Val)) (Z : Nat → Run Flow) : Prop :=
  match r with
  | .ok values => (∃ v, Declared T π n params w values v ∧ Z = route T.target block rest v) ∨
      Misfit params values
  | .error u => ∃ v u', Halts T (Closes T span) (T.Fresh n (n + params.length)) π w u v u' ∧
      Z = halted v u'

/-- A variable takes a value that fits. -/
theorem newVariable_takes {bind : World → Cell → World} {name : String} {shape : Shape}
    {value : Val} (h : shape.accepts value = true) (w : World) :
    newVariable bind name shape value w = .done (bind w ⟨name, shape, value⟩) (.ok ()) := by
  unfold newVariable
  rw [Cell.holding, if_pos h]
  rfl

/-- A variable refuses a value that does not fit. -/
theorem newVariable_refuses {bind : World → Cell → World} {name : String} {shape : Shape}
    {value : Val} (h : ¬ shape.accepts value = true) (w : World) :
    newVariable bind name shape value w =
      .done w (.error (.failed { fault := .shapeMismatch value.typeName shape name })) := by
  unfold newVariable
  rw [Cell.holding, if_neg h]
  rfl

/-- Declaring a variable with a value that fits. -/
theorem newVariable_ok {name : String} {shape : Shape} {value : Val}
    (h : shape.accepts value = true) (v : World) :
    (newVariable World.declare name shape value >>= fun _ => (pure .next : Exec Flow)) v =
      .done (v.declare ⟨name, shape, value⟩) (.ok .next) :=
  Exec.bind_of_ok (newVariable_takes h v)

/-- Declaring a variable with a value that does not fit. -/
theorem newVariable_error {name : String} {shape : Shape} {value : Val}
    (h : ¬ shape.accepts value = true) (v : World) :
    (newVariable World.declare name shape value >>= fun _ => (pure .next : Exec Flow)) v =
      .done v (.error (.failed { fault := .shapeMismatch value.typeName shape name })) :=
  Exec.bind_of_error (newVariable_refuses h v)

/-- The target is stopped at a value that does not fit. A wary source finds the other values or
is stopped, too. -/
theorem unfit_leads (hlax : T.lax) {low n : Nat} {param : Param} {params heeded : List Param}
    {name : String} {a : Val} {xs : Exec (List Val)} {es : List Expr}
    (hrefuses : ¬ param.shape.accepts a = true) (hlen : params.length = es.length)
    (hheeded : heeded = if T.source.wary then param :: params else [])
    (others : Fed T low π heeded.tail xs es) {block behind rest : List Stmt} {stmt : Stmt}
    {span : Span} :
    Leads T.terms
      ((xs.stopIf (heeded.head?.any fun param => !param.shape.accepts a) >>= fun values =>
        pure (a :: values)) w)
      (concluding T.target block behind stmt
        (newVariable World.declare name param.shape a >>= fun _ => pure .next) v)
      (Prepares T π n (param :: params) block rest span) := by
  cases hwary : T.source.wary with
  | false =>
    exact Leads.escaped hlax
      (concluding_fatal hwary (newVariable_error hrefuses v) (T.fatal_shape hlax).2)
  | true =>
    have hrisk : (heeded.head?.any fun param => !param.shape.accepts a) = true := by
      simp [hheeded, hwary, hrefuses]
    rw [hrisk]
    refine Leads.alone hlax fun w' r hend => ?_
    obtain ⟨w₁, values, hvalues, hend⟩ | ⟨u, hu, rfl⟩ := Exec.bind_eq_done.mp hend
    · cases hend
      have hlength := others.length_eq (Exec.ok_of_stopIf hvalues)
      exact .inr (.inr (.here hrefuses (hlen.trans hlength.symm)))
    · exact .inl ⟨u, rfl, .inl (Exec.cancelled_of_stopIf hu)⟩

/-- Arguments are evaluated and declared one by one. -/
theorem declarations_lead (hlax : T.lax) {n : Nat} {xs : Exec (List Val)} {es : List Expr}
    {params heeded : List Param} (hlen : params.length = es.length)
    (hheeded : heeded = if T.source.wary then params else [])
    (hfed : Fed T n π heeded xs es)
    (h : π.Holds T w v) (hr : π.result = none) (block rest : List Stmt) (span : Span) :
    Leads T.terms (xs w) (route T.target block (declarations span n params es ++ rest) v)
      (Prepares T π n params block rest span) := by
  induction params generalizing n π xs es w v heeded with
  | nil =>
    cases hfed with
    | cons => cases hlen
    | nil => exact .done (.inl ⟨v, ⟨π, [], .nil, .refl _ _, rfl, by simp, h⟩, rfl⟩)
  | cons param params ih =>
    cases hfed with
    | nil => cases hlen
    | @cons _ x e xs es first others =>
    have hsharp := Tie.not_sharp hlax
    have hexec : T.target.execute T.target.callees false
        (.declare (Lowering.fresh param.name (n + 1)) param.shape (some e) span) =
        (eval T.target.code.program T.target.call e >>= fun a =>
          newVariable World.declare (Lowering.fresh param.name (n + 1)) param.shape a >>=
            fun _ => pure .next) := by
      rw [← valueOf_false, ← Tie.target_wary_of_lax hlax]
      rfl
    have htail : heeded.tail = if T.source.wary then params else [] := by
      rw [hheeded]
      split <;> rfl
    rw [declarations, List.cons_append]
    refine Leads.bind (Q := fun w r Z => match r with
      | .ok a => ∃ v, π.Holds T w v ∧ Z = concluding T.target block
          (declarations span (n + 1) params es ++ rest)
          (.declare (Lowering.fresh param.name (n + 1)) param.shape (some e) span)
          (newVariable World.declare (Lowering.fresh param.name (n + 1)) param.shape a >>=
            fun _ => pure .next) v
      | .error u => ∃ v u', (Closes T span u u' ∧ π.Holds T w v) ∧ Z = halted v u') ?_ ?_ ?_
    · refine Leads.ofPart h.gate' hexec (first n π (.refl n π) w _ (h.arriveTarget _)) ?_ ?_
      · rintro w a v b ⟨rfl, hw⟩
        exact ⟨v, hw, rfl⟩
      · exact fun w u v u' hc hw => ⟨v, u', ⟨hc, hw⟩, rfl⟩
    · rintro w a Z ⟨v, hw, rfl⟩
      by_cases hfit : param.shape.accepts a = true
      · have hcalm : (heeded.head?.any fun param => !param.shape.accepts a) = false := by
          rw [hheeded]
          split <;> simp [hfit]
        rw [hcalm, concluding_ok (newVariable_ok hfit v)]
        have hlater := hw.later_declarePinned hsharp param.name n param.shape a
        have hdeclared := (hw.declarePinned
          ⟨Lowering.fresh param.name (n + 1), param.shape, a⟩).observeTarget false
            (.declare (Lowering.fresh param.name (n + 1)) param.shape (some e) span)
        have hrest := ih (Nat.succ.inj hlen) htail (others.later hlater) hdeclared hr
        refine Leads.bind hrest ?_ ?_
        · rintro w values Z (⟨v', ⟨π', cells, hready, hl, hpins, hfind, hw'⟩, rfl⟩ | hmisfit)
          · refine .done (.inl ⟨v', ⟨π', (v.memory.cells.size, _) :: cells, .cons hfit hready, ?_,
              ?_, ?_, hw'⟩, rfl⟩)
            · have := hlater.trans hl
              rwa [show n + 1 + params.length = n + (params.length + 1) by omega] at this
            · rw [hpins, List.reverse_cons, List.append_assoc]
              rfl
            · intro e' he'
              rcases List.mem_cons.mp he' with rfl | he'
              · have hup : UpTo (n + 1) (Lowering.fresh param.name (n + 1)) :=
                  ⟨param.name, n + 1, Nat.le_refl _, rfl⟩
                refine (hl.find'_eq (Tie.not_fresh_of_upTo hup)).trans ?_
                exact search_bind_self _ _ _ _
              · exact hfind e' he'
          · exact .done (.inr (.later hmisfit))
        · rintro w u Z ⟨v', u', hh, rfl⟩
          refine ⟨v', u', hh.mono (hlater.toGrows.mono ?_) ?_ id, rfl⟩
          · exact fun y hy => hy.mono (Nat.le_refl _) (by simp only [List.length_cons]; omega)
          · exact fun y hy => hy.mono (Nat.le_succ n) (by simp only [List.length_cons]; omega)
      · exact unfit_leads hlax hfit (Nat.succ.inj hlen) hheeded others
    · rintro w u Z ⟨v, u', ⟨hc, hw⟩, rfl⟩
      exact ⟨v, u', ⟨hc, π, .refl π, hw, hr⟩, rfl⟩

/-- The pose at the start of a copy: the source is in a new frame, and the
result goes to the receiver. -/
def Pose.copied (π : Pose) (frames : List Frame) (receiver : String) (j : Nat)
    (pins : List (Nat × Cell)) : Pose :=
  { π with
    pins := pins ++ π.held
    slot := some (receiver, j)
    result := none
    inner := []
    outer := []
    below := frames }

/-- Without a result the frame of the target has none. -/
theorem Pose.answer_eq_none (h : π.result = none) : π.answer = none := by
  unfold Pose.answer
  split
  · rfl
  · exact h

/-- The source makes a frame where the target has a copy. -/
theorem Pose.Holds.enterCopy (h : π.Holds T w v) (hlax : T.lax) (hr : π.result = none)
    {receiver : String} {j : Nat} {pins : List (Nat × Cell)}
    (hpins : π.pins = (j, ⟨receiver, .dynamic, .null⟩) :: pins) (m : Method) :
    (π.copied w.stack.frames receiver j pins).Holds T (w.pushFrame m) v where
  shares := { h.shares with }
  gate := h.gate
  stackId := h.stackId
  memory := by
    refine h.memory.perm ?_
    have hown : (π.copied w.stack.frames receiver j pins).own =
        (pins ++ π.held) ++ [(j, ⟨receiver, .dynamic, .null⟩)] := rfl
    rw [hown, Pose.own, hpins, List.cons_append, ← List.singleton_append]
    exact List.perm_append_comm
  source := w.stack.stands_pushFrame m.id m.name
  target := by
    have := h.target
    rwa [Pose.answer_eq_none hr] at this
  depth_le := by
    have hdepth := h.stackDepth.1
    rw [w.stack.depth_eq] at hdepth
    show π.under.length ≤ w.stack.frames.length
    rw [hdepth]
    exact Nat.le_succ_of_le h.depth_le
  depth_eq := fun hl => absurd hlax hl

/-- The source is inside a copy, with its parameters bound. -/
structure Entered (T : Tie) (π₀ π : Pose) (rest : List (Nat × Cell)) : Prop where
  /-- Links are kept. -/
  links : ∀ p ∈ π₀.links, p ∈ π.links
  /-- Known variables are those of before without the parameters. -/
  pins : π.pins = rest
  /-- The receiver is the slot. -/
  slot : π.slot = π₀.slot
  /-- There is no result yet. -/
  result : π.result = π₀.result
  /-- The source has one scope. -/
  outer : π.outer = π₀.outer
  /-- The frames of the source are the same. -/
  below : π.below = π₀.below
  /-- The innermost scope of the target is the same. -/
  flat : π.flat = π₀.flat
  /-- The other scopes of the target are the same. -/
  others : π.rest = π₀.rest
  /-- The frames of the target are the same. -/
  under : π.under = π₀.under
  /-- Parameters are new variables of the source. -/
  fresh : ∀ e ∈ π.inner, e ∈ π₀.inner ∨ (T.base ≤ e.2 ∧ e.2 ∉ π₀.links.map (·.1))

/-- Binding a value that fits to a local name. -/
theorem newVariable_local {name : String} {shape : Shape} {value : Val} {inner : Scope}
    {outer : List Scope} {result : Option Val} {below : List Frame}
    (h : shape.accepts value = true) (hw : w.stack.Stands (inner :: outer) result below) :
    newVariable World.declareLocal name shape value w =
      .done (w.declare ⟨name, shape, value⟩) (.ok ()) := by
  rw [newVariable_takes h, Pose.Holds.declareLocal_eq hw rfl]

/-- There are as many values as parameters. -/
theorem Misfit.length_eq {params : List Param} {values : List Val} (h : Misfit params values) :
    params.length = values.length := by
  induction h with
  | here _ same => rw [List.length_cons, List.length_cons, same]
  | later _ ih => rw [List.length_cons, List.length_cons, ih]

/-- A value that does not fit is refused when it is bound. -/
theorem Misfit.bindArgs {params : List Param} {values : List Val} (h : Misfit params values)
    (w : World) : ∃ w' f, Engine.bindArgs params values w = .done w' (.error (.failed f)) ∧
      f.fault.kind = .notAssignable := by
  have hrefused : ∀ {param : Param} {params : List Param} {value : Val} {values : List Val} w,
      ¬ param.shape.accepts value = true → ∃ w' f,
      Engine.bindArgs (param :: params) (value :: values) w = .done w' (.error (.failed f)) ∧
        f.fault.kind = .notAssignable :=
    fun {param _ value _} w hrefuses =>
      ⟨w, { fault := .shapeMismatch value.typeName param.shape param.name },
        Exec.bind_of_error (newVariable_refuses hrefuses w), rfl⟩
  induction h generalizing w with
  | here refuses _ => exact hrefused w refuses
  | @later param params value values _ ih =>
    by_cases hfit : param.shape.accepts value = true
    · obtain ⟨w', f, hbind, hkind⟩ := ih (w.declareLocal ⟨param.name, param.shape, value⟩)
      exact ⟨w', f, (Exec.bind_of_ok (newVariable_takes hfit w)).trans hbind, hkind⟩
    · exact hrefused w hfit

/-- A call with a value that does not fit is forgiven. -/
theorem Misfit.spoiled {callee : Method} {values : List Val} (h : Misfit callee.params values)
    (hlax : T.lax) {β : Type} {Y : Nat → Run β}
    {R : World → Except Unwind Val → (Nat → Run β) → Prop} (w : World) :
    Leads T.terms (T.source.call callee values w) Y R := by
  refine Leads.congr ?_ (T.source.call_same callee values w).symm
  unfold callBy
  by_cases hmax : T.source.code.limits.maxCallDepth ≤ w.stack.depth
  · rw [if_pos hmax]
    exact .spoiled hlax (.inr ⟨_, rfl, T.fatal_depth hlax⟩)
  · obtain ⟨w', f, hbind, hkind⟩ := h.bindArgs (w.pushFrame callee)
    have hfatal : T.source.fatal f.fault.kind = true := hkind ▸ (T.fatal_shape hlax).1
    rw [if_neg hmax, if_neg (by simp [h.length_eq])]
    have hframe : inFrame callee ((Engine.bindArgs callee.params values).bind fun _ =>
        runBody T.source.callees.block callee) w = .done w'.popFrame.2 (.error (.failed f)) := by
      unfold inFrame
      rw [show (Engine.bindArgs callee.params values).bind _ (w.pushFrame callee) = _ from
        Exec.bind_of_error hbind]
      rfl
    rw [hframe]
    exact .spoiled hlax (.inr ⟨f, rfl, hfatal⟩)

/-- The source binds its parameters to the variables that are ready. -/
theorem bindArgs_adopted (hlax : T.lax) {n : Nat} {params : List Param} {values : List Val}
    {cells rest : List (Nat × Cell)} {es : List Expr}
    (hready : Ready n params values cells) (hlen : params.length = es.length)
    (table : List (String × String))
    (h : π.Holds T w v) (hpins : π.pins = cells.reverse ++ rest)
    (hfind : ∀ e ∈ cells, π.find' e.2.name = some e.1)
    (hs : π.Sees (table.lookup ·) fun _ => True) :
    ∃ w' π', bindArgs params values w = .done w' (.ok ()) ∧ Entered T π π' rest ∧
      π'.Holds T w' v ∧ π'.Sees ((paramTable n params es ++ table).lookup ·) fun _ => True := by
  induction hready generalizing π w es table with
  | nil =>
    have hentered : Entered T π π rest :=
      ⟨fun _ hp => hp, hpins, rfl, rfl, rfl, rfl, rfl, rfl, rfl, fun _ he => .inl he⟩
    exact ⟨w, π, rfl, hentered, h, by cases es <;> exact hs⟩
  | @cons n param params value values j cells fits hrest ih =>
    cases es with
    | nil => cases hlen
    | cons e es =>
      rw [List.reverse_cons, List.append_assoc, List.singleton_append] at hpins
      have htwins : Twins (¬ T.lax) ⟨param.name, param.shape, value⟩
          ⟨Lowering.fresh param.name (n + 1), param.shape, value⟩ :=
        ⟨rfl, rfl, fun hl => absurd hlax hl⟩
      have hdeclared := h.declareAdopted hpins htwins
      have hsees : Pose.Sees { π with
          links := (w.memory.cells.size, j) :: π.links
          pins := cells.reverse ++ rest
          inner := Scope.bind param.name w.memory.cells.size π.inner }
          (((param.name, Lowering.fresh param.name (n + 1)) :: table).lookup ·) (fun _ => True) :=
        hs.declare (by simp) (search_bind_self _ _ _ _) (hfind _ List.mem_cons_self)
          List.mem_cons_self (fun p hp => List.mem_cons_of_mem _ hp)
          (fun z hz => search_bind_ne _ _ _ hz)
        (fun _ _ _ _ _ => rfl)
        (fun z hz _ => ⟨trivial, by simp [List.lookup_cons, beq_eq_false_iff_ne.mpr hz]⟩)
      obtain ⟨w', π', hbind, hent, hw', hs'⟩ := ih (Nat.succ.inj hlen) _ hdeclared rfl
        (fun e' he' => hfind e' (List.mem_cons_of_mem _ he')) hsees
      refine ⟨w', π', ?_, ?_, hw', ?_⟩
      · show (newVariable World.declareLocal param.name param.shape value >>= fun _ =>
          bindArgs params values) w = _
        rw [Exec.bind_of_ok (newVariable_local fits h.source)]
        exact hbind
      · refine { hent with
          links := fun p hp => hent.links p (List.mem_cons_of_mem _ hp)
          fresh := ?_ }
        intro e' he'
        rcases hent.fresh e' he' with he' | ⟨hbase, hnot⟩
        · refine (Scope.mem_bind he').symm.imp id ?_
          rintro rfl
          exact ⟨h.memory.base_le, h.memory.next_notMem⟩
        · exact .inr ⟨hbase, fun hm => hnot (List.mem_cons_of_mem _ hm)⟩
      · rw [paramTable, List.append_assoc]
        exact hs'

/-- A copy from the pose at its site, `π`, over the pose with all variables
declared, `π₀`, and the pose with the parameters bound, `π₁`, to one in its
body, `π₂`. -/
structure Inside (T : Tie) (low mid high : Nat) (frames : List Frame) (receiver : String) (j : Nat)
    (cells : List (Nat × Cell)) (π π₀ π₁ π₂ : Pose) : Prop where
  /-- The variables were declared. -/
  later : Later T low mid π π₀
  /-- Receiver and parameters were declared last. -/
  pins : π₀.pins = (j, ⟨receiver, .dynamic, .null⟩) :: (cells.reverse ++ π.pins)
  /-- The parameters were bound. -/
  entered : Entered T (π₀.copied frames receiver j (cells.reverse ++ π.pins)) π₁
    (π.pins ++ π₀.held)
  /-- The body was run so far. -/
  grows : Grows T (T.Fresh mid high) π₁ π₂
  /-- Names are only added. -/
  bounds : mid ≤ high

namespace Inside

variable {low mid high : Nat} {frames : List Frame} {receiver : String} {j : Nat}
  {cells : List (Nat × Cell)} {π₀ π₁ π₂ : Pose}

/-- The pose behind a copy: the receiver holds the result. -/
def behind (π π₀ π₂ : Pose) (receiver : String) (j : Nat) : Pose :=
  { π₀ with
    pins := (j, ⟨receiver, .dynamic, π₂.result.getD .null⟩) :: π.pins
    flat := π₂.flat }

/-- What the slot of the caller holds is the same throughout. -/
theorem held_eq (h : Inside T low mid high frames receiver j cells π π₀ π₁ π₂) :
    π₀.held = π.held := by
  simp only [Pose.held, h.later.slot, h.later.result]

/-- What is known in the copy includes what was known before. -/
theorem own_perm (h : Inside T low mid high frames receiver j cells π π₀ π₁ π₂) :
    ∃ more, π₂.own.Perm (more ++ (behind π π₀ π₂ receiver j).own) := by
  obtain ⟨more, hmore⟩ := h.grows.pins
  have hheld : π₂.held = [(j, ⟨receiver, .dynamic, π₂.result.getD .null⟩)] := by
    simp only [Pose.held, h.grows.slot, h.entered.slot]
    rfl
  have hown : (behind π π₀ π₂ receiver j).own =
      (j, ⟨receiver, .dynamic, π₂.result.getD .null⟩) :: (π.pins ++ π₀.held) := rfl
  refine ⟨more, ?_⟩
  rw [Pose.own, hheld, hmore, h.entered.pins, hown, List.append_assoc]
  refine List.Perm.append_left more ?_
  exact List.perm_append_comm

/-- The pose behind a copy comes later than the one before it. -/
theorem later_behind (h : Inside T low mid high frames receiver j cells π π₀ π₁ π₂) :
    Later T low high π (behind π π₀ π₂ receiver j) := by
  have hl := h.later
  refine { hl with pins := ⟨[_], rfl⟩, fresh' := ?_, same := ?_, bounds := ?_ }
  · intro e he
    rcases h.grows.fresh' e he with he | ⟨hbase, hlinks, hown⟩
    · rw [h.entered.flat] at he
      exact hl.fresh' e he
    · refine .inr ⟨hbase, fun hm => hlinks ?_, fun hm => hown ?_⟩
      · obtain ⟨p, hp, hpe⟩ := List.mem_map.mp hm
        exact List.mem_map.mpr ⟨p, h.entered.links p (hl.links p hp), hpe⟩
      · rw [Pose.own, h.entered.pins, List.append_assoc, ← List.append_assoc, List.map_append,
          h.held_eq]
        exact List.mem_append_left _ hm
  · intro y hy
    have h₁ := h.grows.same y fun hf => hy (hf.mono hl.bounds (Nat.le_refl _))
    have h₂ := hl.same y fun hf => hy (hf.mono (Nat.le_refl _) h.bounds)
    rw [h.entered.flat] at h₁
    exact h₁.trans h₂
  · exact Nat.le_trans hl.bounds h.bounds

/-- The source leaves the frame of a copy. -/
theorem leave {w₀ v₀ w' v' : World}
    (h : Inside T low mid high w₀.stack.frames receiver j cells π π₀ π₁ π₂)
    (hr : π.result = none) (hw₀ : π₀.Holds T w₀ v₀) (hw : π₂.Holds T w' v') :
    (behind π π₀ π₂ receiver j).Holds T w'.popFrame.2 v' ∧ w'.popFrame.1 = π₂.result := by
  have hsource : w'.stack.Stands [π₂.inner] π₂.result w₀.stack.frames := by
    have := hw.source
    rwa [h.grows.outer, h.entered.outer, h.grows.below, h.entered.below] at this
  obtain ⟨hresult, hpop, hid, hids⟩ := hsource.pop
  have hlinks : ∀ p ∈ π₀.links, p ∈ π₂.links :=
    fun p hp => h.grows.links p (h.entered.links p hp)
  have hfresh : ∀ i ∈ π₂.inner.ids, T.base ≤ i ∧ i ∉ π₀.links.map (·.1) := by
    intro i hi
    obtain ⟨e, he, rfl⟩ := List.mem_map.mp hi
    rcases h.grows.fresh e he with he | ⟨hbase, hnot⟩
    · exact (h.entered.fresh e he).resolve_left List.not_mem_nil
    · refine ⟨hbase, fun hm => hnot ?_⟩
      obtain ⟨p, hp, hpe⟩ := List.mem_map.mp hm
      exact List.mem_map.mpr ⟨p, h.entered.links p hp, hpe⟩
  obtain ⟨more, hperm⟩ := h.own_perm
  have hmem := ((hw.memory.perm hperm).weaken hlinks
    (List.sublist_append_right more _)).disposeSource hfresh
  have hids' : w'.stack.popFrame.2.2 = π₂.inner.ids := by rw [hids]; simp
  rw [← hids'] at hmem
  have htarget := hw.target
  have hanswer : π₂.answer = none :=
    Pose.answer_of_slot (h.grows.slot.trans h.entered.slot)
  have hanswer' : (behind π π₀ π₂ receiver j).answer = none :=
    Pose.answer_eq_none (h.later.result.trans hr)
  rw [hanswer, h.grows.rest, h.entered.others, h.grows.under, h.entered.under,
    ← hanswer'] at htarget
  refine ⟨?_, hresult⟩
  exact
    { shares := { hw.shares with }
      gate := hw.gate
      stackId := hw.stackId.trans hid.symm
      memory := hmem
      source := by
        obtain ⟨f, hf, hs⟩ := hw₀.source
        exact ⟨f, hpop.trans hf, hs⟩
      target := htarget
      depth_le := hw₀.depth_le
      depth_eq := hw₀.depth_eq }

end Inside

/-- What the target does with the value of a call. -/
noncomputable def storing (T : Tie) (dest : Option Expr) (value : Val) : Exec Flow :=
  match dest with
  | some target => do
    assign T.target.code.program T.target.call target value
    pure .next
  | none => pure .next

/-- The source has found a value, and the target is about to use it. -/
def Returned {α : Type} (T : Tie) (low high : Nat) (π : Pose) (block after : List Stmt)
    (use : α → Exec Flow) (span : Span) (w : World) (r : Except Unwind α) (Z : Nat → Run Flow) :
    Prop :=
  match r with
  | .ok value => ∃ v π' stmt, Later T low high π π' ∧ π'.Holds T w v ∧
      (T.sharp → stmt.span = span) ∧
      Z = concluding T.target block after stmt (use value) v
  | .error u => ∃ v u', Halts T (Closes T span) (T.Fresh low high) π w u v u' ∧ Z = halted v u'

/-- A value is found alike on both sides, in a statement of the target. -/
theorem Steady.returned {α : Type} {a b : Exec α} (hx : Steady T π a b) (h : π.Holds T w v)
    (hr : π.result = none) {stmt : Stmt} {use : α → Exec Flow}
    (hexec : T.target.execute T.target.callees false stmt = (b >>= use)) (n : Nat)
    (block after : List Stmt) :
    Leads T.terms (a w) (route T.target block (stmt :: after) v)
      (Returned T n n π block after use stmt.span) := by
  refine Leads.ofPart h.gate' hexec (hx w _ (h.arriveTarget stmt)) ?_ ?_
  · rintro w a v b ⟨rfl, hw⟩
    exact ⟨v, π, stmt, .refl _ π, hw, fun _ => rfl, rfl⟩
  · exact fun w u v u' hc hw => ⟨v, u', ⟨hc, π, .refl π, hw, hr⟩, rfl⟩

/-- The names of the parameters of a copy have been handed out. -/
theorem paramTable_upTo {n : Nat} {params : List Param} {es : List Expr} {x y : String}
    (h : (paramTable n params es).lookup x = some y) : UpTo (n + params.length) y := by
  have hmem : ∀ e ∈ paramTable n params es, UpTo (n + params.length) e.2 := by
    clear h
    induction params generalizing n es with
    | nil => simp [paramTable]
    | cons param params ih =>
      cases es with
      | nil => simp [paramTable]
      | cons e es =>
        intro entry he
        rw [paramTable, List.mem_append, List.mem_singleton] at he
        rcases he with he | rfl
        · exact (ih entry he).mono (by simp only [List.length_cons]; omega)
        · exact ⟨param.name, n + 1, by simp only [List.length_cons]; omega, rfl⟩
  obtain ⟨l₁, l₂, hl, -⟩ := List.lookup_eq_some_iff.mp h
  exact hmem (x, y) (by rw [hl]; simp)

/-- Names of a single scope. -/
theorem lookup?_singleton (table : List (String × String)) (x : String) :
    Renaming.lookup? [table] x = table.lookup x := by
  simp only [Renaming.lookup?, List.findSome?_cons, List.findSome?_nil]
  cases table.lookup x <;> rfl

/-- The site inside a copy is known. -/
theorem known_insideCopy (hlax : T.lax) (site : Site) {callee : Method} {n i : Nat} {c : Supply}
    {es : List Expr} (hi : i < c.labels) (hn : n + 1 + callee.params.length ≤ c.names)
    (hscopes : c.scopes = [paramTable (n + 1) callee.params es]) :
    T.Known (site.insideCopy callee ⟨Lowering.fresh (callee.name ++ ".return") (n + 1),
      Label.name i⟩) c where
  names := by
    intro x y h
    rw [hscopes] at h
    rw [lookup?_singleton] at h
    exact (paramTable_upTo h).mono hn
  copy := by
    intro target h
    cases h
    exact ⟨⟨_, n + 1, by omega, rfl⟩, i, hi, rfl⟩
  loops := by
    intro l h
    cases h
  lax := fun _ => hlax

/-- The variables have new names. -/
theorem Ready.names {n : Nat} {params : List Param} {values : List Val}
    {cells : List (Nat × Cell)} (h : Ready n params values cells) :
    ∀ e ∈ cells, ∃ recalled m, n < m ∧ e.2.name = Lowering.fresh recalled m := by
  induction h with
  | nil => simp
  | @cons n param params value values j cells _ _ ih =>
    intro e he
    rcases List.mem_cons.mp he with rfl | he
    · exact ⟨param.name, n + 1, Nat.lt_succ_self n, rfl⟩
    · obtain ⟨recalled, m, hm, hname⟩ := ih e he
      exact ⟨recalled, m, by omega, hname⟩

/-- The target finds them also after other names were handed out. -/
theorem Ready.find' {low n : Nat} {params : List Param} {values : List Val}
    {cells : List (Nat × Cell)} {π π' : Pose} (h : Ready n params values cells)
    (hl : Later T low n π π') (hfind : ∀ e ∈ cells, π.find' e.2.name = some e.1) :
    ∀ e ∈ cells, π'.find' e.2.name = some e.1 := by
  intro e he
  obtain ⟨recalled, m, hm, hname⟩ := h.names e he
  refine (hl.find'_eq ?_).trans (hfind e he)
  rintro ⟨-, recalled', m', -, hle, heq⟩
  have := fresh_number (hname.symm.trans heq)
  omega

/-- There are as many values as parameters. -/
theorem Ready.length_eq {n : Nat} {params : List Param} {values : List Val}
    {cells : List (Nat × Cell)} (h : Ready n params values cells) :
    params.length = values.length := by
  induction h with
  | nil => rfl
  | cons _ _ ih => simp only [List.length_cons, ih]

section Body

variable {site : Site} {callee : Method} {es : List Expr} {xs : Exec (List Val)}
  {block after : List Stmt} {low mid high : Nat} {receiver : String} {j : Nat}
  {cells : List (Nat × Cell)} {π₀ π₁ : Pose}

/-- Leaving the body of a copy, control comes to its end label. -/
theorem land_behind {target : Lowering.Target} {flow flow' : Flow} {rest : List Stmt}
    (hs : Sends (site.insideCopy callee target) flow flow')
    (hend : Block.fromLabel? target.endLabel block = some (mark target.endLabel :: rest))
    (v : World) :
    (flow = .next ∨ flow = .leaveMethod) ∧
      land T.target block (mark target.endLabel :: rest) flow' v =
        route T.target block (mark target.endLabel :: rest) v := by
  cases hs with
  | next => exact ⟨.inl rfl, rfl⟩
  | leaveLoop h => cases h
  | leaveMethod => exact ⟨.inr rfl, land_jump hend⟩

/-- The code of the target behind the body of a copy. -/
def behindBody (target : Lowering.Target) (dest : Option Expr) (span : Span) (after : List Stmt) :
    List Stmt :=
  mark target.endLabel :: (passResult target.receiver dest span ++ after)

/-- Behind a copy the target passes the result on. -/
theorem passResult_leads {target : Lowering.Target} {value : Val} {dest : Option Expr}
    {span : Span} (hlater : Later T low high π π₁) (h : π₁.Holds T w v) (hsharp : ¬ T.sharp)
    (hpinned : π₁.Pinned target.receiver value) (hr : π.result = none) :
    Leads T.terms (.done w (.ok value))
      (route T.target block (behindBody target dest span after) v)
      (Returned T low high π block after (storing T dest) span) := by
  cases dest with
  | none =>
    refine Leads.after (route_step (step_ok h.gate' rfl)) (.done ⟨_, π₁, mark target.endLabel,
      hlater, h.arriveTarget (mark target.endLabel), fun hs => absurd hs hsharp, ?_⟩)
    rw [concluding_ok (rfl : storing T none value _ = .done _ (.ok .next))]
    rfl
  | some place =>
    obtain ⟨v', hreach, hafter⟩ := h.passLabel block target.endLabel Span.blank
      (.assign place (localVar target.receiver span) span :: after)
    refine Leads.after hreach ?_
    refine Leads.ofPart hafter.gate' rfl (hpinned.steady span w _ (hafter.arriveTarget _)) ?_ ?_
    · rintro w a v b ⟨rfl, hw⟩
      exact ⟨v, π₁, _, hlater, hw, fun hs => absurd hs hsharp, rfl⟩
    · intro w u v u' hc hw
      exact ⟨v, u', ⟨hc, π₁, hlater.toGrows, hw, hlater.result.trans hr⟩, rfl⟩

/-- With its parameters bound, the source stands as the site in the copy says. -/
theorem Entered.fits {target : Lowering.Target} {frames : List Frame}
    {pins rest : List (Nat × Cell)} {n : Nat} {c : Supply}
    (h : Entered T (π₀.copied frames target.receiver j pins) π₁ rest)
    (hsees : π₁.Sees ((paramTable n callee.params es).lookup ·) fun _ => True)
    (hscopes : c.scopes = [paramTable n callee.params es])
    (hreceiver : π₀.find' target.receiver = some j) :
    π₁.Fits T (site.insideCopy callee target) c [] := by
  refine ⟨h.result, fun x _ => ?_, j, h.slot, ?_⟩
  · have hname : naming (site.insideCopy callee target) c.scopes x =
        (paramTable n callee.params es).lookup x := by
      rw [← lookup?_singleton, ← hscopes]
      rfl
    rw [hname]
    exact hsees x trivial
  · simp only [Pose.find', h.flat, h.others]
    exact hreceiver

/-- Behind a copy the receiver holds the result. -/
theorem Inside.pinned {frames : List Frame} {π₂ : Pose}
    (h : Inside T low mid high frames receiver j cells π π₀ π₁ π₂) (hname : UpTo mid receiver)
    (hreceiver : π₀.find' receiver = some j) :
    (Inside.behind π π₀ π₂ receiver j).Pinned receiver (π₂.result.getD .null) := by
  refine ⟨j, _, ?_, List.mem_cons_self, rfl⟩
  have hsame := h.grows.same _ (Tie.not_fresh_of_upTo hname)
  rw [h.entered.flat] at hsame
  simp only [Pose.find', Scope.search, List.findSome?_cons, Inside.behind, hsame]
  simp only [Pose.find', Scope.search, List.findSome?_cons] at hreceiver
  exact hreceiver

/-- A frame of the source against the body of a copy. -/
theorem inFrame_leads (hlax : T.lax) {target : Lowering.Target} {n nesting : Nat}
    {s s' : Progress} {body : Block} {values : List Val} {dest : Option Expr} {span : Span}
    {before : List Stmt} (hbody : BodySim T w.stack.depth)
    (hample : Ample T.setting (site.insideCopy callee target) nesting)
    (hm : callee ∈ T.setting.program.methods) (hlen : callee.params.length = es.length)
    (hknown : T.Known (site.insideCopy callee target) s.supply)
    (hscopes : s.scopes = [paramTable n callee.params es])
    (hemits : Emits (lowerBlock T.setting nesting (site.insideCopy callee target) callee.body)
      s body s')
    (hnames : s.names ≤ s'.names)
    (hblock : block = before ++ (body ++ behindBody target dest span after))
    (hnodup : (Block.labels block).Nodup) (hr : π.result = none)
    (hready : Ready n callee.params values cells) (hlater : Later T low s.names π π₀)
    (hpins : π₀.pins = (j, ⟨target.receiver, .dynamic, .null⟩) :: (cells.reverse ++ π.pins))
    (hfind : ∀ e ∈ cells, π₀.find' e.2.name = some e.1)
    (hreceiver : π₀.find' target.receiver = some j) (h : π₀.Holds T w v) :
    Leads T.terms (inFrame callee ((bindArgs callee.params values).bind fun _ =>
        runBody T.source.callees.block callee) w)
      (route T.target block (body ++ behindBody target dest span after) v)
      (Returned T low s'.names π block after (storing T dest) span) := by
  -- The source makes its frame and binds its parameters.
  have hcopied := h.enterCopy hlax (hlater.result.trans hr) hpins callee
  obtain ⟨w₁, π₁, hbind, hent, hw₁, hsees⟩ := bindArgs_adopted hlax hready hlen [] hcopied
    (List.append_assoc _ π.pins π₀.held) hfind
    (by intro x _; exact (rfl : Scope.search [[]] x = none))
  rw [List.append_nil] at hsees
  have hfit : π₁.Fits T (site.insideCopy callee target) s.supply [] :=
    hent.fits hsees hscopes hreceiver
  have hdepth : π₁.below.length = w.stack.depth := by
    rw [hent.below, w.stack.depth_eq]
    rfl
  have hlead := hbody hample hm rfl hknown hemits block before _ π₁ w₁ v hblock hnodup hdepth hw₁
    hfit
  have hend : Block.fromLabel? target.endLabel block =
      some (behindBody target dest span after) := by
    rw [hblock, ← List.append_assoc] at hnodup ⊢
    exact Block.fromLabel?_append hnodup
  have hinside : ∀ {π₂ : Pose}, Grows T (T.New (site.insideCopy callee target)
      (Stmt.spillsOf callee.body) s.supply s'.supply) π₁ π₂ →
      Inside T low s.names s'.names w.stack.frames target.receiver j cells π π₀ π₁ π₂ := by
    intro π₂ g
    refine ⟨hlater, hpins, hent, g.mono ?_, hnames⟩
    rintro y (⟨hc, -⟩ | hf)
    · cases hc
    · exact hf
  have hrun : ((bindArgs callee.params values).bind fun _ =>
      runBody T.source.callees.block callee) (w.pushFrame callee) =
      runBody T.source.callees.block callee w₁ := Exec.bind_of_ok hbind
  unfold inFrame
  rw [hrun]
  -- The body is run, its frame goes away, and the target passes the result on.
  refine Leads.andThen (t := T.terms) (Q := fun w' r Z => ∃ v' π₂, Inside T low s.names
      s'.names w.stack.frames target.receiver j cells π π₀ π₁ π₂ ∧ π₂.Holds T w' v' ∧
      byOutcome (fun _ => Z = route T.target block (behindBody target dest span after) v')
        (fun u => ∃ u', Closed T u u' ∧ Z = halted v' u') r) ?_ Iff.rfl id ?_ ?_
  · refine Leads.bind (hlead.toTerms.congr (T.source.block_same callee.body false w₁).symm) ?_ ?_
    · rintro w' flow Z ⟨v', flow', ⟨hsends, π₂, g, hw₂, -, -⟩, rfl⟩
      obtain ⟨hflow, hland⟩ := land_behind (T := T) hsends hend v'
      rw [behindBody, hland]
      rcases hflow with rfl | rfl <;> exact .done ⟨v', π₂, hinside g, hw₂, rfl⟩
    · rintro w' u Z ⟨v', u', ⟨hc, π₂, g, hw₂, -⟩, rfl⟩
      exact ⟨v', π₂, hinside g, hw₂, u', hc, rfl⟩
  · rintro w' r Z ⟨v', π₂, hin, hw₂, hz⟩
    obtain ⟨hbehind, hresult⟩ := hin.leave hr h hw₂
    have hl := hin.later_behind
    cases r with
    | ok _ =>
      obtain rfl := hz
      have hpinned := hin.pinned (hknown.copy target rfl).1 hreceiver
      rw [← hresult] at hpinned
      exact passResult_leads hl hbehind (Tie.not_sharp hlax) hpinned hr
    | error u =>
      obtain ⟨u', hc, rfl⟩ := hz
      exact .done ⟨v', u', ⟨hc.closes span, _, hl.toGrows, hbehind, hl.result.trans hr⟩, rfl⟩
  · rintro - w' u hu w'' r hr'
    cases hr'
    exact ⟨u, rfl, hu⟩

/-- Declaring a variable without a value on the target. -/
theorem route_declare (h : π.Holds T w v) (block : List Stmt) (name : String) (shape : Shape)
    (span : Span) (rest : List Stmt) :
    ∃ v', Reaches 1 (route T.target block (.declare name shape none span :: rest) v)
        (route T.target block rest v') ∧
      Pose.Holds T { π with
        pins := (v.memory.cells.size, ⟨name, shape, .null⟩) :: π.pins
        flat := Scope.bind name v.memory.cells.size π.flat } w v' := by
  have hfit : shape.accepts .null = true := by cases shape <;> rfl
  have hsize : (arrive (.declare name shape none span) v).memory.cells.size =
      v.memory.cells.size := by
    unfold arrive
    split <;> rfl
  have hexec : T.target.execute T.target.callees false (.declare name shape none span)
      (arrive (.declare name shape none span) v) = .done _ (.ok .next) := newVariable_ok hfit _
  refine ⟨_, route_step (step_ok h.gate' hexec), ?_⟩
  have hpinned := ((h.arriveTarget (.declare name shape none span)).declarePinned
    ⟨name, shape, .null⟩).observeTarget false (.declare name shape none span)
  rwa [hsize] at hpinned

/-- The receiver and the end label of a copy that is begun in some state. -/
def copyTarget (callee : Method) (s : Progress) : Lowering.Target :=
  ⟨Lowering.fresh (callee.name ++ ".return") (s.names + 1), Label.name (s.labels + 1)⟩

/-- A call of the source against a copy of the callee. -/
theorem copy_leads (hfits : T.Fits) (hlax : T.lax) {nesting : Nat} {name : String}
    {s s' : Progress} {dest : Option Expr} {span : Span} {code before : List Stmt}
    (hample : Ample T.setting site (nesting + 1))
    (hi : Inlinable T.setting site name es.length callee)
    (hbody : π.below.length + 1 < T.source.code.limits.maxCallDepth →
      BodySim T (π.below.length + 1))
    (hcopied : Copied T.setting (lowerBlock T.setting nesting) site callee es dest span s code s')
    (hblock : block = before ++ (code ++ after)) (hnodup : (Block.labels block).Nodup)
    (hfed : Fed T s.names π (if T.source.wary then callee.params else []) xs es)
    (h : π.Holds T w v) (hr : π.result = none) :
    Leads T.terms ((xs >>= T.source.call callee) w) (route T.target block (code ++ after) v)
      (Returned T s.names s'.names π block after (storing T dest) span) := by
  obtain ⟨s₁, body, s₂, hs₁, hemits, hs', hcode⟩ := hcopied
  have hm : callee ∈ T.setting.program.methods := Program.mem_of_method?_eq_some hi.found
  have hyields := lowerBlock_yields hfits.structured nesting (hfits.structured callee hm) hemits
  have hnames₁ : s₁.names = s.names + 1 + callee.params.length := congrArg Supply.names hs₁
  have hnames₂ : s₁.names ≤ s₂.names := hyields.names
  have hnames' : s'.names = s₂.names := congrArg Supply.names hs'
  have hsharp := Tie.not_sharp hlax
  have hlabels₁ : s.labels + 1 < s₁.labels := by
    rw [show s₁.labels = s.labels + 2 from congrArg Supply.labels hs₁]
    exact Nat.lt_succ_self _
  have hknown := known_insideCopy hlax site hlabels₁ (Nat.le_of_eq hnames₁.symm)
    (congrArg Supply.scopes hs₁)
  have hcode' : code ++ after = declarations span (s.names + 1) callee.params es ++
      (.declare (copyTarget callee s).receiver .dynamic none span :: mark (Label.name s.labels) ::
        (body ++ behindBody (copyTarget callee s) dest span after)) := by
    rw [hcode]
    simp only [List.append_assoc, List.cons_append]
    rfl
  rw [hcode'] at hblock ⊢
  -- The arguments are evaluated and declared.
  have hlow : Later T s.names (s.names + 1) π π :=
    (Later.refl s.names π).mono (Nat.le_refl _) (Nat.le_succ _)
  refine Leads.bind (declarations_lead hlax hi.given rfl (hfed.later hlow) h hr block _ span) ?_ ?_
  · rintro w values Z (⟨v, ⟨π', cells, hready, hlater, hpins, hfind, hw⟩, rfl⟩ | hmisfit)
    rotate_left
    · exact hmisfit.spoiled hlax w
    -- The receiver is declared, and the start of the copy is marked.
    obtain ⟨v₁, hreach, hw₁⟩ := route_declare hw block (copyTarget callee s).receiver .dynamic span
      (mark (Label.name s.labels) :: (body ++ behindBody (copyTarget callee s) dest span after))
    have hreceiver := hw.later_declarePinned hsharp (callee.name ++ ".return") s.names .dynamic
      .null
    have hall := (hlater.mono (Nat.le_succ _) (Nat.le_of_eq hnames₁.symm)).join
      (hreceiver.mono (Nat.le_refl _) (by omega))
    obtain ⟨v₂, hpass, hmark⟩ := hw₁.passLabel block (Label.name s.labels) Span.blank
      (body ++ behindBody (copyTarget callee s) dest span after)
    refine Leads.after hreach (Leads.after hpass ?_)
    -- The source makes the call, if it can.
    have hdepth : w.stack.depth = π.below.length + 1 := by rw [hw.stackDepth.1, hlater.below]
    refine Leads.congr ?_ (T.source.call_same callee values w).symm
    unfold callBy
    by_cases hmax : T.source.code.limits.maxCallDepth ≤ w.stack.depth
    · rw [if_pos hmax]
      exact .spoiled hlax (.inr ⟨_, rfl, T.fatal_depth hlax⟩)
    · rw [if_neg hmax, if_neg (by simp [hready.length_eq]), hnames']
      have hblock₁ : block = (before ++ (declarations span (s.names + 1) callee.params es ++
          [.declare (copyTarget callee s).receiver .dynamic none span,
            mark (Label.name s.labels)])) ++
              (body ++ behindBody (copyTarget callee s) dest span after) := by
        rw [hblock]
        simp only [List.append_assoc, List.cons_append, List.nil_append]
      have hdeeper : BodySim T w.stack.depth := by
        rw [hdepth] at hmax ⊢
        exact hbody (Nat.lt_of_not_le hmax)
      refine inFrame_leads hlax hdeeper (hample.insideCopy hi _) hm hi.given hknown
        (congrArg Supply.scopes hs₁) hemits hyields.names hblock₁ hnodup hr hready hall ?_
        (hready.find' hreceiver hfind) (search_bind_self _ _ _ _) hmark
      show (_ :: π'.pins) = _
      rw [hpins]
      rfl
  · rintro w u Z ⟨v, u', hh, rfl⟩
    refine ⟨v, u', hh.mono (Grows.refl π) (fun y hy => hy.mono (Nat.le_succ _) ?_) id, rfl⟩
    omega

end Body

/-- What is given where statements are compared: bodies are compared well one
frame further in, and copies may still be nested. -/
structure Scene (T : Tie) (depth nesting : Nat) (site : Site) : Prop where
  /-- The program can be compared. -/
  fits : T.Fits
  /-- Bodies are compared well one frame further in. -/
  bodies : depth + 1 < T.source.code.limits.maxCallDepth → BodySim T (depth + 1)
  /-- Copies may still be nested. -/
  ample : Ample T.setting site (nesting + 1)

namespace Scene

variable {depth nesting : Nat} {site : Site}

/-- Calls keep poses. -/
theorem calls (h : Scene T depth nesting site) : CallsAt T depth := callsAt h.fits h.bodies

/-- One loop further in. -/
theorem insideLoop (h : Scene T depth nesting site) (label : String) :
    Scene T depth nesting (site.insideLoop label) :=
  { h with ample := h.ample.insideLoop label }

end Scene

/-- A call does the same on both sides if its arguments do. -/
theorem calling_steady (hcall : Callable T π) {xs xs' : Exec (List Val)} (hargs : Steady T π xs xs')
    (name : String) :
    Steady T π (calling T.source.code.program T.source.call name xs)
      (calling T.target.code.program T.target.call name xs') := by
  unfold calling
  cases hm : T.source.code.program.method? name with
  | none =>
    rw [hcall.missing name hm]
    exact .fail rfl
  | some m =>
    obtain ⟨m', hm', hout, hsteady⟩ := hcall.found name m hm
    rw [hm']
    exact hargs.bind fun vs => Callable.callOrSpawn hout hsteady vs

/-- A call of the source against the statements for it in the target. -/
theorem emitCall_leads {depth nesting : Nat} {site : Site} (hscene : Scene T depth nesting site)
    {name : String} {xs : Exec (List Val)} {es : List Expr} {dest : Option Expr}
    {callSpan span : Span} {s s' : Progress} {code block before after : List Stmt}
    (hemits : Emits (emitCall T.setting (lowerBlock T.setting nesting) site name es dest callSpan
      span) s code s')
    (hblock : block = before ++ (code ++ after)) (hnodup : (Block.labels block).Nodup)
    (hdepth : π.below.length = depth)
    (hfed : Fed T s.names π (T.source.code.program.heeded T.source.wary name) xs es)
    (h : π.Holds T w v) (hr : π.result = none) :
    Leads T.terms (calling T.source.code.program T.source.call name xs w)
      (route T.target block (code ++ after) v)
      (Returned T s.names s'.names π block after (storing T dest) span) := by
  obtain ⟨rfl, hs⟩ | ⟨callee, hi, s₀, hs₀, hcopied⟩ := emits_emitCall hemits
  · have hnames : s'.names = s.names := congrArg Supply.names hs
    have hcalls := hscene.calls π hdepth
    have hsteady := calling_steady hcalls (hfed.steady (hcalls.heeded name)) name
    rw [hnames]
    cases dest with
    | none => exact hsteady.returned h hr rfl s.names block after
    | some target => exact hsteady.returned h hr rfl s.names block after
  · have hnames : s₀.names = s.names := congrArg Supply.names hs₀
    have hlax : T.lax := hi.inline
    have hcall : calling T.source.code.program T.source.call name xs =
        (xs >>= T.source.call callee) := by
      unfold calling
      rw [T.source_program, hi.found]
      simp only [callOrSpawn, hi.waits, Bool.false_eq_true, if_false]
    have hheeded : T.source.code.program.heeded T.source.wary name =
        if T.source.wary then callee.params else [] := by
      unfold Program.heeded
      rw [T.source_program, hi.found]
      simp only [hi.waits, Bool.not_false, Bool.and_true]
    rw [hcall]
    rw [← hnames, hheeded] at hfed
    rw [← hnames]
    subst hdepth
    exact copy_leads hscene.fits hlax hscene.ample hi hscene.bodies hcopied hblock hnodup hfed h hr

end Stepwise.Simulation
