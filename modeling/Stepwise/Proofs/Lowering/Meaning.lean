import Stepwise.Program.Construct
import Stepwise.Proofs.Engine.Order
import Stepwise.Proofs.Simulation.Program

/-!
# What lowered programs do

Lowering without copies keeps the meaning of structured programs in which
every name is used in its scope, and copies of callees cannot be observed
either, as long as calls do not nest too deep, no variable refuses a value and
no call stumbles. Two habits of lowering can be seen: conditions and loops open
no scope in jump code, so that a name declared in them may hide an outer one
afterwards, and the calls of a returned expression are made before the rest of
it is evaluated. Programs that depend on neither are kept as they are.
-/

namespace Stepwise

open Engine Lowering Simulation

/-- Two programs have the same methods but for their statements, and every
invocation ends in one of them just when it ends in the other, in the same way. -/
def Program.SameOutcomes (places : Prop) (limits : Limits) (p q : Program) : Prop :=
  List.Forall₂ (fun m m' => m'.outline = m.outline ∧ ∀ stack args w, w.Ready →
      Agreement places (fun fuel => invokeOn ⟨p, limits⟩ fuel stack m args w)
        fun fuel => invokeOn ⟨q, limits⟩ fuel stack m' args w)
    p.methods q.methods

/-- Three programs have the same methods but for their statements: a program, a
form of it that makes calls, and a form that may have copies of the callees
instead. Whenever an invocation ends in the program and meets neither refused
values nor calls nested too deep on the way, it ends in the same way in the last
form. The exception are invocations in which the last form refuses a value and
a call of the other form stumbles. -/
structure Program.Follows (limits : Limits) (p plain copied : Program) : Prop where
  /-- The form with calls has the methods of the program. -/
  plain_outline : plain.methods.map Method.outline = p.methods.map Method.outline
  /-- So has the form with copies. -/
  copied_outline : copied.methods.map Method.outline = p.methods.map Method.outline
  /-- Invocations of the same method end in the same way. -/
  ends : ∀ {i : Nat} {m m₁ m₂ : Method}, p.methods[i]? = some m → plain.methods[i]? = some m₁ →
    copied.methods[i]? = some m₂ → ∀ stack args w, w.Ready → ∀ w' r,
      EndsWithout refusalsAndDepth ⟨p, limits⟩ stack m args w w' r →
        (Meets refusals ⟨copied, limits⟩ stack m₂ args w ∧
            Stumbles ⟨plain, limits⟩ stack m₁ args w) ∨
          ∃ v r', EndsIn (fun fuel => invokeOn ⟨copied, limits⟩ fuel stack m₂ args w) v r' ∧
            w'.Agrees v ∧ Outcome.Agrees False r r'

/-- Whether an expression that is itself a call has no calls in its arguments. -/
def Expr.plainCall (p : Program) : Expr → Bool
  | .call _ args _ => Expr.listCallFree p args
  | _ => true

namespace Lowering

variable {p : Program}

/-- Lowering a method changes its statements only. -/
theorem LoweredFrom.outline_eq {setting : Setting} {m m' : Method} (h : LoweredFrom setting m m') :
    m'.outline = m.outline := by
  obtain ⟨_, _, _, -, -, rfl⟩ := h
  rfl

/-- A member of a list that runs along another one has a partner there. -/
theorem exists_of_forall₂ {α β : Type} {R : α → β → Prop} {as : List α} {bs : List β}
    (h : List.Forall₂ R as bs) {i : Nat} {b : β} (hb : bs[i]? = some b) :
    ∃ a, as[i]? = some a ∧ R a b := by
  induction h generalizing i with
  | nil => cases hb
  | cons hab _ ih =>
    cases i with
    | zero =>
      cases hb
      exact ⟨_, rfl, hab⟩
    | succ i => exact ih hb

/-- A method of the lowered program is the lowered form of the method in its place. -/
theorem exists_of_lowered (hp : p.lowered = false) (options : Options) {i : Nat} {m' : Method}
    (h : (p.lower options).program.methods[i]? = some m') :
    ∃ m, p.methods[i]? = some m ∧ m ∈ p.methods ∧ LoweredFrom ⟨p, options⟩ m m' := by
  have hall : List.Forall₂ (fun m m' => m ∈ p.methods ∧ LoweredFrom ⟨p, options⟩ m m') p.methods
      (p.lower options).program.methods :=
    lower_methods_of hp options fun _ hm _ hlow => ⟨hm, hlow⟩
  exact exists_of_forall₂ hall h

/-- The lowered program has the methods of the program. -/
theorem lower_outlines (hp : p.lowered = false) (options : Options) :
    (p.lower options).program.methods.map Method.outline = p.methods.map Method.outline := by
  have hall : List.Forall₂ (fun m m' => m'.outline = m.outline) p.methods
      (p.lower options).program.methods :=
    lower_methods_of hp options fun _ _ _ hlow => hlow.outline_eq
  rw [← List.forall₂_eq_eq_eq, List.forall₂_map_left_iff, List.forall₂_map_right_iff]
  exact hall.flip

section

variable {settles : Expr → Prop}
  (hsettles : ∀ call e, settles e → eval p call e = settled p false call e) (hp : p.lowered = false)
  (hstructured : p.Structured) (hleak : p.LeakFree) (hreturns : p.Returns settles)

include hsettles hp hstructured hleak hreturns

/-- Where returned expressions have the same value with calls first, lowering
without copies keeps all outcomes; places, too, where they contain no calls. -/
theorem sameOutcomes_of_settles (limits : Limits) (limit : Nat) (places : Prop)
    (hfree : places → ∀ e, settles e → e.callFree p = true) (hplain : ¬ places → p.PlainNames) :
    p.SameOutcomes places limits (p.lower ⟨false, limit⟩).program := by
  refine lower_methods_of hp _ fun m hm m' hlow => ⟨hlow.outline_eq, fun stack args w hw => ?_⟩
  have hagree : Agreement places
      (fun fuel => (Machine.engine ⟨p, limits⟩).invokeOn fuel stack m args w)
      (fun fuel => (Machine.engine ⟨(p.lower ⟨false, limit⟩).program, limits⟩).invokeOn fuel stack
        m' args w) :=
    lowered_agrees (.engine ⟨p, limits⟩) ⟨p, ⟨false, limit⟩⟩ rfl rfl places settles hsettles hfree
      hp hstructured hleak hplain hreturns hm hlow stack args hw
  simpa only [Machine.engine_invokeOn] using hagree

end

/-- An invocation of a method lowered without copies that ends and meets neither
refused values nor calls nested too deep ends in the same way in the method
lowered with copies, unless that one refuses a value and the first one stumbles. -/
theorem copied_follows (hp : p.lowered = false) (hstructured : p.Structured) (hleak : p.LeakFree)
    (hplain : p.PlainNames) (hreturns : p.Returns (·.plainCall p = true)) (limits : Limits)
    (limit : Nat) {m m₁ m₂ : Method} (hm : m ∈ p.methods)
    (hlow₁ : LoweredFrom ⟨p, ⟨false, limit⟩⟩ m m₁) (hlow₂ : LoweredFrom ⟨p, ⟨true, limit⟩⟩ m m₂)
    {stack : Nat} {args : List Val} {w w' : World} {r : Except Unwind Val} (hw : w.Ready)
    (hends : EndsWithout refusalsAndDepth ⟨(p.lower ⟨false, limit⟩).program, limits⟩ stack m₁ args
      w w' r) :
    (Meets refusals ⟨(p.lower ⟨true, limit⟩).program, limits⟩ stack m₂ args w ∧
        Stumbles ⟨(p.lower ⟨false, limit⟩).program, limits⟩ stack m₁ args w) ∨
      ∃ v r', EndsIn (fun fuel => invokeOn ⟨(p.lower ⟨true, limit⟩).program, limits⟩ fuel stack m₂
        args w) v r' ∧ w'.Agrees v ∧ Outcome.Agrees False r r' := by
  -- Both are compared with the program on the machine that makes the calls first.
  have hcompare : ∀ wary, EndsIn (fun fuel => (((Machine.engine
        ⟨(p.lower ⟨false, limit⟩).program, limits⟩).withCare wary).watched
          refusalsAndDepth).invokeOn fuel stack m₁ args w) w' r → r ≠ .error .cancelled →
      (wary = false ∧ Meets refusals ⟨(p.lower ⟨true, limit⟩).program, limits⟩ stack m₂ args w) ∨
        ∃ v r', EndsIn (fun fuel => invokeOn ⟨(p.lower ⟨true, limit⟩).program, limits⟩ fuel stack
          m₂ args w) v r' ∧ w'.Agrees v ∧ Outcome.Agrees False r r' := by
    intro wary hrun hr
    let M := Machine.callsFirst ⟨p, limits⟩ refusalsAndDepth wary
    have hplainly := lowered_agrees M ⟨p, ⟨false, limit⟩⟩ rfl rfl False (·.plainCall p = true)
      (fun _ _ _ => rfl) nofun hp hstructured hleak (fun _ => hplain) hreturns hm hlow₁ stack args
      hw
    obtain ⟨w₀, r₀, hends₀, hw₀, hr₀⟩ := hplainly.back hrun
    refine (copied_agrees M ⟨p, ⟨true, limit⟩⟩ rfl rfl rfl (·.plainCall p = true)
      (fun _ _ _ => rfl) (fun _ _ _ he => he) hp hstructured hleak hplain hreturns hm hlow₂ hw
      hends₀ (hr₀.not_cancelled_left hr)).imp id ?_
    rintro ⟨v, r', hends', hv, hr'⟩
    exact ⟨v, r', hends', hw₀.both hv, hr₀.both hr'⟩
  obtain hstumbles | hwary := hends.stumbles_or
  · obtain ⟨fuel, hrun, hr⟩ := hends
    exact (hcompare false ⟨fuel, hrun⟩ hr).imp (fun hmeets => ⟨hmeets.2, hstumbles⟩) id
  · obtain ⟨-, -, hr⟩ := hends
    exact .inr ((hcompare true hwary hr).resolve_left fun hmeets => Bool.noConfusion hmeets.1)

end Lowering

/-- A method that counts up to a limit in a loop, stops early at three, and
falls back on a handler when the count is no divisor. -/
def Program.tally : Program :=
  (Program.empty.addMethod ((Method.start "Next").withParam "n" .scalar |>.withBody
      [.giveBack (some (.op .add (.named "n") (.ofLiteral (.int 1))))])).addMethod
    ((Method.start "Main").withParam "limit" .scalar |>.withBody
      [.scalarVar "count" (some (.ofLiteral (.int 0))),
        .whileLoop (.op .lt (.named "count") (.named "limit"))
          [.ifThen (.op .eq (.named "count") (.ofLiteral (.int 3))) [.leave],
            .store (.named "count") (.invoke "Next" [.named "count"])],
        .tryCatch [.giveBack (some (.op .div (.ofLiteral (.int 6)) (.named "count")))] (some "e")
          [.giveBack (some (.member (.named "e") "Message"))]])

theorem Program.tally_structured : Program.tally.Structured := by
  show ∀ m ∈ Program.tally.methods, ∀ part ∈ Stmt.partsOf m.body, part.isJumpCode = false
  decide

theorem Program.tally_wellScoped : Program.tally.WellScoped := by
  have h : ∀ m ∈ Program.tally.methods, m.declared.Nodup ∧
      Stmt.wellScopedAll m.declared (m.params.map (·.name)) m.body = true := by decide
  exact fun m hm => ⟨(h m hm).1, (h m hm).2⟩

theorem Program.tally_plainNames : Program.tally.PlainNames := by
  show ∀ m ∈ Program.tally.methods, (∀ param ∈ m.params, Plain param.name) ∧
    ∀ part ∈ Stmt.partsOf m.body, ∀ x ∈ part.names, Plain x
  decide

theorem Program.tally_returns : Program.tally.Returns (·.callFree .tally = true) := by
  show ∀ m ∈ Program.tally.methods, ∀ part ∈ Stmt.partsOf m.body, ∀ e ∈ part.returned?,
    e.callFree Program.tally = true
  decide

/-- Flattening keeps the meaning of programs whose names are declared once and
used in their scopes and whose returned expressions contain no synchronous calls. -/
theorem Program.WellScoped.sameOutcomes {p : Program} (hscope : p.WellScoped)
    (hp : p.lowered = false) (hstructured : p.Structured)
    (hreturns : p.Returns (·.callFree p = true)) (limits : Limits) (limit : Nat) :
    p.SameOutcomes True limits (p.lower ⟨false, limit⟩).program :=
  sameOutcomes_of_settles (fun _ _ he => (settled_eq_of_callFree he).symm) hp hstructured
    (fun m hm => (hscope m hm).leakFree) hreturns limits limit True (fun _ _ he => he)
    (absurd trivial)

/-- A count that stops early has the same outcomes in jump code. -/
theorem Program.tally_sameOutcomes :
    Program.tally.lowered = false ∧ Program.tally.Structured ∧ Program.tally.WellScoped ∧
      Program.tally.Returns (·.callFree .tally = true) ∧
      Program.tally.SameOutcomes True {} (Program.tally.lower ⟨false, 2⟩).program :=
  ⟨rfl, tally_structured, tally_wellScoped, tally_returns,
    tally_wellScoped.sameOutcomes rfl tally_structured tally_returns {} 2⟩

/-- Copies of callees cannot be observed: the program lowered with copies
follows the one lowered without. -/
theorem Program.WellScoped.copies_follow {p : Program} (hscope : p.WellScoped)
    (hp : p.lowered = false) (hstructured : p.Structured) (hplain : p.PlainNames)
    (hreturns : p.Returns (·.plainCall p = true)) (limits : Limits) (limit : Nat) :
    (p.lower ⟨false, limit⟩).program.Follows limits (p.lower ⟨false, limit⟩).program
      (p.lower ⟨true, limit⟩).program where
  plain_outline := rfl
  copied_outline := (lower_outlines hp _).trans (lower_outlines hp _).symm
  ends := by
    intro i m₀ m₁ m₂ h₀ h₁ h₂ stack args w hw w' r hends
    obtain ⟨m, hm, hmem, hlow₁⟩ := exists_of_lowered hp _ h₁
    obtain ⟨m', hm', -, hlow₂⟩ := exists_of_lowered hp _ h₂
    rw [h₁] at h₀
    rw [hm] at hm'
    cases h₀
    cases hm'
    have hleak : p.LeakFree := fun m hm => (hscope m hm).leakFree
    exact copied_follows hp hstructured hleak hplain hreturns limits limit hmem hlow₁ hlow₂ hw hends

/-- A copy of a method in a loop cannot be observed, and its calls do not stumble. -/
theorem Program.tally_copies_follow :
    Program.tally.lowered = false ∧ Program.tally.Structured ∧ Program.tally.WellScoped ∧
      Program.tally.PlainNames ∧ Program.tally.Returns (·.plainCall .tally = true) ∧
      (Program.tally.lower ⟨false, 2⟩).program.Follows {} (Program.tally.lower ⟨false, 2⟩).program
        (Program.tally.lower ⟨true, 2⟩).program ∧
      ∃ m, (Program.tally.lower ⟨false, 2⟩).program.method? "Main" = some m ∧
        ¬ Stumbles ⟨(Program.tally.lower ⟨false, 2⟩).program, {}⟩ 0 m [.int 5] {} := by
  have hreturns : Program.tally.Returns (·.plainCall .tally = true) := by
    show ∀ m ∈ Program.tally.methods, ∀ part ∈ Stmt.partsOf m.body, ∀ e ∈ part.returned?,
      e.plainCall Program.tally = true
    decide
  have hwary : (((Program.tally.lower ⟨false, 2⟩).program.method? "Main").bind fun m =>
      Run.integer? (((Machine.engine ⟨(Program.tally.lower ⟨false, 2⟩).program, {}⟩).withCare
        true).invokeOn 40 0 m [.int 5] {})) = some 2 := by decide +kernel
  obtain ⟨m, hm, hwary⟩ := Option.bind_eq_some_iff.mp hwary
  obtain ⟨w, hw⟩ := Run.eq_done_of_integer? hwary
  exact ⟨rfl, tally_structured, tally_wellScoped, tally_plainNames, hreturns,
    tally_wellScoped.copies_follow rfl tally_structured tally_plainNames hreturns {} 2, m, hm,
    not_stumbles hw nofun⟩

/-- A call whose first argument does not fit and whose second argument fails. -/
def Program.unfit : Program :=
  (Program.empty.addMethod
      (((Method.start "Take").withParam "items" .array |>.withParam "n" .scalar).withBody
        [.giveBack (some (.named "n"))])).addMethod
    ((Method.start "Main").withBody
      [.perform (.invoke "Take" [.ofLiteral (.int 5),
        .op .div (.ofLiteral (.int 1)) (.ofLiteral (.int 0))])])

/-- A copy binds each argument before it evaluates the next one, so it may
refuse a value where the call stumbles, fails for another reason and refuses nothing. -/
theorem Program.unfit_refused_early :
    (Program.unfit.lowered = false ∧ Program.unfit.Structured ∧ Program.unfit.WellScoped ∧
      Program.unfit.PlainNames ∧ Program.unfit.Returns (·.plainCall .unfit = true) ∧
      (Program.unfit.lower ⟨false, 2⟩).hasErrors = false) ∧
    ∃ m m' w w' r r',
      (Program.unfit.lower ⟨false, 2⟩).program.method? "Main" = some m ∧
      (Program.unfit.lower ⟨true, 2⟩).program.method? "Main" = some m' ∧
      EndsWithout refusalsAndDepth ⟨(Program.unfit.lower ⟨false, 2⟩).program, {}⟩ 0 m [] {} w r ∧
      EndsIn (fun fuel => invokeOn ⟨(Program.unfit.lower ⟨true, 2⟩).program, {}⟩ fuel 0 m' [] {})
        w' r' ∧
      ¬ Outcome.Agrees False r r' ∧
      Stumbles ⟨(Program.unfit.lower ⟨false, 2⟩).program, {}⟩ 0 m [] {} := by
  constructor
  · refine ⟨rfl, ?_, ?_, ?_, ?_, rfl⟩
    · show ∀ m ∈ Program.unfit.methods, ∀ part ∈ Stmt.partsOf m.body, part.isJumpCode = false
      decide
    · have h : ∀ m ∈ Program.unfit.methods, m.declared.Nodup ∧
          Stmt.wellScopedAll m.declared (m.params.map (·.name)) m.body = true := by decide
      exact fun m hm => ⟨(h m hm).1, (h m hm).2⟩
    · show ∀ m ∈ Program.unfit.methods, (∀ param ∈ m.params, Plain param.name) ∧
        ∀ part ∈ Stmt.partsOf m.body, ∀ x ∈ part.names, Plain x
      decide
    · show ∀ m ∈ Program.unfit.methods, ∀ part ∈ Stmt.partsOf m.body, ∀ e ∈ part.returned?,
        e.plainCall Program.unfit = true
      decide
  · have hcall : (((Program.unfit.lower ⟨false, 2⟩).program.method? "Main").bind fun m =>
        Run.faultKind? (((Machine.engine ⟨(Program.unfit.lower ⟨false, 2⟩).program, {}⟩).watched
          refusalsAndDepth).invokeOn 10 0 m [] {})) = some .divideByZero := by decide +kernel
    have hcopy : (((Program.unfit.lower ⟨true, 2⟩).program.method? "Main").bind fun m =>
        Run.faultKind? (invokeOn ⟨(Program.unfit.lower ⟨true, 2⟩).program, {}⟩ 10 0 m [] {})) =
          some .notAssignable := by decide +kernel
    have hstumbles : (((Program.unfit.lower ⟨false, 2⟩).program.method? "Main").map fun m =>
        Run.isStopped (((Machine.engine ⟨(Program.unfit.lower ⟨false, 2⟩).program, {}⟩).withCare
          true).invokeOn 10 0 m [] {})) = some true := by decide +kernel
    obtain ⟨m, hm, hcall⟩ := Option.bind_eq_some_iff.mp hcall
    obtain ⟨m', hm', hcopy⟩ := Option.bind_eq_some_iff.mp hcopy
    obtain ⟨w, f, hw, hf⟩ := Run.eq_done_of_faultKind? hcall
    obtain ⟨w', f', hw', hf'⟩ := Run.eq_done_of_faultKind? hcopy
    rw [hm, Option.map_some] at hstumbles
    obtain ⟨v, hv⟩ := Run.eq_done_of_isStopped (Option.some.inj hstumbles)
    refine ⟨m, m', w, w', _, _, hm, hm', ⟨10, hw, nofun⟩, ⟨10, hw'⟩, ?_, 10, v, hv⟩
    rintro ⟨heq, -⟩
    rw [heq, hf] at hf'
    cases hf'

/-- Where no name is used that a condition or a loop may have hidden, and the
calls of returned expressions may be made first, the structured program and its
lowered forms agree, with copies and without. -/
theorem Program.LeakFree.lowered_forms_agree {p : Program} (hleak : p.LeakFree)
    (hp : p.lowered = false) (hstructured : p.Structured) (hplain : p.PlainNames)
    (hreturns : p.Returns fun e => e.keepsOrder p = true ∧ e.plainCall p = true)
    (limits : Limits) (limit : Nat) :
    p.SameOutcomes False limits (p.lower ⟨false, limit⟩).program ∧
      p.Follows limits (p.lower ⟨false, limit⟩).program (p.lower ⟨true, limit⟩).program := by
  have hsettles : ∀ call e, e.keepsOrder p = true ∧ e.plainCall p = true →
      eval p call e = settled p false call e :=
    fun _ _ he => (settled_eq_of_keepsOrder he.1).symm
  refine ⟨sameOutcomes_of_settles hsettles hp hstructured hleak hreturns limits limit False nofun
      fun _ => hplain, lower_outlines hp _, lower_outlines hp _, ?_⟩
  intro i m₀ m₁ m₂ h₀ h₁ h₂ stack args w hw w' r ⟨fuel, hrun, hr⟩
  obtain ⟨m, hm, hmem, hlow₁⟩ := exists_of_lowered hp _ h₁
  obtain ⟨m', hm', -, hlow₂⟩ := exists_of_lowered hp _ h₂
  rw [hm] at h₀ hm'
  cases h₀
  cases hm'
  -- The form without copies ends just as the program does, and the other one follows it.
  have hplainly := lowered_agrees ((Machine.engine ⟨p, limits⟩).watched refusalsAndDepth)
    ⟨p, ⟨false, limit⟩⟩ rfl rfl False _ hsettles nofun hp hstructured hleak (fun _ => hplain)
    hreturns hmem hlow₁ stack args hw
  obtain ⟨w₁, r₁, ⟨fuel₁, hrun₁⟩, hw₁, hr₁⟩ := hplainly.forth ⟨fuel, hrun⟩
  have hcalls : p.Returns (·.plainCall p = true) :=
    fun m hm part hpart e he => (hreturns m hm part hpart e he).2
  refine (copied_follows hp hstructured hleak hplain hcalls limits limit hmem hlow₁ hlow₂ hw
    ⟨fuel₁, hrun₁, hr₁.not_cancelled hr⟩).imp id ?_
  rintro ⟨v, r', hends', hv, hr'⟩
  exact ⟨v, r', hends', hw₁.trans hv, hr₁.trans hr'⟩

/-- A method with a branch that declares a name anew. After the branch the name
is used only if `used` says so. -/
def Program.shadowing (used : Bool) : Program :=
  Program.empty.addMethod ((Method.start "Main").withParam "x" .scalar |>.withBody
    [.ifThen (.op .eq (.named "x") (.ofLiteral (.int 1)))
        [.scalarVar "x" (some (.ofLiteral (.int 2)))],
      .giveBack (some (if used then .named "x" else .ofLiteral (.int 0)))])

/-- A hidden name that is not used any more does no harm. -/
theorem Program.shadowing_unused_agrees :
    (Program.shadowing false).LeakFree ∧ (Program.shadowing false).lowered = false ∧
      (Program.shadowing false).Structured ∧ (Program.shadowing false).PlainNames ∧
      ((Program.shadowing false).Returns fun e => e.keepsOrder (.shadowing false) = true ∧
        e.plainCall (.shadowing false) = true) ∧
      (Program.shadowing false).SameOutcomes False {}
        ((Program.shadowing false).lower ⟨false, 2⟩).program ∧
      (Program.shadowing false).Follows {} ((Program.shadowing false).lower ⟨false, 2⟩).program
        ((Program.shadowing false).lower ⟨true, 2⟩).program := by
  have hleak : (Program.shadowing false).LeakFree := by
    show ∀ m ∈ (Program.shadowing false).methods, m.LeakFree
    decide
  have hstructured : (Program.shadowing false).Structured := by
    show ∀ m ∈ (Program.shadowing false).methods, ∀ part ∈ Stmt.partsOf m.body,
      part.isJumpCode = false
    decide
  have hplain : (Program.shadowing false).PlainNames := by
    show ∀ m ∈ (Program.shadowing false).methods, (∀ param ∈ m.params, Plain param.name) ∧
      ∀ part ∈ Stmt.partsOf m.body, ∀ x ∈ part.names, Plain x
    decide
  have hreturns : (Program.shadowing false).Returns fun e =>
      e.keepsOrder (.shadowing false) = true ∧ e.plainCall (.shadowing false) = true := by
    show ∀ m ∈ (Program.shadowing false).methods, ∀ part ∈ Stmt.partsOf m.body,
      ∀ e ∈ part.returned?, e.keepsOrder (Program.shadowing false) = true ∧
        e.plainCall (Program.shadowing false) = true
    decide
  exact ⟨hleak, rfl, hstructured, hplain, hreturns,
    hleak.lowered_forms_agree rfl hstructured hplain hreturns {} 2⟩

/-- A name that a branch declares anew is seen after the branch in jump code,
with copies and without, and not in the structured program. -/
theorem Program.shadowing_used_leaks :
    (Program.shadowing true).lowered = false ∧ (Program.shadowing true).Structured ∧
      ((Program.shadowing true).lower ⟨false, 2⟩).hasErrors = false ∧
      (((Program.shadowing true).method? "Main").bind fun m =>
        (invokeOn ⟨.shadowing true, {}⟩ 10 0 m [.int 1] {}).integer?) = some 1 ∧
      ((((Program.shadowing true).lower ⟨false, 2⟩).program.method? "Main").bind fun m =>
        (invokeOn ⟨((Program.shadowing true).lower ⟨false, 2⟩).program, {}⟩ 10 0 m [.int 1]
          {}).integer?) = some 2 ∧
      ((((Program.shadowing true).lower ⟨true, 2⟩).program.method? "Main").bind fun m =>
        (invokeOn ⟨((Program.shadowing true).lower ⟨true, 2⟩).program, {}⟩ 10 0 m [.int 1]
          {}).integer?) = some 2 := by
  refine ⟨rfl, ?_, by decide +kernel, by decide +kernel, by decide +kernel, by decide +kernel⟩
  show ∀ m ∈ (Program.shadowing true).methods, ∀ part ∈ Stmt.partsOf m.body,
    part.isJumpCode = false
  decide

/-- Every invocation ends in the second program just when it ends in the first
with the calls of each returned expression made first, in the same way. -/
def Program.MakesCallsFirst (limits : Limits) (p q : Program) : Prop :=
  List.Forall₂ (fun m m' => m'.outline = m.outline ∧ ∀ stack args w, w.Ready →
      Agreement False
        (fun fuel => (Machine.callsFirst ⟨p, limits⟩ fun _ => false).invokeOn fuel stack m args w)
        fun fuel => invokeOn ⟨q, limits⟩ fuel stack m' args w)
    p.methods q.methods

/-- In jump code the calls of a returned expression come first. Nothing that
is evaluated changes its place by that where it keeps the order of evaluation. -/
theorem Program.LeakFree.makesCallsFirst {p : Program} (hleak : p.LeakFree)
    (hp : p.lowered = false) (hstructured : p.Structured) (hplain : p.PlainNames)
    (limits : Limits) (limit : Nat) :
    p.MakesCallsFirst limits (p.lower ⟨false, limit⟩).program ∧
      (p.Returns (·.keepsOrder p = true) →
        p.SameOutcomes False limits (p.lower ⟨false, limit⟩).program) := by
  constructor
  · refine lower_methods_of hp _ fun m hm m' hlow => ⟨hlow.outline_eq, fun stack args w hw => ?_⟩
    have hagree : Agreement False
        (fun fuel => (Machine.callsFirst ⟨p, limits⟩ fun _ => false).invokeOn fuel stack m args w)
        (fun fuel => (Machine.engine ⟨(p.lower ⟨false, limit⟩).program, limits⟩).invokeOn fuel
          stack m' args w) :=
      lowered_agrees (.callsFirst ⟨p, limits⟩ fun _ => false) ⟨p, ⟨false, limit⟩⟩ rfl rfl False
        (fun _ => True) (fun _ _ _ => rfl) nofun hp hstructured hleak (fun _ => hplain)
        (fun _ _ _ _ _ _ => trivial) hm hlow stack args hw
    simpa only [Machine.engine_invokeOn] using hagree
  · intro hreturns
    exact sameOutcomes_of_settles (fun _ _ he => (settled_eq_of_keepsOrder he).symm) hp
      hstructured hleak hreturns limits limit False nofun fun _ => hplain

/-- A method that changes a global variable and one that returns a sum with a
call of it on the right, behind the variable or behind another call. -/
def Program.summing (left : Expr) : Program :=
  (Program.empty.addMethod
      ((Method.start "Bump").withBody
        [.store (.named "g") (.ofLiteral (.int 1)),
          .giveBack (some (.ofLiteral (.int 10)))])).addMethod
    ((Method.start "Main").withBody [.giveBack (some (.op .add left (.invoke "Bump" [])))])

/-- Two calls in a sum are made in the order in which they stand. -/
theorem Program.summing_calls_keeps_order :
    (Program.summing (.invoke "Bump" [])).LeakFree ∧
      (Program.summing (.invoke "Bump" [])).lowered = false ∧
      (Program.summing (.invoke "Bump" [])).Structured ∧
      (Program.summing (.invoke "Bump" [])).PlainNames ∧
      (Program.summing (.invoke "Bump" [])).MakesCallsFirst {}
        ((Program.summing (.invoke "Bump" [])).lower ⟨false, 2⟩).program ∧
      (Program.summing (.invoke "Bump" [])).SameOutcomes False {}
        ((Program.summing (.invoke "Bump" [])).lower ⟨false, 2⟩).program := by
  have hleak : (Program.summing (.invoke "Bump" [])).LeakFree := by
    show ∀ m ∈ (Program.summing (.invoke "Bump" [])).methods, m.LeakFree
    decide
  have hstructured : (Program.summing (.invoke "Bump" [])).Structured := by
    show ∀ m ∈ (Program.summing (.invoke "Bump" [])).methods, ∀ part ∈ Stmt.partsOf m.body,
      part.isJumpCode = false
    decide
  have hplain : (Program.summing (.invoke "Bump" [])).PlainNames := by
    show ∀ m ∈ (Program.summing (.invoke "Bump" [])).methods,
      (∀ param ∈ m.params, Plain param.name) ∧
        ∀ part ∈ Stmt.partsOf m.body, ∀ x ∈ part.names, Plain x
    decide
  obtain ⟨hfirst, hsame⟩ := hleak.makesCallsFirst rfl hstructured hplain {} 2
  refine ⟨hleak, rfl, hstructured, hplain, hfirst, hsame ?_⟩
  show ∀ m ∈ (Program.summing (.invoke "Bump" [])).methods, ∀ part ∈ Stmt.partsOf m.body,
    ∀ e ∈ part.returned?, e.keepsOrder (Program.summing (.invoke "Bump" [])) = true
  decide

/-- A world with one global variable, which holds zero. -/
def World.withZero : World := World.declareGlobal {} ⟨"g", .scalar, .int 0⟩

/-- A variable in front of a call is read behind the call in jump code. -/
theorem Program.summing_variable_reordered :
    (((Program.summing (.named "g")).method? "Main").bind fun m =>
        (invokeOn ⟨.summing (.named "g"), {}⟩ 10 0 m [] World.withZero).integer?) = some 10 ∧
      ((((Program.summing (.named "g")).lower ⟨false, 2⟩).program.method? "Main").bind fun m =>
        (invokeOn ⟨((Program.summing (.named "g")).lower ⟨false, 2⟩).program, {}⟩ 10 0 m []
          World.withZero).integer?) = some 11 ∧
      ((((Program.summing (.named "g")).lower ⟨true, 2⟩).program.method? "Main").bind fun m =>
        (invokeOn ⟨((Program.summing (.named "g")).lower ⟨true, 2⟩).program, {}⟩ 20 0 m []
          World.withZero).integer?) = some 11 := by
  exact ⟨by decide +kernel, by decide +kernel, by decide +kernel⟩

end Stepwise
