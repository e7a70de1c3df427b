import Stepwise.Proofs.Engine.Stumbles
import Stepwise.Proofs.Simulation.Body

/-!
# Invocations in both programs

An invocation begins with no call in progress and no variables but the global
ones, which are common to both sides. So the comparison of calls gives a
comparison of whole invocations.
-/

namespace Stepwise.Simulation

open Engine
open Lowering hiding Target

variable {T : Tie} {w : World}

/-- Two worlds on common ground agree. -/
theorem Ground.agrees {links : List (Nat × Nat)} {own : List (Nat × Cell)} {w v : World}
    (h : Ground T links own w v) : w.Agrees v where
  toShares := h.shares
  globals := h.memory.globals
  values := fun g hg => h.memory.common g (h.memory.globals_lt g hg)

/-- Before an invocation both sides stand on common ground. -/
theorem ground_fresh (h : w.Ready) (hbase : T.base = w.memory.cells.size) (stack : Nat) :
    Ground T [] [] { w with stack := .fresh stack } { w with stack := .fresh stack } where
  shares := ⟨rfl, rfl, rfl, rfl, rfl⟩
  gate := h.gate
  stackId := rfl
  memory :=
    { globals := rfl
      globals_lt := by rw [hbase]; exact h.globals
      base_le := Nat.le_of_eq hbase
      base_le' := Nat.le_of_eq hbase
      common := fun _ _ => rfl
      oneToOne := ⟨nofun, nofun⟩
      linked := nofun
      distinct := List.nodup_nil
      apart := nofun
      owned := nofun }
  depth_le := Nat.le_refl _
  depth_eq := fun _ => rfl

/-- Early ends that are alike still are when fatal failures have stopped both machines. -/
theorem Alike.stopped {u u' : Unwind} (h : Alike T.sharp none u u') {w v : World}
    (ha : w.Agrees v) :
    Mirrors T.strictTerms (Exec.stopOn T.source.fatal (fun w => .done w (.error u)) w : Run Val)
      (Exec.stopOn T.target.fatal (fun v => .done v (.error u')) v : Run Val)
      (fun w a v b => b = a ∧ w.Agrees v) (fun w u v u' => u.Agrees T.sharp u' ∧ w.Agrees v) := by
  cases u with
  | cancelled =>
    cases u' with
    | cancelled => exact .error ⟨trivial, ha⟩
    | failed f' => cases h
  | failed f =>
    cases u' with
    | cancelled => cases h
    | failed f' =>
      obtain ⟨hfault, -, hplace⟩ := h
      by_cases hf : T.source.fatal f.fault.kind = true
      · by_cases hlax : T.lax
        · simp only [Exec.stopOn, Run.andThen, hf, if_true]
          exact .spoiled hlax rfl
        · have hf' : T.target.fatal f'.fault.kind = true := by
            rw [T.fatal_eq (Tie.not_lax hlax), hfault, hf]
          simp only [Exec.stopOn, Run.andThen, hf, hf', if_true]
          exact .error ⟨trivial, ha⟩
      · have hf' : ¬ T.target.fatal f'.fault.kind = true := by
          rw [hfault]
          exact fun ht => hf (T.fatal_le _ ht)
        simp only [Exec.stopOn, Run.andThen, hf, hf']
        exact .error ⟨⟨hfault, fun hs => by simpa using hplace hs⟩, ha⟩

/-- An invocation in the target does what it does in the source. -/
theorem outcome_mirrors (hfits : T.Fits) {m m' : Method} (hm : m ∈ T.setting.program.methods)
    (hlow : LoweredFrom T.setting m m') (hw : w.Ready) (hbase : T.base = w.memory.cells.size)
    (stack : Nat) (args : List Val) :
    Mirrors T.strictTerms (T.source.outcome stack m args w) (T.target.outcome stack m' args w)
      (fun w a v b => b = a ∧ w.Agrees v) (fun w u v u' => u.Agrees T.sharp u' ∧ w.Agrees v) := by
  have hcall := call_ground hfits hm hlow (ground_fresh hw hbase stack)
    (fun _ => bodySim hfits _) args
  refine hcall.andThen Iff.rfl id ?_ ?_ fun v => ⟨v, rfl⟩
  · intro w' r v' r' hr
    cases r with
    | ok a =>
      cases r' with
      | ok b => exact .ok ⟨hr.1, hr.2.agrees⟩
      | error u' => cases hr
    | error u =>
      cases r' with
      | ok b => cases hr
      | error u' => exact hr.1.stopped hr.2.agrees
  · rintro hlax w' u (rfl | ⟨f, rfl, hf⟩) w'' r hr
    · cases hr
      exact ⟨_, rfl, rfl⟩
    · simp only [hf, if_true] at hr
      cases hr
      exact ⟨_, rfl, rfl⟩

/-- An invocation that ends in the source ends in the target, where it agrees
unless the comparison forgives. -/
theorem outcome_forth (hfits : T.Fits) {m m' : Method} (hm : m ∈ T.setting.program.methods)
    (hlow : LoweredFrom T.setting m m') (hw : w.Ready) (hbase : T.base = w.memory.cells.size)
    {stack : Nat} {args : List Val} {w' : World} {r : Except Unwind Val}
    (hr : T.source.outcome stack m args w = .done w' r) :
    (T.lax ∧ (r = .error .cancelled ∨
      Escapes T.strictTerms (T.target.outcome stack m' args w))) ∨
      ∃ v r', T.target.outcome stack m' args w = .done v r' ∧ w'.Agrees v ∧
        Outcome.Agrees T.sharp r r' := by
  obtain ⟨hlax, ⟨_, rfl, rfl⟩ | hescapes⟩ | ⟨v, r', hv, hrel⟩ :=
    (outcome_mirrors hfits hm hlow hw hbase stack args).forth hr
  · exact .inl ⟨hlax, .inl rfl⟩
  · exact .inl ⟨hlax, .inr hescapes⟩
  · refine .inr ⟨v, r', hv, ?_⟩
    rcases r with u | a <;> rcases r' with u' | b
    · exact ⟨hrel.2, hrel.1⟩
    · cases hrel
    · cases hrel
    · exact ⟨hrel.2, hrel.1⟩

/-- Without copies an invocation ends in one program just when it ends in the other. -/
theorem invokeOn_agreement (hlax : ¬ T.lax) (hfits : T.Fits) {m m' : Method}
    (hm : m ∈ T.setting.program.methods) (hlow : LoweredFrom T.setting m m') (hw : w.Ready)
    (hbase : T.base = w.memory.cells.size) (stack : Nat) (args : List Val) :
    Agreement T.sharp (fun fuel => T.source.invokeOn fuel stack m args w)
      (fun fuel => T.target.invokeOn fuel stack m' args w) := by
  have hsource := T.source.invokeOn_tends stack m args w
  have htarget := T.target.invokeOn_tends stack m' args w
  constructor
  · intro w' r hr
    obtain ⟨hl, -⟩ | ⟨v, r', hv, hagree⟩ :=
      outcome_forth hfits hm hlow hw hbase (hsource.limit.mpr hr)
    · exact absurd hl hlax
    · exact ⟨v, r', htarget.limit.mp hv, hagree⟩
  · intro v r' hv
    have hv := htarget.limit.mpr hv
    obtain ⟨w', r, hr⟩ :=
      (outcome_mirrors hfits hm hlow hw hbase stack args).back hlax ⟨v, r', hv⟩
    obtain ⟨hl, -⟩ | ⟨v₁, r₁, hv₁, hagree⟩ := outcome_forth hfits hm hlow hw hbase hr
    · exact absurd hl hlax
    · rw [hv] at hv₁
      cases hv₁
      exact ⟨w', r, hsource.limit.mp hr, hagree⟩

/-- A program that fits the comparison, by its properties. -/
theorem Tie.fits_of (hp : T.setting.program.lowered = false)
    (hstructured : T.setting.program.Structured) (hleak : T.setting.program.LeakFree)
    (hplain : ¬ T.sharp → T.setting.program.PlainNames)
    (hreturns : T.setting.program.Returns T.settles) : T.Fits where
  unlowered := hp
  leakFree := hleak
  admits := by
    intro m hm part hpart
    refine ⟨hstructured m hm part hpart, fun hs => (hplain hs m hm).2 part hpart, ?_⟩
    rintro e span rfl
    exact hreturns m hm _ hpart e rfl
  params := fun hs m hm => (hplain hs m hm).1

/-- The engine for the lowered form of a program. -/
def loweredEngine (setting : Setting) (limits : Limits) : Machine :=
  .engine ⟨(setting.program.lower setting.options).program, limits⟩

/-- A machine for a program against the engine for its lowered form without copies, whose calls are
as wary. -/
def Tie.withoutCopies (source : Machine) (setting : Setting)
    (hprogram : source.code.program = setting.program) (hinline : setting.options.inline = false)
    (base : Nat) (sharp : Prop) (settles : Expr → Prop)
    (hreturned : ∀ call e, settles e → source.returned call e =
      settled setting.program source.wary call e)
    (hsharp : sharp → ∀ e, settles e → e.callFree setting.program = true) : Tie where
  source := source
  target := ((loweredEngine setting source.code.limits).withCare source.wary).watched source.fatal
  setting := setting
  base := base
  sharp := sharp
  source_program := hprogram
  target_program := rfl
  target_returned := rfl
  limits_eq := rfl
  target_wary := by rw [hinline, Bool.not_false, Bool.and_true]; rfl
  fatal_le := fun _ h => h
  fatal_eq := fun _ => rfl
  fatal_shape := fun h => absurd (hinline.symm.trans h) nofun
  fatal_depth := fun h => absurd (hinline.symm.trans h) nofun
  sharp_strict := fun _ => hinline
  settles := settles
  source_returned := hreturned
  sharp_settles := hsharp
  lax_settles := fun h => absurd (hinline.symm.trans h) nofun

/-- Without copies, every method of the lowered program does what the method
of the program does. -/
theorem lowered_agrees (source : Machine) (setting : Setting)
    (hprogram : source.code.program = setting.program) (hinline : setting.options.inline = false)
    (sharp : Prop) (settles : Expr → Prop)
    (hreturned : ∀ call e, settles e → source.returned call e =
      settled setting.program source.wary call e)
    (hsharp : sharp → ∀ e, settles e → e.callFree setting.program = true)
    (hp : setting.program.lowered = false) (hstructured : setting.program.Structured)
    (hleak : setting.program.LeakFree) (hplain : ¬ sharp → setting.program.PlainNames)
    (hreturns : setting.program.Returns settles) {m m' : Method}
    (hm : m ∈ setting.program.methods) (hlow : LoweredFrom setting m m') (stack : Nat)
    (args : List Val) (hw : w.Ready) :
    Agreement sharp (fun fuel => source.invokeOn fuel stack m args w) fun fuel =>
      (((loweredEngine setting source.code.limits).withCare source.wary).watched
        source.fatal).invokeOn fuel stack m' args w := by
  let T := Tie.withoutCopies source setting hprogram hinline w.memory.cells.size sharp settles
    hreturned hsharp
  have hfits : T.Fits := Tie.fits_of hp hstructured hleak hplain hreturns
  exact invokeOn_agreement (T := T) (fun hl => absurd (hinline.symm.trans hl) nofun) hfits hm hlow
    hw rfl stack args

/-- The kind of a value that a variable refuses. -/
def refusals : FaultKind → Bool
  | .notAssignable => true
  | _ => false

/-- That kind, and the kind of too many calls in progress. -/
def refusalsAndDepth : FaultKind → Bool
  | .notAssignable | .stackOverflow => true
  | _ => false

/-- A machine for a program against the engine for its lowered form with copies. -/
def Tie.withCopies (source : Machine) (setting : Setting)
    (hprogram : source.code.program = setting.program) (hfatal : source.fatal = refusalsAndDepth)
    (base : Nat) (settles : Expr → Prop)
    (hreturned : ∀ call e, settles e → source.returned call e =
      settled setting.program source.wary call e)
    (hargs : ∀ method args span, settles (.call method args span) →
      Expr.listCallFree setting.program args = true)
    (hinline : setting.options.inline = true) : Tie where
  source := source
  target := (loweredEngine setting source.code.limits).watched refusals
  setting := setting
  base := base
  sharp := False
  source_program := hprogram
  target_program := rfl
  target_returned := rfl
  limits_eq := rfl
  target_wary := by rw [hinline, Bool.not_true, Bool.and_false]; rfl
  fatal_le := by
    intro kind h
    rw [hfatal]
    cases kind <;> first | rfl | cases h
  fatal_eq := fun h => absurd (hinline.symm.trans h) nofun
  fatal_shape := fun _ => ⟨by rw [hfatal]; rfl, rfl⟩
  fatal_depth := fun _ => by rw [hfatal]; rfl
  sharp_strict := nofun
  settles := settles
  source_returned := hreturned
  sharp_settles := nofun
  lax_settles := fun _ => hargs

/-- With copies, every method of the lowered program does what the method of
the program does, unless a value is refused or calls are nested too deep. If
calls of the program are wary, the lowered program refuses no value then. -/
theorem copied_agrees (source : Machine) (setting : Setting)
    (hprogram : source.code.program = setting.program) (hinline : setting.options.inline = true)
    (hfatal : source.fatal = refusalsAndDepth) (settles : Expr → Prop)
    (hreturned : ∀ call e, settles e → source.returned call e =
      settled setting.program source.wary call e)
    (hargs : ∀ method args span, settles (.call method args span) →
      Expr.listCallFree setting.program args = true)
    (hp : setting.program.lowered = false) (hstructured : setting.program.Structured)
    (hleak : setting.program.LeakFree) (hplain : setting.program.PlainNames)
    (hreturns : setting.program.Returns settles) {m m' : Method}
    (hm : m ∈ setting.program.methods) (hlow : LoweredFrom setting m m') {stack : Nat}
    {args : List Val} (hw : w.Ready) {w' : World} {r : Except Unwind Val}
    (hends : EndsIn (fun fuel => source.invokeOn fuel stack m args w) w' r)
    (hr : r ≠ .error .cancelled) :
    (source.wary = false ∧
        Meets refusals (loweredEngine setting source.code.limits).code stack m' args w) ∨
      ∃ v r', EndsIn (fun fuel => invokeOn (loweredEngine setting source.code.limits).code fuel
        stack m' args w) v r' ∧ w'.Agrees v ∧ Outcome.Agrees False r r' := by
  let T := Tie.withCopies source setting hprogram hfatal w.memory.cells.size settles hreturned
    hargs hinline
  have hfits : T.Fits := Tie.fits_of hp hstructured hleak (fun _ => hplain) hreturns
  have htarget := T.target.invokeOn_tends stack m' args w
  obtain ⟨-, hstopped | ⟨hplain, v, hv⟩⟩ | ⟨v, r', hv, hagree⟩ :=
    outcome_forth (T := T) hfits hm hlow hw rfl
      ((source.invokeOn_tends stack m args w).limit.mpr hends)
  · exact absurd hstopped hr
  · obtain ⟨fuel, hfuel⟩ := htarget.limit.mp hv
    exact .inl ⟨hplain, fuel, v, hfuel⟩
  · obtain ⟨fuel, hfuel⟩ := htarget.limit.mp hv
    have hends' : EndsWithout refusals (loweredEngine setting source.code.limits).code stack m'
        args w v r' := ⟨fuel, hfuel, hagree.2.not_cancelled hr⟩
    exact .inr ⟨v, r', hends'.ends, hagree⟩

end Stepwise.Simulation
