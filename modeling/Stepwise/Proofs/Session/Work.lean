import Stepwise.Session.Request
import Stepwise.Proofs.Engine.Pace

/-!
# Pieces of work

A session gives its worker one piece of work at a time: to prepare the
program, or to run an invocation. Either ends with a report, also when it is
turned away at the gate. An invocation settles its account at the end, and
reports its failure, if it fails.
-/

namespace Stepwise

open Controls (Act)

/-- The failure that work ended with, if it failed. -/
def Unwind.failures {α : Type} : Except Unwind α → List Failure
  | .error (.failed f) => [f]
  | _ => []

/-- The failures that a piece of work reports to the controls before it ends. -/
def Report.settled : Except Unwind Report → List Failure
  | .ok (.ended _ outcome) => Unwind.failures outcome
  | _ => []

namespace World

/-- What a piece of work does until it ends so. -/
def Works (w w' : World) (r : Except Unwind Report) : Prop :=
  ∃ acts, Changes acts w w' ∧ Act.signals acts = (Report.settled r).map .fail

end World

namespace Run

/-- A piece of work keeps its pace, begun in a world. -/
def Strides (w : World) : Run Report → Prop
  | .done w' r => w.Works w' r
  | .held w' resume =>
    w.Runs w' ∧ (∀ v, ∃ v' r, resume .cancelled v = .done v' r ∧ v.Works v' r) ∧
      ∃ stmt, ∀ v, (resume .passed v).Strides (v.observe true stmt)
  | .exhausted => True

/-- A run whose end becomes a report is a piece of work. -/
theorem Paced.strides {α : Type} {u : Unwind} {x : Run α} {w : World} (h : x.Paced u w)
    {k : World → Except Unwind α → Run Report}
    (hk : ∀ (v v' : World) r, v.Runs v' → ∃ v'' r', k v' r = .done v'' r' ∧ v.Works v'' r') :
    (x.andThen k).Strides w := by
  induction x generalizing w with
  | done w' r =>
    obtain ⟨v, r', hv, hworks⟩ := hk w w' r h
    show (k w' r).Strides w
    rw [hv]
    exact hworks
  | exhausted => exact trivial
  | held w' resume ih =>
    obtain ⟨hruns, hturned, stmt, hpassed⟩ := h
    refine ⟨hruns, fun v => ?_, stmt, fun v => ih .passed v (hpassed v)⟩
    obtain ⟨v', hv, hcloses⟩ := hturned v
    obtain ⟨v'', r, hv', hworks⟩ := hk v v' (.error u) hcloses.changes.runs
    refine ⟨v'', r, ?_, hworks⟩
    show (resume .cancelled v).andThen k = _
    rw [hv]
    exact hv'

end Run

namespace World

/-- The account of an invocation is settled, and its failure reported. -/
theorem changes_settleTask (stack : Nat) (outcome : Except Unwind Val) (w : World) :
    ∃ acts, Changes acts w (Engine.settleTask stack outcome w) ∧
      Act.signals acts = (Unwind.failures outcome).map .fail := by
  have hend := (Change.plain w (.track (·.taskEnded stack)) rfl).changes
  have hidle : ∀ v : World,
      Changes [.refreshIdle] v { v with controls := v.controls.refreshIdle.2 } :=
    fun v => (Change.plain v .refreshIdle rfl).changes
  rcases outcome with (f | _) | v
  · have hfail := hend.trans (Change.plain _ (.fail f) rfl).changes
    exact ⟨_, hfail.trans (hidle _), rfl⟩
  · exact ⟨_, hend.trans (hidle _), rfl⟩
  · exact ⟨_, hend.trans (hidle _), rfl⟩

end World

theorem paces_loadAll {u : Unwind} (names : List String) : (loadAll names).Paces u := by
  induction names with
  | nil => exact Exec.paces_ret _
  | cons name rest ih =>
    exact (Exec.paces_aside (Engine.aside_onHost (Engine.careful_load name))).bind fun _ => ih

/-- Preparing a program keeps its pace. -/
theorem paces_prepare (p : Program) (config : Config) (fuel : Nat) :
    (prepare p config fuel).Paces Engine.stoppedInGlobals := by
  unfold prepare
  dsimp only
  split
  · exact Exec.paces_stop _
  · exact (paces_loadAll _).bind fun _ => (Engine.paces_initGlobals _ _ _).bind fun _ =>
      (Exec.paces_lift _).bind fun _ => Exec.paces_ret _

namespace Session

/-- Preparing a program is a piece of work. -/
theorem strides_prepare (p : Program) (config : Config) (fuel : Nat) (ticket : Nat)
    (args : List String) (w : World) :
    ((prepare p config fuel w).andThen fun w outcome =>
      .done w (.ok (.prepared ticket args outcome))).Strides w := by
  refine (paces_prepare p config fuel w).strides fun v v' r hruns => ⟨v', _, rfl, ?_⟩
  obtain ⟨acts, hacts, hchanges⟩ := hruns
  exact ⟨acts, hchanges, Act.signals_of_byEngine hacts⟩

/-- Running an invocation is a piece of work. -/
theorem strides_workOn (code : Code) (fuel : Nat) (job : Job) (w : World) :
    (workOn code fuel job w).Strides w := by
  have hwork : workOn code fuel job w = (Engine.invokeOn code fuel job.stack job.method job.args
      w).andThen fun w outcome =>
        .done (Engine.settleTask job.stack outcome w) (.ok (.ended job.ticket outcome)) := by
    unfold workOn Engine.runJob
    rw [Run.andThen_assoc]
    rfl
  have hpaced : (Engine.invokeOn code fuel job.stack job.method job.args w).Paced .cancelled w :=
    ((Engine.pacesWith code fuel).call job.method job.args _).after (w.changes_stack _).runs
  rw [hwork]
  refine hpaced.strides fun v v' outcome hruns => ⟨_, _, rfl, ?_⟩
  obtain ⟨acts, hacts, hchanges⟩ := hruns
  obtain ⟨more, hsettled, hsignals⟩ := v'.changes_settleTask job.stack outcome
  refine ⟨acts ++ more, hchanges.trans hsettled, ?_⟩
  rw [Act.signals_append, Act.signals_of_byEngine hacts, hsignals]
  rfl

end Session

end Stepwise
