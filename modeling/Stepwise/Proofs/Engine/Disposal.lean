import Stepwise.Program.Construct
import Stepwise.Proofs.Engine.Balance
import Stepwise.Proofs.Engine.Retelling

/-!
# Variables that are disposed of

A scope that is closed and a call that is ended take the values of their variables with
them. Wherever this happens in a run, inside calls and scopes of any depth, it takes no
value of a variable that is still bound in another scope or as a global one: a variable
is bound in one place only. Together with the balance of the call stack this is what
work leaves of the world in which it began.
-/

namespace Stepwise

open Engine

variable {α : Type}

/-- Variables that are bound in the later of two worlds are as they were in the earlier one. -/
def World.Spares (w w' : World) : Prop :=
  ∀ id ∈ w'.bound, w'.memory.cell id = w.memory.cell id

namespace World.Tidy

variable {w w' : World}

/-- Disposing of variables spares those that stay bound. -/
theorem spares_of_gone (h : w.Tidy) {gone : List Nat} (hbound : gone ++ w'.bound = w.bound)
    (hmemory : w'.memory = w.memory.disposeAll gone) : w.Spares w' := by
  intro id hid
  have hapart : id ∉ gone := fun hgone =>
    (List.nodup_append.mp (hbound ▸ h.once)).2.2 id hgone id hid rfl
  rw [hmemory, Memory.cell_disposeAll _ hapart]

theorem spares_restoreScopes (h : w.Tidy) (mark : Nat) : w.Spares (w.restoreScopes mark) :=
  h.spares_of_gone (w.bound_restoreScopes mark) rfl

theorem spares_popFrame (h : w.Tidy) : w.Spares w.popFrame.2 :=
  h.spares_of_gone w.bound_popFrame rfl

/-- Elementary steps leave a tidy world. -/
theorem elementary (h : w.Tidy) (hstep : w.Elementary w') : w'.Tidy := by
  cases hstep with
  | aside => exact ⟨h.scopes, h.once, h.known⟩
  | declare c => exact (h.declare 0 c).1
  | declareLocal c => exact (h.declareLocal 0 c).1
  | store id c =>
    refine ⟨h.scopes, h.once, fun id' hid' => ?_⟩
    rw [Memory.size_setCell]
    exact h.known id' hid'
  | result => exact h.mapCurrent fun _ => rfl

theorem opens (h : w.Tidy) (hopens : w.Opens w') : w'.Tidy := by
  cases hopens with
  | empty => exact h.pushScope
  | exception c => exact (h.pushScope.declareLocal 0 c).1

theorem enter (h : w.Tidy) {stmt : Stmt} (hnoted : Engine.enter stmt w = .done w' (.ok ())) :
    w'.Tidy := by
  cases hnoted
  split
  · exact h
  · exact h.mapCurrent fun _ => rfl

end World.Tidy

mutual

/-- An episode and all those inside it. -/
def Episode.parts : Episode → List Episode
  | .away place seen => [.away place seen]
  | .execution x inner => .execution x inner :: Episode.partsOf inner
  | .scope mark last inner => .scope mark last inner :: Episode.partsOf inner
  | .call m first last inner => .call m first last inner :: Episode.partsOf inner
  | .rescued inner => .rescued inner :: Episode.partsOf inner

/-- Episodes and all those inside them. -/
def Episode.partsOf : List Episode → List Episode
  | [] => []
  | e :: rest => e.parts ++ Episode.partsOf rest

end

namespace Episode

@[simp] theorem partsOf_append (es es' : List Episode) :
    partsOf (es ++ es') = partsOf es ++ partsOf es' := by
  induction es with
  | nil => rfl
  | cons e rest ih => rw [List.cons_append, partsOf, partsOf, ih, List.append_assoc]

/-- At the end of a scope or a call nothing is lost that is still bound. -/
def Spares : Episode → Prop
  | .scope mark last _ => last.Spares (last.restoreScopes mark)
  | .call _ _ last _ => last.Spares last.popFrame.2
  | _ => True

/-- With a call there are not too many calls in progress. -/
def Shallow (limit : Nat) : Episode → Prop
  | .call m first _ _ => (first.pushFrame m).stack.depth ≤ limit
  | _ => True

end Episode

namespace Chronicle

open Episode

variable {code : Code} {P : Stmt → Prop} {limit : Nat} {w w' : World} {ρ : Run α}
  {r : Except Unwind α} {es : List Episode}

/-- A property of single episodes that holds in both of two parts. -/
theorem forall_partsOf_append {p : Episode → Prop} {es es' : List Episode}
    (h : ∀ e ∈ partsOf es, p e) (h' : ∀ e ∈ partsOf es', p e) : ∀ e ∈ partsOf (es ++ es'), p e := by
  intro e he
  rw [partsOf_append] at he
  exact (List.mem_append.mp he).elim (h e) (h' e)

/-- A property of single episodes that holds of one and of those inside it. -/
theorem forall_partsOf_singleton {p : Episode → Prop} {e : Episode} {inner : List Episode}
    (hparts : e.parts = e :: partsOf inner) (he : p e) (h : ∀ e ∈ partsOf inner, p e) :
    ∀ e' ∈ partsOf [e], p e' := by
  intro e' he'
  rw [partsOf, partsOf, List.append_nil, hparts] at he'
  rcases List.mem_cons.mp he' with rfl | he'
  · exact he
  · exact h e' he'

/-- Work in a tidy world leaves a tidy one, and it disposes of nothing that is still bound. -/
theorem tidy (h : Chronicle code P (fun _ => World.Meanwhile limit) w ρ w' r es) (hw : w.Tidy) :
    w'.Tidy ∧ ∀ e ∈ partsOf es, e.Spares := by
  have hnil : ∀ e ∈ partsOf [], e.Spares := fun e he => absurd he List.not_mem_nil
  induction h with
  | step quiet raw => exact ⟨hw.elementary quiet, hnil⟩
  | enter stmt noted => exact ⟨hw.enter noted, hnil⟩
  | waits turn waited stack trace leaves calm =>
    refine ⟨waited.tidy, fun e he => ?_⟩
    rw [partsOf, partsOf, List.append_nil, parts, List.mem_singleton] at he
    subst he
    trivial
  | bind first second ih ih' =>
    obtain ⟨hv, hspares⟩ := ih hw
    obtain ⟨hw', hspares'⟩ := ih' hv
    exact ⟨hw', forall_partsOf_append hspares hspares'⟩
  | early first ih => exact ih hw
  | scope opens inside ih =>
    obtain ⟨hlast, hspares⟩ := ih (hw.opens opens)
    exact ⟨hlast.restoreScopes _,
      forall_partsOf_singleton (by rw [parts]) (hlast.spares_restoreScopes _) hspares⟩
  | call shallow arity inside ih =>
    obtain ⟨hlast, hspares⟩ := ih (hw.pushFrame _)
    exact ⟨hlast.popFrame, forall_partsOf_singleton (by rw [parts]) hlast.spares_popFrame hspares⟩
  | execution x fits entered work own ih =>
    obtain ⟨hfinish, hspares⟩ := ih ⟨hw.scopes, hw.once, hw.known⟩
    refine ⟨?_, forall_partsOf_singleton (by rw [parts]) trivial hspares⟩
    by_cases hx : x.Completes
    · rw [Execution.after_of_completes hx]
      exact ⟨hfinish.scopes, hfinish.once, hfinish.known⟩
    · rwa [Execution.after_of_not_completes hx]
  | spared tried fine ih => exact ih hw
  | rescued tried handled ih ih' =>
    obtain ⟨hv, hspares⟩ := ih hw
    obtain ⟨hw', hspares'⟩ := ih' hv
    exact ⟨hw', forall_partsOf_append
      (forall_partsOf_singleton (by rw [parts]) trivial hspares) hspares'⟩

/-- Calls never nest too deep. -/
theorem shallow {meanwhile : Passage → World → World → Prop}
    (h : Chronicle code P meanwhile w ρ w' r es) :
    ∀ e ∈ partsOf es, e.Shallow code.limits.maxCallDepth := by
  induction h with
  | step | enter => exact fun e he => absurd he List.not_mem_nil
  | waits =>
    intro e he
    rw [partsOf, partsOf, List.append_nil, parts, List.mem_singleton] at he
    subst he
    trivial
  | bind first second ih ih' => exact forall_partsOf_append ih ih'
  | early first ih | spared tried fine ih => exact ih
  | scope opens inside ih => exact forall_partsOf_singleton (by rw [parts]) trivial ih
  | call shallow arity inside ih => exact forall_partsOf_singleton (by rw [parts]) shallow ih
  | execution x fits entered work own ih =>
    exact forall_partsOf_singleton (by rw [parts]) trivial ih
  | rescued tried handled ih ih' =>
    exact forall_partsOf_append (forall_partsOf_singleton (by rw [parts]) trivial ih) ih'

end Chronicle

namespace Engine

end Engine

/-- Other work observes its statements while this work waits. -/
theorem World.Meanwhile.interim {limit : Nat} {w w' : World} (h : World.Meanwhile limit w w') :
    w.Interim w' :=
  have ⟨seen, hseen, _⟩ := h.observed
  ⟨h.stack, seen, hseen⟩

end Stepwise
