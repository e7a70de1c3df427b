import Stepwise.Proofs.Engine.Pace
import Stepwise.Proofs.Simulation.Memory

/-!
# Shapes of variables

Values get into variables in many ways: by declarations and assignments, as
arguments, as exceptions and as first values of globals; and they go away
with scopes and calls. Every way checks the shape of the variable or takes
the value away altogether, so no elementary change puts a value where it does
not fit.
-/

namespace Stepwise

/-- What a variable of a shape may hold. -/
def Shape.Fits : Shape → Val → Prop
  | .scalar, value => ∀ ref, value ≠ .array ref ∧ value ≠ .map ref
  | .array, value => value = .null ∨ ∃ ref, value = .array ref ∨ value = .map ref
  | .dynamic, _ => True

/-- The check that variables make is the right one. -/
theorem Shape.accepts_iff {shape : Shape} {value : Val} :
    shape.accepts value = true ↔ shape.Fits value := by
  cases shape <;> cases value <;> simp [accepts, Fits, Val.isCollection, Val.isNull]

/-- Every variable may hold nothing. -/
theorem Shape.fits_null (shape : Shape) : shape.Fits .null :=
  accepts_iff.mp (by cases shape <;> rfl)

namespace Cell

variable {name : String} {shape : Shape} {value : Val} {c : Cell}

/-- A variable that is made has the name and shape asked for, and its value fits. -/
theorem eq_of_holding (h : holding name shape value = .ok c) :
    c = ⟨name, shape, value⟩ ∧ shape.Fits value := by
  unfold holding at h
  split at h
  · cases h
    exact ⟨rfl, Shape.accepts_iff.mp ‹_›⟩
  · cases h

/-- A value that does not fit is refused. -/
theorem holding_of_not_fits (name : String) (h : ¬ shape.Fits value) :
    ∃ f, holding name shape value = .error f ∧ f.kind = .notAssignable := by
  have hrefused : ¬ shape.accepts value = true := fun ha => h (Shape.accepts_iff.mp ha)
  exact ⟨.shapeMismatch value.typeName shape name, by rw [holding, if_neg hrefused], rfl⟩

end Cell

namespace Memory

/-- Every variable holds something that fits. -/
def Shapely (m : Memory) : Prop := ∀ id, (m.cell id).shape.Fits (m.cell id).value

/-- Variables stay, with the names and shapes they were declared with. -/
def KeepsVariables (m m' : Memory) : Prop :=
  ∀ id < m.cells.size, id < m'.cells.size ∧
    (m'.cell id).name = (m.cell id).name ∧ (m'.cell id).shape = (m.cell id).shape

/-- Variables stay and hold something that fits, if they did before. -/
structure Upholds (m m' : Memory) : Prop where
  /-- What variables hold fits. -/
  shapely : m.Shapely → m'.Shapely
  /-- Variables stay. -/
  keeps : m.KeepsVariables m'

variable {m m' m'' : Memory}

theorem Upholds.refl (m : Memory) : m.Upholds m := ⟨id, fun _ h => ⟨h, rfl, rfl⟩⟩

theorem Upholds.trans (h : m.Upholds m') (h' : m'.Upholds m'') : m.Upholds m'' where
  shapely := fun hm => h'.shapely (h.shapely hm)
  keeps := by
    intro id hid
    obtain ⟨hid', hname, hshape⟩ := h.keeps id hid
    obtain ⟨hid'', hname', hshape'⟩ := h'.keeps id hid'
    exact ⟨hid'', hname'.trans hname, hshape'.trans hshape⟩

/-- A variable gets another value that fits. -/
theorem upholds_setCell (m : Memory) (id : Nat) {value : Val}
    (hvalue : (m.cell id).shape.Fits value) :
    m.Upholds (m.setCell id { m.cell id with value }) := by
  have hcell : ∀ j, (m.setCell id { m.cell id with value }).cell j = m.cell j ∨
      j = id ∧ (m.setCell id { m.cell id with value }).cell j = { m.cell id with value } := by
    intro j
    rw [cell_setCell]
    split
    · exact .inr ⟨‹_ ∧ _›.1, rfl⟩
    · exact .inl rfl
  refine ⟨fun hm j => ?_, fun j hj => ⟨?_, ?_⟩⟩
  · rcases hcell j with h | ⟨-, h⟩ <;> rw [h]
    · exact hm j
    · exact hvalue
  · rw [size_setCell]
    exact hj
  · rcases hcell j with h | ⟨rfl, h⟩ <;> rw [h] <;> exact ⟨rfl, rfl⟩

/-- A variable is added that holds something that fits. -/
theorem upholds_alloc (m : Memory) {c : Cell} (hc : c.shape.Fits c.value) :
    m.Upholds (m.alloc c).2 := by
  refine ⟨fun hm j => ?_, fun j hj => ⟨?_, ?_⟩⟩
  · rw [cell_alloc]
    split
    · exact hc
    · exact hm j
  · rw [size_alloc]
    exact Nat.lt_succ_of_lt hj
  · rw [cell_alloc, if_neg (Nat.ne_of_lt hj)]
    exact ⟨rfl, rfl⟩

/-- Values are taken away. -/
theorem upholds_disposeAll (m : Memory) (ids : List Nat) : m.Upholds (m.disposeAll ids) := by
  induction ids generalizing m with
  | nil => exact .refl m
  | cons id ids ih => exact (m.upholds_setCell id (Shape.fits_null _)).trans (ih _)

end Memory

namespace World

variable {acts : List Controls.Act} {w w' : World}

/-- An elementary change upholds the shapes of variables. -/
theorem Change.upholds (h : Change acts w w') : w.memory.Upholds w'.memory := by
  cases h with
  | store h =>
    obtain ⟨rfl, hfits⟩ := Cell.eq_of_holding h
    exact w.memory.upholds_setCell _ hfits
  | make h =>
    obtain ⟨rfl, hfits⟩ := Cell.eq_of_holding h
    exact w.memory.upholds_alloc hfits
  | dispose ids => exact w.memory.upholds_disposeAll _
  | publish globals => exact ⟨id, fun _ hid => ⟨hid, rfl, rfl⟩⟩
  | _ => exact .refl _

/-- All changes uphold the shapes of variables. -/
theorem Changes.upholds (h : Changes acts w w') : w.memory.Upholds w'.memory := by
  induction h with
  | refl w => exact .refl _
  | tail _ hlast ih => exact ih.trans hlast.upholds

/-- Without variables every value fits. -/
theorem shapely_new : ({} : World).memory.Shapely := fun _ => Shape.fits_null _

end World

namespace Run

variable {α β : Type} {m m' : Memory}

/-- A run that begins with some variables upholds their shapes until it ends
or waits, and afterwards in whatever world it goes on. -/
def Upholds (m : Memory) : Run α → Prop
  | .done w _ => m.Upholds w.memory
  | .held w resume => m.Upholds w.memory ∧ ∀ passage v, (resume passage v).Upholds v.memory
  | .exhausted => True

/-- Something else went on before. -/
theorem Upholds.after {x : Run α} (hm : m.Upholds m') (h : x.Upholds m') : x.Upholds m := by
  cases x with
  | done w r => exact hm.trans h
  | held w resume => exact ⟨hm.trans h.1, h.2⟩
  | exhausted => exact trivial

/-- Something else goes on afterwards. -/
theorem Upholds.andThen {x : Run α} {k : World → Except Unwind α → Run β} (h : x.Upholds m)
    (hk : ∀ w r, (k w r).Upholds w.memory) : (x.andThen k).Upholds m := by
  induction x generalizing m with
  | done w r => exact (hk w r).after h
  | held w resume ih => exact ⟨h.1, fun passage v => ih passage v (h.2 passage v)⟩
  | exhausted => exact trivial

/-- A run that keeps its pace upholds the shapes of variables. -/
theorem Paced.upholds {u : Unwind} {x : Run α} {w : World} (h : x.Paced u w) :
    x.Upholds w.memory := by
  have hruns : ∀ {v v' : World}, v.Runs v' → v.memory.Upholds v'.memory :=
    fun ⟨_, _, hchanges⟩ => hchanges.upholds
  induction x generalizing w with
  | done w' r => exact hruns h
  | exhausted => exact trivial
  | held w' resume ih =>
    obtain ⟨hwaits, hturned, stmt, hpassed⟩ := h
    refine ⟨hruns hwaits, fun passage v => ?_⟩
    cases passage with
    | passed =>
      -- observing that a statement begins is no matter of variables
      show (resume .passed v).Upholds (v.observe true stmt).memory
      exact ih .passed v (hpassed v)
    | cancelled =>
      obtain ⟨v', hv, hcloses⟩ := hturned v
      rw [hv]
      exact hcloses.changes.upholds

end Run

namespace Engine

/-- Whatever is run in a world upholds the shapes of variables. -/
structure UpholdsShapes (code : Code) (fuel : Nat) (w : World) : Prop where
  /-- Global variables get their first values. -/
  globals : ∀ globals, (initGlobals code fuel globals w).Upholds w.memory
  /-- A method is called. -/
  call : ∀ stack m args, (invokeOn code fuel stack m args w).Upholds w.memory
  /-- The work that waits is run, and the work that it starts. -/
  queue : ∀ rounds, (runQueue code fuel rounds w).Upholds w.memory

theorem upholds_invokeOn (code : Code) (fuel : Nat) (stack : Nat) (m : Method) (args : List Val)
    (w : World) : (invokeOn code fuel stack m args w).Upholds w.memory :=
  ((pacesWith code fuel).call m args { w with stack := .fresh stack }).upholds

/-- An invocation is run, and its account settled, which is no matter of variables. -/
theorem upholds_runJob (code : Code) (fuel : Nat) (job : Job) (w : World) :
    (runJob code fuel job w).Upholds w.memory :=
  (upholds_invokeOn code fuel job.stack job.method job.args w).andThen fun v _ =>
    Memory.Upholds.refl v.memory

theorem upholds_runQueue (code : Code) (fuel rounds : Nat) (w : World) :
    (runQueue code fuel rounds w).Upholds w.memory := by
  induction rounds generalizing w with
  | zero => exact trivial
  | succ rounds ih =>
    unfold runQueue
    split
    · exact .refl _
    · rename_i job rest _
      have hjob := upholds_runJob code fuel job { w with jobs := rest }
      refine hjob.andThen fun v r => ?_
      cases r with
      | ok _ => exact ih v
      | error _ => exact Memory.Upholds.refl v.memory

theorem upholdsShapes (code : Code) (fuel : Nat) (w : World) : UpholdsShapes code fuel w where
  globals := fun globals => (paces_initGlobals code fuel globals w).upholds
  call := fun stack m args => upholds_invokeOn code fuel stack m args w
  queue := fun rounds => upholds_runQueue code fuel rounds w

/-- A value that does not fit is refused, and nothing has happened. -/
structure RefusesMisfits (w : World) : Prop where
  /-- It is not stored in a variable. -/
  store : ∀ name isGlobal value id, w.lookup? name isGlobal = some id →
    ¬ (w.memory.cell id).shape.Fits value →
    ∃ f : Failure, f.fault.kind = .notAssignable ∧
      storeVariable name isGlobal value w = .done w (.error (.failed f))
  /-- No variable is made that holds it. -/
  make : ∀ bind name shape value, ¬ shape.Fits value →
    ∃ f : Failure, f.fault.kind = .notAssignable ∧
      newVariable bind name shape value w = .done w (.error (.failed f))

theorem refusesMisfits (w : World) : RefusesMisfits w where
  store := by
    intro name isGlobal value id hid hmisfit
    obtain ⟨f, hf, hkind⟩ := Cell.holding_of_not_fits (w.memory.cell id).name hmisfit
    refine ⟨{ fault := f }, hkind, ?_⟩
    have hstore : (w.memory.cell id).store value = .error f := hf
    simp only [storeVariable, hid, hstore]
    rfl
  make := by
    intro bind name shape value hmisfit
    obtain ⟨f, hf, hkind⟩ := Cell.holding_of_not_fits name hmisfit
    refine ⟨{ fault := f }, hkind, ?_⟩
    simp only [newVariable, hf]
    rfl

end Engine

end Stepwise
