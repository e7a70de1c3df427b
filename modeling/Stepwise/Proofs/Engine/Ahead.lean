import Stepwise.Proofs.Engine.Balance
import Stepwise.Proofs.Engine.Isolation

/-!
# Variables declared ahead of their values

A declaration makes its variable when the initial value is known. The same can
be done in two steps: declare the variable empty, then evaluate the expression
and store the value. Between the steps the variable is there, and an older one
of its name is hidden. If the expression does not mention the name, nobody
looks: the two ways go side by side and leave the same variables. If it fails,
the variable that was declared ahead is all that is left over.
-/

namespace Stepwise

open Engine

/-- The variables of a scope by name, with what they hold. -/
def Scope.contents (m : Memory) (scope : Scope) : List (String × Cell) :=
  scope.map fun e => (e.1, m.cell e.2)

/-- The variables of all scopes of all calls in progress, innermost first. -/
def World.locals (w : World) : List (List (List (String × Cell))) :=
  w.stack.frames.map fun f => f.scopes.map (Scope.contents w.memory)

/-- The same, without the variable of a name in the innermost scope. -/
def World.localsBut (y : String) (w : World) : List (List (List (String × Cell))) :=
  w.locals.modifyHead fun scopes => scopes.modifyHead fun scope => scope.filter (·.1 ≠ y)

/-- Two worlds with the same variables, or with the same but for a name of the
innermost scope if the step before has failed. -/
def World.SameVariables (y : String) (r : Except Unwind Flow) (w v : World) : Prop :=
  w.SameButCalls v ∧
    match r with
    | .ok _ => v.locals = w.locals
    | .error _ => v.localsBut y = w.localsBut y

/-- Two calls that mirror each other but for a variable that the second has in
its innermost scope. -/
structure Frame.MirrorsBut (y : String) (j : Nat) (links : List (Nat × Nat)) (f f' : Frame) :
    Prop where
  /-- The name of the method is the same. -/
  name : f'.name = f.name
  /-- The value to return is the same. -/
  result : f'.result = f.result
  /-- The scopes mirror each other, but for the variable. -/
  scopes : ∃ scope outer scope' outer', f.scopes = scope :: outer ∧
    f'.scopes = ((y, j) :: scope') :: outer' ∧
    Scope.Mirrors links (scope.filter (·.1 ≠ y)) scope' ∧
    List.Forall₂ (Scope.Mirrors links) outer outer'

/-- More links. -/
theorem Frame.MirrorsBut.grow {y : String} {j : Nat} {links : List (Nat × Nat)} {f f' : Frame}
    (h : f.MirrorsBut y j links f') (link : Nat × Nat) : f.MirrorsBut y j (link :: links) f' := by
  obtain ⟨hname, hresult, scope, outer, scope', outer', hs, hs', hinner, houter⟩ := h
  exact ⟨hname, hresult, scope, outer, scope', outer', hs, hs', hinner.grow link,
    houter.imp fun _ _ hs => hs.grow link⟩

/-- The second side has declared an empty variable ahead, in the innermost of
the calls below. -/
def Footing.ahead (y : String) (shape : Shape) (j : Nat) : Footing where
  callers := fun links fs fs' => ∃ f below f' below', fs = f :: below ∧ fs' = f' :: below' ∧
    f.MirrorsBut y j links f' ∧ List.Forall₂ (Frame.Mirrors links) below below'
  length_eq := by
    rintro links _ _ ⟨f, below, f', below', rfl, rfl, -, hbelow⟩
    rw [List.length_cons, List.length_cons, hbelow.length_eq]
  grow := by
    rintro links _ _ link ⟨f, below, f', below', rfl, rfl, hf, hbelow⟩
    exact ⟨f, below, f', below', rfl, rfl, hf.grow link, hbelow.imp fun _ _ h => h.grow link⟩
  own := [(j, ⟨y, shape, .null⟩)]

section Ahead

variable {y : String} {shape : Shape} {j : Nat} {links : List (Nat × Nat)} {w v : World}

/-- Names other than that of the variable ahead are seen alike. -/
theorem seen_ahead {z : String} (hz : z ≠ y) : Seen (.ahead y shape j) 0 z := by
  intro links w v h
  obtain ⟨f, below, f', below', hf, hf', ⟨-, -, scope, outer, scope', outer', hs, hs', hinner,
    houter⟩, -⟩ := h.calls.bottom
  have hfirst : Option.Rel (Linked links) (List.lookup z scope)
      (List.lookup z ((y, j) :: scope')) := by
    have hskip := Scope.lookup_bind_ne scope j hz
    have hne : (z == y) = false := beq_eq_false_iff_ne.mpr hz
    simp only [Scope.bind, List.lookup_cons, hne] at hskip ⊢
    rw [← hskip]
    exact hinner.lookup z
  have hrest : Option.Rel (Linked links) (outer.findSome? (·.lookup z))
      (outer'.findSome? (·.lookup z)) := Scope.forall₂_findSome? houter z
  simp only [CallStack.lookup?, CallStack.current?, hf, hf', List.head?_cons, Option.bind_some,
    Frame.lookup?, hs, hs', List.findSome?_cons]
  generalize List.lookup z scope = found, List.lookup z ((y, j) :: scope') = found' at hfirst
  cases hfirst with
  | some hij => exact .some hij
  | none => exact hrest

section Contents

variable {own : List (Nat × Cell)} {m m' : Memory}

/-- Linked scopes have the same contents. -/
theorem Scope.Mirrors.contents {scope scope' : Scope} (h : Scope.Mirrors links scope scope')
    (hm : m.Mirrors links own m') : Scope.contents m' scope' = Scope.contents m scope := by
  unfold Scope.contents
  induction h with
  | nil => rfl
  | cons he _ ih => rw [List.map_cons, List.map_cons, ih, he.1, (hm.linked he.2).2.2]

/-- So have several. -/
theorem Scope.map_contents {scopes scopes' : List Scope}
    (h : List.Forall₂ (Scope.Mirrors links) scopes scopes') (hm : m.Mirrors links own m') :
    scopes'.map (Scope.contents m') = scopes.map (Scope.contents m) := by
  induction h with
  | nil => rfl
  | cons hs _ ih => rw [List.map_cons, List.map_cons, ih, hs.contents hm]

/-- Calls that mirror each other have the same variables. -/
theorem Frame.map_contents {fs fs' : List Frame} (h : List.Forall₂ (Frame.Mirrors links) fs fs')
    (hm : m.Mirrors links own m') :
    fs'.map (fun f => f.scopes.map (Scope.contents m')) =
      fs.map fun f => f.scopes.map (Scope.contents m) := by
  induction h with
  | nil => rfl
  | cons hf _ ih => rw [List.map_cons, List.map_cons, ih, Scope.map_contents hf.scopes hm]

/-- Names can be left out before or after. -/
theorem Scope.contents_filter (m : Memory) (scope : Scope) (y : String) :
    (Scope.contents m scope).filter (·.1 ≠ y) = Scope.contents m (scope.filter (·.1 ≠ y)) := by
  unfold Scope.contents
  rw [List.filter_map]
  rfl

/-- A variable of the second side that was known becomes the partner of a new
one of the first side. -/
theorem Memory.Mirrors.adopt {c₀ : Cell} (h : m.Mirrors links own m') (hj : (j, c₀) ∈ own)
    (c : Cell) : (m.alloc c).2.Mirrors ((m.cells.size, j) :: links) [] (m'.setCell j c) where
  oneToOne := h.oneToOne.cons fun p hp =>
    ⟨Nat.ne_of_lt (h.linked hp).1, fun he => (h.owned hj).2.1 p.1 (he ▸ hp)⟩
  linked := by
    intro i k hik
    obtain ⟨hlt, hapart, -⟩ := h.owned hj
    rw [size_alloc, size_setCell, cell_alloc]
    rcases List.mem_cons.mp hik with he | hik
    · cases he
      rw [if_pos rfl, cell_setCell_self _ _ hlt]
      exact ⟨Nat.lt_succ_self _, hlt, rfl⟩
    · obtain ⟨hi, hk, hcell⟩ := h.linked hik
      have hne : k ≠ j := fun he => hapart i (he ▸ hik)
      rw [if_neg (Nat.ne_of_lt hi), cell_setCell_ne _ _ hne]
      exact ⟨Nat.lt_succ_of_lt hi, hk, hcell⟩
  globals := h.globals.imp fun _ _ hg => hg.grow _
  owned := nofun

end Contents

/-- A call in which nothing has happened mirrors itself. -/
theorem Frame.mirrors_self {f : Frame} (hopened : f.scopes ≠ [])
    (hids : ∀ i ∈ f.ids, Linked links i i) : f.Mirrors links f where
  name := rfl
  scopes := by
    refine List.forall₂_same.mpr fun scope hscope => List.forall₂_same.mpr fun e he => ⟨rfl, ?_⟩
    exact hids e.2 (List.mem_flatMap.mpr ⟨scope, hscope, List.mem_map_of_mem he⟩)
  opened := hopened
  result := rfl

/-- A world mirrors itself after a variable was declared ahead. -/
theorem World.Tidy.mirrors_ahead (hw : w.Tidy) (hcall : w.stack.frames ≠ []) (y : String)
    (shape : Shape) :
    w.Mirrors (.ahead y shape w.memory.cells.size) 0 (w.declare ⟨y, shape, .null⟩) := by
  obtain ⟨f, below, hf⟩ := List.exists_cons_of_ne_nil hcall
  -- Every variable that is bound is linked to itself.
  let links := w.bound.map fun i => (i, i)
  have hlink {i : Nat} (hi : i ∈ w.bound) : Linked links i i := List.mem_map_of_mem hi
  have hdiag {i j : Nat} (hij : Linked links i j) : j = i ∧ i < w.memory.cells.size := by
    obtain ⟨k, hk, he⟩ := List.mem_map.mp hij
    obtain ⟨rfl, rfl⟩ := Prod.mk.inj he
    exact ⟨rfl, hw.known k hk⟩
  have hframe (g : Frame) (hg : g ∈ w.stack.frames) : g.Mirrors links g := by
    refine Frame.mirrors_self (hw.scopes g hg) fun i hi => hlink (List.mem_append_left _ ?_)
    exact List.mem_flatMap.mpr ⟨g, hg, hi⟩
  have hmemory : w.memory.Mirrors links [(w.memory.cells.size, ⟨y, shape, .null⟩)]
      (w.memory.alloc ⟨y, shape, .null⟩).2 := by
    refine ⟨⟨fun p hp q hq he => ?_, fun p hp q hq he => ?_⟩, fun hij => ?_, ?_, fun hj => ?_⟩
    · exact Prod.ext he (by rw [(hdiag hp).1, (hdiag hq).1, he])
    · exact Prod.ext (by rw [← (hdiag hp).1, ← (hdiag hq).1, he]) he
    · obtain ⟨rfl, hlt⟩ := hdiag hij
      rw [Memory.size_alloc, Memory.cell_alloc, if_neg (Nat.ne_of_lt hlt)]
      exact ⟨hlt, Nat.lt_succ_of_lt hlt, rfl⟩
    · exact List.forall₂_same.mpr fun g hg => hlink (List.mem_append_right _ hg)
    · cases List.mem_singleton.mp hj
      rw [Memory.size_alloc, Memory.cell_alloc, if_pos rfl]
      refine ⟨Nat.lt_succ_self _, fun i hij => ?_, rfl⟩
      obtain ⟨rfl, hlt⟩ := hdiag hij
      exact Nat.lt_irrefl _ hlt
  have hmirrors := hframe f (hf ▸ List.mem_cons_self)
  obtain ⟨scope, outer, hs⟩ := List.exists_cons_of_ne_nil hmirrors.opened
  have hscopes := hmirrors.scopes
  rw [hs] at hscopes
  obtain ⟨hinner, houter⟩ := List.forall₂_cons.mp hscopes
  unfold World.declare
  simp only [Memory.fst_alloc, hw.declare?_eq hf]
  refine ⟨links, rfl, rfl, rfl, rfl, rfl, hmemory, .callers ?_⟩
  refine ⟨f, below, _, below, hf, CallStack.frames_mapCurrent hf _, ⟨?_, ?_, ?_⟩, ?_⟩
  · simp only [Frame.bind, hs]
  · simp only [Frame.bind, hs]
  · refine ⟨scope, outer, _, outer, hs, by simp only [Frame.bind, hs]; rfl, ?_, houter⟩
    exact List.forall₂_same.mpr fun e he =>
      List.forall₂_same.mp hinner e (List.mem_of_mem_filter he)
  · exact List.forall₂_same.mpr fun g hg => hframe g (hf ▸ List.mem_cons_of_mem _ hg)

namespace World.MirrorsBy

variable (h : w.MirrorsBy (.ahead y shape j) links 0 v)

include h

/-- The second side finds the variable that was declared ahead. -/
theorem lookup?_ahead : v.lookup? y false = some j ∧ v.memory.cell j = ⟨y, shape, .null⟩ := by
  obtain ⟨f, below, f', below', -, hf', ⟨-, -, scope, outer, scope', outer', -, hs', -, -⟩, -⟩ :=
    h.calls.bottom
  refine ⟨?_, (h.memory.owned (List.mem_singleton_self _)).2.2⟩
  simp [World.lookup?, CallStack.lookup?, CallStack.current?, Frame.lookup?, hf', hs']

/-- All variables are the same but for the one that was declared ahead. -/
theorem localsBut_eq : v.localsBut y = w.localsBut y := by
  obtain ⟨f, below, f', below', hf, hf', ⟨-, -, scope, outer, scope', outer', hs, hs', hinner,
    houter⟩, hbelow⟩ := h.calls.bottom
  have hscope : (Scope.contents v.memory ((y, j) :: scope')).filter (·.1 ≠ y) =
      (Scope.contents w.memory scope).filter (·.1 ≠ y) := by
    have hself : ((y, j) :: scope').filter (·.1 ≠ y) = scope'.filter (·.1 ≠ y) :=
      List.filter_cons_of_neg (by simp)
    rw [Scope.contents_filter, hself, ← Scope.contents_filter, hinner.contents h.memory,
      Scope.contents_filter, List.filter_filter]
    simp only [Bool.and_self, Scope.contents_filter]
  simp only [localsBut, locals, hf, hf', hs, hs', List.map_cons, List.modifyHead_cons,
    hscope, Scope.map_contents houter h.memory, Frame.map_contents hbelow h.memory]

/-- Once the second side has stored what the first side declares its variable
with, all variables are the same. -/
theorem adopt (value : Val) :
    World.SameVariables y (.ok .next) (w.declare ⟨y, shape, value⟩)
      { v with memory := v.memory.setCell j ⟨y, shape, value⟩ } := by
  obtain ⟨f, below, f', below', hf, hf', ⟨hname, hresult, scope, outer, scope', outer', hs, hs',
    hinner, houter⟩, hbelow⟩ := h.calls.bottom
  let link := (w.memory.cells.size, j)
  have hmemory := h.memory.adopt (List.mem_singleton_self _) ⟨y, shape, value⟩
  have hdeclare : w.stack.declare? y w.memory.cells.size =
      some (w.stack.mapCurrent (·.bind y w.memory.cells.size)) := by
    simp [CallStack.declare?, hf, hs]
  have hframes : List.Forall₂ (Frame.Mirrors (link :: links))
      (f.bind y w.memory.cells.size :: below) (f' :: below') := by
    refine .cons ⟨?_, ?_, ?_, ?_⟩ (hbelow.imp fun _ _ hg => hg.grow link)
    · simpa only [Frame.bind, hs] using hname
    · simp only [Frame.bind, hs, hs']
      exact .cons (.cons ⟨rfl, List.mem_cons_self⟩ (hinner.grow link))
        (houter.imp fun _ _ hg => hg.grow link)
    · simp only [Frame.bind, hs]
      exact List.cons_ne_nil _ _
    · simpa only [Frame.bind, hs] using hresult
  unfold World.declare
  simp only [Memory.fst_alloc, hdeclare]
  have hstack := CallStack.frames_mapCurrent hf (·.bind y w.memory.cells.size)
  refine ⟨⟨h.heap, h.host, h.gate, h.jobs, h.trace, ?_, hmemory.map_globals⟩, ?_⟩
  · have hlength := h.calls.length_eq
    rw [← v.stack.depth_eq, ← w.stack.depth_eq] at hlength
    exact hlength
  · simp only [locals, hstack, hf']
    exact Frame.map_contents hframes hmemory

/-- What fails without an end of its own leaves the variable ahead. -/
theorem sameVariables (u : Unwind) : World.SameVariables y (.error u) w v :=
  ⟨World.Mirrors.sameButCalls ⟨links, h⟩, h.localsBut_eq⟩

/-- One side declares the variable with its value, the other stores the value. -/
theorem settle (value : Val) :
    Run.Matches (.ahead y shape j) (World.SameVariables y)
      ((newVariable World.declare y shape value >>= fun _ => (pure .next : Exec Flow)) w)
      ((storeVariable y false value >>= fun _ => (pure .next : Exec Flow)) v) := by
  obtain ⟨hlookup, hcell⟩ := h.lookup?_ahead
  have hstore : (v.memory.cell j).store value = Cell.holding y shape value := by rw [hcell]; rfl
  unfold newVariable
  cases hnew : Cell.holding y shape value with
  | ok c =>
    obtain rfl : c = ⟨y, shape, value⟩ := by
      unfold Cell.holding at hnew
      split at hnew <;> cases hnew
      rfl
    have hstored : storeVariable y false value v = .done { v with
        memory := v.memory.setCell j ⟨y, shape, value⟩ } (.ok ()) := by
      unfold storeVariable
      simp only [hlookup, hstore, hnew]
    rw [Exec.bind_of_ok hstored]
    exact .done (h.adopt value) (.value _)
  | error f =>
    have hstored : storeVariable y false value v = Exec.fail f v := by
      unfold storeVariable
      simp only [hlookup, hstore, hnew]
    rw [Exec.bind_of_error hstored]
    exact .done (h.sameVariables _) (.failed rfl rfl)

end World.MirrorsBy

end Ahead

namespace Engine

/-- A declaration does what two steps do, declaring the variable empty and
storing the initial value, whatever program runs and whoever is called, if the
initial value does not mention the name. -/
theorem declare_ahead_matches (code : Code) (fuel : Nat) (inLoop : Bool) {y : String}
    (shape : Shape) {e : Expr} (span : Span) (he : y ∉ e.locals) {w : World} (hw : w.Tidy)
    (hcall : w.stack.frames ≠ []) :
    Run.Matches (.ahead y shape w.memory.cells.size) (World.SameVariables y)
      (execute code.program (calleesAt code fuel) inLoop (.declare y shape (some e) span) w)
      ((execute code.program (calleesAt code fuel) inLoop (.declare y shape none span) >>= fun _ =>
        execute code.program (calleesAt code fuel) inLoop
          (.assign (.var y false span) e span)) w) := by
  have hempty : shape.accepts .null = true := by cases shape <;> rfl
  have hfirst : execute code.program (calleesAt code fuel) inLoop (.declare y shape none span) w =
      .done (w.declare ⟨y, shape, .null⟩) (.ok .next) := by
    have hnew : Cell.holding y shape .null = .ok ⟨y, shape, .null⟩ := if_pos hempty
    simp only [execute, evalOption, newVariable]
    show (Exec.lift (Cell.holding y shape .null) >>= _ >>= _) w = _
    rw [hnew]
    rfl
  have hvalue := isolated_eval (p := code.program)
    ((isolatedWith (.ahead y shape w.memory.cells.size) code fuel).call 0) e
    (fun z hz => seen_ahead fun hzy => he (hzy ▸ hz)) (hw.mirrors_ahead hcall y shape)
  rw [Exec.bind_of_ok hfirst]
  refine hvalue.andThen ?_
  rintro w v r s ⟨links, h⟩ hr
  cases hr with
  | failed fault site => exact .done (h.sameVariables _) (.failed fault site)
  | cancelled => exact .done (h.sameVariables _) .cancelled
  | value a => exact h.settle a

end Engine

end Stepwise
