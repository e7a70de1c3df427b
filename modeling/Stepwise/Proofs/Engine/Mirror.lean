import Mathlib.Data.List.Forall2
import Stepwise.Engine.World
import Stepwise.Proofs.Simulation.Memory

/-!
# Mirrored worlds

Two worlds side by side, each with a call stack of its own. The calls on top
mirror each other: the same methods, the same names in the same scopes, and
the variables of one side linked to those of the other, as the global
variables are. Linked variables are equal. Numbers of variables may differ,
since the two sides may have made different numbers of them before. The calls
below are the footing, of which as much is known as the user of a comparison
says; at least they are as many on both sides. Of some further variables of
the second side it may be known what they hold.
-/

namespace Stepwise

/-- Two variables are linked. -/
def Linked (links : List (Nat × Nat)) (i j : Nat) : Prop := (i, j) ∈ links

/-- More links. -/
theorem Linked.grow {links : List (Nat × Nat)} (link : Nat × Nat) {i j : Nat}
    (h : Linked links i j) : Linked (link :: links) i j :=
  List.mem_cons_of_mem link h

/-- A link between variables that had no links. -/
theorem Simulation.OneToOne.cons {links : List (Nat × Nat)} {i j : Nat} (h : OneToOne links)
    (hnew : ∀ p ∈ links, p.1 ≠ i ∧ p.2 ≠ j) : OneToOne ((i, j) :: links) := by
  refine ⟨fun p hp q hq he => ?_, fun p hp q hq he => ?_⟩
  all_goals
    rcases List.mem_cons.mp hp with rfl | hp <;> rcases List.mem_cons.mp hq with rfl | hq
  · rfl
  · exact absurd he.symm (hnew q hq).1
  · exact absurd he (hnew p hp).1
  · exact h.left p hp q hq he
  · rfl
  · exact absurd he.symm (hnew q hq).2
  · exact absurd he (hnew p hp).2
  · exact h.right p hp q hq he

/-- Two memories whose linked variables are equal, the global ones among them. -/
structure Memory.Mirrors (links : List (Nat × Nat)) (own : List (Nat × Cell)) (m m' : Memory) :
    Prop where
  /-- Links are between different variables. -/
  oneToOne : Simulation.OneToOne links
  /-- Linked variables are there and equal. -/
  linked : ∀ {i j}, Linked links i j →
    i < m.cells.size ∧ j < m'.cells.size ∧ m'.cell j = m.cell i
  /-- Global variables are linked, in order. -/
  globals : List.Forall₂ (Linked links) m.globals m'.globals
  /-- Variables whose contents are known are there and not linked. -/
  owned : ∀ {j c}, (j, c) ∈ own →
    j < m'.cells.size ∧ (∀ i, ¬ Linked links i j) ∧ m'.cell j = c

namespace Memory.Mirrors

variable {links : List (Nat × Nat)} {own : List (Nat × Cell)} {m m' : Memory}

/-- Make the same variable on both sides, and link the two. -/
theorem alloc (h : m.Mirrors links own m') (c : Cell) :
    (m.alloc c).2.Mirrors ((m.cells.size, m'.cells.size) :: links) own (m'.alloc c).2 where
  oneToOne := h.oneToOne.cons fun _ hp =>
    ⟨Nat.ne_of_lt (h.linked hp).1, Nat.ne_of_lt (h.linked hp).2.1⟩
  linked := by
    intro i j hij
    rw [size_alloc, size_alloc, cell_alloc, cell_alloc]
    rcases List.mem_cons.mp hij with he | hij
    · cases he
      simp
    · obtain ⟨hi, hj, hcell⟩ := h.linked hij
      rw [if_neg (Nat.ne_of_lt hi), if_neg (Nat.ne_of_lt hj)]
      exact ⟨Nat.lt_succ_of_lt hi, Nat.lt_succ_of_lt hj, hcell⟩
  globals := h.globals.imp fun _ _ hg => hg.grow _
  owned := by
    intro j d hj
    obtain ⟨hlt, hapart, hcell⟩ := h.owned hj
    rw [size_alloc, cell_alloc, if_neg (Nat.ne_of_lt hlt)]
    refine ⟨Nat.lt_succ_of_lt hlt, fun i hij => ?_, hcell⟩
    rcases List.mem_cons.mp hij with he | hij
    · exact Nat.ne_of_lt hlt (congrArg Prod.snd he)
    · exact hapart i hij

/-- Store the same in two linked variables. -/
theorem setCell (h : m.Mirrors links own m') {i j : Nat} (hij : Linked links i j) (c : Cell) :
    (m.setCell i c).Mirrors links own (m'.setCell j c) where
  oneToOne := h.oneToOne
  linked := by
    intro i' j' hij'
    obtain ⟨hi, hj, hcell⟩ := h.linked hij'
    rw [size_setCell, size_setCell]
    refine ⟨hi, hj, ?_⟩
    by_cases he : i' = i
    · obtain rfl : j' = j := congrArg Prod.snd (h.oneToOne.left _ hij' _ hij he)
      subst he
      rw [cell_setCell_self _ _ hi, cell_setCell_self _ _ hj]
    · have he' : j' ≠ j := fun e => he (congrArg Prod.fst (h.oneToOne.right _ hij' _ hij e))
      rw [cell_setCell_ne _ _ he, cell_setCell_ne _ _ he', hcell]
  globals := h.globals
  owned := by
    intro k d hk
    obtain ⟨hlt, hapart, hcell⟩ := h.owned hk
    have hne : k ≠ j := fun e => hapart i (e ▸ hij)
    rw [size_setCell, cell_setCell_ne _ _ hne]
    exact ⟨hlt, hapart, hcell⟩

/-- Dispose of linked variables. -/
theorem disposeAll (h : m.Mirrors links own m') {ids ids' : List Nat}
    (hids : List.Forall₂ (Linked links) ids ids') :
    (m.disposeAll ids).Mirrors links own (m'.disposeAll ids') := by
  induction hids generalizing m m' with
  | nil => exact h
  | @cons i j _ _ hij _ ih =>
    show ((m.dispose i).disposeAll _).Mirrors links own ((m'.dispose j).disposeAll _)
    refine ih ?_
    unfold dispose
    rw [(h.linked hij).2.2]
    exact h.setCell hij _

/-- The global variables of a name are linked, or there is none on either side. -/
theorem global? (h : m.Mirrors links own m') (name : String) :
    Option.Rel (Linked links) (m.global? name) (m'.global? name) := by
  have hfind {gs gs' : List Nat} (hgs : List.Forall₂ (Linked links) gs gs') :
      Option.Rel (Linked links) (gs.find? fun g => (m.cell g).name == name)
        (gs'.find? fun g => (m'.cell g).name == name) := by
    induction hgs with
    | nil => exact .none
    | @cons g g' _ _ hg _ ih =>
      simp only [List.find?_cons, (h.linked hg).2.2]
      cases (m.cell g).name == name with
      | true => exact .some hg
      | false => exact ih
  exact hfind h.globals

/-- The global variables are equal, in order. -/
theorem map_globals (h : m.Mirrors links own m') :
    m'.globals.map m'.cell = m.globals.map m.cell := by
  have hmap {gs gs' : List Nat} (hgs : List.Forall₂ (Linked links) gs gs') :
      gs'.map m'.cell = gs.map m.cell := by
    induction hgs with
    | nil => rfl
    | cons hg _ ih => rw [List.map_cons, List.map_cons, ih, (h.linked hg).2.2]
  exact hmap h.globals

end Memory.Mirrors

/-- Global variables are there, and no two of them are one. -/
structure Memory.KeepsGlobals (m : Memory) : Prop where
  /-- Each is there. -/
  lt : ∀ g ∈ m.globals, g < m.cells.size
  /-- Each is one of its own. -/
  nodup : m.globals.Nodup

/-- Equal items of lists stand side by side. -/
theorem Memory.cell_of_mem_zip {m m' : Memory} {gs gs' : List Nat}
    (h : gs'.map m'.cell = gs.map m.cell) {i j : Nat} (hij : (i, j) ∈ gs.zip gs') :
    m'.cell j = m.cell i := by
  induction gs generalizing gs' with
  | nil => simp at hij
  | cons g gs ih =>
    cases gs' with
    | nil => simp at hij
    | cons g' gs' =>
      rw [List.map_cons, List.map_cons, List.cons.injEq] at h
      rcases List.mem_cons.mp hij with he | hij
      · cases he
        exact h.1
      · exact ih h.2 hij

/-- Lists without repetition pair their items one to one. -/
theorem Simulation.oneToOne_zip {gs gs' : List Nat} (h : gs.Nodup) (h' : gs'.Nodup) :
    OneToOne (gs.zip gs') := by
  induction gs generalizing gs' with
  | nil => exact ⟨by simp, by simp⟩
  | cons g gs ih =>
    cases gs' with
    | nil => exact ⟨by simp, by simp⟩
    | cons g' gs' =>
      obtain ⟨hg, hgs⟩ := List.nodup_cons.mp h
      obtain ⟨hg', hgs'⟩ := List.nodup_cons.mp h'
      refine (ih hgs hgs').cons fun p hp => ⟨?_, ?_⟩
      · exact fun he => hg (he ▸ (List.of_mem_zip hp).1)
      · exact fun he => hg' (he ▸ (List.of_mem_zip hp).2)

/-- Memories with equal global variables mirror each other. -/
theorem Memory.mirrors_of_globals {m m' : Memory} (hm : m.KeepsGlobals) (hm' : m'.KeepsGlobals)
    (h : m'.globals.map m'.cell = m.globals.map m.cell) :
    m.Mirrors (m.globals.zip m'.globals) [] m' where
  oneToOne := Simulation.oneToOne_zip hm.nodup hm'.nodup
  linked := fun hij =>
    ⟨hm.lt _ (List.of_mem_zip hij).1, hm'.lt _ (List.of_mem_zip hij).2, cell_of_mem_zip h hij⟩
  globals := by
    have hlen : m.globals.length = m'.globals.length := by
      simpa using (congrArg List.length h).symm
    exact List.forall₂_iff_zip.mpr ⟨hlen, fun hij => hij⟩
  owned := nofun

/-- Two scopes with the same names, bound to linked variables. -/
def Scope.Mirrors (links : List (Nat × Nat)) (scope scope' : Scope) : Prop :=
  List.Forall₂ (fun e e' => e'.1 = e.1 ∧ Linked links e.2 e'.2) scope scope'

namespace Scope.Mirrors

variable {links : List (Nat × Nat)} {scope scope' : Scope}

/-- More links. -/
theorem grow (h : Scope.Mirrors links scope scope') (link : Nat × Nat) :
    Scope.Mirrors (link :: links) scope scope' :=
  h.imp fun _ _ he => ⟨he.1, he.2.grow link⟩

/-- Bind a name to linked variables. -/
theorem bind (h : Scope.Mirrors links scope scope') (name : String) {i j : Nat}
    (hij : Linked links i j) :
    Scope.Mirrors links (Scope.bind name i scope) (Scope.bind name j scope') := by
  refine .cons ⟨rfl, hij⟩ ?_
  induction h with
  | nil => exact .nil
  | @cons e e' _ _ he _ ih =>
    rw [List.filter_cons, List.filter_cons, he.1]
    split
    · exact .cons he ih
    · exact ih

/-- A name is bound on both sides or on neither. -/
theorem lookup (h : Scope.Mirrors links scope scope') (name : String) :
    Option.Rel (Linked links) (List.lookup name scope) (List.lookup name scope') := by
  induction h with
  | nil => exact .none
  | @cons e e' _ _ he _ ih =>
    obtain ⟨key, i⟩ := e
    obtain ⟨key', j⟩ := e'
    obtain ⟨rfl, hij⟩ : key' = key ∧ Linked links i j := he
    simp only [List.lookup_cons]
    cases name == key' with
    | true => exact .some hij
    | false => exact ih

/-- The variables of the scopes are linked. -/
theorem ids (h : Scope.Mirrors links scope scope') :
    List.Forall₂ (Linked links) (Scope.ids scope) (Scope.ids scope') :=
  List.forall₂_map_left_iff.mpr (List.forall₂_map_right_iff.mpr (h.imp fun _ _ he => he.2))

end Scope.Mirrors

/-- The variables of several scopes are linked. -/
theorem Scope.forall₂_ids {links : List (Nat × Nat)} {scopes scopes' : List Scope}
    (h : List.Forall₂ (Scope.Mirrors links) scopes scopes') :
    List.Forall₂ (Linked links) (scopes.flatMap Scope.ids) (scopes'.flatMap Scope.ids) := by
  induction h with
  | nil => exact .nil
  | cons hs _ ih => exact List.rel_append hs.ids ih

/-- A name is bound in the same of several scopes on both sides, or in none. -/
theorem Scope.forall₂_findSome? {links : List (Nat × Nat)} {scopes scopes' : List Scope}
    (h : List.Forall₂ (Scope.Mirrors links) scopes scopes') (name : String) :
    Option.Rel (Linked links) (scopes.findSome? (·.lookup name))
      (scopes'.findSome? (·.lookup name)) := by
  induction h with
  | nil => exact .none
  | @cons scope scope' _ _ hs _ ih =>
    have hhere := hs.lookup name
    simp only [List.findSome?_cons]
    generalize List.lookup name scope = found, List.lookup name scope' = found' at hhere
    cases hhere with
    | some hij => exact .some hij
    | none => exact ih

/-- Two calls of one method that have come to the same point. -/
structure Frame.Mirrors (links : List (Nat × Nat)) (f f' : Frame) : Prop where
  /-- The name of the method is the same. -/
  name : f'.name = f.name
  /-- The scopes mirror each other. -/
  scopes : List.Forall₂ (Scope.Mirrors links) f.scopes f'.scopes
  /-- There is a scope. -/
  opened : f.scopes ≠ []
  /-- The value to return is the same. -/
  result : f'.result = f.result

namespace Frame.Mirrors

variable {links : List (Nat × Nat)} {f f' : Frame}

/-- More links. -/
theorem grow (h : f.Mirrors links f') (link : Nat × Nat) : f.Mirrors (link :: links) f' :=
  { h with scopes := h.scopes.imp fun _ _ hs => hs.grow link }

/-- The variables of a name are linked, or there is none on either side. -/
theorem lookup? (h : f.Mirrors links f') (name : String) :
    Option.Rel (Linked links) (f.lookup? name) (f'.lookup? name) :=
  Scope.forall₂_findSome? h.scopes name

end Frame.Mirrors

/-- What is known of the calls below those that mirror each other. -/
structure Footing where
  /-- How their frames stand to each other, given the links. -/
  callers : List (Nat × Nat) → List Frame → List Frame → Prop
  /-- They are as many on both sides. -/
  length_eq : ∀ {links fs fs'}, callers links fs fs' → fs'.length = fs.length
  /-- More links change nothing. -/
  grow : ∀ {links fs fs'} (link : Nat × Nat), callers links fs fs' → callers (link :: links) fs fs'
  /-- Variables of the second side whose contents are known. -/
  own : List (Nat × Cell)

/-- Nothing is known but the number of the calls. -/
def Footing.any : Footing := ⟨fun _ fs fs' => fs'.length = fs.length, id, fun _ => id, []⟩

/-- Call stacks whose innermost calls, so many of them, mirror each other. -/
inductive Frame.Tops (F : Footing) (links : List (Nat × Nat)) :
    Nat → List Frame → List Frame → Prop where
  /-- The calls below. -/
  | callers {fs fs' : List Frame} (h : F.callers links fs fs') : Tops F links 0 fs fs'
  /-- A call on top. -/
  | call {k : Nat} {f f' : Frame} {fs fs' : List Frame} (hf : f.Mirrors links f')
    (h : Tops F links k fs fs') : Tops F links (k + 1) (f :: fs) (f' :: fs')

namespace Frame.Tops

variable {F : Footing} {links : List (Nat × Nat)} {k : Nat} {fs fs' : List Frame}

/-- There are as many calls. -/
theorem length_eq (h : Frame.Tops F links k fs fs') : fs'.length = fs.length := by
  induction h with
  | callers h => exact F.length_eq h
  | call _ _ ih => rw [List.length_cons, List.length_cons, ih]

/-- More links. -/
theorem grow (h : Frame.Tops F links k fs fs') (link : Nat × Nat) :
    Frame.Tops F (link :: links) k fs fs' := by
  induction h with
  | callers h => exact .callers (F.grow link h)
  | call hf _ ih => exact .call (hf.grow link) ih

/-- The innermost calls. -/
theorem top (h : Frame.Tops F links (k + 1) fs fs') :
    ∃ f rest f' rest', fs = f :: rest ∧ fs' = f' :: rest' ∧ f.Mirrors links f' ∧
      Frame.Tops F links k rest rest' := by
  cases h with
  | call hf h => exact ⟨_, _, _, _, rfl, rfl, hf, h⟩

/-- The calls below all of them. -/
theorem bottom (h : Frame.Tops F links 0 fs fs') : F.callers links fs fs' := by
  cases h with
  | callers h => exact h

end Frame.Tops

/-- An invocation, whatever its call stack is. -/
def Job.task (j : Job) : Job := { j with stack := 0 }

/-- Two worlds whose innermost calls mirror each other along some links. -/
structure World.MirrorsBy (F : Footing) (links : List (Nat × Nat)) (k : Nat) (w v : World) :
    Prop where
  /-- The heap is the same. -/
  heap : v.heap = w.heap
  /-- The host is the same. -/
  host : v.host = w.host
  /-- The gate is the same. -/
  gate : v.controls.gate = w.controls.gate
  /-- The same invocations are waiting, in the same order. -/
  jobs : v.jobs.map Job.task = w.jobs.map Job.task
  /-- The same statements were observed. -/
  trace : v.trace = w.trace
  /-- The variables mirror each other. -/
  memory : w.memory.Mirrors links F.own v.memory
  /-- The calls mirror each other. -/
  calls : Frame.Tops F links k w.stack.frames v.stack.frames

/-- Two worlds whose innermost calls, so many of them, mirror each other. -/
def World.Mirrors (F : Footing) (k : Nat) (w v : World) : Prop := ∃ links, w.MirrorsBy F links k v

/-- Two worlds that differ in the calls in progress and their variables at most. -/
structure World.SameButCalls (w v : World) : Prop where
  /-- The heap is the same. -/
  heap : v.heap = w.heap
  /-- The host with its console is the same. -/
  host : v.host = w.host
  /-- The gate is the same. -/
  gate : v.controls.gate = w.controls.gate
  /-- The same invocations are waiting, in the same order. -/
  jobs : v.jobs.map Job.task = w.jobs.map Job.task
  /-- The same statements were observed. -/
  trace : v.trace = w.trace
  /-- As many calls are in progress. -/
  depth : v.stack.depth = w.stack.depth
  /-- The global variables have the same names, shapes and values, in order. -/
  globals : v.memory.globals.map v.memory.cell = w.memory.globals.map w.memory.cell

/-- Worlds that differ in their calls mirror each other above all of them. -/
theorem World.SameButCalls.mirrors {w v : World} (h : w.SameButCalls v)
    (hw : w.memory.KeepsGlobals) (hv : v.memory.KeepsGlobals) : w.Mirrors .any 0 v := by
  refine ⟨_, { h with memory := Memory.mirrors_of_globals hw hv h.globals, calls := .callers ?_ }⟩
  show v.stack.frames.length = w.stack.frames.length
  rw [← v.stack.depth_eq, ← w.stack.depth_eq, h.depth]

namespace World.Mirrors

variable {F : Footing} {k : Nat} {w v : World}

/-- Mirrored worlds differ in their calls at most. -/
theorem sameButCalls (h : w.Mirrors F k v) : w.SameButCalls v := by
  obtain ⟨links, h⟩ := h
  refine { h with depth := ?_, globals := h.memory.map_globals }
  rw [v.stack.depth_eq, w.stack.depth_eq, h.calls.length_eq]

/-- Change heap and host on both sides. -/
theorem aside (h : w.Mirrors F k v) (heap : Heap) (host : Host) :
    World.Mirrors F k { w with heap, host } { v with heap, host } := by
  obtain ⟨links, h⟩ := h
  exact ⟨links, { h with heap := rfl, host := rfl }⟩

/-- Change the heap on both sides. -/
theorem withHeap (h : w.Mirrors F k v) (heap : Heap) :
    World.Mirrors F k { w with heap } { v with heap } := by
  obtain ⟨links, h⟩ := h
  exact ⟨links, { h with heap := rfl }⟩

/-- Change the controls, with the same gate on both sides. -/
theorem withControls (h : w.Mirrors F k v) {c c' : Controls} (hgate : c'.gate = c.gate) :
    World.Mirrors F k { w with controls := c } { v with controls := c' } := by
  obtain ⟨links, h⟩ := h
  exact ⟨links, { h with gate := hgate }⟩

/-- Start the same invocation on both sides. -/
theorem spawn (h : w.Mirrors F k v) (m : Method) (args : List Val) :
    World.Mirrors F k (w.spawn m args) (v.spawn m args) := by
  obtain ⟨links, h⟩ := h
  refine ⟨links, { h with jobs := ?_ }⟩
  simp only [World.spawn, List.map_append, h.jobs]
  rfl

/-- Begin a call. -/
theorem pushFrame (h : w.Mirrors F k v) (m : Method) :
    World.Mirrors F (k + 1) (w.pushFrame m) (v.pushFrame m) := by
  obtain ⟨links, h⟩ := h
  refine ⟨links, { h with calls := .call ?_ h.calls }⟩
  exact ⟨rfl, .cons .nil .nil, nofun, rfl⟩

/-- End a call. -/
theorem popFrame (h : w.Mirrors F (k + 1) v) :
    v.popFrame.1 = w.popFrame.1 ∧ World.Mirrors F k w.popFrame.2 v.popFrame.2 := by
  obtain ⟨links, h⟩ := h
  obtain ⟨f, rest, f', rest', hf, hf', htop, hrest⟩ := h.calls.top
  have hgone : List.Forall₂ (Linked links) f.ids f'.ids := Scope.forall₂_ids htop.scopes
  simp only [World.popFrame, CallStack.popFrame, hf, hf']
  refine ⟨htop.result, links, { h with memory := h.memory.disposeAll hgone, calls := ?_ }⟩
  simpa only [CallStack.below, hf, hf', List.tail_cons] using hrest

/-- Change the innermost call on both sides. -/
theorem mapCurrent (h : w.Mirrors F (k + 1) v) {g : Frame → Frame}
    (hg : ∀ {links f f'}, Frame.Mirrors links f f' → (g f).Mirrors links (g f')) :
    World.Mirrors F (k + 1) { w with stack := w.stack.mapCurrent g }
      { v with stack := v.stack.mapCurrent g } := by
  obtain ⟨links, h⟩ := h
  obtain ⟨f, rest, f', rest', hf, hf', htop, hrest⟩ := h.calls.top
  refine ⟨links, { h with calls := ?_ }⟩
  simp only [CallStack.mapCurrent, hf, hf', List.modifyHead_cons]
  exact .call (hg htop) hrest

/-- Note where the statement stands that runs now. -/
theorem setSpan (h : w.Mirrors F (k + 1) v) (span : Span) :
    World.Mirrors F (k + 1) { w with stack := w.stack.setSpan span }
      { v with stack := v.stack.setSpan span } :=
  h.mapCurrent fun hf => ⟨hf.name, hf.scopes, hf.opened, hf.result⟩

/-- Note the value to return. -/
theorem setResult (h : w.Mirrors F (k + 1) v) (value : Val) :
    World.Mirrors F (k + 1) { w with stack := w.stack.setResult value }
      { v with stack := v.stack.setResult value } :=
  h.mapCurrent fun hf => ⟨hf.name, hf.scopes, hf.opened, rfl⟩

/-- Open a scope. -/
theorem pushScope (h : w.Mirrors F (k + 1) v) :
    World.Mirrors F (k + 1) w.pushScope v.pushScope :=
  h.mapCurrent fun hf => ⟨hf.name, .cons .nil hf.scopes, nofun, hf.result⟩

/-- As many scopes are open. -/
theorem scopeMark (h : w.Mirrors F (k + 1) v) : v.stack.scopeMark = w.stack.scopeMark := by
  obtain ⟨links, h⟩ := h
  obtain ⟨f, rest, f', rest', hf, hf', htop, -⟩ := h.calls.top
  simp only [CallStack.scopeMark, hf, hf']
  exact htop.scopes.length_eq.symm

/-- Close scopes. -/
theorem restoreScopes (h : w.Mirrors F (k + 1) v) (mark : Nat) :
    World.Mirrors F (k + 1) (w.restoreScopes mark) (v.restoreScopes mark) := by
  obtain ⟨links, h⟩ := h
  obtain ⟨f, rest, f', rest', hf, hf', htop, hrest⟩ := h.calls.top
  have hlen : f'.scopes.length = f.scopes.length := htop.scopes.length_eq.symm
  have hgone := Scope.forall₂_ids (List.forall₂_take (f.scopes.length - max mark 1) htop.scopes)
  have hleft := List.forall₂_drop (f.scopes.length - max mark 1) htop.scopes
  -- One scope is always left open.
  have hopen : f.scopes.drop (f.scopes.length - max mark 1) ≠ [] := by
    have hpos := List.length_pos_iff.mpr htop.opened
    rw [Ne, List.drop_eq_nil_iff]
    omega
  simp only [World.restoreScopes, CallStack.restoreScopes, hf, hf', hlen]
  refine ⟨links, { h with memory := h.memory.disposeAll hgone, calls := ?_ }⟩
  simp only [CallStack.mapCurrent, hf, hf', List.modifyHead_cons]
  exact .call ⟨htop.name, hleft, hopen, htop.result⟩ hrest

/-- Add the same variable to the innermost scope on both sides. -/
theorem bindNew (h : w.Mirrors F (k + 1) v) (c : Cell) :
    ∃ s s', w.stack.declare? c.name w.memory.cells.size = some s ∧
      v.stack.declare? c.name v.memory.cells.size = some s' ∧
      World.Mirrors F (k + 1) { w with memory := (w.memory.alloc c).2, stack := s }
        { v with memory := (v.memory.alloc c).2, stack := s' } := by
  obtain ⟨links, h⟩ := h
  let link := (w.memory.cells.size, v.memory.cells.size)
  obtain ⟨f, rest, f', rest', hf, hf', htop, hrest⟩ := (h.calls.grow link).top
  have hscopes := htop.scopes
  generalize hs : f.scopes = scopes, hs' : f'.scopes = scopes' at hscopes
  cases hscopes with
  | nil => exact absurd hs htop.opened
  | cons hscope houter =>
    refine ⟨w.stack.mapCurrent (·.bind c.name link.1), v.stack.mapCurrent (·.bind c.name link.2),
      by simp [CallStack.declare?, hf, hs, link], by simp [CallStack.declare?, hf', hs', link],
      link :: links, { h with memory := h.memory.alloc c, calls := ?_ }⟩
    simp only [CallStack.mapCurrent, Frame.bind, hf, hf', hs, hs', List.modifyHead_cons]
    exact .call ⟨htop.name, .cons (hscope.bind c.name List.mem_cons_self) houter, nofun,
      htop.result⟩ hrest

/-- Add a variable to the innermost scope. -/
theorem declare (h : w.Mirrors F (k + 1) v) (c : Cell) :
    World.Mirrors F (k + 1) (w.declare c) (v.declare c) := by
  obtain ⟨s, s', hs, hs', h⟩ := h.bindNew c
  simpa only [World.declare, Memory.fst_alloc, hs, hs'] using h

/-- Add a variable to the innermost scope. -/
theorem declareLocal (h : w.Mirrors F (k + 1) v) (c : Cell) :
    World.Mirrors F (k + 1) (w.declareLocal c) (v.declareLocal c) := by
  obtain ⟨s, s', hs, hs', h⟩ := h.bindNew c
  simpa only [World.declareLocal, Memory.fst_alloc, hs, hs', Option.getD_some] using h

/-- Observe the same statement. -/
theorem observe (h : w.Mirrors F (k + 1) v) (isBefore : Bool) (stmt : Stmt) :
    World.Mirrors F (k + 1) (w.observe isBefore stmt) (v.observe isBefore stmt) := by
  have hdepth := h.sameButCalls.depth
  obtain ⟨links, h⟩ := h
  obtain ⟨f, rest, f', rest', hf, hf', htop, -⟩ := h.calls.top
  refine ⟨links, { h with trace := ?_ }⟩
  simp only [World.observe, CallStack.current?, hdepth, h.trace, hf, hf', List.head?_cons,
    Option.map_some, htop.name]

end World.Mirrors

/-- A name that denotes linked variables, or no local variable on either side,
wherever so many calls mirror each other. -/
def Seen (F : Footing) (k : Nat) (name : String) : Prop :=
  ∀ ⦃links : List (Nat × Nat)⦄ ⦃w v : World⦄, w.MirrorsBy F links k v →
    Option.Rel (Linked links) (w.stack.lookup? name) (v.stack.lookup? name)

/-- Names are looked up in the innermost call. -/
theorem seen_succ (F : Footing) (k : Nat) (name : String) : Seen F (k + 1) name := by
  intro links w v h
  obtain ⟨f, rest, f', rest', hf, hf', htop, -⟩ := h.calls.top
  simp only [CallStack.lookup?, CallStack.current?, hf, hf', List.head?_cons, Option.bind_some]
  exact htop.lookup? name

namespace World.MirrorsBy

variable {F : Footing} {links : List (Nat × Nat)} {k : Nat} {w v : World}

/-- The variables of a name are linked, or there is none on either side. -/
theorem lookup? (h : w.MirrorsBy F links k v) {name : String} {isGlobal : Bool}
    (hseen : isGlobal = false → Seen F k name) :
    Option.Rel (Linked links) (w.lookup? name isGlobal) (v.lookup? name isGlobal) := by
  have hglobal := h.memory.global? name
  unfold World.lookup?
  cases isGlobal with
  | true => simpa using hglobal
  | false =>
    have hlocal := hseen rfl h
    generalize w.stack.lookup? name = found, v.stack.lookup? name = found' at hlocal
    cases hlocal with
    | some hij => exact .some hij
    | none => simpa using hglobal

/-- Store the same in linked variables. -/
theorem setCell (h : w.MirrorsBy F links k v) {i j : Nat} (hij : Linked links i j) (c : Cell) :
    World.Mirrors F k { w with memory := w.memory.setCell i c }
      { v with memory := v.memory.setCell j c } :=
  ⟨links, { h with memory := h.memory.setCell hij c }⟩

end World.MirrorsBy

end Stepwise
