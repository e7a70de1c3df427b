import Mathlib.Data.List.Nodup
import Stepwise.Proofs.Engine.Ahead

/-!
# Variables that are not mentioned

A block that does not mention a variable of its call neither looks at it nor
stores to it, whatever methods it calls. Two runs of the block from worlds that
differ in what the variable holds go side by side: they have the same outcome,
all other variables are equal, and the variable holds what it held. Scopes that
the block opens may come and go; those that were open before stay open, and in
one of them the variable is found as before.
-/

namespace Stepwise

open Engine

/-- Two scopes that mirror each other but for a name. -/
def Scope.MirrorsBut (y : String) (links : List (Nat × Nat)) (scope scope' : Scope) : Prop :=
  Scope.Mirrors links (scope.filter (·.1 ≠ y)) (scope'.filter (·.1 ≠ y))

namespace Scope

/-- Leaving out a name does not matter to others. -/
theorem lookup_filter_ne (scope : Scope) {x y : String} (hx : x ≠ y) :
    List.lookup x (scope.filter (·.1 ≠ y)) = List.lookup x scope := by
  have hskip := lookup_bind_ne scope 0 hx
  rwa [bind, List.lookup_cons, beq_eq_false_iff_ne.mpr hx] at hskip

/-- A name can be left out before or after another one is bound. -/
theorem filter_bind (scope : Scope) (id : Nat) {x y : String} (hx : x ≠ y) :
    (Scope.bind x id scope).filter (·.1 ≠ y) = Scope.bind x id (scope.filter (·.1 ≠ y)) := by
  unfold Scope.bind
  rw [List.filter_cons_of_pos (by simpa using hx), List.filter_filter, List.filter_filter]
  congr 2
  funext e
  exact Bool.and_comm _ _

/-- Bind another name to linked variables. -/
theorem MirrorsBut.bind {x y : String} {links : List (Nat × Nat)} {scope scope' : Scope}
    (h : Scope.MirrorsBut y links scope scope') (hx : x ≠ y) {i j : Nat}
    (hij : Linked links i j) :
    Scope.MirrorsBut y links (Scope.bind x i scope) (Scope.bind x j scope') := by
  unfold Scope.MirrorsBut
  rw [filter_bind scope i hx, filter_bind scope' j hx]
  exact Scope.Mirrors.bind h x hij

/-- Scopes with a veil over the name `y`: so many of them were open before and
mirror each other but for the name, for which the second side finds `j` there;
those opened since then mirror each other and do not bind the name. -/
inductive Veiled (y : String) (j floor : Nat) (links : List (Nat × Nat)) :
    List Scope → List Scope → Prop where
  /-- The scopes that were open before. -/
  | base {scopes scopes' : List Scope} (length : scopes.length = floor)
    (mirrors : List.Forall₂ (Scope.MirrorsBut y links) scopes scopes')
    (found : scopes'.findSome? (·.lookup y) = some j) : Veiled y j floor links scopes scopes'
  /-- A scope that was opened since then. -/
  | inner {scope scope' : Scope} {scopes scopes' : List Scope}
    (mirrors : Scope.Mirrors links scope scope') (free : scope'.lookup y = none)
    (h : Veiled y j floor links scopes scopes') :
    Veiled y j floor links (scope :: scopes) (scope' :: scopes')

namespace Veiled

variable {y : String} {j floor : Nat} {links : List (Nat × Nat)} {scopes scopes' : List Scope}

/-- As many scopes are open, those from before among them. -/
theorem length_eq (h : Veiled y j floor links scopes scopes') :
    scopes'.length = scopes.length ∧ floor ≤ scopes.length := by
  induction h with
  | base length mirrors found => exact ⟨mirrors.length_eq.symm, Nat.le_of_eq length.symm⟩
  | inner mirrors free h ih =>
    exact ⟨congrArg (· + 1) ih.1, Nat.le_succ_of_le ih.2⟩

/-- More links. -/
theorem grow (h : Veiled y j floor links scopes scopes') (link : Nat × Nat) :
    Veiled y j floor (link :: links) scopes scopes' := by
  induction h with
  | base length mirrors found =>
    exact .base length (mirrors.imp fun _ _ hs => Scope.Mirrors.grow hs link) found
  | inner mirrors free h ih => exact .inner (mirrors.grow link) free ih

/-- The name is found where it was. -/
theorem found (h : Veiled y j floor links scopes scopes') :
    scopes'.findSome? (·.lookup y) = some j := by
  induction h with
  | base length mirrors found => exact found
  | inner mirrors free h ih => rw [List.findSome?_cons, free, ih]

/-- Other names are seen alike. -/
theorem findSome? (h : Veiled y j floor links scopes scopes') {x : String} (hx : x ≠ y) :
    Option.Rel (Linked links) (scopes.findSome? (·.lookup x)) (scopes'.findSome? (·.lookup x)) := by
  induction h with
  | @base scopes scopes' length mirrors found =>
    have hfiltered : List.Forall₂ (Scope.Mirrors links)
        (scopes.map fun scope => scope.filter (·.1 ≠ y))
        (scopes'.map fun scope => scope.filter (·.1 ≠ y)) :=
      List.forall₂_map_left_iff.mpr (List.forall₂_map_right_iff.mpr mirrors)
    have hfound := Scope.forall₂_findSome? hfiltered x
    rw [List.findSome?_map, List.findSome?_map] at hfound
    simpa only [Function.comp_def, lookup_filter_ne _ hx] using hfound
  | @inner scope scope' _ _ mirrors free h ih =>
    have hhere := mirrors.lookup x
    simp only [List.findSome?_cons]
    generalize List.lookup x scope = found, List.lookup x scope' = found' at hhere
    cases hhere with
    | some hij => exact .some hij
    | none => exact ih

/-- Bind another name in the innermost scope. -/
theorem bind (h : Veiled y j floor links scopes scopes') {x : String} (hx : x ≠ y) {i k : Nat}
    (hik : Linked links i k) :
    ∃ scope rest scope' rest', scopes = scope :: rest ∧ scopes' = scope' :: rest' ∧
      Veiled y j floor links (Scope.bind x i scope :: rest) (Scope.bind x k scope' :: rest') := by
  cases h with
  | base length mirrors found =>
    cases mirrors with
    | nil => cases found
    | @cons scope scope' rest rest' hscope hrest =>
      refine ⟨scope, rest, scope', rest', rfl, rfl,
        .base length (.cons (hscope.bind hx hik) hrest) ?_⟩
      rwa [List.findSome?_cons, lookup_bind_ne scope' k hx.symm, ← List.findSome?_cons]
  | @inner scope scope' rest rest' mirrors free h =>
    refine ⟨scope, rest, scope', rest', rfl, rfl, .inner (mirrors.bind x hik) ?_ h⟩
    rwa [lookup_bind_ne scope' k hx.symm]

/-- Close scopes that were opened since then. -/
theorem drop (h : Veiled y j floor links scopes scopes') :
    ∀ n, n + floor ≤ scopes.length → Veiled y j floor links (scopes.drop n) (scopes'.drop n) ∧
      List.Forall₂ (Scope.Mirrors links) (scopes.take n) (scopes'.take n) := by
  induction h with
  | base length mirrors found =>
    intro n hn
    obtain rfl : n = 0 := by omega
    exact ⟨.base length mirrors found, .nil⟩
  | inner mirrors free h ih =>
    intro n hn
    cases n with
    | zero => exact ⟨.inner mirrors free h, .nil⟩
    | succ n =>
      rw [List.length_cons] at hn
      obtain ⟨hleft, hgone⟩ := ih n (by omega)
      exact ⟨hleft, .cons mirrors hgone⟩

/-- The scopes have the same contents but for the name. -/
theorem contents {own : List (Nat × Cell)} {m m' : Memory}
    (h : Veiled y j floor links scopes scopes') (hm : m.Mirrors links own m') :
    (scopes'.map fun scope => (Scope.contents m' scope).filter (·.1 ≠ y)) =
      scopes.map fun scope => (Scope.contents m scope).filter (·.1 ≠ y) := by
  induction h with
  | base length mirrors found =>
    clear length found
    induction mirrors with
    | nil => rfl
    | cons hscope _ ih =>
      rw [List.map_cons, List.map_cons, ih, contents_filter, contents_filter,
        Scope.Mirrors.contents hscope hm]
  | inner mirrors free h ih => rw [List.map_cons, List.map_cons, ih, mirrors.contents hm]

end Veiled

end Scope

/-- Two calls with a veil over a name in their scopes. -/
structure Frame.Veiled (y : String) (j floor : Nat) (links : List (Nat × Nat)) (f f' : Frame) :
    Prop where
  /-- The name of the method is the same. -/
  name : f'.name = f.name
  /-- The value to return is the same. -/
  result : f'.result = f.result
  /-- The scopes. -/
  scopes : Scope.Veiled y j floor links f.scopes f'.scopes

/-- The innermost of the calls below has a veil over the name `y`, which denotes
the variable `j` on the second side, and that holds `c`. -/
def Footing.veil (y : String) (j : Nat) (c : Cell) (floor : Nat) : Footing where
  callers := fun links fs fs' => ∃ f below f' below', fs = f :: below ∧ fs' = f' :: below' ∧
    f.Veiled y j floor links f' ∧ List.Forall₂ (Frame.Mirrors links) below below'
  length_eq := by
    rintro links _ _ ⟨f, below, f', below', rfl, rfl, -, hbelow⟩
    rw [List.length_cons, List.length_cons, hbelow.length_eq]
  grow := by
    rintro links _ _ link ⟨f, below, f', below', rfl, rfl, hf, hbelow⟩
    exact ⟨f, below, f', below', rfl, rfl, { hf with scopes := hf.scopes.grow link },
      hbelow.imp fun _ _ h => h.grow link⟩
  own := [(j, c)]

section Veil

variable {y : String} {j floor : Nat} {c : Cell} {w v : World}

/-- Names other than the veiled one are seen alike. -/
theorem seen_veil {x : String} (hx : x ≠ y) : Seen (.veil y j c floor) 0 x := by
  intro links w v h
  obtain ⟨f, below, f', below', hf, hf', hveiled, -⟩ := h.calls.bottom
  simp only [CallStack.lookup?, CallStack.current?, hf, hf', List.head?_cons, Option.bind_some]
  exact hveiled.scopes.findSome? hx

namespace World.Mirrors

variable (h : w.Mirrors (.veil y j c floor) 0 v)

include h

/-- Change the call with the veil on both sides. -/
theorem mapVeiled {g : Frame → Frame} (hg : ∀ {links f f'}, Frame.Veiled y j floor links f f' →
      (g f).Veiled y j floor links (g f')) :
    World.Mirrors (.veil y j c floor) 0 { w with stack := w.stack.mapCurrent g }
      { v with stack := v.stack.mapCurrent g } := by
  obtain ⟨links, h⟩ := h
  obtain ⟨f, below, f', below', hf, hf', hveiled, hbelow⟩ := h.calls.bottom
  refine ⟨links, { h with calls := .callers ?_ }⟩
  exact ⟨g f, below, g f', below', CallStack.frames_mapCurrent hf g,
    CallStack.frames_mapCurrent hf' g, hg hveiled, hbelow⟩

/-- As many scopes are open, those from before among them. -/
theorem scopeMark_veil : v.stack.scopeMark = w.stack.scopeMark ∧ floor ≤ w.stack.scopeMark := by
  obtain ⟨links, h⟩ := h
  obtain ⟨f, below, f', below', hf, hf', hveiled, -⟩ := h.calls.bottom
  simp only [CallStack.scopeMark, hf, hf']
  exact hveiled.scopes.length_eq

/-- Close scopes that were opened since then. -/
theorem restoreScopes_veil {mark : Nat} (hmark : floor ≤ mark) :
    World.Mirrors (.veil y j c floor) 0 (w.restoreScopes mark) (v.restoreScopes mark) := by
  obtain ⟨links, h⟩ := h
  obtain ⟨f, below, f', below', hf, hf', hveiled, hbelow⟩ := h.calls.bottom
  obtain ⟨hlength, hfloor⟩ := hveiled.scopes.length_eq
  obtain ⟨hleft, hgone⟩ := hveiled.scopes.drop (f.scopes.length - max mark 1) (by omega)
  simp only [World.restoreScopes, CallStack.restoreScopes, hf, hf', hlength]
  refine ⟨links, { h with
    memory := h.memory.disposeAll (Scope.forall₂_ids hgone), calls := .callers ?_ }⟩
  exact ⟨_, below, _, below', CallStack.frames_mapCurrent hf _, CallStack.frames_mapCurrent hf' _,
    { hveiled with scopes := hleft }, hbelow⟩

/-- Add the same variable of another name to the innermost scope on both sides. -/
theorem bindNew_veil {d : Cell} (hd : d.name ≠ y) :
    ∃ s s', w.stack.declare? d.name w.memory.cells.size = some s ∧
      v.stack.declare? d.name v.memory.cells.size = some s' ∧
      World.Mirrors (.veil y j c floor) 0 { w with memory := (w.memory.alloc d).2, stack := s }
        { v with memory := (v.memory.alloc d).2, stack := s' } := by
  obtain ⟨links, h⟩ := h
  obtain ⟨f, below, f', below', hf, hf', hveiled, hbelow⟩ := h.calls.bottom
  let link := (w.memory.cells.size, v.memory.cells.size)
  obtain ⟨scope, rest, scope', rest', hs, hs', hscopes⟩ :=
    (hveiled.scopes.grow link).bind hd (i := link.1) (k := link.2) List.mem_cons_self
  refine ⟨w.stack.mapCurrent (·.bind d.name link.1), v.stack.mapCurrent (·.bind d.name link.2),
    by simp [CallStack.declare?, hf, hs, link], by simp [CallStack.declare?, hf', hs', link],
    link :: links, { h with memory := h.memory.alloc d, calls := .callers ?_ }⟩
  refine ⟨_, below, _, below', CallStack.frames_mapCurrent hf _, CallStack.frames_mapCurrent hf' _,
    ?_, hbelow.imp fun _ _ hg => hg.grow link⟩
  simp only [Frame.bind, hs, hs']
  exact ⟨hveiled.name, hveiled.result, hscopes⟩

/-- Observe the same statement. -/
theorem observe_veil (isBefore : Bool) (stmt : Stmt) :
    World.Mirrors (.veil y j c floor) 0 (w.observe isBefore stmt) (v.observe isBefore stmt) := by
  have hdepth := h.sameButCalls.depth
  obtain ⟨links, h⟩ := h
  obtain ⟨f, below, f', below', hf, hf', hveiled, -⟩ := h.calls.bottom
  refine ⟨links, { h with trace := ?_ }⟩
  simp only [World.observe, CallStack.current?, hdepth, h.trace, hf, hf', List.head?_cons,
    Option.map_some, hveiled.name]

end World.Mirrors

/-- Statements that do not mention the veiled name go side by side. -/
theorem carries_veil : Carries (.veil y j c floor) 0 (· ≠ y) floor where
  seen := fun _ hx => seen_veil hx
  setSpan := fun _ h => h.mapVeiled fun hf => ⟨hf.name, hf.result, hf.scopes⟩
  setResult := fun _ h => h.mapVeiled fun hf => ⟨hf.name, rfl, hf.scopes⟩
  observe := fun isBefore stmt h => h.observe_veil isBefore stmt
  pushScope := fun h => h.mapVeiled fun hf => ⟨hf.name, hf.result, .inner .nil rfl hf.scopes⟩
  scopeMark := fun h => h.scopeMark_veil
  restoreScopes := fun hmark h => h.restoreScopes_veil hmark
  declare := by
    intro w v d hd h
    obtain ⟨s, s', hs, hs', h⟩ := h.bindNew_veil hd
    simpa only [World.declare, Memory.fst_alloc, hs, hs'] using h
  declareLocal := by
    intro w v d hd h
    obtain ⟨s, s', hs, hs', h⟩ := h.bindNew_veil hd
    simpa only [World.declareLocal, Memory.fst_alloc, hs, hs', Option.getD_some] using h

/-- The world with something else in a variable. -/
def World.withCell (w : World) (j : Nat) (c : Cell) : World :=
  { w with memory := w.memory.setCell j c }

/-- In a call every variable has one name. -/
theorem Frame.name_unique {f : Frame} (honce : f.ids.Nodup) {scope scope' : Scope}
    (hscope : scope ∈ f.scopes) (hscope' : scope' ∈ f.scopes) {x y : String} {j : Nat}
    (hx : (x, j) ∈ scope) (hy : (y, j) ∈ scope') : x = y := by
  have hids : f.ids = f.scopes.flatten.map (·.2) := by
    rw [Frame.ids, List.map_flatten, List.flatMap]
    rfl
  rw [hids] at honce
  have hsame := List.inj_on_of_nodup_map honce (List.mem_flatten_of_mem hscope hx)
    (List.mem_flatten_of_mem hscope' hy) rfl
  exact congrArg Prod.fst hsame

/-- A world mirrors itself with something else in a variable, under a veil over its name. -/
theorem World.Tidy.mirrors_veil (hw : w.Tidy) (hj : w.stack.lookup? y = some j) (c : Cell) :
    w.Mirrors (.veil y j c w.stack.scopeMark) 0 (w.withCell j c) := by
  obtain ⟨f, hcurrent, hfound⟩ := Option.bind_eq_some_iff.mp hj
  obtain ⟨below, hf⟩ := List.head?_eq_some_iff.mp hcurrent
  obtain ⟨home, hhome, hlookup⟩ := List.exists_of_findSome?_eq_some hfound
  have hentry : (y, j) ∈ home := by
    obtain ⟨before, after, rfl, -⟩ := List.lookup_eq_some_iff.mp hlookup
    simp
  have hbound : w.bound = f.ids ++ (below.flatMap Frame.ids ++ w.memory.globals) := by
    rw [World.bound, CallStack.ids, hf, List.flatMap_cons, List.append_assoc]
  have hjf : j ∈ f.ids := List.mem_flatMap.mpr ⟨home, hhome, List.mem_map_of_mem hentry⟩
  have honce := hw.once
  rw [hbound] at honce
  obtain ⟨honceHere, -, hapart⟩ := List.nodup_append.mp honce
  have hjlt : j < w.memory.cells.size := hw.known j (hbound ▸ List.mem_append_left _ hjf)
  -- Every variable that is bound is linked to itself, but for the one under the veil.
  let links := (w.bound.filter (· ≠ j)).map fun i => (i, i)
  have hlink {i : Nat} (hi : i ∈ w.bound) (hne : i ≠ j) : Linked links i i :=
    List.mem_map_of_mem (List.mem_filter.mpr ⟨hi, decide_eq_true hne⟩)
  have hdiag {i k : Nat} (hik : Linked links i k) : k = i ∧ i < w.memory.cells.size ∧ i ≠ j := by
    obtain ⟨n, hn, he⟩ := List.mem_map.mp hik
    obtain ⟨rfl, rfl⟩ := Prod.mk.inj he
    obtain ⟨hn, hne⟩ := List.mem_filter.mp hn
    exact ⟨rfl, hw.known n hn, of_decide_eq_true hne⟩
  have houter {i : Nat} (hi : i ∈ below.flatMap Frame.ids ++ w.memory.globals) :
      Linked links i i := by
    refine hlink (hbound ▸ List.mem_append_right _ hi) fun he => ?_
    exact hapart j hjf i hi he.symm
  have hmemory : w.memory.Mirrors links [(j, c)] (w.memory.setCell j c) := by
    refine ⟨⟨fun p hp q hq he => ?_, fun p hp q hq he => ?_⟩, fun hik => ?_, ?_, fun hk => ?_⟩
    · exact Prod.ext he (by rw [(hdiag hp).1, (hdiag hq).1, he])
    · exact Prod.ext (by rw [← (hdiag hp).1, ← (hdiag hq).1, he]) he
    · obtain ⟨rfl, hlt, hne⟩ := hdiag hik
      rw [Memory.size_setCell, Memory.cell_setCell_ne _ _ hne]
      exact ⟨hlt, hlt, rfl⟩
    · exact List.forall₂_same.mpr fun g hg => houter (List.mem_append_right _ hg)
    · cases List.mem_singleton.mp hk
      rw [Memory.size_setCell, Memory.cell_setCell_self _ _ hjlt]
      refine ⟨hjlt, fun i hij => ?_, rfl⟩
      obtain ⟨rfl, -, hne⟩ := hdiag hij
      exact hne rfl
  have hscopes : Scope.Veiled y j w.stack.scopeMark links f.scopes f.scopes := by
    refine .base ?_ (List.forall₂_same.mpr fun scope hscope => ?_) hfound
    · rw [CallStack.scopeMark, hf]
    · refine List.forall₂_same.mpr fun e he => ⟨rfl, ?_⟩
      obtain ⟨he, hne⟩ := List.mem_filter.mp he
      have hmem : e.2 ∈ f.ids := List.mem_flatMap.mpr ⟨scope, hscope, List.mem_map_of_mem he⟩
      refine hlink (hbound ▸ List.mem_append_left _ hmem) fun hej => of_decide_eq_true hne ?_
      have hxj : (e.1, j) ∈ scope := hej ▸ he
      exact Frame.name_unique honceHere hscope hhome hxj hentry
  refine ⟨links, rfl, rfl, rfl, rfl, rfl, hmemory, .callers ?_⟩
  refine ⟨f, below, f, below, hf, hf, ⟨rfl, rfl, hscopes⟩, List.forall₂_same.mpr fun g hg => ?_⟩
  refine Frame.mirrors_self (hw.scopes g (hf ▸ List.mem_cons_of_mem _ hg)) fun i hi => ?_
  exact houter (List.mem_append_left _ (List.mem_flatMap.mpr ⟨g, hg, hi⟩))

/-- The variables of all calls in progress, without those of a name in the innermost call. -/
def World.localsWithout (y : String) (w : World) : List (List (List (String × Cell))) :=
  w.locals.modifyHead fun scopes => scopes.map fun scope => scope.filter (·.1 ≠ y)

/-- Two worlds that are equal but for a name, which denotes a variable on the
second side that holds `c`. -/
structure World.SameBut (y : String) (j : Nat) (c : Cell) (w v : World) : Prop where
  /-- They differ in their calls at most. -/
  others : w.SameButCalls v
  /-- The calls have the same variables but for the name. -/
  locals : v.localsWithout y = w.localsWithout y
  /-- The name still denotes the variable. -/
  found : v.stack.lookup? y = some j
  /-- The variable still holds it. -/
  held : v.memory.cell j = c

/-- Worlds under a veil are equal but for the name. -/
theorem World.Mirrors.sameBut (h : w.Mirrors (.veil y j c floor) 0 v) : w.SameBut y j c v := by
  refine ⟨h.sameButCalls, ?_, ?_, ?_⟩
  all_goals
    obtain ⟨links, h⟩ := h
    obtain ⟨f, below, f', below', hf, hf', hveiled, hbelow⟩ := h.calls.bottom
  · simp only [World.localsWithout, World.locals, hf, hf', List.map_cons, List.modifyHead_cons,
      List.map_map, Function.comp_def, hveiled.scopes.contents h.memory,
      Frame.map_contents hbelow h.memory]
  · simp only [CallStack.lookup?, CallStack.current?, hf', List.head?_cons, Option.bind_some]
    exact hveiled.scopes.found
  · exact (h.memory.owned List.mem_cons_self).2.2

end Veil

/-- Running the block neither looks at nor changes a variable of that name in the
call it runs in: whatever the variable holds, the runs go side by side, and at
the end it holds what it held. -/
def Block.Ignores (block : Block) (y : String) : Prop :=
  ∀ (code : Code) (fuel : Nat) (inLoop : Bool) (w : World) (j : Nat) (c : Cell), w.Tidy →
    w.stack.lookup? y = some j →
    Run.Matches (.veil y j c w.stack.scopeMark) (fun _ => World.SameBut y j c)
      (runBlock code fuel block inLoop w) (runBlock code fuel block inLoop (w.withCell j c))

/-- Blocks ignore the names that they do not have. -/
theorem Block.ignores_of_notMem {block : Block} {y : String} (hy : y ∉ Block.allNames block) :
    block.Ignores y := by
  have hwithin : Stmt.everyAll (Stmt.Within (· ≠ y)) block := by
    intro part hpart
    have hnames : ∀ x ∈ part.names, x ≠ y :=
      fun x hx he => hy (List.mem_flatMap.mpr ⟨part, hpart, he ▸ hx⟩)
    refine ⟨fun x hx => hnames x (List.mem_append_left _ hx), fun e he x hx => hnames x ?_⟩
    exact List.mem_append_right _ (List.mem_flatMap.mpr ⟨e, he, hx⟩)
  intro code fuel inLoop w j c hw hj
  have hruns := (carries_veil.blocks code fuel).block inLoop hwithin (hw.mirrors_veil hj c)
  exact hruns.imp fun _ _ _ h => h.sameBut

end Stepwise
