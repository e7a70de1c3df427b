import Stepwise.Proofs.Simulation.Site

/-!
# Calls in both programs

If the bodies of methods are compared well at some depth of the source, then
so are the calls made one frame further out: parameters are bound to linked
variables, the body of the target is the lowered body of the source, and the
frames go away on both sides. A call too deep for the source is forgiven, or
is too deep for the target as well.
-/

namespace Stepwise.Simulation

open Engine
open Lowering hiding Target

variable {T : Tie}

/-- From a site on, code of the target does what a step of the source does. -/
def Passes (T : Tie) (t : Terms) (C : Unwind → Unwind → Prop) (site : Site)
    (spilled unsure : List String) (next : Pose → Prop) (depth : Nat) (c : Supply) (code : Block)
    (c' : Supply) (x : Exec Flow) : Prop :=
  ∀ block before after π w v, block = before ++ (code ++ after) → (Block.labels block).Nodup →
    π.below.length = depth → π.Holds T w v → π.Fits T site c unsure →
    Leads t (x w) (route T.target block (code ++ after) v)
      (Post T C (T.New site spilled c c') π next site block after)

/-- The bodies of methods are compared well, wherever they are lowered. -/
def BodySim (T : Tie) (depth : Nat) : Prop :=
  ∀ {nesting : Nat} {site : Site} {m : Method} {s s' : Progress} {code : Block},
    Ample T.setting site nesting → m ∈ T.setting.program.methods → site.loopEnds = [] →
    T.Known site s.supply → Emits (lowerBlock T.setting nesting site m.body) s code s' →
    Passes T T.strictTerms (Closed T) site (Stmt.spillsOf m.body) [] (fun _ => True) depth
      s.supply code s'.supply (T.source.limit.walk m.body false m.body)

/-- A name that both sides have just declared, and the names from before. -/
theorem Pose.Sees.declare {π π' : Pose} {names names' : Naming} {ok ok' : String → Prop}
    {x y : String} {i j : Nat} (h : π.Sees names ok) (hx : names' x = some y)
    (hfind : π'.find x = some i) (hfind' : π'.find' y = some j) (hlink : (i, j) ∈ π'.links)
    (hlinks : ∀ p ∈ π.links, p ∈ π'.links) (hsame : ∀ z, z ≠ x → π'.find z = π.find z)
    (hsame' : ∀ z y', z ≠ x → ok' z → names z = some y' → π'.find' y' = π.find' y')
    (hother : ∀ z, z ≠ x → ok' z → ok z ∧ names' z = names z) : π'.Sees names' ok' := by
  intro z hz
  by_cases hzx : z = x
  · subst hzx
    rw [hx]
    exact .inr ⟨i, j, hfind, hfind', hlink⟩
  · obtain ⟨hok, hn⟩ := hother z hzx hz
    have hm := h z hok
    rw [hn]
    cases hy : names z with
    | none =>
      rw [hy] at hm
      exact (hsame z hzx).trans hm
    | some y' =>
      rw [hy] at hm
      have h' := hsame' z y' hzx hz hy
      rcases hm with ⟨he, h₁, h₂⟩ | ⟨a, b, h₁, h₂, hab⟩
      · exact .inl ⟨he, (hsame z hzx).trans h₁, h'.trans h₂⟩
      · exact .inr ⟨a, b, (hsame z hzx).trans h₁, h'.trans h₂, hlinks _ hab⟩

/-- A name bound in the innermost scope is found first. -/
theorem search_bind_self (scope : Scope) (scopes : List Scope) (x : String) (i : Nat) :
    Scope.search (Scope.bind x i scope :: scopes) x = some i := by
  simp only [Scope.search, List.findSome?_cons, Scope.lookup_bind_self]

/-- Other names are found as before. -/
theorem search_bind_ne (scope : Scope) (scopes : List Scope) {x z : String} (i : Nat)
    (h : z ≠ x) : Scope.search (Scope.bind x i scope :: scopes) z =
      Scope.search (scope :: scopes) z := by
  simp only [Scope.search, List.findSome?_cons, Scope.lookup_bind_ne _ _ h]

section Growth

variable {π : Pose} {w v : World} {new : String → Prop}

/-- Declaring linked variables is growing. -/
theorem Pose.Holds.grows_declareBoth (h : π.Holds T w v) {x y : String} (hy : new y) :
    Grows T new π { π with
      links := (w.memory.cells.size, v.memory.cells.size) :: π.links
      inner := Scope.bind x w.memory.cells.size π.inner
      flat := Scope.bind y v.memory.cells.size π.flat } where
  links := fun _ hp => List.mem_cons_of_mem _ hp
  pins := ⟨[], rfl⟩
  slot := rfl
  outer := rfl
  below := rfl
  rest := rfl
  under := rfl
  fresh := by
    intro e he
    refine (Scope.mem_bind he).symm.imp id ?_
    rintro rfl
    exact ⟨h.memory.base_le, h.memory.next_notMem⟩
  fresh' := by
    intro e he
    refine (Scope.mem_bind he).symm.imp id ?_
    rintro rfl
    exact ⟨h.memory.base_le', h.memory.next_notMem'⟩
  same := fun z hz => Scope.lookup_bind_ne _ _ fun he => hz (he ▸ hy)

end Growth

/-- Since the start of a call both sides have bound the same names. -/
def Level (T : Tie) (π₀ : Pose) (w v : World) : Prop :=
  ∃ π, Grows T (fun _ => True) π₀ π ∧ π.Holds T w v ∧ π.result = none ∧ π.Sees some fun _ => True

/-- Both sides bind an argument to a parameter. -/
theorem newVariable_level {π₀ : Pose} {w v : World} (h : Level T π₀ w v) (name : String)
    (shape : Shape) (value : Val) :
    Mirrors T.terms (newVariable World.declareLocal name shape value w)
      (newVariable World.declareLocal name shape value v) (fun w _ v _ => Level T π₀ w v)
      (fun w u v u' => Alike T.sharp none u u' ∧ Level T π₀ w v) := by
  unfold newVariable
  cases hc : Cell.holding name shape value with
  | error f => exact .error ⟨⟨rfl, (tame_holding _ _ _).mild hc, fun _ => rfl⟩, h⟩
  | ok c =>
    obtain ⟨π, g, hw, hr, hs⟩ := h
    refine .ok ⟨_, g.trans (hw.grows_declareBoth (x := c.name) (y := c.name) trivial), ?_, hr, ?_⟩
    · show Pose.Holds T _ (w.declareLocal c) (v.declareLocal c)
      rw [Pose.Holds.declareLocal_eq hw.source rfl, Pose.Holds.declareLocal_eq hw.target rfl]
      exact hw.declareBoth ⟨rfl, rfl, fun _ => rfl⟩
    · refine hs.declare (x := c.name) (y := c.name) rfl (search_bind_self _ _ _ _)
        (search_bind_self _ _ _ _) List.mem_cons_self (fun p hp => List.mem_cons_of_mem _ hp)
        (fun z hz => search_bind_ne _ _ _ hz) ?_ fun _ _ _ => ⟨trivial, rfl⟩
      rintro z y' hz - hy
      cases hy
      exact search_bind_ne _ _ _ hz

/-- Both sides bind the same arguments to the same parameters. -/
theorem bindArgs_level {π₀ : Pose} (params : List Param) (args : List Val) {w v : World}
    (h : Level T π₀ w v) :
    Mirrors T.terms (bindArgs params args w) (bindArgs params args v)
      (fun w _ v _ => Level T π₀ w v)
      (fun w u v u' => Alike T.sharp none u u' ∧ Level T π₀ w v) := by
  induction params generalizing args w v with
  | nil =>
    cases args <;> exact .ok h
  | cons param params ih =>
    cases args with
    | nil => exact .ok h
    | cons arg args =>
      exact (newVariable_level h param.name param.shape arg).bind fun w _ v _ h' => ih args h'

/-- The site at the top of a method is known. -/
theorem known_top (T : Tie) {c : Supply} (hs : c.scopes = []) : T.Known Site.top c where
  names := by
    intro x y h
    rw [hs] at h
    cases h
  copy := by
    intro target h
    cases h
  loops := by
    intro l h
    cases h
  lax := fun h => absurd rfl h

/-- The bodies of a method do the same on both sides. -/
theorem runBody_mirrors (hfits : T.Fits) {m m' : Method} (hm : m ∈ T.setting.program.methods)
    (hlow : LoweredFrom T.setting m m') {π₀ : Pose} (hslot : π₀.slot = none)
    (hbody : BodySim T π₀.below.length) {w v : World} (h : Level T π₀ w v) :
    Mirrors T.terms (runBody T.source.callees.block m w) (runBody T.target.callees.block m' v)
      (fun w _ v _ => ∃ π, Grows T (fun _ => True) π₀ π ∧ π.Holds T w v)
      (fun w u v u' => Alike T.sharp none u u' ∧
        ∃ π, Grows T (fun _ => True) π₀ π ∧ π.Holds T w v) := by
  obtain ⟨s, code, s', hemits, hscopes, rfl⟩ := hlow
  obtain ⟨π, g, hw, hr, hs⟩ := h
  have hmarked := (lowerBlock_yields hfits.structured _ (hfits.structured m hm) hemits).marked
  have hfit : π.Fits T Site.top s.supply [] := ⟨hr, fun x _ => hs x trivial, g.slot.trans hslot⟩
  have hlead := hbody (Ample.top T.setting) hm rfl (known_top T hscopes) hemits code [] [] π w v
    (by simp) hmarked.nodup (by rw [g.below]) hw hfit
  rw [List.append_nil] at hlead
  have hblock : Mirrors T.terms (T.source.callees.block m.body false w)
      (T.target.callees.block code false v)
      (fun w flow v flow' => flow' = flow ∧ (flow = .next ∨ flow = .leaveMethod) ∧
        ∃ π, Grows T (fun _ => True) π₀ π ∧ π.Holds T w v)
      (fun w u v u' => Alike T.sharp none u u' ∧
        ∃ π, Grows T (fun _ => True) π₀ π ∧ π.Holds T w v) := by
    refine (hlead.toMirrors (T.target.block_tends code false v) ?_).toTerms.congr
      (T.source.block_same m.body false w).symm fun _ _ => Iff.rfl
    intro w r Z hpost
    cases r with
    | ok flow =>
      obtain ⟨v, flow', ⟨hsends, π', g', hw', -, -⟩, rfl⟩ := hpost
      have hgrows := g.trans (g'.mono fun _ _ => trivial)
      cases hsends with
      | next => exact ⟨1, v, .ok .next, rfl, rfl, .inl rfl, π', hgrows, hw'⟩
      | leaveLoop hl => cases hl
      | leaveMethod => exact ⟨0, v, .ok .leaveMethod, rfl, rfl, .inr rfl, π', hgrows, hw'⟩
    | error u =>
      obtain ⟨v, u', ⟨hc, π', g', hw', -⟩, rfl⟩ := hpost
      exact ⟨0, v, .error u', rfl, hc.alike, π', g.trans (g'.mono fun _ _ => trivial), hw'⟩
  refine hblock.bind ?_
  rintro w flow v _ ⟨rfl, rfl | rfl, h⟩ <;> exact .ok h

/-- A call that the source can make leaves the ground as it was. -/
theorem inFrame_ground (hfits : T.Fits) {m m' : Method} (hm : m ∈ T.setting.program.methods)
    (hlow : LoweredFrom T.setting m m') {links : List (Nat × Nat)} {own : List (Nat × Cell)}
    {w v : World} (h : Ground T links own w v) (hbody : BodySim T w.stack.depth)
    (args : List Val) :
    Mirrors T.terms
      (inFrame m ((bindArgs m.params args).bind fun _ => runBody T.source.callees.block m) w)
      (inFrame m' ((bindArgs m'.params args).bind fun _ => runBody T.target.callees.block m') v)
      (fun w' a v' b => b = a ∧ Ground.Kept T links own w v w' v')
      (fun w' u v' u' => Alike T.sharp none u u' ∧ Ground.Kept T links own w v w' v') := by
  have hparams : m'.params = m.params := by
    obtain ⟨_, _, _, -, -, rfl⟩ := hlow
    rfl
  have hdepth : w.stack.depth = w.stack.frames.length := w.stack.depth_eq
  have hlevel : Level T (Pose.called links own w.stack.frames v.stack.frames) (w.pushFrame m)
      (v.pushFrame m') :=
    ⟨_, .refl _, h.enterCall m m', rfl, fun x _ => .inl ⟨rfl, rfl, rfl⟩⟩
  have hrun := (bindArgs_level m.params args hlevel).mono (fun _ _ _ _ hq => hq)
    fun w u v u' he => (⟨he.1, he.2.imp fun _ hl => ⟨hl.1, hl.2.1⟩⟩ : Alike T.sharp none u u' ∧
      ∃ π, Grows T (fun _ => True) (Pose.called links own _ _) π ∧ π.Holds T w v)
  have hstep := hrun.bind fun w _ v _ hl =>
    runBody_mirrors hfits hm hlow rfl (by rw [Pose.called, ← hdepth]; exact hbody) hl
  rw [hparams]
  refine hstep.andThen Iff.rfl id ?_ ?_ ?_
  · intro w' r v' r' hr
    cases r with
    | ok a =>
      cases r' with
      | error u' => cases hr
      | ok b =>
        obtain ⟨π, g, hw⟩ := hr
        obtain ⟨hkept, hres, hres'⟩ := hw.leaveCall g h
        have hvalue : v'.popFrame.1.getD .null = w'.popFrame.1.getD .null := by rw [hres, hres']
        exact .ok ⟨hvalue, hkept⟩
    | error u =>
      cases r' with
      | ok b => cases hr
      | error u' =>
        obtain ⟨ha, π, g, hw⟩ := hr
        exact .error ⟨ha, (hw.leaveCall g h).1⟩
  · rintro - w' u hu w'' r hr
    cases hr
    exact ⟨u, rfl, hu⟩
  · exact fun v' => ⟨_, rfl⟩

/-- Calls of a method do the same on both sides, if its body does. -/
theorem call_ground (hfits : T.Fits) {m m' : Method} (hm : m ∈ T.setting.program.methods)
    (hlow : LoweredFrom T.setting m m') {links : List (Nat × Nat)} {own : List (Nat × Cell)}
    {w v : World} (h : Ground T links own w v)
    (hbody : w.stack.depth < T.source.code.limits.maxCallDepth → BodySim T w.stack.depth)
    (args : List Val) :
    Mirrors T.terms (T.source.call m args w) (T.target.call m' args v)
      (fun w' a v' b => b = a ∧ Ground.Kept T links own w v w' v')
      (fun w' u v' u' => Alike T.sharp none u u' ∧ Ground.Kept T links own w v w' v') := by
  have hparams : m'.params = m.params ∧ m'.name = m.name := by
    obtain ⟨_, _, _, -, -, rfl⟩ := hlow
    exact ⟨rfl, rfl⟩
  have hsame : Ground.Kept T links own w v w v := { h with frames := rfl, frames' := rfl }
  refine Mirrors.congr ?_ (T.source.call_same m args w).symm (T.target.call_same m' args v).symm
  unfold callBy
  rw [T.limits_eq, hparams.1, hparams.2]
  by_cases hdepth : T.source.code.limits.maxCallDepth ≤ w.stack.depth
  · rw [if_pos hdepth]
    by_cases hlax : T.lax
    · exact .spoiled hlax (.inr ⟨_, rfl, T.fatal_depth hlax⟩)
    · rw [if_pos (by rw [h.depth_eq hlax]; exact hdepth)]
      exact .error ⟨⟨rfl, rfl, fun _ => rfl⟩, hsame⟩
  · rw [if_neg hdepth, if_neg fun hd => hdepth (Nat.le_trans hd h.depth_le)]
    by_cases hlen : m.params.length ≠ args.length
    · rw [if_pos hlen, if_pos hlen]
      exact .error ⟨⟨rfl, rfl, fun _ => rfl⟩, hsame⟩
    · rw [if_neg hlen, if_neg hlen]
      have := inFrame_ground hfits hm hlow h (hbody (Nat.lt_of_not_le hdepth)) args
      rw [hparams.1] at this
      exact this

/-- Calls keep the poses at a depth, if bodies are compared well one frame further in. -/
theorem callsAt (hfits : T.Fits) {depth : Nat}
    (hbody : depth + 1 < T.source.code.limits.maxCallDepth → BodySim T (depth + 1)) :
    CallsAt T depth := by
  intro π hπ
  have hlookup := lower_method? hfits.unlowered T.setting.options
  refine ⟨?_, ?_⟩
  · intro name hn
    have := hlookup name
    rw [T.source_program] at hn
    rw [hn] at this
    rw [T.target_program]
    exact this
  · intro name m hn
    rw [T.source_program] at hn
    have := hlookup name
    rw [hn] at this
    obtain ⟨m', hm', hlow⟩ := this
    refine ⟨m', by rw [T.target_program]; exact hm', ?_, ?_⟩
    · obtain ⟨_, _, _, -, -, rfl⟩ := hlow
      rfl
    · intro _ args w v hw
      have hdepth : w.stack.depth = depth + 1 := by rw [hw.stackDepth.1, hπ]
      have hcall := call_ground hfits (Program.mem_of_method?_eq_some hn) hlow hw.ground
        (by rw [hdepth]; exact hbody) args
      exact hcall.mono (fun _ _ _ _ ⟨he, hk⟩ => ⟨he, hw.ofKept hk⟩)
        fun _ _ _ _ ⟨ha, hk⟩ => ⟨ha, hw.ofKept hk⟩

end Stepwise.Simulation
