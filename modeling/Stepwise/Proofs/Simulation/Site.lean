import Stepwise.Proofs.Lowering.Methods
import Stepwise.Proofs.Simulation.Statement

/-!
# Poses at a site

What is known of a pose when the target stands at a site of the lowering:
names that are safe to use denote the same on both sides, and the result of
a copied method goes to its receiver. Running further code takes new names
only, so that all this outlasts it.
-/

namespace Stepwise.Simulation

open Engine
open Lowering hiding Target

variable {T : Tie}

/-- The statements that the comparison is about. -/
structure Tie.Admits (T : Tie) (stmt : Stmt) : Prop where
  /-- It is a structured statement. -/
  structured : stmt.isJumpCode = false
  /-- Its names are never taken for new ones. -/
  plain : ¬ T.sharp → ∀ x ∈ stmt.names, Plain x
  /-- What it returns can be compared. -/
  returned : ∀ e span, stmt = .ret (some e) span → T.settles e

/-- The program is one that the comparison is about. -/
structure Tie.Fits (T : Tie) : Prop where
  /-- The program is not in jump code. -/
  unlowered : T.setting.program.lowered = false
  /-- No method leaks names. -/
  leakFree : ∀ m ∈ T.setting.program.methods, m.LeakFree
  /-- All statements can be compared. -/
  admits : ∀ m ∈ T.setting.program.methods, Stmt.everyAll T.Admits m.body
  /-- Names of parameters are never taken for new ones. -/
  params : ¬ T.sharp → ∀ m ∈ T.setting.program.methods, ∀ param ∈ m.params, Plain param.name

/-- The methods of a program that fits are structured. -/
theorem Tie.Fits.structured (h : T.Fits) : ∀ m ∈ T.setting.program.methods, m.Structured :=
  fun m hm => Stmt.everyAll_mono (h.admits m hm) fun _ hs => hs.structured

/-- A name that is safe to use. -/
def Tie.Usable (T : Tie) (unsure : List String) (x : String) : Prop :=
  x ∉ unsure ∧ (¬ T.sharp → Plain x)

/-- A new name with a number between two bounds. Where places are compared
there are none. -/
def Tie.Fresh (T : Tie) (low high : Nat) (y : String) : Prop := ¬ T.sharp ∧ Between low high y

/-- The names that code binds in the target. -/
def Tie.New (T : Tie) (site : Site) (spilled : List String) (c c' : Supply) (y : String) : Prop :=
  (site.copy = none ∧ y ∈ spilled) ∨ T.Fresh c.names c'.names y

/-- What is known of a site, given the supply. -/
structure Tie.Known (T : Tie) (site : Site) (c : Supply) : Prop where
  /-- Names of the copy have been handed out. -/
  names : ∀ x y, c.scopes.lookup? x = some y → UpTo c.names y
  /-- Names and label of the copy have been handed out. -/
  copy : ∀ target, site.copy = some target →
    UpTo c.names target.receiver ∧ ∃ i, i < c.labels ∧ target.endLabel = Label.name i
  /-- Labels of the loops have been handed out. -/
  loops : ∀ l ∈ site.loopEnds, ∃ i, i < c.labels ∧ l = Label.name i
  /-- There are copies only if they are wanted. -/
  lax : site.copy ≠ none → T.lax

/-- The slot of the pose is the receiver of the copy. -/
def Pose.Receives (π : Pose) (site : Site) : Prop :=
  match site.copy with
  | none => π.slot = none
  | some target => ∃ j, π.slot = some (target.receiver, j) ∧ π.find' target.receiver = some j

/-- The pose is that of a site at which the method has no result yet. -/
structure Pose.Fits (π : Pose) (T : Tie) (site : Site) (c : Supply) (unsure : List String) :
    Prop where
  /-- There is no result yet. -/
  result : π.result = none
  /-- Names that are safe to use denote the same on both sides. -/
  sees : π.Sees (naming site c.scopes) (T.Usable unsure)
  /-- The result goes to the receiver. -/
  receives : π.Receives site

section Names

variable {site : Site} {c c' c'' : Supply} {spilled spilled' unsure : List String}

/-- Places are compared only without copies. -/
theorem Tie.not_sharp (h : T.lax) : ¬ T.sharp := by
  intro hs
  have hl : T.setting.options.inline = true := h
  rw [T.sharp_strict hs] at hl
  cases hl

/-- The expressions of a statement use safe names only. -/
theorem Tie.Admits.usable {stmt : Stmt} (h : T.Admits stmt) {e : Expr} (he : e ∈ stmt.exprs)
    (ha : e.avoids unsure = true) : ∀ x ∈ e.locals, T.Usable unsure x := by
  intro x hx
  have hav := List.all_eq_true.mp ha x hx
  refine ⟨fun hu => ?_, fun hs => h.plain hs x ?_⟩
  · simp [hu] at hav
  · exact List.mem_append_right _ (List.mem_flatMap.mpr ⟨e, he, hx⟩)

/-- Wider bounds. -/
theorem Tie.Fresh.mono {low low' high high' : Nat} {y : String} (h : T.Fresh low high y)
    (hl : low' ≤ low) (hh : high ≤ high') : T.Fresh low' high' y :=
  ⟨h.1, h.2.mono hl hh⟩

/-- Names handed out before are not new. -/
theorem Tie.not_fresh_of_upTo {low high : Nat} {y : String} (h : UpTo low y) :
    ¬ T.Fresh low high y :=
  fun hf => not_between_of_upTo h hf.2

/-- More names may be declared and more handed out. -/
theorem Tie.New.mono {y : String} (h : T.New site spilled c c' y) {d d' : Supply}
    (hs : ∀ x ∈ spilled, x ∈ spilled') (hl : d.names ≤ c.names) (hh : c'.names ≤ d'.names) :
    T.New site spilled' d d' y :=
  h.imp (fun ⟨hc, hy⟩ => ⟨hc, hs y hy⟩) fun hf => hf.mono hl hh

/-- A safe name that is not declared is not new in the target. -/
theorem Tie.Known.not_new (h : T.Known site c) {x y : String} (hx : T.Usable unsure x)
    (hs : x ∉ spilled) (hn : naming site c.scopes x = some y) :
    ¬ T.New site spilled c c' y := by
  rintro (⟨hc, hy⟩ | ⟨hsharp, hb⟩)
  · rw [naming, hc] at hn
    cases hn
    exact hs hy
  · cases hc : site.copy with
    | none =>
      rw [naming, hc] at hn
      cases hn
      exact not_between_of_plain (hx.2 hsharp) hb
    | some target =>
      rw [naming, hc] at hn
      exact not_between_of_upTo (h.names x y hn) hb

/-- The receiver of a copy is not new. -/
theorem Tie.Known.receiver_not_new (h : T.Known site c) {target : Lowering.Target}
    (hc : site.copy = some target) : ¬ T.New site spilled c c' target.receiver := by
  rintro (⟨hn, -⟩ | hf)
  · rw [hc] at hn
    cases hn
  · exact Tie.not_fresh_of_upTo (h.copy target hc).1 hf

/-- More of the supply is used. -/
theorem Tie.Known.later (h : T.Known site c) (hs : Supplies site spilled c c') :
    T.Known site c' where
  names := hs.known h.names
  copy := by
    intro target hc
    obtain ⟨hr, i, hi, he⟩ := h.copy target hc
    exact ⟨hr.mono hs.names, i, Nat.lt_of_lt_of_le hi hs.labels, he⟩
  loops := by
    intro l hl
    obtain ⟨i, hi, he⟩ := h.loops l hl
    exact ⟨i, Nat.lt_of_lt_of_le hi hs.labels, he⟩
  lax := h.lax

/-- One loop further in. -/
theorem Tie.Known.insideLoop (h : T.Known site c) {i : Nat} (hi : i < c.labels) :
    T.Known (site.insideLoop (Label.name i)) c where
  names := h.names
  copy := h.copy
  loops := by
    intro l hl
    rcases List.mem_cons.mp hl with rfl | hl
    · exact ⟨i, hi, rfl⟩
    · exact h.loops l hl
  lax := h.lax

/-- Names that were not declared denote the same as before. -/
theorem Supplies.naming_eq (hs : Supplies site spilled c c') {x : String} (hx : x ∉ spilled) :
    naming site c'.scopes x = naming site c.scopes x := by
  unfold naming
  split
  · rfl
  · exact hs.same x hx

end Names

/-- What names denote outlasts code that takes other names. -/
theorem Pose.Sees.grow {π π' : Pose} {names : Naming} {ok : String → Prop} {new : String → Prop}
    (h : π.Sees names ok) (g : Grows T new π π') (hi : π'.inner = π.inner)
    (hn : ∀ x y, ok x → names x = some y → ¬ new y) : π'.Sees names ok := by
  have hfind : ∀ x, π'.find x = π.find x := by
    intro x
    simp only [Pose.find, hi, g.outer]
  intro x hx
  have hm := h x hx
  cases hy : names x with
  | none =>
    rw [hy] at hm
    exact (hfind x).trans hm
  | some y =>
    rw [hy] at hm
    have hfind' := g.find'_eq (hn x y hx hy)
    rcases hm with ⟨he, h₁, h₂⟩ | ⟨i, j, h₁, h₂, hij⟩
    · exact .inl ⟨he, (hfind x).trans h₁, hfind'.trans h₂⟩
    · exact .inr ⟨i, j, (hfind x).trans h₁, hfind'.trans h₂, g.links _ hij⟩

/-- The receiver outlasts code that takes other names. -/
theorem Pose.Receives.grow {π π' : Pose} {site : Site} {new : String → Prop}
    (h : π.Receives site) (g : Grows T new π π')
    (hn : ∀ target, site.copy = some target → ¬ new target.receiver) : π'.Receives site := by
  unfold Pose.Receives at h ⊢
  cases hc : site.copy with
  | none =>
    rw [hc] at h
    exact g.slot.trans h
  | some target =>
    rw [hc] at h
    obtain ⟨j, hslot, hj⟩ := h
    exact ⟨j, g.slot.trans hslot, (g.find'_eq (hn target hc)).trans hj⟩

/-- Since the supply of names was at a bound, the target alone has bound names. -/
structure Later (T : Tie) (low high : Nat) (π π' : Pose) : Prop
    extends Grows T (T.Fresh low high) π π' where
  /-- The source has bound nothing. -/
  inner : π'.inner = π.inner
  /-- The result is the same. -/
  result : π'.result = π.result
  /-- Names are only added. -/
  bounds : low ≤ high

namespace Later

variable {low mid high : Nat} {π π' π'' : Pose}

/-- Nothing has happened. -/
theorem refl (low : Nat) (π : Pose) : Later T low low π π :=
  { Grows.refl π with inner := rfl, result := rfl, bounds := Nat.le_refl low }

/-- Wider bounds. -/
theorem mono {low' : Nat} (h : Later T low mid π π') (hl : low' ≤ low) (hh : mid ≤ high) :
    Later T low' high π π' :=
  { h.toGrows.mono fun _ hy => hy.mono hl hh with
    inner := h.inner
    result := h.result
    bounds := Nat.le_trans hl (Nat.le_trans h.bounds hh) }

/-- One after the other, within the same bounds. -/
theorem join (h : Later T low high π π') (h' : Later T low high π' π'') :
    Later T low high π π'' :=
  { h.toGrows.trans h'.toGrows with
    inner := h'.inner.trans h.inner
    result := h'.result.trans h.result
    bounds := h.bounds }

/-- One after the other, within bounds that follow on each other. -/
theorem trans (h : Later T low mid π π') (h' : Later T mid high π' π'') :
    Later T low high π π'' :=
  (h.mono (Nat.le_refl _) h'.bounds).join (h'.mono h.bounds (Nat.le_refl _))

/-- Variables that were not known before may hold something else. -/
theorem repin (h : Later T low high π π') (more : List (Nat × Cell)) :
    Later T low high π { π' with pins := more ++ π.pins } :=
  { h with pins := ⟨more, rfl⟩ }

/-- Safe names denote the same. -/
theorem sees {site : Site} {c : Supply} {unsure : List String} {high : Nat}
    (h : Later T c.names high π π') (hk : T.Known site c)
    (hs : π.Sees (naming site c.scopes) (T.Usable unsure)) :
    π'.Sees (naming site c.scopes) (T.Usable unsure) :=
  hs.grow h.toGrows h.inner fun _ _ hx hn hf =>
    have hnot : ¬ T.New site [] c { c with names := high } _ := hk.not_new hx List.not_mem_nil hn
    hnot (.inr hf)

/-- The pose is still that of the site. -/
theorem fits {site : Site} {c : Supply} {unsure : List String} {high : Nat}
    (h : Later T c.names high π π') (hk : T.Known site c) (hf : π.Fits T site c unsure) :
    π'.Fits T site c unsure where
  result := h.result.trans hf.result
  sees := h.sees hk hf.sees
  receives := hf.receives.grow h.toGrows fun _ hc hfresh =>
    have hnot : ¬ T.New site [] c { c with names := high } _ := hk.receiver_not_new hc
    hnot (.inr hfresh)

/-- In terms of the names that code binds. -/
theorem grows {c c' : Supply} (h : Later T c.names c'.names π π') (site : Site)
    (spilled : List String) : Grows T (T.New site spilled c c') π π' :=
  h.toGrows.mono fun _ hy => .inr hy

end Later

/-- Calls keep every pose with so many frames of the source below. -/
def CallsAt (T : Tie) (depth : Nat) : Prop := ∀ π : Pose, π.below.length = depth → Callable T π

/-- A step of the source does what an expression of the target does, from a
pose on. -/
def Stable (T : Tie) (low : Nat) (π : Pose) (x : Exec Val) (e : Expr) : Prop :=
  ∀ high π', Later T low high π π' →
    Steady T π' x (eval T.target.code.program T.target.call e)

/-- What is stable stays so. -/
theorem Stable.later {low mid : Nat} {π π' : Pose} {x : Exec Val} {e : Expr}
    (h : Stable T low π x e) (hl : Later T low mid π π') : Stable T mid π' x e :=
  fun high π'' hl' => h high π'' (hl.trans hl')

/-- Expressions with safe names are stable. -/
theorem Pose.Fits.stable {π : Pose} {site : Site} {c : Supply} {unsure : List String}
    (hf : π.Fits T site c unsure) (hk : T.Known site c) (hcall : CallsAt T π.below.length)
    {e : Expr} (he : ∀ x ∈ e.locals, T.Usable unsure x) :
    Stable T c.names π (eval T.source.code.program T.source.call e) (render site c.scopes e) := by
  intro high π' hl
  exact eval_steady (hcall π' (by rw [hl.below])) (hl.sees hk hf.sees) e he

/-- A variable of the target whose value is known. -/
def Pose.Pinned (π : Pose) (y : String) (value : Val) : Prop :=
  ∃ j c, π.find' y = some j ∧ (j, c) ∈ π.pins ∧ c.value = value

/-- A known value stays known. -/
theorem Pose.Pinned.later {π π' : Pose} {y : String} {value : Val} {low high : Nat}
    (h : π.Pinned y value) (hl : Later T low high π π') (hy : UpTo low y) : π'.Pinned y value := by
  obtain ⟨j, c, hf, hm, hv⟩ := h
  obtain ⟨more, hmore⟩ := hl.pins
  refine ⟨j, c, (hl.find'_eq (Tie.not_fresh_of_upTo hy)).trans hf, ?_, hv⟩
  rw [hmore]
  exact List.mem_append_right _ hm

/-- What the target finds under the name of a known variable. -/
theorem Pose.Holds.pinnedCell {π : Pose} {w v : World} {y : String} {j : Nat} {c : Cell}
    (h : π.Holds T w v) (hf : π.find' y = some j) (hm : (j, c) ∈ π.pins) :
    v.lookup? y false = some j ∧ v.memory.cell j = c := by
  have hlookup : v.stack.lookup? y = π.find' y := h.target.lookup y
  refine ⟨by simp [World.lookup?, hlookup, hf], ?_⟩
  exact (h.memory.owned j c (List.mem_append_left _ hm)).2.2

/-- Reading a variable whose value is known. -/
theorem Pose.Pinned.steady {π : Pose} {y : String} {value : Val} (h : π.Pinned y value)
    (span : Span) :
    Steady T π (pure value) (eval T.target.code.program T.target.call (localVar y span)) := by
  intro w v hw
  obtain ⟨j, c, hf, hm, rfl⟩ := h
  obtain ⟨hlookup, hcell⟩ := hw.pinnedCell hf hm
  simp only [localVar, eval, readVariable, hlookup, hcell]
  exact .ok ⟨rfl, hw⟩

/-- A variable whose value is known is stable. -/
theorem Pose.Pinned.stable {π : Pose} {y : String} {value : Val} {low : Nat}
    (h : π.Pinned y value) (hy : UpTo low y) (span : Span) :
    Stable T low π (pure value) (localVar y span) :=
  fun _ _ hl => (h.later hl hy).steady span

/-- A list of steps of the source, of which some parameters are heeded, does what expressions of
the target do. -/
inductive Fed (T : Tie) (low : Nat) (π : Pose) :
    List Param → Exec (List Val) → List Expr → Prop where
  /-- Nothing to do. -/
  | nil {params : List Param} : Fed T low π params (pure []) []
  /-- One after the other. -/
  | cons {params : List Param} {x : Exec Val} {e : Expr} {xs : Exec (List Val)} {es : List Expr}
    (first : Stable T low π x e) (rest : Fed T low π params.tail xs es) :
    Fed T low π params (consFor params.head? x xs) (e :: es)

/-- What is stable stays so. -/
theorem Fed.later {low mid : Nat} {π π' : Pose} {params : List Param} {xs : Exec (List Val)}
    {es : List Expr} (h : Fed T low π params xs es) (hl : Later T low mid π π') :
    Fed T mid π' params xs es := by
  induction h with
  | nil => exact .nil
  | cons first _ ih => exact .cons (first.later hl) ih

/-- All values are the same on both sides, if the target heeds the same parameters, or none where
that is forgiven. -/
theorem Fed.steady {low : Nat} {π : Pose} {params params' : List Param} {xs : Exec (List Val)}
    {es : List Expr} (h : Fed T low π params xs es)
    (hparams : params' = params ∨ T.lax ∧ params' = []) :
    Steady T π xs (evalFor T.target.code.program T.target.call params' es) := by
  induction h generalizing params' with
  | nil =>
    simp only [evalFor]
    exact .ret _
  | cons first _ ih =>
    simp only [evalFor]
    refine (first low π (.refl low π)).consFor (ih (hparams.imp ?_ (.imp id ?_)))
      (hparams.imp ?_ (.imp id ?_))
    all_goals
      rintro rfl
      rfl

/-- If no parameters are heeded, arguments are expressions like others. -/
theorem Fed.steadyList {low : Nat} {π : Pose} {xs : Exec (List Val)} {es : List Expr}
    (h : Fed T low π [] xs es) :
    Steady T π xs (evalList T.target.code.program T.target.call es) := by
  have hfor := h.steady (.inl rfl)
  rwa [evalFor_nil] at hfor

/-- There are as many values as arguments. -/
theorem Fed.length_eq {low : Nat} {π : Pose} {params : List Param} {xs : Exec (List Val)}
    {es : List Expr} (h : Fed T low π params xs es) {w w' : World} {values : List Val}
    (hx : xs w = .done w' (.ok values)) : values.length = es.length := by
  induction h generalizing w values with
  | nil =>
    cases hx
    rfl
  | @cons params x e xs es first _ ih =>
    obtain ⟨w₁, v, -, hx⟩ | ⟨u, -, hu⟩ := Exec.bind_eq_done.mp hx
    · obtain ⟨w₂, vs, hrest, hx⟩ | ⟨u, -, hu⟩ := Exec.bind_eq_done.mp hx
      · cases hx
        rw [List.length_cons, List.length_cons, ih (Exec.ok_of_stopIf hrest)]
      · cases hu
    · cases hu

/-- Arguments with safe names are stable. -/
theorem Pose.Fits.fed {π : Pose} {site : Site} {c : Supply} {unsure : List String}
    (hf : π.Fits T site c unsure) (hk : T.Known site c) (hcall : CallsAt T π.below.length) :
    ∀ (params : List Param) {es : List Expr}, (∀ x ∈ Expr.listLocals es, T.Usable unsure x) →
      Fed T c.names π params (evalFor T.source.code.program T.source.call params es)
        (renderList site c.scopes es)
  | _, [], _ => by
    rw [renderList_nil]
    simp only [evalFor]
    exact .nil
  | params, e :: es, he => by
    rw [renderList_cons]
    simp only [evalFor]
    rw [Expr.listLocals] at he
    exact .cons (hf.stable hk hcall fun x hx => he x (List.mem_append_left _ hx))
      (hf.fed hk hcall params.tail fun x hx => he x (List.mem_append_right _ hx))

end Stepwise.Simulation
