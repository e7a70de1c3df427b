import Mathlib.Data.List.Forall2
import Stepwise.Proofs.Lowering.Supply

/-!
# Methods of the lowered program

The lowered program has the same methods in the same order; only their
bodies are other ones. The depth to which copies may nest is never used up:
a site has at most as many copies around it as the limit for one method
allows for all methods together.
-/

namespace Stepwise

/-- No name of the program is ever taken for a new one. -/
def Program.PlainNames (p : Program) : Prop :=
  ∀ m ∈ p.methods, (∀ param ∈ m.params, Lowering.Plain param.name) ∧
    Stmt.everyAll (fun stmt => ∀ x ∈ stmt.names, Lowering.Plain x) m.body

namespace Lowering

variable {setting : Setting} {s s' : Progress}

/-- A list in which no member of another list stands too often is not too long. -/
theorem length_le_of_count_le {limit : Nat} {ids xs : List Nat} (hmem : ∀ x ∈ xs, x ∈ ids)
    (hcount : ∀ x, xs.count x ≤ limit) : xs.length ≤ limit * ids.length := by
  induction ids generalizing xs with
  | nil =>
    have : xs = [] := List.eq_nil_iff_forall_not_mem.mpr fun x hx => List.not_mem_nil (hmem x hx)
    simp [this]
  | cons i ids ih =>
    have hrest : (xs.filter (· != i)).length ≤ limit * ids.length := by
      refine ih ?_ fun x => ?_
      · intro x hx
        obtain ⟨hx, hne⟩ := List.mem_filter.mp hx
        exact (List.mem_cons.mp (hmem x hx)).resolve_left (by simpa using hne)
      · exact Nat.le_trans (List.Sublist.count_le x List.filter_sublist) (hcount x)
    have hsplit : xs.length = xs.count i + (xs.filter (· != i)).length := by
      rw [List.count_eq_countP, List.length_eq_countP_add_countP (· == i),
        ← List.countP_eq_length_filter]
      congr 1
      exact List.countP_congr fun x _ => by simp
    have := hcount i
    rw [hsplit, List.length_cons, Nat.mul_succ]
    omega

/-- Copies can still be nested at the site as deep as the limits allow. -/
structure Ample (setting : Setting) (site : Site) (depth : Nat) : Prop where
  /-- Methods of the program are copied. -/
  ids : ∀ i ∈ site.active, i ∈ setting.program.methods.map (·.id)
  /-- No method is copied too often. -/
  counts : ∀ i, site.active.count i ≤ setting.options.recursionLimit
  /-- The depth was lowered once for each copy around the site. -/
  depth : setting.depth ≤ depth + site.active.length

namespace Ample

variable {site : Site} {depth : Nat}

/-- The top of a method. -/
theorem top (setting : Setting) : Ample setting Site.top setting.depth :=
  ⟨by simp [Site.top], by simp [Site.top], Nat.le_add_right _ _⟩

/-- The depth is never used up. -/
theorem pos (h : Ample setting site depth) : 0 < depth := by
  have hlen := length_le_of_count_le h.ids h.counts
  rw [List.length_map] at hlen
  have := h.depth
  unfold Setting.depth at this
  omega

/-- One copy further in. -/
theorem insideCopy (h : Ample setting site (depth + 1)) {name : String} {given : Nat}
    {callee : Method} (hi : Inlinable setting site name given callee) (target : Target) :
    Ample setting (site.insideCopy callee target) depth where
  ids := by
    intro i hm
    rcases List.mem_cons.mp hm with rfl | hm
    · exact List.mem_map_of_mem (Program.mem_of_method?_eq_some hi.found)
    · exact h.ids i hm
  counts := by
    intro i
    show (callee.id :: site.active).count i ≤ _
    rw [List.count_cons]
    split
    · next he =>
      have hn := hi.nested
      rw [beq_iff_eq.mp he] at hn
      exact hn
    · exact h.counts i
  depth := by
    have := h.depth
    simp only [Site.insideCopy, List.length_cons]
    omega

/-- The loops around a site do not matter. -/
theorem insideLoop (h : Ample setting site depth) (label : String) :
    Ample setting (site.insideLoop label) depth :=
  ⟨h.ids, h.counts, h.depth⟩

end Ample

/-- The lowered form of a method. -/
def LoweredFrom (setting : Setting) (m m' : Method) : Prop :=
  ∃ s code s', Emits (lowerBlock setting setting.depth Site.top m.body) s code s' ∧
    s.scopes = [] ∧ m' = { m with body := code }

/-- Methods are lowered one after the other. Where a body begins, no name is
renamed, and nothing but the body changes. -/
theorem emits_lowerMethods_cons {m : Method} {ms ms' : List Method}
    (h : Emits (lowerMethods setting (m :: ms)) s ms' s') :
    ∃ code s₁ rest, Emits (lowerBlock setting setting.depth Site.top m.body)
        { s with scopes := [] } code s₁ ∧
      Emits (lowerMethods setting ms) { s₁ with scopes := s.scopes } rest s' ∧
      ms' = { m with body := code } :: rest := by
  unfold lowerMethods at h
  obtain ⟨m', s₁, hm, h₁⟩ := emits_bind.mp h
  obtain ⟨rest, s₂, hrest, h₂⟩ := emits_bind.mp h₁
  obtain ⟨rfl, rfl⟩ := emits_pure.mp h₂
  unfold lowerMethod at hm
  obtain ⟨code, s₃, hcode, h₃⟩ := emits_bind.mp hm
  obtain ⟨s₄, hbody, rfl⟩ := emits_withRenaming hcode
  obtain ⟨rfl, rfl⟩ := emits_pure.mp h₃
  exact ⟨code, s₄, rest, hbody, hrest, rfl⟩

/-- Methods are lowered one by one. -/
theorem emits_lowerMethods {ms ms' : List Method} (h : Emits (lowerMethods setting ms) s ms' s') :
    List.Forall₂ (LoweredFrom setting) ms ms' := by
  induction ms generalizing s s' ms' with
  | nil =>
    obtain ⟨rfl, -⟩ := emits_pure.mp h
    exact .nil
  | cons m ms ih =>
    obtain ⟨code, s₁, rest, hbody, hrest, rfl⟩ := emits_lowerMethods_cons h
    exact .cons ⟨_, code, s₁, hbody, rfl, rfl⟩ (ih hrest)

/-- Looking a method up among methods that were lowered one by one. -/
theorem find?_of_loweredFrom {ms ms' : List Method} (h : List.Forall₂ (LoweredFrom setting) ms ms')
    (name : String) :
    match ms.find? (·.name == name) with
    | none => ms'.find? (·.name == name) = none
    | some m => ∃ m', ms'.find? (·.name == name) = some m' ∧ LoweredFrom setting m m' := by
  induction h with
  | nil => rfl
  | @cons m m' ms ms' hlow _ ih =>
    have hname : m'.name = m.name := by
      obtain ⟨_, _, _, -, -, rfl⟩ := hlow
      rfl
    rw [List.find?_cons, List.find?_cons, hname]
    cases m.name == name with
    | true => exact ⟨m', rfl, hlow⟩
    | false => exact ih

/-- Checking global variables hands nothing out. -/
theorem emits_checkGlobals {p : Program} {globals : List Global} {u : Unit}
    (h : Emits (checkGlobals p globals) s u s') : s'.supply = s.supply := by
  induction globals generalizing s with
  | nil =>
    obtain ⟨-, rfl⟩ := emits_pure.mp h
    rfl
  | cons g rest ih =>
    unfold checkGlobals at h
    cases hinit : g.init with
    | none =>
      rw [hinit] at h
      exact ih h
    | some init =>
      rw [hinit] at h
      obtain ⟨_, s₁, hr, h₁⟩ := emits_bind.mp h
      exact (ih h₁).trans (emits_report hr)

/-- Lowering a program changes its methods, and hands out what they need. -/
theorem emits_lowerProgram {q : Program} (h : Emits (lowerProgram setting) s q s') :
    ∃ methods s₁ s₂, s₁.supply = s.supply ∧
      Emits (lowerMethods setting setting.program.methods) s₁ methods s₂ ∧
      s'.supply = s₂.supply ∧ q = { setting.program with methods, lowered := true } := by
  unfold lowerProgram at h
  obtain ⟨_, s₁, hr, h₁⟩ := emits_bind.mp h
  obtain ⟨methods, s₂, hms, h₂⟩ := emits_bind.mp h₁
  obtain ⟨_, s₃, hg, h₃⟩ := emits_bind.mp h₂
  obtain ⟨rfl, rfl⟩ := emits_pure.mp h₃
  exact ⟨methods, s₁, s₂, emits_report hr, hms, emits_checkGlobals hg, rfl⟩

/-- A program that is not in jump code yet is lowered from the beginning on. -/
theorem emits_lower {p : Program} (hp : p.lowered = false) (options : Options) :
    Emits (lowerProgram ⟨p, options⟩) {} (p.lower options).program
      ((lowerProgram ⟨p, options⟩).run {}).2 := by
  unfold Program.lower
  rw [hp]
  rfl

/-- A lowered program differs in its methods, which are lowered in order from
the first label on. -/
theorem lower_program {p : Program} (hp : p.lowered = false) (options : Options) :
    ∃ methods s s', s.labels = 0 ∧ Emits (lowerMethods ⟨p, options⟩ p.methods) s methods s' ∧
      (p.lower options).program = { p with methods, lowered := true } := by
  obtain ⟨methods, s, s', hs, hms, -, hprogram⟩ := emits_lowerProgram (emits_lower hp options)
  exact ⟨methods, s, s', congrArg Supply.labels hs, hms, hprogram⟩

/-- The methods of a lowered program. -/
theorem lower_methods {p : Program} (hp : p.lowered = false) (options : Options) :
    List.Forall₂ (LoweredFrom ⟨p, options⟩) p.methods (p.lower options).program.methods := by
  obtain ⟨methods, s, s', -, hms, hprogram⟩ := lower_program hp options
  rw [hprogram]
  exact emits_lowerMethods hms

/-- What holds of every method and its lowered form holds all along the methods. -/
theorem lower_methods_of {p : Program} (hp : p.lowered = false) (options : Options)
    {R : Method → Method → Prop}
    (h : ∀ m ∈ p.methods, ∀ m', LoweredFrom ⟨p, options⟩ m m' → R m m') :
    List.Forall₂ R p.methods (p.lower options).program.methods := by
  have hmem := (List.forall₂_and_left (p := (· ∈ p.methods)) _ _).mpr
    ⟨fun _ hm => hm, lower_methods hp options⟩
  exact hmem.imp fun m m' ⟨hm, hlow⟩ => h m hm m' hlow

/-- Every method among lowered ones is the lowered form of one. -/
theorem exists_of_loweredFrom {ms ms' : List Method}
    (h : List.Forall₂ (LoweredFrom setting) ms ms') :
    ∀ m' ∈ ms', ∃ m ∈ ms, LoweredFrom setting m m' := by
  induction h with
  | nil => exact fun _ hm' => absurd hm' List.not_mem_nil
  | @cons m k ms ms' hlow _ ih =>
    refine List.forall_mem_cons.mpr ⟨⟨m, List.mem_cons_self, hlow⟩, fun m' hm' => ?_⟩
    obtain ⟨l, hl, hlow'⟩ := ih m' hm'
    exact ⟨l, List.mem_cons_of_mem _ hl, hlow'⟩

/-- Looking a method up in a lowered program. -/
theorem lower_method? {p : Program} (hp : p.lowered = false) (options : Options) (name : String) :
    match p.method? name with
    | none => (p.lower options).program.method? name = none
    | some m => ∃ m', (p.lower options).program.method? name = some m' ∧
        LoweredFrom ⟨p, options⟩ m m' :=
  find?_of_loweredFrom (lower_methods hp options) name

end Lowering

end Stepwise
