import Mathlib.Data.List.Nodup
import Stepwise.Program.Construct
import Stepwise.Proofs.Lowering.Findings
import Stepwise.Proofs.Lowering.Fragment

/-!
# Well-formed jump code

What lowered code looks like, rule by rule: it has no conditions or loops,
every jump lands on a label of its own block or of one around it, labels are
marked once, and a `break` is left only where one was reported.
-/

namespace Stepwise

namespace Stmt

/-- A statement without blocks is its only part. -/
theorem parts_of_blocks {stmt : Stmt} (h : stmt.blocks = []) : stmt.parts = [stmt] := by
  cases stmt with
  | cond | loop | attempt => cases h
  | _ => simp [parts]

/-- Statements without jumps have no blocks. -/
theorem blocks_of_isSimple {stmt : Stmt} (h : stmt.isSimple = true) : stmt.blocks = [] := by
  cases stmt with
  | declare | assign | ret | throw | eval => rfl
  | _ => cases h

/-- Jump code has no blocks. -/
theorem blocks_of_isJumpCode {stmt : Stmt} (h : stmt.isJumpCode = true) : stmt.blocks = [] := by
  cases stmt with
  | label | goto | branch => rfl
  | _ => cases h

variable {P : Stmt → Prop}

theorem everyAll_nil : everyAll P [] := by
  intro part hp
  rw [partsOf] at hp
  exact absurd hp List.not_mem_nil

/-- A statement without blocks in front. -/
theorem everyAll_leaf {stmt : Stmt} {rest : List Stmt} (h : stmt.blocks = []) :
    everyAll P (stmt :: rest) ↔ P stmt ∧ everyAll P rest := by
  rw [everyAll_cons, every, parts_of_blocks h, List.forall_mem_singleton]

/-- An `attempt` statement by itself. -/
theorem everyAll_attempt {body handler : List Stmt} {name : Option String} {span : Span}
    (hself : P (.attempt body name handler span)) (hbody : everyAll P body)
    (hhandler : everyAll P handler) : everyAll P [.attempt body name handler span] := by
  intro part hp
  rw [partsOf, partsOf, parts, List.append_nil, List.mem_cons, List.mem_append] at hp
  rcases hp with rfl | hp | hp
  · exact hself
  · exact hbody part hp
  · exact hhandler part hp

/-- Statements without jumps land anywhere. -/
theorem lands_of_isSimple {stmt : Stmt} (h : stmt.isSimple = true) (around : List String) :
    stmt.lands around = true := by
  cases stmt with
  | declare | assign | ret | throw | eval => rw [lands]
  | _ => cases h

/-- Statements without jumps have no breaks. -/
theorem strays_of_isSimple {stmt : Stmt} (h : stmt.isSimple = true) : stmt.strays = [] := by
  cases stmt with
  | declare | assign | ret | throw | eval => rw [strays]
  | _ => cases h

/-- Statements without jumps mark nothing. -/
theorem labels_of_isSimple {stmt : Stmt} (h : stmt.isSimple = true) : Block.labels [stmt] = [] := by
  cases stmt with
  | label => cases h
  | _ => rfl

@[simp] theorem landsAll_nil (around : List String) : landsAll around [] = true := by rw [landsAll]

@[simp] theorem landsAll_branch (around : List String) (test : Expr) (l : String) (span : Span)
    (rest : List Stmt) :
    landsAll around (.branch test l span :: rest) =
      (around.contains l && landsAll around rest) := by
  rw [landsAll, lands]

/-- Jump code has no breaks. -/
theorem strays_of_isJumpCode {stmt : Stmt} (h : stmt.isJumpCode = true) : stmt.strays = [] := by
  cases stmt with
  | label | goto | branch => rw [strays]
  | _ => cases h

end Stmt

namespace Lowering

@[simp] theorem landsAll_mark (around : List String) (l : String) (rest : Block) :
    Stmt.landsAll around (mark l :: rest) = Stmt.landsAll around rest := by
  rw [mark, Stmt.landsAll, Stmt.lands, Bool.true_and]

@[simp] theorem landsAll_jump (around : List String) (l : String) (rest : Block) :
    Stmt.landsAll around (jump l :: rest) = (around.contains l && Stmt.landsAll around rest) := by
  rw [jump, Stmt.landsAll, Stmt.lands]

/-- The labels that code at a site may jump to behind loops and a copy around it. -/
def Site.exits (site : Site) : List String :=
  site.loopEnds ++ (site.copy.map (·.endLabel)).toList

namespace Fragment

variable {setting : Setting} {C : String × Nat → Prop} {site : Site} {block : List Stmt}
  {n n' : Nat} {code : Block}

/-- Labels are only added. -/
theorem le (h : Fragment setting C site block n code n') : n ≤ n' := by
  induction h with
  | nil | emit | leave | breakLoop | breakNothing | keep => exact Nat.le_refl _
  | append _ _ ih₁ ih₂ | attempt _ _ ih₁ ih₂ => exact Nat.le_trans ih₁ ih₂
  | simple _ _ ih => exact ih
  | condOne _ _ ih => omega
  | condTwo _ _ _ ih₁ ih₂ => omega
  | copy _ _ _ ih | loopFirst _ _ ih | loopLast _ _ ih => omega

/-- What holds of statements without blocks whose calls are of the given kind
and of `attempt` statements holds all along the code. -/
theorem everyAll {P : Stmt → Prop} (h : Fragment setting C site block n code n')
    (hleaf : ∀ stmt : Stmt, stmt.blocks = [] → stmt.CallsOnly C → P stmt)
    (hattempt : ∀ body name handler span, P (.attempt body name handler span)) :
    Stmt.everyAll P code := by
  have hplain (stmt : Stmt) (hb : stmt.blocks = []) (he : stmt.exprs = []) : P stmt :=
    hleaf stmt hb fun e hm => absurd (he ▸ hm) List.not_mem_nil
  have hmark {l : String} {rest : Block} (h : Stmt.everyAll P rest) :
      Stmt.everyAll P (mark l :: rest) := (Stmt.everyAll_leaf rfl).mpr ⟨hplain _ rfl rfl, h⟩
  have hjump {l : String} {rest : Block} (h : Stmt.everyAll P rest) :
      Stmt.everyAll P (jump l :: rest) := (Stmt.everyAll_leaf rfl).mpr ⟨hplain _ rfl rfl, h⟩
  have hbranch {test : Expr} {l : String} {span : Span} {rest : Block}
      (hc : ∀ c ∈ test.calls, C c) (h : Stmt.everyAll P rest) :
      Stmt.everyAll P (.branch test l span :: rest) :=
    (Stmt.everyAll_leaf rfl).mpr ⟨hleaf _ rfl fun e he => List.mem_singleton.mp he ▸ hc, h⟩
  have hnil : Stmt.everyAll P [] := Stmt.everyAll_nil
  have happend {a b : Block} (ha : Stmt.everyAll P a) (hb : Stmt.everyAll P b) :
      Stmt.everyAll P (a ++ b) := Stmt.everyAll_append.mpr ⟨ha, hb⟩
  induction h with
  | nil => exact hnil
  | append _ _ ih₁ ih₂ => exact happend ih₁ ih₂
  | emit simple calls =>
    have hb := Stmt.blocks_of_isSimple simple
    exact (Stmt.everyAll_leaf hb).mpr ⟨hleaf _ hb calls, hnil⟩
  | keep jumps calls =>
    have hb := Stmt.blocks_of_isJumpCode jumps
    exact (Stmt.everyAll_leaf hb).mpr ⟨hleaf _ hb calls, hnil⟩
  | leave | breakLoop | breakNothing => exact (Stmt.everyAll_leaf rfl).mpr ⟨hplain _ rfl rfl, hnil⟩
  | simple _ _ ih => exact ih
  | copy _ _ _ ih => exact hmark (happend ih (hmark hnil))
  | condOne calls _ ih => exact hbranch calls (happend ih (hmark hnil))
  | condTwo calls _ _ ih₁ ih₂ =>
    exact happend (happend (hbranch calls ih₁) (hjump (hmark ih₂))) (hmark hnil)
  | loopFirst calls _ ih => exact hmark (hbranch calls (happend ih (hjump (hmark hnil))))
  | loopLast calls _ ih => exact hmark (happend ih (hbranch calls (hjump (hmark hnil))))
  | attempt _ _ ih₁ ih₂ => exact Stmt.everyAll_attempt (hattempt _ _ _ _) ih₁ ih₂

/-- A `break` is left where the block has one outside of its loops, or where a
method that is copied has one. -/
theorem strays (h : Fragment setting C site block n code n') :
    ∀ span ∈ Stmt.straysAll code, (site.loopEnds = [] ∧ span ∈ Stmt.straysAll block) ∨
      ∃ m ∈ setting.program.methods, span ∈ Stmt.straysAll m.body := by
  induction h with
  | nil => exact fun span hm => absurd hm (by simp [Stmt.straysAll])
  | append _ _ ih₁ ih₂ =>
    intro span hm
    rw [Stmt.straysAll_append, List.mem_append] at hm
    rw [Stmt.straysAll_append, List.mem_append]
    rcases hm with hm | hm
    · exact (ih₁ span hm).imp_left fun h => ⟨h.1, .inl h.2⟩
    · exact (ih₂ span hm).imp_left fun h => ⟨h.1, .inr h.2⟩
  | emit simple =>
    intro span hm
    simp [Stmt.straysAll, Stmt.strays_of_isSimple simple] at hm
  | keep jumps =>
    intro span hm
    simp [Stmt.straysAll, Stmt.strays_of_isJumpCode jumps] at hm
  | leave | breakLoop => exact fun span hm => absurd hm (by simp [Stmt.straysAll, Stmt.strays])
  | breakNothing outside => exact fun span hm => .inl ⟨outside, hm⟩
  | simple _ _ ih =>
    exact fun span hm => (ih span hm).imp_left fun h => absurd h.2 (by simp [Stmt.straysAll])
  | copy _ inlinable _ ih =>
    intro span hm
    have hbody := ih span (by simpa [Stmt.straysAll, Stmt.strays, mark] using hm)
    exact .inr (hbody.elim
      (fun h => ⟨_, Program.mem_of_method?_eq_some inlinable.found, h.2⟩) id)
  | condOne _ _ ih =>
    intro span hm
    have hyes := ih span (by simpa [Stmt.straysAll, Stmt.strays, mark] using hm)
    exact hyes.imp_left fun h => ⟨h.1, by simpa [Stmt.straysAll, Stmt.strays] using h.2⟩
  | condTwo _ _ _ ih₁ ih₂ =>
    intro span hm
    simp only [Stmt.straysAll, Stmt.strays, mark, jump, List.cons_append, Stmt.straysAll_append,
      List.nil_append, List.append_nil, List.mem_append] at hm ⊢
    rcases hm with hm | hm
    · exact (ih₁ span hm).imp_left fun h => ⟨h.1, .inl h.2⟩
    · exact (ih₂ span hm).imp_left fun h => ⟨h.1, .inr h.2⟩
  | loopFirst _ _ ih | loopLast _ _ ih =>
    -- Inside the loop there is a label to jump to.
    intro span hm
    have hbody := ih span (by simpa [Stmt.straysAll, Stmt.strays, mark, jump] using hm)
    exact .inr (hbody.resolve_left fun h => List.cons_ne_nil _ _ h.1)
  | attempt _ _ ih₁ ih₂ =>
    intro span hm
    simp only [Stmt.straysAll, Stmt.strays, List.append_nil, List.mem_append] at hm ⊢
    rcases hm with hm | hm
    · exact (ih₁ span hm).imp_left fun h => ⟨h.1, .inl h.2⟩
    · exact (ih₂ span hm).imp_left fun h => ⟨h.1, .inr h.2⟩

/-- Labels of the block itself are labels of the code itself. -/
theorem labels_subset (h : Fragment setting C site block n code n') :
    ∀ l ∈ Block.labels block, l ∈ Block.labels code := by
  induction h with
  | append _ _ ih₁ ih₂ =>
    intro l hl
    rw [Block.labels_append, List.mem_append] at hl ⊢
    exact hl.imp (ih₁ l) (ih₂ l)
  | simple simple => exact fun _ hl => absurd (Stmt.labels_of_isSimple simple ▸ hl) List.not_mem_nil
  | keep => exact fun _ hl => hl
  | _ => exact fun _ hl => absurd hl List.not_mem_nil

/-- Labels around code and its own ones are in reach where those of the code are. -/
theorem labels_reach (h : Fragment setting C site block n code n') {around around' : List String}
    (hcode : ∀ l ∈ Block.labels code, l ∈ around') (haround : ∀ l ∈ around, l ∈ around') :
    ∀ l ∈ Block.labels block ++ around, l ∈ around' :=
  List.forall_mem_append.mpr ⟨fun l hl => hcode l (h.labels_subset l hl), haround⟩

/-- Jumps land if those of the source do: those of the block on labels around
it, those of copied methods on labels of their own. -/
theorem lands (h : Fragment setting C site block n code n')
    (hmethods : ∀ m ∈ setting.program.methods,
      Stmt.landsAll (Block.labels m.body) m.body = true) :
    ∀ {around around' : List String}, Stmt.landsAll around block = true →
      (∀ l ∈ around, l ∈ around') → (∀ l ∈ Block.labels code, l ∈ around') →
      (∀ l ∈ site.exits, l ∈ around') → Stmt.landsAll around' code = true := by
  induction h with
  | nil => exact fun _ _ _ _ => Stmt.landsAll_nil _
  | append _ _ ih₁ ih₂ =>
    intro around around' hblock haround hlabels hexits
    rw [Stmt.landsAll_append, Bool.and_eq_true] at hblock
    rw [Block.labels_append, List.forall_mem_append] at hlabels
    rw [Stmt.landsAll_append, ih₁ hblock.1 haround hlabels.1 hexits,
      ih₂ hblock.2 haround hlabels.2 hexits, Bool.and_true]
  | emit simple =>
    intro around around' _ _ _ _
    rw [Stmt.landsAll, Stmt.lands_of_isSimple simple, Stmt.landsAll_nil, Bool.and_true]
  | keep => exact fun hblock haround _ _ => Stmt.landsAll_mono haround _ hblock
  | @leave _ target _ _ inside =>
    intro around around' _ _ _ hexits
    have hexit : target.endLabel ∈ around' := hexits _ (by simp [Site.exits, inside])
    simp [Stmt.landsAll, Stmt.lands, hexit]
  | @breakLoop _ endLabel _ _ _ inside =>
    intro around around' _ _ _ hexits
    have hexit : endLabel ∈ around' := hexits _ (by simp [Site.exits, inside])
    simp [Stmt.landsAll, Stmt.lands, hexit]
  | breakNothing => exact fun _ _ _ _ => by simp [Stmt.landsAll, Stmt.lands]
  | simple _ _ ih => exact fun _ => ih (Stmt.landsAll_nil _)
  | @copy _ _ _ _ n _ callee body _ inlinable inside ih =>
    intro around around' _ _ hlabels _
    have hbody : ∀ l ∈ Block.labels body, l ∈ around' := fun l hl => hlabels l (by simp [hl])
    have hend : ∀ l ∈ [Label.name (n + 1)], l ∈ around' := fun l hl => hlabels l (by simp_all)
    have hcallee := hmethods callee (Program.mem_of_method?_eq_some inlinable.found)
    have hlanded := ih hcallee (fun l hl => hbody l (inside.labels_subset l hl)) hbody hend
    simp [hlanded]
  | @condOne _ _ _ _ yes' n _ _ _ inside ih =>
    intro around around' hblock haround hlabels hexits
    simp only [Stmt.landsAll, Stmt.lands, Bool.and_true] at hblock
    have hend : Label.name n ∈ around' := hlabels _ (by simp)
    have hyes : ∀ l ∈ Block.labels yes', l ∈ around' := fun l hl => hlabels l (by simp [hl])
    have hlanded := ih hblock (inside.labels_reach hyes haround) hyes hexits
    simp [hend, hlanded]
  | @condTwo _ _ _ _ _ yes' no' n _ _ _ _ first second ih₁ ih₂ =>
    intro around around' hblock haround hlabels hexits
    simp only [Stmt.landsAll, Stmt.lands, Bool.and_true, Bool.and_eq_true] at hblock
    have helse : Label.name n ∈ around' := hlabels _ (by simp)
    have hend : Label.name (n + 1) ∈ around' := hlabels _ (by simp)
    have hyes : ∀ l ∈ Block.labels yes', l ∈ around' := fun l hl => hlabels l (by simp [hl])
    have hno : ∀ l ∈ Block.labels no', l ∈ around' := fun l hl => hlabels l (by simp [hl])
    have hlanded := ih₁ hblock.1 (first.labels_reach hyes haround) hyes hexits
    have hlanded' := ih₂ hblock.2 (second.labels_reach hno haround) hno hexits
    simp [helse, hend, hlanded, hlanded']
  | @loopFirst _ _ _ _ body' n _ _ _ inside ih | @loopLast _ _ _ _ body' n _ _ _ inside ih =>
    intro around around' hblock haround hlabels hexits
    simp only [Stmt.landsAll, Stmt.lands, Bool.and_true] at hblock
    have hstart : Label.name n ∈ around' := hlabels _ (by simp)
    have hend : Label.name (n + 1) ∈ around' := hlabels _ (by simp)
    have hbody : ∀ l ∈ Block.labels body', l ∈ around' := fun l hl => hlabels l (by simp [hl])
    have hlanded := ih hblock (inside.labels_reach hbody haround) hbody
      (List.forall_mem_cons.mpr ⟨hend, hexits⟩)
    simp [hstart, hend, hlanded]
  | attempt first second ih₁ ih₂ =>
    -- The labels of the two blocks are in reach inside them only.
    intro around around' hblock haround _ hexits
    simp only [Stmt.landsAll, Stmt.lands, Bool.and_true, Bool.and_eq_true] at hblock
    have hown {own : List String} : ∀ l ∈ own, l ∈ own ++ around' :=
      fun _ hl => List.mem_append_left _ hl
    have hout {own : List String} {l : String} (hl : l ∈ around') : l ∈ own ++ around' :=
      List.mem_append_right _ hl
    have hbody := ih₁ hblock.1 (first.labels_reach hown fun l hl => hout (haround l hl)) hown
      fun l hl => hout (hexits l hl)
    have hhandler := ih₂ hblock.2 (second.labels_reach hown fun l hl => hout (haround l hl)) hown
      fun l hl => hout (hexits l hl)
    rw [Stmt.landsAll, Stmt.landsAll_nil, Stmt.lands, hbody, hhandler]
    rfl

end Fragment

/-- The labels at any depth of the code are generated ones, each of them once
and with numbers within the bounds, and those of the source. -/
def Marks (low high : Nat) (own : List String) (code : Block) : Prop :=
  ∃ numbers : List Nat, numbers.Nodup ∧ (∀ i ∈ numbers, low ≤ i ∧ i < high) ∧
    (Block.allLabels code).Perm (numbers.map Label.name ++ own)

namespace Marks

variable {low mid high : Nat} {own own' : List String} {code code' : Block}

/-- No generated labels. -/
theorem onlyOwn (h : Block.allLabels code = own) : Marks low low own code :=
  ⟨[], List.nodup_nil, fun _ hi => absurd hi List.not_mem_nil, by rw [h]; exact .refl _⟩

/-- Code after code. -/
theorem append (h : Marks low mid own code) (h' : Marks mid high own' code') (hl : low ≤ mid)
    (hh : mid ≤ high) : Marks low high (own ++ own') (code ++ code') := by
  obtain ⟨a, ha, hab, hap⟩ := h
  obtain ⟨b, hb, hbb, hbp⟩ := h'
  refine ⟨a ++ b, List.nodup_append.mpr ⟨ha, hb, fun i hi j hj => ?_⟩,
    List.forall_mem_append.mpr ⟨fun i hi => ?_, fun i hi => ?_⟩, ?_⟩
  · have := hab i hi
    have := hbb j hj
    omega
  · have := hab i hi
    omega
  · have := hbb i hi
    omega
  · rw [List.perm_iff_count] at hap hbp ⊢
    intro l
    have := hap l
    have := hbp l
    simp only [Block.allLabels_append, List.map_append, List.count_append] at *
    omega

/-- The next labels around the code. -/
theorem surround (k : Nat) (h : Marks (low + k) high own code) (hh : low + k ≤ high)
    (hcount : ∀ l, (Block.allLabels code').count l =
      ((List.range' low k).map Label.name).count l + (Block.allLabels code).count l) :
    Marks low high own code' := by
  obtain ⟨a, ha, hab, hap⟩ := h
  refine ⟨List.range' low k ++ a,
    List.nodup_append.mpr ⟨List.nodup_range', ha, fun i hi j hj => ?_⟩,
    List.forall_mem_append.mpr ⟨fun i hi => ?_, fun i hi => ?_⟩, ?_⟩
  · have := List.mem_range'_1.mp hi
    have := hab j hj
    omega
  · have := List.mem_range'_1.mp hi
    omega
  · have := hab i hi
    omega
  · rw [List.perm_iff_count] at hap ⊢
    intro l
    have := hap l
    have := hcount l
    simp only [List.map_append, List.count_append] at *
    omega

/-- Labels are marked once if those of the source are and none of them is generated. -/
theorem nodup (h : Marks low high own code) (hown : own.Nodup)
    (hgen : ∀ l ∈ own, ∀ i, l ≠ Label.name i) : (Block.allLabels code).Nodup := by
  obtain ⟨a, ha, -, hap⟩ := h
  rw [hap.nodup_iff, List.nodup_append]
  refine ⟨List.Nodup.map (fun i j hij => Label.name_injective hij) ha, hown, ?_⟩
  rintro l hl l' hl' rfl
  obtain ⟨i, -, rfl⟩ := List.mem_map.mp hl
  exact hgen _ hl' i rfl

end Marks

/-- Code marks generated labels, and those of the source as often as the
source, if only structured methods are copied. -/
theorem Fragment.marks {setting : Setting} {C : String × Nat → Prop} {site : Site}
    {block : List Stmt} {n n' : Nat} {code : Block} (h : Fragment setting C site block n code n')
    (hcopied : ∀ {site name given callee}, C (name, given) →
      Inlinable setting site name given callee → callee.Structured) :
    Marks n n' (Block.allLabels block) code := by
  have hsimple {stmt : Stmt} (h : stmt.isSimple = true) : Block.allLabels [stmt] = [] := by
    rw [Block.allLabels, Stmt.partsOf, Stmt.partsOf,
      Stmt.parts_of_blocks (Stmt.blocks_of_isSimple h)]
    exact Stmt.labels_of_isSimple h
  induction h with
  | nil | leave | breakLoop | breakNothing => exact .onlyOwn (by simp)
  | emit simple => exact .onlyOwn (by rw [hsimple simple, Block.allLabels_nil])
  | keep => exact .onlyOwn rfl
  | append first second ih₁ ih₂ =>
    rw [Block.allLabels_append]
    exact ih₁.append ih₂ first.le second.le
  | simple simple _ ih =>
    rw [hsimple simple]
    exact ih
  | copy called inlinable inside ih =>
    rw [Stmt.allLabels_of_structured (hcopied called inlinable)] at ih
    exact ih.surround 2 inside.le fun l => by simp [mark, List.range', List.count_cons]; omega
  | condOne _ inside ih =>
    rw [Block.allLabels_cond_none, Block.allLabels_nil, List.append_nil]
    exact ih.surround 1 inside.le fun l => by simp [mark, List.range', List.count_cons]; omega
  | condTwo _ first second ih₁ ih₂ =>
    rw [Block.allLabels_cond_some, Block.allLabels_nil, List.append_nil]
    exact (ih₁.append ih₂ first.le second.le).surround 2 (Nat.le_trans first.le second.le)
      fun l => by simp [mark, jump, List.range', List.count_cons]; omega
  | loopFirst _ inside ih | loopLast _ inside ih =>
    rw [Block.allLabels_loop, Block.allLabels_nil, List.append_nil]
    exact ih.surround 2 inside.le fun l => by
      simp [mark, jump, List.range', List.count_cons]; omega
  | attempt first second ih₁ ih₂ =>
    rw [Block.allLabels_attempt, Block.allLabels_nil, List.append_nil]
    obtain ⟨numbers, hnodup, hbounds, hperm⟩ := ih₁.append ih₂ first.le second.le
    exact ⟨numbers, hnodup, hbounds, by simpa using hperm⟩

/-- The bodies of a lowered program, one after the other, follow the rules. -/
theorem lower_fragment {p : Program} (hp : p.lowered = false) (options : Options)
    {C : String × Nat → Prop}
    (hmethods : ∀ m ∈ p.methods, Stmt.everyAll (Stmt.CallsOnly C) m.body) :
    ∃ n, Fragment ⟨p, options⟩ C Site.top (p.methods.flatMap (·.body)) 0
      ((p.lower options).program.methods.flatMap (·.body)) n := by
  obtain ⟨methods, s, s', hlabels, hms, hprogram⟩ := lower_program hp options
  have h := lowerMethods_fragment hmethods (fun _ hm => hm) hms
  rw [hlabels] at h
  rw [hprogram]
  exact ⟨_, h⟩

/-- The body of each method of a lowered program follows the rules. -/
theorem lower_fragment_of_mem {p : Program} (hp : p.lowered = false) (options : Options)
    {C : String × Nat → Prop}
    (hmethods : ∀ m ∈ p.methods, Stmt.everyAll (Stmt.CallsOnly C) m.body) {m' : Method}
    (hm' : m' ∈ (p.lower options).program.methods) :
    ∃ m ∈ p.methods, ∃ n n', Fragment ⟨p, options⟩ C Site.top m.body n m'.body n' := by
  obtain ⟨m, hm, hlow⟩ := exists_of_loweredFrom (lower_methods hp options) m' hm'
  exact ⟨m, hm, hlow.fragment hmethods hm⟩

end Lowering

/-- Jumps and labels of a program fit together. -/
structure Program.JumpsResolve (p : Program) : Prop where
  /-- No label is marked twice in the whole program. -/
  once : (p.methods.flatMap fun m => Block.allLabels m.body).Nodup
  /-- Every jump goes to a label of its own block or of a block around it. -/
  lands : ∀ m ∈ p.methods, Stmt.landsAll (Block.labels m.body) m.body = true
  /-- The label of every jump is marked in one place of the program. -/
  unique : ∀ m ∈ p.methods, ∀ stmt ∈ Stmt.partsOf m.body, ∀ l, stmt.target? = some l →
    (p.methods.flatMap fun m => Block.allLabels m.body).count l = 1

/-- The label of every jump is marked once if jumps land and no label is marked twice. -/
theorem Program.JumpsResolve.intro {p : Program}
    (once : (p.methods.flatMap fun m => Block.allLabels m.body).Nodup)
    (lands : ∀ m ∈ p.methods, Stmt.landsAll (Block.labels m.body) m.body = true) :
    p.JumpsResolve where
  once := once
  lands := lands
  unique := by
    intro m hm stmt hs l hl
    refine List.count_eq_one_of_mem once (List.mem_flatMap.mpr ⟨m, hm, ?_⟩)
    exact (Stmt.target_of_landsAll hl m.body (lands m hm) hs).elim Stmt.mem_allLabels id

namespace Lowering

/-- The labels of blocks one after the other. -/
theorem allLabels_flatMap (ms : List Method) :
    Block.allLabels (ms.flatMap (·.body)) = ms.flatMap fun m => Block.allLabels m.body := by
  induction ms with
  | nil => exact Block.allLabels_nil
  | cons m ms ih => rw [List.flatMap_cons, List.flatMap_cons, Block.allLabels_append, ih]

/-- Any calls at all. -/
theorem anyCalls (ms : List Method) :
    ∀ m ∈ ms, Stmt.everyAll (Stmt.CallsOnly fun _ => True) m.body :=
  fun _ _ _ _ _ _ _ _ => trivial

variable {p : Program}

/-- The jumps of a lowered program resolve if the program is structured. -/
theorem lower_jumpsResolve (hp : p.lowered = false) (hstructured : p.Structured)
    (options : Options) : (p.lower options).program.JumpsResolve := by
  refine .intro ?_ fun m' hm' => ?_
  · obtain ⟨n, h⟩ := lower_fragment hp options (anyCalls p.methods)
    have hown : Block.allLabels (p.methods.flatMap (·.body)) = [] := by
      rw [allLabels_flatMap, List.flatMap_eq_nil_iff]
      exact fun m hm => Stmt.allLabels_of_structured (hstructured m hm)
    have hmarks := h.marks fun _ hi => hstructured _ (Program.mem_of_method?_eq_some hi.found)
    rw [hown] at hmarks
    rw [← allLabels_flatMap]
    exact hmarks.nodup List.nodup_nil (by simp)
  · obtain ⟨m, hm, n, n', h⟩ := lower_fragment_of_mem hp options (anyCalls p.methods) hm'
    have hbody : Stmt.landsAll [] m.body = true :=
      Stmt.landsAll_of_structured m.body (hstructured m hm)
    refine h.lands (fun m hm => Stmt.landsAll_of_structured m.body (hstructured m hm)) hbody ?_
      (fun _ hl => hl) ?_
    · exact fun _ hl => absurd hl List.not_mem_nil
    · exact fun _ hl => absurd hl List.not_mem_nil

/-- No conditions and loops are left in a lowered program. -/
theorem lower_flat (hp : p.lowered = false) (options : Options) {m' : Method}
    (hm' : m' ∈ (p.lower options).program.methods) :
    Stmt.everyAll (·.isStructured = false) m'.body := by
  obtain ⟨m, hm, n, n', h⟩ := lower_fragment_of_mem hp options (anyCalls p.methods) hm'
  refine h.everyAll (fun stmt hb _ => ?_) fun _ _ _ _ => rfl
  cases stmt with
  | cond | loop => cases hb
  | _ => rfl

/-- What is wrong in a method outside of loops is wrong in the program. -/
theorem mem_findings {m : Method} (hm : m ∈ p.methods) {d : Diagnostic}
    (h : d ∈ Stmt.findingsOf p false none m.body) : d ∈ p.findings :=
  List.mem_append_right _ (List.mem_append_left _ (List.mem_flatMap.mpr ⟨m, hm, h⟩))

/-- A `break` outside of loops in a lowered program is wrong in the program itself. -/
theorem stray_findings (hp : p.lowered = false) (options : Options) {m' : Method}
    (hm' : m' ∈ (p.lower options).program.methods) {span : Span}
    (hs : span ∈ Stmt.straysAll m'.body) : ⟨span, .breakOutsideLoop⟩ ∈ p.findings := by
  obtain ⟨m, hm, n, n', h⟩ := lower_fragment_of_mem hp options (anyCalls p.methods) hm'
  obtain ⟨-, hs⟩ | ⟨k, hk, hs⟩ := h.strays span hs
  · exact mem_findings hm (Stmt.straysAll_findings m.body none hs)
  · exact mem_findings hk (Stmt.straysAll_findings k.body none hs)

/-- A `break` that is left in a lowered program was reported. -/
theorem lower_breaks (hp : p.lowered = false) (options : Options) {m' : Method}
    (hm' : m' ∈ (p.lower options).program.methods) {span : Span}
    (hbreak : .brk span ∈ Stmt.partsOf m'.body) :
    ⟨span, .breakOutsideLoop⟩ ∈ (p.lower options).diagnostics := by
  have hstray := Stmt.straysAll_of_flat m'.body (lower_flat hp options hm') hbreak
  have hgrave := List.mem_filter.mpr ⟨stray_findings hp options hm' hstray,
    (rfl : Diagnostic.isGrave ⟨span, .breakOutsideLoop⟩ = true)⟩
  rw [← grave_diagnostics hp options] at hgrave
  exact (List.mem_filter.mp hgrave).1

end Lowering

/-- A structured program is lowered to jump code whose jumps resolve. No
condition or loop is left, and a `break` only where it was reported, unless
the program was marked as jump code before; then it stays as it is. -/
theorem Program.Structured.lower_resolves {p : Program} (hstructured : p.Structured)
    (options : Lowering.Options) :
    (p.lower options).program.JumpsResolve ∧
      (p.lowered = true → (p.lower options).program = p) ∧
      (p.lowered = false → ∀ m ∈ (p.lower options).program.methods,
        Stmt.everyAll (·.isStructured = false) m.body ∧
          ∀ span, .brk span ∈ Stmt.partsOf m.body →
            ⟨span, .breakOutsideLoop⟩ ∈ (p.lower options).diagnostics) := by
  have hkept (h : p.lowered = true) : (p.lower options).program = p := by
    unfold Program.lower
    rw [if_pos h]
  refine ⟨?_, hkept, fun hp m hm =>
    ⟨Lowering.lower_flat hp options hm, fun _ => Lowering.lower_breaks hp options hm⟩⟩
  cases hp : p.lowered with
  | false => exact Lowering.lower_jumpsResolve hp hstructured options
  | true =>
    rw [hkept hp]
    refine .intro ?_ fun m hm => Stmt.landsAll_of_structured m.body (hstructured m hm)
    rw [List.flatMap_eq_nil_iff.mpr fun m hm => Stmt.allLabels_of_structured (hstructured m hm)]
    exact List.nodup_nil

/-- A recursive method with a loop that is left from inside an `attempt`
statement, and a `break` that leaves nothing. -/
def Program.winding : Program :=
  Program.empty.addMethod ((Method.start "Wind").withParam "n" .scalar |>.withBody
    [.whileLoop (.named "n")
      [.tryCatch [.perform (.invoke "Wind" [.named "n"]), .leave] (some "e")
        [.ifElse (.named "e") [.giveBack none] [.leave]]],
      .leave])

/-- Copies of a recursive method in itself do not mix up their labels. -/
theorem Program.winding_resolves :
    Program.winding.Structured ∧ (Program.winding.lower {}).program.JumpsResolve ∧
      ∀ m ∈ (Program.winding.lower {}).program.methods,
        Stmt.everyAll (·.isStructured = false) m.body ∧
          ∀ span, .brk span ∈ Stmt.partsOf m.body →
            ⟨span, .breakOutsideLoop⟩ ∈ (Program.winding.lower {}).diagnostics := by
  have hstructured : Program.winding.Structured := by
    show ∀ m ∈ Program.winding.methods, ∀ part ∈ Stmt.partsOf m.body, part.isJumpCode = false
    decide
  obtain ⟨hjumps, -, hflat⟩ := hstructured.lower_resolves {}
  exact ⟨hstructured, hjumps, hflat rfl⟩

/-- A condition in a program that is marked as jump code. -/
def Program.markedTooEarly : Program :=
  { Program.empty.addMethod ((Method.start "Main").withBody
      [.ifThen (.ofLiteral (.bool true)) [.giveBack none]]) with lowered := true }

/-- A program that is marked as jump code keeps its conditions. -/
theorem Program.markedTooEarly_keeps_condition :
    Program.markedTooEarly.Structured ∧
      ¬ ∀ m ∈ (Program.markedTooEarly.lower {}).program.methods,
        Stmt.everyAll (·.isStructured = false) m.body := by
  constructor
  · show ∀ m ∈ Program.markedTooEarly.methods, ∀ part ∈ Stmt.partsOf m.body,
      part.isJumpCode = false
    decide
  · show ¬ ∀ m ∈ (Program.markedTooEarly.lower {}).program.methods,
      ∀ part ∈ Stmt.partsOf m.body, part.isStructured = false
    decide

end Stepwise
