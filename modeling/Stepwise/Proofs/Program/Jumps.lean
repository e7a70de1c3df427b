import Stepwise.Program.Block
import Stepwise.Lowering.Calls
import Stepwise.Proofs.Program.Scoping

/-!
# Jumps and their labels

A jump lands if its label is marked in its own block or in one around it.
Code is proper if all its jumps land, every `break` stands inside a loop and
every call names a method and passes the right number of arguments. Labels of
a block count without those of nested blocks; the labels at any depth are the
labels among all its parts.
-/

namespace Stepwise

/-- The labels that a block marks, in order. Labels of nested blocks do not count. -/
def Block.labels (block : List Stmt) : List String :=
  block.filterMap fun
    | .label name _ => some name
    | _ => none

namespace Block

@[simp] theorem labels_nil : labels [] = [] := rfl

@[simp] theorem labels_append (a b : List Stmt) : labels (a ++ b) = labels a ++ labels b :=
  List.filterMap_append

@[simp] theorem labels_label (name : String) (span : Span) (rest : List Stmt) :
    labels (.label name span :: rest) = name :: labels rest := rfl

/-- Other statements mark nothing. -/
theorem labels_cons {stmt : Stmt} (h : ∀ name span, stmt ≠ .label name span) (rest : List Stmt) :
    labels (stmt :: rest) = labels rest := by
  cases stmt with
  | label name span => exact absurd rfl (h name span)
  | _ => rfl

/-- A label that the block marks stands somewhere in it. -/
theorem mem_labels {label : String} {block : List Stmt} :
    label ∈ labels block ↔ ∃ before span after, block = before ++ .label label span :: after := by
  constructor
  · intro h
    obtain ⟨stmt, hs, hl⟩ := List.mem_filterMap.mp h
    cases stmt with
    | label name span =>
      cases hl
      obtain ⟨before, after, rfl⟩ := List.append_of_mem hs
      exact ⟨before, span, after, rfl⟩
    | _ => cases hl
  · rintro ⟨before, span, after, rfl⟩
    simp

/-- A jump to a label that the block does not mark leaves the block. -/
theorem fromLabel?_eq_none {label : String} {block : List Stmt} (h : label ∉ labels block) :
    fromLabel? label block = none := by
  rw [fromLabel?_eq_none_iff]
  intro stmt hs
  cases stmt with
  | label name span =>
    rw [Stmt.declares, beq_eq_false_iff_ne]
    rintro rfl
    exact h (List.mem_filterMap.mpr ⟨_, hs, rfl⟩)
  | _ => rfl

/-- A jump goes to the only mark of its label. -/
theorem fromLabel?_append {label : String} {before rest : List Stmt} {span : Span}
    (h : (labels (before ++ .label label span :: rest)).Nodup) :
    fromLabel? label (before ++ .label label span :: rest) = some (.label label span :: rest) := by
  induction before with
  | nil => simp [fromLabel?, Stmt.declares]
  | cons stmt before ih =>
    have hrest : (labels (before ++ .label label span :: rest)).Nodup := by
      rw [List.cons_append, ← List.singleton_append, labels_append] at h
      exact (List.nodup_append.mp h).2.1
    have hstmt : stmt.declares label = false := by
      cases stmt with
      | label name s =>
        rw [Stmt.declares, beq_eq_false_iff_ne]
        rintro rfl
        simp at h
      | _ => rfl
    rw [List.cons_append, fromLabel?, hstmt]
    exact ih hrest

end Block

namespace Stmt

/-- Conditions and loops. -/
def isStructured : Stmt → Bool
  | .cond .. | .loop .. => true
  | _ => false

/-- The label that the statement may jump to. -/
def target? : Stmt → Option String
  | .goto mark _ | .branch _ mark _ => some mark
  | _ => none

mutual

/-- Whether every jump of the statement goes to one of the given labels or to
a label of a block inside the statement that the jump stands in. -/
def lands (around : List String) : Stmt → Bool
  | .goto mark _ | .branch _ mark _ => around.contains mark
  | .cond _ yes none _ => landsAll (Block.labels yes ++ around) yes
  | .cond _ yes (some no) _ =>
    landsAll (Block.labels yes ++ around) yes && landsAll (Block.labels no ++ around) no
  | .loop _ _ body _ => landsAll (Block.labels body ++ around) body
  | .attempt body _ handler _ =>
    landsAll (Block.labels body ++ around) body && landsAll (Block.labels handler ++ around) handler
  | .declare .. | .assign .. | .ret .. | .brk _ | .throw .. | .eval .. | .label .. => true

/-- Whether every jump of the statements lands, if their own labels are among
the given ones. -/
def landsAll (around : List String) : List Stmt → Bool
  | [] => true
  | stmt :: rest => stmt.lands around && landsAll around rest

end

mutual

/-- The places of the breaks inside the statement that leave a loop around it. -/
def strays : Stmt → List Span
  | .brk span => [span]
  | .cond _ yes none _ => straysAll yes
  | .cond _ yes (some no) _ => straysAll yes ++ straysAll no
  | .attempt body _ handler _ => straysAll body ++ straysAll handler
  | .declare .. | .assign .. | .branch .. | .loop .. | .ret .. | .throw .. | .eval ..
  | .label .. | .goto .. => []

/-- The places of the breaks inside the statements that leave a loop around them. -/
def straysAll : List Stmt → List Span
  | [] => []
  | stmt :: rest => stmt.strays ++ straysAll rest

end

@[simp] theorem partsOf_append (a b : List Stmt) : partsOf (a ++ b) = partsOf a ++ partsOf b := by
  induction a with
  | nil => rw [List.nil_append, partsOf, List.nil_append]
  | cons stmt rest ih => rw [List.cons_append, partsOf, partsOf, ih, List.append_assoc]

end Stmt

/-- The labels that a block marks at any depth, in order. -/
def Block.allLabels (block : List Stmt) : List String := Block.labels (Stmt.partsOf block)

namespace Block

@[simp] theorem allLabels_nil : allLabels [] = [] := by
  rw [allLabels, Stmt.partsOf, labels_nil]

@[simp] theorem allLabels_append (a b : List Stmt) :
    allLabels (a ++ b) = allLabels a ++ allLabels b := by
  rw [allLabels, Stmt.partsOf_append, labels_append, allLabels, allLabels]

section Heads

variable (test : Expr) (name : String) (span : Span) (yes no body handler rest : List Stmt)

@[simp] theorem allLabels_label :
    allLabels (.label name span :: rest) = name :: allLabels rest := by
  simp [allLabels, Stmt.partsOf, Stmt.parts]

@[simp] theorem allLabels_goto : allLabels (.goto name span :: rest) = allLabels rest := by
  simp [allLabels, Stmt.partsOf, Stmt.parts, labels]

@[simp] theorem allLabels_branch :
    allLabels (.branch test name span :: rest) = allLabels rest := by
  simp [allLabels, Stmt.partsOf, Stmt.parts, labels]

@[simp] theorem allLabels_brk : allLabels (.brk span :: rest) = allLabels rest := by
  simp [allLabels, Stmt.partsOf, Stmt.parts, labels]

@[simp] theorem allLabels_cond_none :
    allLabels (.cond test yes none span :: rest) = allLabels yes ++ allLabels rest := by
  simp [allLabels, Stmt.partsOf, Stmt.parts, labels]

@[simp] theorem allLabels_cond_some :
    allLabels (.cond test yes (some no) span :: rest) =
      allLabels yes ++ allLabels no ++ allLabels rest := by
  simp [allLabels, Stmt.partsOf, Stmt.parts, labels]

@[simp] theorem allLabels_loop (kind : LoopKind) :
    allLabels (.loop kind test body span :: rest) = allLabels body ++ allLabels rest := by
  simp [allLabels, Stmt.partsOf, Stmt.parts, labels]

@[simp] theorem allLabels_attempt (name : Option String) :
    allLabels (.attempt body name handler span :: rest) =
      allLabels body ++ allLabels handler ++ allLabels rest := by
  simp [allLabels, Stmt.partsOf, Stmt.parts, labels]

end Heads

end Block

namespace Stmt

theorem everyAll_append {P : Stmt → Prop} {a b : List Stmt} :
    everyAll P (a ++ b) ↔ everyAll P a ∧ everyAll P b := by
  simp only [everyAll, partsOf_append, List.mem_append]
  exact ⟨fun h => ⟨fun p hp => h p (.inl hp), fun p hp => h p (.inr hp)⟩,
    fun h p hp => hp.elim (h.1 p) (h.2 p)⟩

/-- What holds in a block holds of its statements. -/
theorem every_of_mem {P : Stmt → Prop} {block : List Stmt} (h : everyAll P block) {stmt : Stmt}
    (hs : stmt ∈ block) : stmt.every P := by
  obtain ⟨before, after, rfl⟩ := List.append_of_mem hs
  exact (everyAll_cons.mp (everyAll_append.mp h).2).1

@[simp] theorem landsAll_append (around : List String) (a b : List Stmt) :
    landsAll around (a ++ b) = (landsAll around a && landsAll around b) := by
  induction a with
  | nil => rw [List.nil_append, landsAll, Bool.true_and]
  | cons stmt rest ih => rw [List.cons_append, landsAll, landsAll, ih, Bool.and_assoc]

@[simp] theorem straysAll_append (a b : List Stmt) :
    straysAll (a ++ b) = straysAll a ++ straysAll b := by
  induction a with
  | nil => rw [List.nil_append, straysAll, List.nil_append]
  | cons stmt rest ih => rw [List.cons_append, straysAll, straysAll, ih, List.append_assoc]

/-- A statement of a block lands if the block does. -/
theorem lands_of_mem {around : List String} {stmt : Stmt} {block : List Stmt} (hm : stmt ∈ block)
    (h : landsAll around block = true) : stmt.lands around = true := by
  induction block with
  | nil => cases hm
  | cons first rest ih =>
    rw [landsAll, Bool.and_eq_true] at h
    rcases List.mem_cons.mp hm with rfl | hm
    · exact h.1
    · exact ih hm h.2

/-- More labels around a block of its own. -/
theorem mem_append_mono {α : Type} {own around around' : List α}
    (hsub : ∀ l ∈ around, l ∈ around') :
    ∀ l ∈ own ++ around, l ∈ own ++ around' := by
  intro l hl
  rcases List.mem_append.mp hl with hl | hl
  · exact List.mem_append_left _ hl
  · exact List.mem_append_right _ (hsub l hl)

mutual

/-- A jump lands also with more labels around it. -/
theorem lands_mono {around around' : List String} (hsub : ∀ l ∈ around, l ∈ around') :
    ∀ stmt : Stmt, stmt.lands around = true → stmt.lands around' = true
  | .goto .., h | .branch .., h => by
    rw [lands, List.contains_iff_mem] at h ⊢
    exact hsub _ h
  | .cond _ yes none _, h => by
    rw [lands] at h ⊢
    exact landsAll_mono (mem_append_mono hsub) yes h
  | .cond _ yes (some no) _, h => by
    rw [lands, Bool.and_eq_true] at h ⊢
    exact ⟨landsAll_mono (mem_append_mono hsub) yes h.1,
      landsAll_mono (mem_append_mono hsub) no h.2⟩
  | .loop _ _ body _, h => by
    rw [lands] at h ⊢
    exact landsAll_mono (mem_append_mono hsub) body h
  | .attempt body _ handler _, h => by
    rw [lands, Bool.and_eq_true] at h ⊢
    exact ⟨landsAll_mono (mem_append_mono hsub) body h.1,
      landsAll_mono (mem_append_mono hsub) handler h.2⟩
  | .declare .., _ | .assign .., _ | .ret .., _ | .brk .., _ | .throw .., _ | .eval .., _
  | .label .., _ => by rw [lands]

/-- Jumps land also with more labels around them. -/
theorem landsAll_mono {around around' : List String} (hsub : ∀ l ∈ around, l ∈ around') :
    ∀ block : List Stmt, landsAll around block = true → landsAll around' block = true
  | [], _ => by rw [landsAll]
  | stmt :: rest, h => by
    rw [landsAll, Bool.and_eq_true] at h ⊢
    exact ⟨lands_mono hsub stmt h.1, landsAll_mono hsub rest h.2⟩

end

mutual

/-- Structured statements have no jumps that could miss. -/
theorem lands_of_structured {around : List String} :
    ∀ stmt : Stmt, stmt.every (·.isJumpCode = false) → stmt.lands around = true
  | .goto .., h | .branch .., h => by cases every_self h
  | .cond _ yes none _, h => by
    rw [lands]
    exact landsAll_of_structured yes (every_cond_none h)
  | .cond _ yes (some no) _, h => by
    rw [lands, Bool.and_eq_true]
    exact ⟨landsAll_of_structured yes (every_cond_some h).1,
      landsAll_of_structured no (every_cond_some h).2⟩
  | .loop _ _ body _, h => by
    rw [lands]
    exact landsAll_of_structured body (every_loop h)
  | .attempt body _ handler _, h => by
    rw [lands, Bool.and_eq_true]
    exact ⟨landsAll_of_structured body (every_attempt h).1,
      landsAll_of_structured handler (every_attempt h).2⟩
  | .declare .., _ | .assign .., _ | .ret .., _ | .brk .., _ | .throw .., _ | .eval .., _
  | .label .., _ => by rw [lands]

/-- Structured blocks have no jumps that could miss. -/
theorem landsAll_of_structured {around : List String} :
    ∀ block : List Stmt, structuredAll block → landsAll around block = true
  | [], _ => by rw [landsAll]
  | stmt :: rest, h => by
    rw [landsAll, Bool.and_eq_true]
    exact ⟨lands_of_structured stmt (everyAll_cons.mp h).1,
      landsAll_of_structured rest (everyAll_cons.mp h).2⟩

end

/-- Structured code marks nothing. -/
theorem allLabels_of_structured {block : List Stmt} (h : structuredAll block) :
    Block.allLabels block = [] := by
  refine List.filterMap_eq_nil_iff.mpr fun part hp => ?_
  have := h part hp
  cases part with
  | label => cases this
  | _ => rfl

/-- The labels of a block itself are among those at any depth. -/
theorem mem_allLabels {l : String} {block : List Stmt} (h : l ∈ Block.labels block) :
    l ∈ Block.allLabels block := by
  obtain ⟨before, span, after, rfl⟩ := Block.mem_labels.mp h
  simp

/-- A label around a block or in it, if the labels of the block itself are around it as well. -/
theorem mem_around_or_allLabels {l : String} {around : List String} {block : List Stmt}
    (h : l ∈ Block.labels block ++ around ∨ l ∈ Block.allLabels block) :
    l ∈ around ∨ l ∈ Block.allLabels block := by
  rcases h with h | h
  · exact (List.mem_append.mp h).symm.imp_right mem_allLabels
  · exact .inr h

mutual

/-- A jump that lands goes to a label around the statement or in it. -/
theorem target_of_lands {around : List String} {part : Stmt} {l : String}
    (ht : part.target? = some l) :
    ∀ stmt : Stmt, stmt.lands around = true → part ∈ stmt.parts →
      l ∈ around ∨ l ∈ Block.allLabels [stmt]
  | .cond _ yes none _, h, hm => by
    rw [lands] at h
    rw [parts, List.mem_cons] at hm
    rw [Block.allLabels_cond_none, Block.allLabels_nil, List.append_nil]
    rcases hm with rfl | hm
    · cases ht
    · exact mem_around_or_allLabels (target_of_landsAll ht yes h hm)
  | .cond _ yes (some no) _, h, hm => by
    rw [lands, Bool.and_eq_true] at h
    rw [parts, List.mem_cons, List.mem_append] at hm
    rw [Block.allLabels_cond_some, Block.allLabels_nil, List.append_nil, List.mem_append]
    rcases hm with rfl | hm | hm
    · cases ht
    · exact (mem_around_or_allLabels (target_of_landsAll ht yes h.1 hm)).imp_right .inl
    · exact (mem_around_or_allLabels (target_of_landsAll ht no h.2 hm)).imp_right .inr
  | .loop _ _ body _, h, hm => by
    rw [lands] at h
    rw [parts, List.mem_cons] at hm
    rw [Block.allLabels_loop, Block.allLabels_nil, List.append_nil]
    rcases hm with rfl | hm
    · cases ht
    · exact mem_around_or_allLabels (target_of_landsAll ht body h hm)
  | .attempt body _ handler _, h, hm => by
    rw [lands, Bool.and_eq_true] at h
    rw [parts, List.mem_cons, List.mem_append] at hm
    rw [Block.allLabels_attempt, Block.allLabels_nil, List.append_nil, List.mem_append]
    rcases hm with rfl | hm | hm
    · cases ht
    · exact (mem_around_or_allLabels (target_of_landsAll ht body h.1 hm)).imp_right .inl
    · exact (mem_around_or_allLabels (target_of_landsAll ht handler h.2 hm)).imp_right .inr
  | .goto .., h, hm | .branch .., h, hm => by
    simp only [parts, List.mem_singleton] at hm
    subst hm
    cases ht
    rw [lands, List.contains_iff_mem] at h
    exact .inl h
  | .declare .., _, hm | .assign .., _, hm | .ret .., _, hm | .brk .., _, hm | .throw .., _, hm
  | .eval .., _, hm | .label .., _, hm => by
    simp only [parts, List.mem_singleton] at hm
    subst hm
    cases ht

/-- A jump that lands goes to a label around the statements or in them. -/
theorem target_of_landsAll {around : List String} {part : Stmt} {l : String}
    (ht : part.target? = some l) :
    ∀ block : List Stmt, landsAll around block = true → part ∈ partsOf block →
      l ∈ around ∨ l ∈ Block.allLabels block
  | [], _, hm => by
    rw [partsOf] at hm
    exact absurd hm List.not_mem_nil
  | stmt :: rest, h, hm => by
    rw [landsAll, Bool.and_eq_true] at h
    rw [partsOf, List.mem_append] at hm
    rw [← List.singleton_append, Block.allLabels_append, List.mem_append]
    rcases hm with hm | hm
    · exact (target_of_lands ht stmt h.1 hm).imp_right .inl
    · exact (target_of_landsAll ht rest h.2 hm).imp_right .inr

end

mutual

/-- Without loops every `break` leaves a loop around the statement. -/
theorem strays_of_flat {span : Span} :
    ∀ stmt : Stmt, stmt.every (·.isStructured = false) → .brk span ∈ stmt.parts →
      span ∈ stmt.strays
  | .cond .., h, _ | .loop .., h, _ => by cases every_self h
  | .attempt body _ handler _, h, hm => by
    rw [parts, List.mem_cons, List.mem_append] at hm
    rw [strays, List.mem_append]
    rcases hm with hm | hm | hm
    · cases hm
    · exact .inl (straysAll_of_flat body (every_attempt h).1 hm)
    · exact .inr (straysAll_of_flat handler (every_attempt h).2 hm)
  | .brk .., _, hm => by simpa [parts, strays] using hm
  | .goto .., _, hm | .branch .., _, hm | .declare .., _, hm | .assign .., _, hm | .ret .., _, hm
  | .throw .., _, hm | .eval .., _, hm | .label .., _, hm => by simp [parts] at hm

/-- Without loops every `break` leaves a loop around the statements. -/
theorem straysAll_of_flat {span : Span} :
    ∀ block : List Stmt, everyAll (·.isStructured = false) block → .brk span ∈ partsOf block →
      span ∈ straysAll block
  | [], _, hm => by
    rw [partsOf] at hm
    exact absurd hm List.not_mem_nil
  | stmt :: rest, h, hm => by
    rw [partsOf, List.mem_append] at hm
    rw [straysAll, List.mem_append]
    exact hm.imp (strays_of_flat stmt (everyAll_cons.mp h).1)
      (straysAll_of_flat rest (everyAll_cons.mp h).2)

end

end Stmt

/-- Code that neither calls nor jumps nor breaks into nowhere, with these labels around it. -/
structure Program.Proper (p : Program) (inLoop : Bool) (around : List String)
    (block : List Stmt) : Prop where
  /-- Calls name methods and pass the right number of arguments. -/
  calls : Stmt.everyAll (fun stmt => ∀ e ∈ stmt.exprs, e.callProblems p = []) block
  /-- Jumps land. -/
  jumps : Stmt.landsAll around block = true
  /-- Breaks leave loops. -/
  breaks : inLoop = true ∨ Stmt.straysAll block = []

namespace Program.Proper

variable {p : Program} {inLoop : Bool} {around : List String} {block : List Stmt} {test : Expr}
  {span : Span}

/-- Each statement of proper code is proper. -/
theorem mem (h : p.Proper inLoop around block) {stmt : Stmt} (hm : stmt ∈ block) :
    p.Proper inLoop around [stmt] := by
  obtain ⟨before, after, rfl⟩ := List.append_of_mem hm
  have hcalls := (Stmt.everyAll_cons.mp (Stmt.everyAll_append.mp h.calls).2).1
  refine ⟨Stmt.everyAll_cons.mpr ⟨hcalls, by simp [Stmt.everyAll, Stmt.partsOf]⟩, ?_, ?_⟩
  · rw [Stmt.landsAll, Stmt.lands_of_mem hm h.jumps, Stmt.landsAll]
    rfl
  · refine h.breaks.imp id fun hb => ?_
    simp only [Stmt.straysAll_append, Stmt.straysAll, List.append_eq_nil_iff] at hb ⊢
    exact ⟨hb.2.1, trivial⟩

/-- What follows the first statement of proper code is proper. -/
theorem rest {stmt : Stmt} (h : p.Proper inLoop around (stmt :: block)) :
    p.Proper inLoop around block where
  calls := (Stmt.everyAll_cons.mp h.calls).2
  jumps := by
    have hj := h.jumps
    rw [Stmt.landsAll, Bool.and_eq_true] at hj
    exact hj.2
  breaks := h.breaks.imp id fun hb => by
    rw [Stmt.straysAll, List.append_eq_nil_iff] at hb
    exact hb.2

/-- The calls of a statement are right. -/
theorem expr {stmt : Stmt} (h : p.Proper inLoop around [stmt]) {e : Expr} (he : e ∈ stmt.exprs) :
    e.callProblems p = [] :=
  Stmt.every_self (Stmt.everyAll_cons.mp h.calls).1 e he

/-- A jump goes to a label around it. -/
theorem target {stmt : Stmt} {mark : String} (h : p.Proper inLoop around [stmt])
    (ht : stmt.target? = some mark) : mark ∈ around := by
  have hj := Stmt.lands_of_mem List.mem_cons_self h.jumps
  cases stmt with
  | goto | branch =>
    cases ht
    rw [Stmt.lands, List.contains_iff_mem] at hj
    exact hj
  | _ => cases ht

/-- A `break` stands inside a loop. -/
theorem brk (h : p.Proper inLoop around [.brk span]) : inLoop = true :=
  h.breaks.resolve_right (by simp [Stmt.straysAll, Stmt.strays])

/-- The branch of a condition. -/
theorem onlyYes {yes : List Stmt} (h : p.Proper inLoop around [.cond test yes none span]) :
    p.Proper inLoop (Block.labels yes ++ around) yes where
  calls := Stmt.every_cond_none (Stmt.everyAll_cons.mp h.calls).1
  jumps := by simpa [Stmt.landsAll, Stmt.lands] using h.jumps
  breaks := by simpa [Stmt.straysAll, Stmt.strays] using h.breaks

/-- The first branch of a condition with two. -/
theorem yes {yes no : List Stmt} (h : p.Proper inLoop around [.cond test yes (some no) span]) :
    p.Proper inLoop (Block.labels yes ++ around) yes where
  calls := (Stmt.every_cond_some (Stmt.everyAll_cons.mp h.calls).1).1
  jumps := by
    have hj := h.jumps
    simp only [Stmt.landsAll, Stmt.lands, Bool.and_true, Bool.and_eq_true] at hj
    exact hj.1
  breaks := h.breaks.imp id fun hb => by
    simp only [Stmt.straysAll, Stmt.strays, List.append_nil, List.append_eq_nil_iff] at hb
    exact hb.1

/-- The second branch of a condition with two. -/
theorem no {yes no : List Stmt} (h : p.Proper inLoop around [.cond test yes (some no) span]) :
    p.Proper inLoop (Block.labels no ++ around) no where
  calls := (Stmt.every_cond_some (Stmt.everyAll_cons.mp h.calls).1).2
  jumps := by
    have hj := h.jumps
    simp only [Stmt.landsAll, Stmt.lands, Bool.and_true, Bool.and_eq_true] at hj
    exact hj.2
  breaks := h.breaks.imp id fun hb => by
    simp only [Stmt.straysAll, Stmt.strays, List.append_nil, List.append_eq_nil_iff] at hb
    exact hb.2

/-- The body of a loop, where breaks are at home. -/
theorem loopBody {kind : LoopKind} {body : List Stmt}
    (h : p.Proper inLoop around [.loop kind test body span]) :
    p.Proper true (Block.labels body ++ around) body where
  calls := Stmt.every_loop (Stmt.everyAll_cons.mp h.calls).1
  jumps := by simpa [Stmt.landsAll, Stmt.lands] using h.jumps
  breaks := .inl rfl

/-- The body of an `attempt` statement. -/
theorem attempted {body handler : List Stmt} {name : Option String}
    (h : p.Proper inLoop around [.attempt body name handler span]) :
    p.Proper inLoop (Block.labels body ++ around) body where
  calls := (Stmt.every_attempt (Stmt.everyAll_cons.mp h.calls).1).1
  jumps := by
    have hj := h.jumps
    simp only [Stmt.landsAll, Stmt.lands, Bool.and_true, Bool.and_eq_true] at hj
    exact hj.1
  breaks := h.breaks.imp id fun hb => by
    simp only [Stmt.straysAll, Stmt.strays, List.append_nil, List.append_eq_nil_iff] at hb
    exact hb.1

/-- The handler of an `attempt` statement. -/
theorem handler {body handler : List Stmt} {name : Option String}
    (h : p.Proper inLoop around [.attempt body name handler span]) :
    p.Proper inLoop (Block.labels handler ++ around) handler where
  calls := (Stmt.every_attempt (Stmt.everyAll_cons.mp h.calls).1).2
  jumps := by
    have hj := h.jumps
    simp only [Stmt.landsAll, Stmt.lands, Bool.and_true, Bool.and_eq_true] at hj
    exact hj.2
  breaks := h.breaks.imp id fun hb => by
    simp only [Stmt.straysAll, Stmt.strays, List.append_nil, List.append_eq_nil_iff] at hb
    exact hb.2

end Program.Proper

end Stepwise
