import Stepwise.Engine.Task
import Stepwise.Proofs.Engine.Observation
import Stepwise.Proofs.Lowering.Wellformed

/-!
# Jumps of the source

Labels, jumps and branches that the source has itself go into the lowered
program as they are, and generated labels are words of capital letters. Where
no label of the source is such a word and no method with jumps is copied,
every jump of the source still goes to its own label. Copies give no new
names to labels and to the variables of a branch.
-/

namespace Stepwise

open Engine

namespace Label

/-- Words of capital letters. -/
def isGenerated (label : String) : Bool :=
  !label.toList.isEmpty && label.toList.all fun c => 'A' ≤ c && c ≤ 'Z'

/-- The words of numbers have capital letters only. -/
theorem word_capitals (n : Nat) : ∀ c ∈ word n, ('A' ≤ c && c ≤ 'Z') = true := by
  have hletter : ∀ d < 26, ('A' ≤ letter d && letter d ≤ 'Z') = true := by decide
  induction n using Nat.strongRecOn with
  | ind n ih =>
    by_cases hn : n = 0
    · subst hn
      rw [word, if_pos rfl]
      exact fun _ hc => absurd hc List.not_mem_nil
    · rw [word, if_neg hn, List.forall_mem_append, List.forall_mem_singleton]
      exact ⟨ih _ (by omega), hletter _ (Nat.mod_lt _ (by decide))⟩

@[simp] theorem isGenerated_name (n : Nat) : isGenerated (name n) = true := by
  have hne : word (n + 1) ≠ [] := fun h => absurd (word_eq_nil h) (Nat.succ_ne_zero n)
  rw [isGenerated, name, String.toList_ofList, Bool.and_eq_true, List.all_eq_true]
  exact ⟨by simpa using hne, word_capitals (n + 1)⟩

end Label

/-- Labels, jumps and branches with a label that is not generated. -/
def Stmt.isOwnJump : Stmt → Bool
  | .label l _ | .goto l _ | .branch _ l _ => !Label.isGenerated l
  | _ => false

/-- The jump code of the source that a block has at any depth, in order. -/
def Block.ownJumps (block : List Stmt) : List Stmt := (Stmt.partsOf block).filter (·.isOwnJump)

namespace Block

@[simp] theorem ownJumps_nil : ownJumps [] = [] := by
  rw [ownJumps, Stmt.partsOf, List.filter_nil]

@[simp] theorem ownJumps_append (a b : List Stmt) :
    ownJumps (a ++ b) = ownJumps a ++ ownJumps b := by
  rw [ownJumps, Stmt.partsOf_append, List.filter_append, ownJumps, ownJumps]

section Heads

variable (test : Expr) (name : String) (span : Span) (yes no body handler rest : List Stmt)

@[simp] theorem ownJumps_generated (stmt : Stmt) (hb : stmt.blocks = [])
    (hs : stmt.isOwnJump = false) : ownJumps (stmt :: rest) = ownJumps rest := by
  simp [ownJumps, Stmt.partsOf, Stmt.parts_of_blocks hb, hs]

@[simp] theorem ownJumps_cond_none :
    ownJumps (.cond test yes none span :: rest) = ownJumps yes ++ ownJumps rest := by
  simp [ownJumps, Stmt.partsOf, Stmt.parts, Stmt.isOwnJump]

@[simp] theorem ownJumps_cond_some :
    ownJumps (.cond test yes (some no) span :: rest) =
      ownJumps yes ++ ownJumps no ++ ownJumps rest := by
  simp [ownJumps, Stmt.partsOf, Stmt.parts, Stmt.isOwnJump]

@[simp] theorem ownJumps_loop (kind : LoopKind) :
    ownJumps (.loop kind test body span :: rest) = ownJumps body ++ ownJumps rest := by
  simp [ownJumps, Stmt.partsOf, Stmt.parts, Stmt.isOwnJump]

@[simp] theorem ownJumps_attempt (name : Option String) :
    ownJumps (.attempt body name handler span :: rest) =
      ownJumps body ++ ownJumps handler ++ ownJumps rest := by
  simp [ownJumps, Stmt.partsOf, Stmt.parts, Stmt.isOwnJump]

end Heads

/-- Structured code has no jump code. -/
theorem ownJumps_of_structured {block : List Stmt} (h : Stmt.structuredAll block) :
    ownJumps block = [] := by
  refine List.filter_eq_nil_iff.mpr fun part hp => ?_
  have := h part hp
  cases part with
  | label | goto | branch => cases this
  | _ => exact Bool.false_ne_true

end Block

namespace Lowering

variable {setting : Setting} {C : String × Nat → Prop} {site : Site} {block : List Stmt}
  {n n' : Nat} {code : Block}

/-- Code has the jump code of the source, in order, if only structured methods
are copied and the labels behind loops and copies are generated ones. -/
theorem Fragment.ownJumps (h : Fragment setting C site block n code n')
    (hcopied : ∀ {site name given callee}, C (name, given) →
      Inlinable setting site name given callee → callee.Structured)
    (hexits : ∀ l ∈ site.exits, Label.isGenerated l = true) :
    Block.ownJumps code = Block.ownJumps block := by
  have hmark (i : Nat) (rest : Block) :
      Block.ownJumps (mark (Label.name i) :: rest) = Block.ownJumps rest :=
    Block.ownJumps_generated _ _ rfl (by simp [mark, Stmt.isOwnJump])
  have hjump {l : String} (span : Span) (rest : Block) (hl : Label.isGenerated l = true) :
      Block.ownJumps (.goto l span :: rest) = Block.ownJumps rest :=
    Block.ownJumps_generated _ _ rfl (by simp [Stmt.isOwnJump, hl])
  have hbranch (test : Expr) (i : Nat) (span : Span) (rest : Block) :
      Block.ownJumps (.branch test (Label.name i) span :: rest) = Block.ownJumps rest :=
    Block.ownJumps_generated _ _ rfl (by simp [Stmt.isOwnJump])
  have hsimple {stmt : Stmt} (h : stmt.isSimple = true) : Block.ownJumps [stmt] = [] := by
    rw [Block.ownJumps_generated _ _ (Stmt.blocks_of_isSimple h), Block.ownJumps_nil]
    cases stmt with
    | label | goto | branch => cases h
    | _ => rfl
  induction h with
  | nil | keep => rfl
  | append _ _ ih₁ ih₂ => rw [Block.ownJumps_append, Block.ownJumps_append, ih₁ hexits, ih₂ hexits]
  | emit simple => rw [hsimple simple, Block.ownJumps_nil]
  | leave inside => exact hjump _ _ (hexits _ (by simp [Site.exits, inside]))
  | simple simple _ ih => rw [ih hexits, hsimple simple, Block.ownJumps_nil]
  | breakLoop inside =>
    rw [hjump _ _ (hexits _ (by simp [Site.exits, inside])),
      Block.ownJumps_generated _ (.brk _) rfl rfl]
  | breakNothing => rfl
  | copy called inlinable _ ih =>
    have hinside := ih (by simp [Site.exits, Site.insideCopy])
    rw [Block.ownJumps_of_structured (hcopied called inlinable)] at hinside
    rw [List.cons_append, hmark, Block.ownJumps_append, hinside, hmark, Block.ownJumps_nil,
      List.append_nil]
  | condOne _ _ ih =>
    rw [List.cons_append, hbranch, Block.ownJumps_append, hmark, ih hexits,
      Block.ownJumps_cond_none]
  | condTwo _ _ _ ih₁ ih₂ =>
    rw [List.cons_append, List.cons_append, hbranch, Block.ownJumps_append, Block.ownJumps_append,
      jump, hjump _ _ (Label.isGenerated_name _), hmark, hmark, ih₁ hexits, ih₂ hexits,
      Block.ownJumps_cond_some]
  | loopFirst _ _ ih =>
    have hinside := ih (List.forall_mem_cons.mpr ⟨Label.isGenerated_name _, hexits⟩)
    rw [List.cons_append, List.cons_append, hmark, hbranch, Block.ownJumps_append, jump,
      hjump _ _ (Label.isGenerated_name _), hmark, hinside, Block.ownJumps_loop]
  | loopLast _ _ ih =>
    have hinside := ih (List.forall_mem_cons.mpr ⟨Label.isGenerated_name _, hexits⟩)
    rw [List.cons_append, hmark, Block.ownJumps_append, hbranch, jump,
      hjump _ _ (Label.isGenerated_name _), hmark, hinside, Block.ownJumps_loop]
  | attempt _ _ ih₁ ih₂ =>
    rw [Block.ownJumps_attempt, Block.ownJumps_attempt, ih₁ hexits, ih₂ hexits]

end Lowering

/-- Labels are marked once in a method, and its jumps land. -/
structure Method.JumpsResolve (m : Method) : Prop where
  /-- No label is marked twice. -/
  once : (Block.allLabels m.body).Nodup
  /-- Every jump goes to a label of its own block or of a block around it. -/
  lands : Stmt.landsAll (Block.labels m.body) m.body = true

/-- No label of the method is a generated one. -/
def Method.PlainLabels (m : Method) : Prop :=
  ∀ l ∈ Block.allLabels m.body, Label.isGenerated l = false

/-- Where calls are replaced by copies, only structured methods are called and waited for. -/
def Program.CopiesStructured (p : Program) (options : Lowering.Options) : Prop :=
  options.inline = true → ∀ m ∈ p.methods, ∀ stmt ∈ Stmt.partsOf m.body, ∀ e ∈ stmt.exprs,
    ∀ c ∈ e.calls, ∀ callee ∈ p.method? c.1, callee.isAsync = false → callee.Structured

/-- The jump code of a method in its lowered form. -/
structure Method.KeepsJumps (m m' : Method) : Prop where
  /-- Labels are marked once and jumps land. -/
  resolves : m'.JumpsResolve
  /-- The labels, jumps and branches of the method are there, in order, and no others but
  those with generated labels. -/
  kept : Block.ownJumps m'.body = (Stmt.partsOf m.body).filter (·.isJumpCode)

/-- All jump code of a method is its own if its labels are plain. -/
theorem Method.JumpsResolve.ownJumps_eq {m : Method} (h : m.JumpsResolve) (hplain : m.PlainLabels) :
    Block.ownJumps m.body = (Stmt.partsOf m.body).filter (·.isJumpCode) := by
  refine List.filter_congr fun part hp => ?_
  have htarget {l : String} (ht : part.target? = some l) : Label.isGenerated l = false :=
    hplain l ((Stmt.target_of_landsAll ht m.body h.lands hp).elim Stmt.mem_allLabels fun hl => hl)
  cases part with
  | label l span =>
    have hl : l ∈ Block.allLabels m.body := List.mem_filterMap.mpr ⟨_, hp, rfl⟩
    rw [Stmt.isOwnJump, hplain l hl, Stmt.isJumpCode, Bool.not_false]
  | goto | branch => rw [Stmt.isOwnJump, htarget rfl, Stmt.isJumpCode, Bool.not_false]
  | _ => rfl

/-- Jumps of the source go to their own labels in the lowered program, if no
label is a generated one and no method with jumps is copied. -/
theorem Program.lower_keepsJumps {p : Program} (hp : p.lowered = false)
    (hjumps : ∀ m ∈ p.methods, m.JumpsResolve) (hplain : ∀ m ∈ p.methods, m.PlainLabels)
    (options : Lowering.Options) (hcopies : p.CopiesStructured options) :
    List.Forall₂ Method.KeepsJumps p.methods (p.lower options).program.methods := by
  -- The calls that the program makes, as far as they are replaced by copies.
  let C : String × Nat → Prop := fun c => options.inline = true →
    ∀ callee ∈ p.method? c.1, callee.isAsync = false → callee.Structured
  have hcalls : ∀ m ∈ p.methods, Stmt.everyAll (Stmt.CallsOnly C) m.body :=
    fun m hm stmt hs e he c hc hinline => hcopies hinline m hm stmt hs e he c hc
  have hcopied : ∀ {site name given callee}, C (name, given) →
      Lowering.Inlinable ⟨p, options⟩ site name given callee → callee.Structured :=
    fun hc hi => hc hi.inline _ hi.found hi.waits
  refine Lowering.lower_methods_of hp options fun m hm m' hlow => ?_
  obtain ⟨n, n', h⟩ := hlow.fragment hcalls hm
  refine ⟨⟨?_, ?_⟩, ?_⟩
  · refine (h.marks hcopied).nodup (hjumps m hm).once fun l hl i hi => ?_
    have := hplain m hm l hl
    rw [hi, Label.isGenerated_name] at this
    cases this
  · exact h.lands (fun k hk => (hjumps k hk).lands) (hjumps m hm).lands h.labels_subset
      (fun _ hl => hl) fun _ hl => absurd hl List.not_mem_nil
  · rw [h.ownJumps hcopied fun _ hl => absurd hl List.not_mem_nil]
    exact (hjumps m hm).ownJumps_eq (hplain m hm)

/-- A loop made of jumps, which is left from inside a condition and calls a method. -/
def Program.counting : Program :=
  (Program.empty.addMethod ((Method.start "Less").withParam "x" .scalar |>.withBody
      [.giveBack (some (.op .sub (.named "x") (.ofLiteral (.int 1))))])).addMethod
    ((Method.start "Count").withParam "n" .scalar |>.withBody
      [.label "again" Span.blank,
        .branch (.op .gt (.named "n") (.ofLiteral (.int 0))) "done" Span.blank,
        .ifThen (.op .eq (.named "n") (.ofLiteral (.int 3))) [.goto "done" Span.blank],
        .store (.named "n") (.invoke "Less" [.named "n"]),
        .goto "again" Span.blank,
        .label "done" Span.blank,
        .giveBack (some (.named "n"))])

/-- A loop made of jumps is still one around a condition and a copy. -/
theorem Program.counting_keepsJumps :
    Program.counting.lowered = false ∧ (∀ m ∈ Program.counting.methods, m.JumpsResolve) ∧
      (∀ m ∈ Program.counting.methods, m.PlainLabels) ∧ Program.counting.CopiesStructured {} ∧
      List.Forall₂ Method.KeepsJumps Program.counting.methods
        (Program.counting.lower {}).program.methods := by
  have hjumps : ∀ m ∈ Program.counting.methods, m.JumpsResolve := by
    have h : ∀ m ∈ Program.counting.methods, (Block.allLabels m.body).Nodup ∧
        Stmt.landsAll (Block.labels m.body) m.body = true := by decide
    exact fun m hm => ⟨(h m hm).1, (h m hm).2⟩
  have hplain : ∀ m ∈ Program.counting.methods, m.PlainLabels := by
    show ∀ m ∈ Program.counting.methods, ∀ l ∈ Block.allLabels m.body,
      Label.isGenerated l = false
    decide
  have hcopies : Program.counting.CopiesStructured {} := by
    have hcall : ∀ m ∈ Program.counting.methods, ∀ stmt ∈ Stmt.partsOf m.body, ∀ e ∈ stmt.exprs,
        ∀ c ∈ e.calls, c.1 = "Less" := by decide
    have hless : ∀ callee ∈ Program.counting.method? "Less", ∀ part ∈ Stmt.partsOf callee.body,
        part.isJumpCode = false := by decide
    intro _ m hm stmt hs e he c hc callee hcallee _
    rw [hcall m hm stmt hs e he c hc] at hcallee
    exact hless callee hcallee
  exact ⟨rfl, hjumps, hplain, hcopies, Program.lower_keepsJumps rfl hjumps hplain {} hcopies⟩

/-- A jump to a label that comes up again as a generated one. -/
def Program.clashing : Program :=
  Program.empty.addMethod ((Method.start "Main").withBody
    [.goto "A" Span.blank,
      .ifThen (.ofLiteral (.bool true)) [.giveBack (some (.ofLiteral (.int 1)))],
      .giveBack (some (.ofLiteral (.int 2))),
      .label "A" Span.blank,
      .giveBack (some (.ofLiteral (.int 3)))])

/-- A method with a branch on its parameter, and calls of it. -/
def Program.picking (calls : Nat) : Program :=
  (Program.empty.addMethod ((Method.start "Pick").withParam "x" .scalar |>.withBody
      [.branch (.op .eq (.named "x") (.ofLiteral (.int 1))) "other" Span.blank,
        .giveBack (some (.ofLiteral (.int 10))),
        .label "other" Span.blank,
        .giveBack (some (.ofLiteral (.int 20)))])).addMethod
    ((Method.start "Main").withBody (List.replicate calls
      (.giveBack (some (.invoke "Pick" [.ofLiteral (.int 1)])))))

/-- A jump of the source goes to a generated label of the same name; a branch
that is copied asks for a variable by its old name; and the labels of two
copies are the same. -/
theorem Program.source_jumps_go_astray :
    ((∀ m ∈ Program.clashing.methods, m.JumpsResolve) ∧
      ((Program.clashing.method? "Main").bind fun m =>
        (invokeOn ⟨.clashing, {}⟩ 10 0 m [] {}).integer?) = some 3 ∧
      (((Program.clashing.lower {}).program.method? "Main").bind fun m =>
        (invokeOn ⟨(Program.clashing.lower {}).program, {}⟩ 10 0 m [] {}).integer?) = some 2) ∧
    (∀ m ∈ (Program.picking 1).methods, m.JumpsResolve) ∧
      (((Program.picking 1).method? "Main").bind fun m =>
        (invokeOn ⟨.picking 1, {}⟩ 10 0 m [] {}).integer?) = some 10 ∧
      ((((Program.picking 1).lower {}).program.method? "Main").bind fun m =>
        (invokeOn ⟨((Program.picking 1).lower {}).program, {}⟩ 10 0 m [] {}).faultKind?) =
          some .internal ∧
      ¬ ∀ m ∈ ((Program.picking 2).lower {}).program.methods, (Block.allLabels m.body).Nodup := by
  have hclashing : ∀ m ∈ Program.clashing.methods, (Block.allLabels m.body).Nodup ∧
      Stmt.landsAll (Block.labels m.body) m.body = true := by decide
  have hpicking : ∀ m ∈ (Program.picking 1).methods, (Block.allLabels m.body).Nodup ∧
      Stmt.landsAll (Block.labels m.body) m.body = true := by decide
  exact ⟨⟨fun m hm => ⟨(hclashing m hm).1, (hclashing m hm).2⟩, by decide +kernel,
    by decide +kernel⟩, fun m hm => ⟨(hpicking m hm).1, (hpicking m hm).2⟩, by decide +kernel,
    by decide +kernel, by decide +kernel⟩

end Stepwise
