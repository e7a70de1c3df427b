import Stepwise.Program.Basic

/-!
# Names and their scopes

Conditions and loops open a scope in structured code and none in jump code.
A name that is declared inside one of them is spilled: it may mean something
else afterwards in the two styles. A block is free of leaks if no spilled
name is used before it is declared anew. Blocks in which every name is
declared once and used only inside the scope of its declaration have no
leaks.
-/

namespace Stepwise

mutual

/-- Names of the variables in an expression that are not marked as global. -/
def Expr.locals : Expr → List String
  | .literal .. | .staticProperty .. => []
  | .var name isGlobal _ => if isGlobal then [] else [name]
  | .property object _ _ => object.locals
  | .index target position _ => target.locals ++ position.locals
  | .binary _ left right _ => left.locals ++ right.locals
  | .unary _ operand _ => operand.locals
  | .call _ args _ | .callStatic _ _ args _ | .create _ args _ => Expr.listLocals args
  | .callOn object _ args _ => object.locals ++ Expr.listLocals args
  | .array items _ => Expr.listLocals items

/-- Names of the variables in expressions that are not marked as global. -/
def Expr.listLocals : List Expr → List String
  | [] => []
  | e :: rest => e.locals ++ Expr.listLocals rest

end

mutual

/-- Whether no synchronous method of the program is called in an expression. -/
def Expr.callFree (p : Program) : Expr → Bool
  | .literal .. | .var .. | .staticProperty .. => true
  | .property object _ _ => object.callFree p
  | .index target position _ => target.callFree p && position.callFree p
  | .binary _ left right _ => left.callFree p && right.callFree p
  | .unary _ operand _ => operand.callFree p
  | .call method args _ => (p.method? method).all (·.isAsync) && Expr.listCallFree p args
  | .callStatic _ _ args _ | .create _ args _ => Expr.listCallFree p args
  | .callOn object _ args _ => object.callFree p && Expr.listCallFree p args
  | .array items _ => Expr.listCallFree p items

/-- Whether no synchronous method of the program is called in expressions. -/
def Expr.listCallFree (p : Program) : List Expr → Bool
  | [] => true
  | e :: rest => e.callFree p && Expr.listCallFree p rest

end

/-- Whether the names of an expression avoid a list of names. -/
def Expr.avoids (names : List String) (e : Expr) : Bool :=
  e.locals.all fun x => !names.contains x

/-- Whether the names of an expression are in scope, as far as they are declared at all. -/
def Expr.within (own visible : List String) (e : Expr) : Bool :=
  e.locals.all fun x => !own.contains x || visible.contains x

namespace Stmt

/-- Labels, jumps and branches. -/
def isJumpCode : Stmt → Bool
  | .label .. | .goto .. | .branch .. => true
  | _ => false

/-- The names that the statement itself declares. -/
def binds : Stmt → List String
  | .declare name _ _ _ => [name]
  | .attempt _ (some name) _ _ => [name]
  | _ => []

/-- The names that the statement itself declares or uses. -/
def names (stmt : Stmt) : List String := stmt.binds ++ stmt.exprs.flatMap Expr.locals

/-- The expression that the statement itself returns. -/
def returned? : Stmt → Option Expr
  | .ret value _ => value
  | _ => none

/-- The names that stay in scope after the statement. -/
def adds : Stmt → List String
  | .declare name _ _ _ => [name]
  | _ => []

mutual

/-- The statement and all statements inside it. -/
def parts : Stmt → List Stmt
  | .cond test yes none span => .cond test yes none span :: partsOf yes
  | .cond test yes (some no) span => .cond test yes (some no) span :: (partsOf yes ++ partsOf no)
  | .loop kind test body span => .loop kind test body span :: partsOf body
  | .attempt body name handler span =>
    .attempt body name handler span :: (partsOf body ++ partsOf handler)
  | stmt => [stmt]

/-- The statements of a block and all statements inside them. -/
def partsOf : List Stmt → List Stmt
  | [] => []
  | stmt :: rest => stmt.parts ++ partsOf rest

end

mutual

/-- The names that jump code declares in the scope the statement stands in. -/
def spills : Stmt → List String
  | .declare name _ _ _ => [name]
  | .cond _ yes none _ => spillsOf yes
  | .cond _ yes (some no) _ => spillsOf yes ++ spillsOf no
  | .loop _ _ body _ => spillsOf body
  | _ => []

/-- The names that jump code declares in the scope the block stands in. -/
def spillsOf : List Stmt → List String
  | [] => []
  | stmt :: rest => stmt.spills ++ spillsOf rest

end

/-- The names that are unsafe to use after the statement, given those before it. -/
def after (unsure : List String) : Stmt → List String
  | .declare name _ _ _ => unsure.filter (· ≠ name)
  | stmt => unsure ++ stmt.spills

/-- Whether a call as initial value does not use the name that it is for. -/
def initAvoids (name : String) : Option Expr → Bool
  | some (.call _ args _) => !(Expr.listLocals args).contains name
  | _ => true

mutual

/-- Whether the statement uses no unsafe name. -/
def leakFree (unsure : List String) : Stmt → Bool
  | .declare name _ init _ => init.all (·.avoids unsure) && initAvoids name init
  | .assign target value _ => target.avoids unsure && value.avoids unsure
  | .cond test yes none _ => test.avoids unsure && leakFreeAll unsure yes
  | .cond test yes (some no) _ =>
    test.avoids unsure && leakFreeAll unsure yes && leakFreeAll (unsure ++ spillsOf yes) no
  | .branch test _ _ => test.avoids unsure
  | .loop _ test body _ =>
    test.avoids (unsure ++ spillsOf body) && leakFreeAll (unsure ++ spillsOf body) body
  | .ret value _ => value.all (·.avoids unsure)
  | .throw value _ => value.avoids unsure
  | .attempt body name handler _ =>
    leakFreeAll unsure body &&
      leakFreeAll (unsure.filter fun x => !name.toList.contains x) handler
  | .eval e _ => e.avoids unsure
  | .brk _ | .label .. | .goto .. => true

/-- Whether a block uses no unsafe name. -/
def leakFreeAll (unsure : List String) : List Stmt → Bool
  | [] => true
  | stmt :: rest => stmt.leakFree unsure && leakFreeAll (stmt.after unsure) rest

end

mutual

/-- Whether the statement uses the names of its method in their scopes only. -/
def wellScoped (own visible : List String) : Stmt → Bool
  | .declare _ _ init _ => init.all (·.within own visible)
  | .assign target value _ => target.within own visible && value.within own visible
  | .cond test yes none _ => test.within own visible && wellScopedAll own visible yes
  | .cond test yes (some no) _ =>
    test.within own visible && wellScopedAll own visible yes && wellScopedAll own visible no
  | .branch test _ _ => test.within own visible
  | .loop _ test body _ => test.within own visible && wellScopedAll own visible body
  | .ret value _ => value.all (·.within own visible)
  | .throw value _ => value.within own visible
  | .attempt body name handler _ =>
    wellScopedAll own visible body && wellScopedAll own (name.toList ++ visible) handler
  | .eval e _ => e.within own visible
  | .brk _ | .label .. | .goto .. => true

/-- Whether a block uses the names of its method in their scopes only. -/
def wellScopedAll (own visible : List String) : List Stmt → Bool
  | [] => true
  | stmt :: rest => stmt.wellScoped own visible && wellScopedAll own (stmt.adds ++ visible) rest

end

end Stmt

/-- The names that a statement and the statements inside it declare. -/
def Stmt.declared (stmt : Stmt) : List String := stmt.parts.flatMap Stmt.binds

/-- The names that a block declares anywhere. -/
def Stmt.declaredIn (block : List Stmt) : List String := (Stmt.partsOf block).flatMap Stmt.binds

namespace Stmt

@[simp] theorem declaredIn_nil : declaredIn [] = [] := by
  simp [declaredIn, partsOf]

@[simp] theorem declaredIn_cons (stmt : Stmt) (rest : List Stmt) :
    declaredIn (stmt :: rest) = stmt.declared ++ declaredIn rest := by
  simp [declaredIn, declared, partsOf]

@[simp] theorem declared_cond_none (test : Expr) (yes : List Stmt) (span : Span) :
    (Stmt.cond test yes none span).declared = declaredIn yes := by
  simp [declared, declaredIn, parts, binds]

@[simp] theorem declared_cond_some (test : Expr) (yes no : List Stmt) (span : Span) :
    (Stmt.cond test yes (some no) span).declared = declaredIn yes ++ declaredIn no := by
  simp [declared, declaredIn, parts, binds]

@[simp] theorem declared_loop (kind : LoopKind) (test : Expr) (body : List Stmt) (span : Span) :
    (Stmt.loop kind test body span).declared = declaredIn body := by
  simp [declared, declaredIn, parts, binds]

@[simp] theorem declared_attempt (body : List Stmt) (name : Option String) (handler : List Stmt)
    (span : Span) :
    (Stmt.attempt body name handler span).declared =
      name.toList ++ (declaredIn body ++ declaredIn handler) := by
  cases name <;> simp [declared, declaredIn, parts, binds]

@[simp] theorem declared_declare (name : String) (shape : Shape) (init : Option Expr)
    (span : Span) : (Stmt.declare name shape init span).declared = [name] := by
  simp [declared, parts, binds]

mutual

/-- Only declared names are spilled. -/
theorem mem_declared_of_mem_spills {x : String} :
    ∀ stmt : Stmt, x ∈ stmt.spills → x ∈ stmt.declared
  | .declare .., h => by simpa [spills] using h
  | .cond _ yes none _, h => by
    rw [declared_cond_none]
    rw [spills] at h
    exact mem_declaredIn_of_mem_spillsOf yes h
  | .cond _ yes (some no) _, h => by
    rw [declared_cond_some]
    rw [spills] at h
    rcases List.mem_append.mp h with h | h
    · exact List.mem_append_left _ (mem_declaredIn_of_mem_spillsOf yes h)
    · exact List.mem_append_right _ (mem_declaredIn_of_mem_spillsOf no h)
  | .loop _ _ body _, h => by
    rw [declared_loop]
    rw [spills] at h
    exact mem_declaredIn_of_mem_spillsOf body h
  | .assign .., h | .branch .., h | .ret .., h | .brk .., h | .throw .., h | .attempt .., h
  | .eval .., h | .label .., h | .goto .., h => by simp [spills] at h

/-- Only declared names are spilled by a block. -/
theorem mem_declaredIn_of_mem_spillsOf {x : String} :
    ∀ block : List Stmt, x ∈ spillsOf block → x ∈ declaredIn block
  | [], h => by simp [spillsOf] at h
  | stmt :: rest, h => by
    rw [declaredIn_cons]
    rw [spillsOf] at h
    rcases List.mem_append.mp h with h | h
    · exact List.mem_append_left _ (mem_declared_of_mem_spills stmt h)
    · exact List.mem_append_right _ (mem_declaredIn_of_mem_spillsOf rest h)

end

/-- What is known of the names at some place of a method in which every name
is declared once: unsafe names and names still to be declared are not visible. -/
structure Place (own visible unsure ahead : List String) : Prop where
  /-- Unsafe names belong to the method. -/
  unsure_own : ∀ x ∈ unsure, x ∈ own
  /-- Unsafe names are not visible. -/
  unsure_hidden : ∀ x ∈ unsure, x ∉ visible
  /-- Names ahead belong to the method. -/
  ahead_own : ∀ x ∈ ahead, x ∈ own
  /-- Names ahead are not visible yet. -/
  ahead_hidden : ∀ x ∈ ahead, x ∉ visible
  /-- Names ahead are declared once. -/
  once : ahead.Nodup

namespace Place

variable {own visible unsure ahead ahead' : List String}

/-- Only some of the names ahead matter. -/
theorem sub (h : Place own visible unsure ahead) (hs : ahead'.Sublist ahead) :
    Place own visible unsure ahead' where
  unsure_own := h.unsure_own
  unsure_hidden := h.unsure_hidden
  ahead_own := fun x hx => h.ahead_own x (hs.subset hx)
  ahead_hidden := fun x hx => h.ahead_hidden x (hs.subset hx)
  once := h.once.sublist hs

/-- Names ahead may count as unsafe. -/
theorem spill (h : Place own visible unsure ahead) {names : List String}
    (hn : ∀ x ∈ names, x ∈ ahead) : Place own visible (unsure ++ names) ahead where
  unsure_own := by
    intro x hx
    rcases List.mem_append.mp hx with hx | hx
    · exact h.unsure_own x hx
    · exact h.ahead_own x (hn x hx)
  unsure_hidden := by
    intro x hx
    rcases List.mem_append.mp hx with hx | hx
    · exact h.unsure_hidden x hx
    · exact h.ahead_hidden x (hn x hx)
  ahead_own := h.ahead_own
  ahead_hidden := h.ahead_hidden
  once := h.once

/-- A name becomes visible, and is then neither unsafe nor ahead. -/
theorem see (h : Place own visible unsure (ahead' ++ ahead)) {seen : List String}
    (hseen : ∀ x ∈ seen, x ∈ ahead') :
    Place own (seen ++ visible) (unsure.filter fun x => !seen.contains x) ahead where
  unsure_own := fun x hx => h.unsure_own x (List.mem_filter.mp hx).1
  unsure_hidden := by
    intro x hx hv
    obtain ⟨hx, hns⟩ := List.mem_filter.mp hx
    rcases List.mem_append.mp hv with hv | hv
    · simp [hv] at hns
    · exact h.unsure_hidden x hx hv
  ahead_own := fun x hx => h.ahead_own x (List.mem_append_right _ hx)
  ahead_hidden := by
    intro x hx hv
    rcases List.mem_append.mp hv with hv | hv
    · exact (List.nodup_append.mp h.once).2.2 x (hseen x hv) x hx rfl
    · exact h.ahead_hidden x (List.mem_append_right _ hx) hv
  once := (List.nodup_append.mp h.once).2.1

/-- An expression in scope uses no unsafe name. -/
theorem avoids (h : Place own visible unsure ahead) {e : Expr} (he : e.within own visible = true) :
    e.avoids unsure = true := by
  rw [Expr.avoids, List.all_eq_true]
  intro x hx
  have hw := List.all_eq_true.mp he x hx
  rw [Bool.not_eq_true', ← Bool.not_eq_true, List.contains_iff_mem]
  intro hu
  have hown := h.unsure_own x hu
  have hvis := h.unsure_hidden x hu
  simp [hown, hvis] at hw

/-- A call in scope does not use a name that is still ahead. -/
theorem initAvoids (h : Place own visible unsure ahead) {name : String} (hname : name ∈ ahead)
    {init : Option Expr} (hi : init.all (·.within own visible) = true) :
    Stmt.initAvoids name init = true := by
  unfold Stmt.initAvoids
  split
  · next method args span =>
    have hw := List.all_eq_true.mp (show (Expr.call method args span).within own visible = true
      from hi)
    rw [Bool.not_eq_true', ← Bool.not_eq_true, List.contains_iff_mem]
    intro hx
    have := hw name (by simpa [Expr.locals] using hx)
    simp [h.ahead_own name hname, h.ahead_hidden name hname] at this
  · rfl

end Place

/-- All optional expressions in scope use no unsafe name. -/
theorem Place.all_avoids {own visible unsure ahead : List String}
    (h : Place own visible unsure ahead) {e : Option Expr}
    (he : e.all (·.within own visible) = true) : e.all (·.avoids unsure) = true := by
  cases e with
  | none => rfl
  | some e => exact h.avoids he

mutual

/-- A statement whose names are used in scope has no leaks. -/
theorem leakFree_of_wellScoped {own visible unsure : List String} :
    ∀ stmt : Stmt, Place own visible unsure stmt.declared →
      stmt.wellScoped own visible = true → stmt.leakFree unsure = true
  | .declare name shape init span, h, hs => by
    rw [wellScoped] at hs
    rw [leakFree, Bool.and_eq_true]
    exact ⟨h.all_avoids hs, h.initAvoids (by simp) hs⟩
  | .assign target value span, h, hs => by
    rw [wellScoped, Bool.and_eq_true] at hs
    rw [leakFree, Bool.and_eq_true]
    exact ⟨h.avoids hs.1, h.avoids hs.2⟩
  | .cond test yes none span, h, hs => by
    rw [wellScoped, Bool.and_eq_true] at hs
    rw [leakFree, Bool.and_eq_true]
    rw [declared_cond_none] at h
    exact ⟨h.avoids hs.1, leakFreeAll_of_wellScopedAll yes h hs.2⟩
  | .cond test yes (some no) span, h, hs => by
    rw [wellScoped, Bool.and_eq_true, Bool.and_eq_true] at hs
    rw [leakFree, Bool.and_eq_true, Bool.and_eq_true]
    rw [declared_cond_some] at h
    obtain ⟨⟨ht, hyes⟩, hno⟩ := hs
    have hspill := h.spill fun x hx =>
      List.mem_append_left (declaredIn no) (mem_declaredIn_of_mem_spillsOf yes hx)
    refine ⟨⟨h.avoids ht, ?_⟩, ?_⟩
    · exact leakFreeAll_of_wellScopedAll yes (h.sub (List.sublist_append_left _ _)) hyes
    · exact leakFreeAll_of_wellScopedAll no (hspill.sub (List.sublist_append_right _ _)) hno
  | .branch test _ _, h, hs => by
    rw [wellScoped] at hs
    rw [leakFree]
    exact h.avoids hs
  | .loop kind test body span, h, hs => by
    rw [wellScoped, Bool.and_eq_true] at hs
    rw [leakFree, Bool.and_eq_true]
    rw [declared_loop] at h
    have hspill := h.spill fun x hx => mem_declaredIn_of_mem_spillsOf body hx
    exact ⟨hspill.avoids hs.1, leakFreeAll_of_wellScopedAll body hspill hs.2⟩
  | .ret value span, h, hs => by
    rw [wellScoped] at hs
    rw [leakFree]
    exact h.all_avoids hs
  | .throw value span, h, hs => by
    rw [wellScoped] at hs
    rw [leakFree]
    exact h.avoids hs
  | .attempt body name handler span, h, hs => by
    rw [wellScoped, Bool.and_eq_true] at hs
    rw [leakFree, Bool.and_eq_true]
    rw [declared_attempt] at h
    have hbody := h.sub ((List.sublist_append_left _ _).trans (List.sublist_append_right _ _))
    have hhandler := (h.see fun x hx => hx).sub (List.sublist_append_right _ _)
    exact ⟨leakFreeAll_of_wellScopedAll body hbody hs.1,
      leakFreeAll_of_wellScopedAll handler hhandler hs.2⟩
  | .eval e span, h, hs => by
    rw [wellScoped] at hs
    rw [leakFree]
    exact h.avoids hs
  | .brk .., _, _ | .label .., _, _ | .goto .., _, _ => by rw [leakFree]

/-- A block whose names are used in scope has no leaks. -/
theorem leakFreeAll_of_wellScopedAll {own visible unsure : List String} :
    ∀ block : List Stmt, Place own visible unsure (declaredIn block) →
      wellScopedAll own visible block = true → leakFreeAll unsure block = true
  | [], _, _ => by rw [leakFreeAll]
  | stmt :: rest, h, hs => by
    rw [wellScopedAll, Bool.and_eq_true] at hs
    rw [leakFreeAll, Bool.and_eq_true]
    rw [declaredIn_cons] at h
    refine ⟨leakFree_of_wellScoped stmt (h.sub (List.sublist_append_left _ _)) hs.1, ?_⟩
    refine leakFreeAll_of_wellScopedAll rest ?_ hs.2
    -- After a declaration its name is visible; after anything else names are spilled.
    cases stmt with
    | declare name shape init span =>
      have hseen : ∀ x ∈ [name], x ∈ (Stmt.declare name shape init span).declared := by simp
      simpa [after, adds] using h.see hseen
    | _ =>
      have := (h.spill fun x hx => List.mem_append_left (declaredIn rest)
        (mem_declared_of_mem_spills _ hx)).sub (List.sublist_append_right _ _)
      exact this

end

end Stmt

namespace Stmt

variable {P : Stmt → Prop}

/-- The statement and all statements inside it have a property. -/
def every (P : Stmt → Prop) (stmt : Stmt) : Prop := ∀ part ∈ stmt.parts, P part

/-- The statements of a block and all statements inside them have a property. -/
def everyAll (P : Stmt → Prop) (block : List Stmt) : Prop := ∀ part ∈ partsOf block, P part

theorem everyAll_cons {stmt : Stmt} {rest : List Stmt} :
    everyAll P (stmt :: rest) ↔ stmt.every P ∧ everyAll P rest := by
  simp only [everyAll, every, partsOf, List.mem_append]
  exact ⟨fun h => ⟨fun p hp => h p (.inl hp), fun p hp => h p (.inr hp)⟩,
    fun h p hp => hp.elim (h.1 p) (h.2 p)⟩

theorem every_cond_none {test : Expr} {yes : List Stmt} {span : Span}
    (h : (Stmt.cond test yes none span).every P) : everyAll P yes := by
  intro p hp
  exact h p (by rw [parts]; exact List.mem_cons_of_mem _ hp)

theorem every_cond_some {test : Expr} {yes no : List Stmt} {span : Span}
    (h : (Stmt.cond test yes (some no) span).every P) : everyAll P yes ∧ everyAll P no := by
  refine ⟨fun p hp => h p ?_, fun p hp => h p ?_⟩
  · rw [parts]
    exact List.mem_cons_of_mem _ (List.mem_append_left _ hp)
  · rw [parts]
    exact List.mem_cons_of_mem _ (List.mem_append_right _ hp)

theorem every_loop {kind : LoopKind} {test : Expr} {body : List Stmt} {span : Span}
    (h : (Stmt.loop kind test body span).every P) : everyAll P body := by
  intro p hp
  exact h p (by rw [parts]; exact List.mem_cons_of_mem _ hp)

theorem every_attempt {body handler : List Stmt} {name : Option String} {span : Span}
    (h : (Stmt.attempt body name handler span).every P) :
    everyAll P body ∧ everyAll P handler := by
  refine ⟨fun p hp => h p ?_, fun p hp => h p ?_⟩
  · rw [parts]
    exact List.mem_cons_of_mem _ (List.mem_append_left _ hp)
  · rw [parts]
    exact List.mem_cons_of_mem _ (List.mem_append_right _ hp)

/-- The statement itself is among its parts. -/
theorem every_self {stmt : Stmt} (h : stmt.every P) : P stmt := by
  refine h stmt ?_
  cases stmt with
  | cond _ _ no _ => cases no <;> simp [parts]
  | _ => simp [parts]

/-- A weaker property. -/
theorem everyAll_mono {Q : Stmt → Prop} {block : List Stmt} (h : everyAll P block)
    (hPQ : ∀ stmt, P stmt → Q stmt) : everyAll Q block :=
  fun part hp => hPQ part (h part hp)

/-- The block has structured statements only: no labels, jumps or branches. -/
abbrev structuredAll (block : List Stmt) : Prop := everyAll (·.isJumpCode = false) block

end Stmt

/-- The names that the statements of a block declare or use, at any depth. -/
def Block.allNames (block : List Stmt) : List String := (Stmt.partsOf block).flatMap Stmt.names

namespace Method

/-- The names that a method declares: parameters, variables, exceptions. -/
def declared (m : Method) : List String :=
  m.params.map (·.name) ++ Stmt.declaredIn m.body

/-- Every name is declared once and used only inside the scope of its declaration. -/
structure WellScoped (m : Method) : Prop where
  /-- No name is declared twice. -/
  once : m.declared.Nodup
  /-- Names are used in scope. -/
  inScope : Stmt.wellScopedAll m.declared (m.params.map (·.name)) m.body = true

/-- No name is used after a condition or a loop that may have changed its meaning. -/
def LeakFree (m : Method) : Prop := Stmt.leakFreeAll [] m.body = true

instance (m : Method) : Decidable m.LeakFree := inferInstanceAs (Decidable (_ = true))

/-- A method whose names are declared once and used in scope has no leaks. -/
theorem WellScoped.leakFree {m : Method} (h : m.WellScoped) : m.LeakFree := by
  obtain ⟨hparams, hbody, hapart⟩ := List.nodup_append.mp h.once
  refine Stmt.leakFreeAll_of_wellScopedAll m.body ⟨?_, ?_, ?_, ?_, hbody⟩ h.inScope
  · exact fun x hx => absurd hx List.not_mem_nil
  · exact fun x hx => absurd hx List.not_mem_nil
  · exact fun x hx => List.mem_append_right _ hx
  · exact fun x hx hp => hapart x hp x hx rfl

/-- The statements of the method are structured ones only. -/
def Structured (m : Method) : Prop := Stmt.structuredAll m.body

end Method

namespace Program

/-- All methods consist of structured statements. -/
def Structured (p : Program) : Prop := ∀ m ∈ p.methods, m.Structured

/-- All methods declare names once and use them in scope. -/
def WellScoped (p : Program) : Prop := ∀ m ∈ p.methods, m.WellScoped

/-- No method has leaks. -/
def LeakFree (p : Program) : Prop := ∀ m ∈ p.methods, m.LeakFree

/-- All expressions that methods return have a property. -/
def Returns (p : Program) (P : Expr → Prop) : Prop :=
  ∀ m ∈ p.methods, Stmt.everyAll (fun stmt => ∀ e ∈ stmt.returned?, P e) m.body

end Program

end Stepwise
