import Stepwise.Proofs.Lowering.Wellformed

/-!
# Pieces of lowered code

Lowered code is taken apart here into copies of callees and what stands around
them. A copy opens with the declarations of its parameters and of the variable
that takes its result. It closes by passing the result on, and in between it
has pieces again. From the pieces one reads off which names a copy introduces
by itself, to which variables it refers, and which new names there are in all.
-/

namespace Stepwise

/-- The variables not marked as global that the statement and those inside it refer to. -/
def Stmt.references (stmt : Stmt) : List String :=
  stmt.parts.flatMap fun part => part.exprs.flatMap Expr.locals

/-- The variables not marked as global that a block refers to anywhere. -/
def Block.references (block : List Stmt) : List String :=
  (Stmt.partsOf block).flatMap fun part => part.exprs.flatMap Expr.locals

namespace Block

@[simp] theorem references_nil : references [] = [] := by
  simp [references, Stmt.partsOf]

@[simp] theorem references_cons (stmt : Stmt) (rest : List Stmt) :
    references (stmt :: rest) = stmt.references ++ references rest := by
  simp [references, Stmt.references, Stmt.partsOf]

@[simp] theorem references_append (a b : List Stmt) :
    references (a ++ b) = references a ++ references b := by
  simp [references]

end Block

namespace Stmt

/-- A statement without blocks refers to the variables of its own expressions. -/
theorem references_leaf {stmt : Stmt} (h : stmt.blocks = []) :
    stmt.references = stmt.exprs.flatMap Expr.locals := by
  simp [references, parts_of_blocks h]

/-- A statement without blocks declares what it declares itself. -/
theorem declared_leaf {stmt : Stmt} (h : stmt.blocks = []) : stmt.declared = stmt.binds := by
  simp [declared, parts_of_blocks h]

@[simp] theorem references_attempt (body handler : List Stmt) (name : Option String)
    (span : Span) :
    (Stmt.attempt body name handler span).references =
      Block.references body ++ Block.references handler := by
  simp [references, Block.references, parts, exprs]

@[simp] theorem declaredIn_append (a b : List Stmt) :
    declaredIn (a ++ b) = declaredIn a ++ declaredIn b := by
  simp [declaredIn]

end Stmt

namespace Lowering

/-- Names handed out one after the other, if so many were handed out before
them and so many after them. -/
inductive Numbered : Nat → List String → Nat → Prop
  | nil {n : Nat} : Numbered n [] n
  | cons {n n' : Nat} {rest : List String} (recalled : String) (others : Numbered (n + 1) rest n') :
      Numbered n (fresh recalled (n + 1) :: rest) n'

namespace Numbered

variable {low mid high : Nat} {xs ys : List String}

/-- The next name. -/
theorem one (recalled : String) (n : Nat) : Numbered n [fresh recalled (n + 1)] (n + 1) :=
  .cons recalled .nil

/-- Names after names. -/
theorem append (hx : Numbered low xs mid) (hy : Numbered mid ys high) :
    Numbered low (xs ++ ys) high := by
  induction hx with
  | nil => exact hy
  | cons recalled _ ih => exact .cons recalled (ih hy)

/-- Every name uses up one number. -/
theorem length (h : Numbered low xs high) : low + xs.length = high := by
  induction h with
  | nil => rfl
  | cons recalled _ ih =>
    rw [List.length_cons]
    omega

/-- The names have numbers within the bounds. -/
theorem between (h : Numbered low xs high) : ∀ y ∈ xs, Between low high y := by
  induction h with
  | nil => exact nofun
  | @cons n n' rest recalled others ih =>
    have hlength := others.length
    refine List.forall_mem_cons.mpr ⟨⟨recalled, n + 1, Nat.lt_succ_self _, by omega, rfl⟩, ?_⟩
    exact fun y hy => (ih y hy).mono (Nat.le_succ _) (Nat.le_refl _)

/-- No name is handed out twice. -/
theorem nodup (h : Numbered low xs high) : xs.Nodup := by
  induction h with
  | nil => exact List.nodup_nil
  | @cons n n' rest recalled others ih =>
    refine List.nodup_cons.mpr ⟨fun hm => ?_, ih⟩
    exact not_between_of_upTo ⟨recalled, n + 1, Nat.le_refl _, rfl⟩ (others.between _ hm)

end Numbered

/-- A copy of a callee, apart from its body. -/
structure Copy where
  /-- The method that is copied. -/
  callee : Method
  /-- The arguments, as they stand in the caller. -/
  args : List Expr
  /-- Where the caller wants the result. -/
  dest : Option Expr
  /-- How many labels were handed out before the copy. -/
  labels : Nat
  /-- How many new names were handed out before the copy. -/
  names : Nat
  /-- Where the call stands. -/
  span : Span

namespace Copy

variable (c : Copy)

/-- The variable that takes the result. -/
def receiver : String := fresh (c.callee.name ++ ".return") (c.names + 1)

/-- The declarations of the parameters. -/
def parameters : Block := declarations c.span (c.names + 1) c.callee.params c.args

/-- What stands in front of the body. -/
def opening : Block :=
  c.parameters ++ [.declare c.receiver .dynamic none c.span, mark (Label.name c.labels)]

/-- What stands behind the body. -/
def closing : Block :=
  mark (Label.name (c.labels + 1)) :: passResult c.receiver c.dest c.span

/-- The names that the opening declares, in the order in which they are handed out. -/
def opened : List String := c.receiver :: Stmt.declaredIn c.parameters

/-- The variables that the copy takes over from the caller. -/
def taken : List String := Expr.listLocals c.args ++ c.dest.toList.flatMap Expr.locals

end Copy

/-- A piece of lowered code. -/
inductive Piece where
  /-- A statement around copies, or in the body of a copy. -/
  | own (stmt : Stmt)
  /-- The variable with a number for a call that is moved in front of an expression. -/
  | temp (number : Nat) (span : Span)
  /-- An `attempt` statement with pieces in its blocks. -/
  | attempt (body : List Piece) (name : Option String) (handler : List Piece) (span : Span)
  /-- A copy with its body. -/
  | copy (c : Copy) (body : List Piece)

namespace Piece

mutual

/-- The code. -/
def code : Piece → Block
  | own stmt => [stmt]
  | temp number span => [.declare (fresh "temp" number) .dynamic none span]
  | attempt body name handler span => [.attempt (codeOf body) name (codeOf handler) span]
  | copy c body => c.opening ++ codeOf body ++ c.closing

/-- The code of several pieces. -/
def codeOf : List Piece → Block
  | [] => []
  | piece :: rest => piece.code ++ codeOf rest

end

mutual

/-- The names declared for names of the source, those in copies apart. -/
def declared : Piece → List String
  | own stmt => stmt.declared
  | temp .. | copy .. => []
  | attempt body name handler _ => name.toList ++ (declaredOf body ++ declaredOf handler)

/-- The names that several pieces declare for names of the source. -/
def declaredOf : List Piece → List String
  | [] => []
  | piece :: rest => piece.declared ++ declaredOf rest

end

mutual

/-- The new names, those in copies apart. Names that stand for names of the
source are new if the piece is in a copy itself. -/
def introduced (copied : Bool) : Piece → List String
  | own stmt => if copied then stmt.declared else []
  | temp number _ => [fresh "temp" number]
  | attempt body name handler _ =>
    (if copied then name.toList else []) ++
      (introducedOf copied body ++ introducedOf copied handler)
  | copy .. => []

/-- The new names of several pieces, those in copies apart. -/
def introducedOf (copied : Bool) : List Piece → List String
  | [] => []
  | piece :: rest => piece.introduced copied ++ introducedOf copied rest

end

mutual

/-- The variables referred to. Of a copy these are the ones it takes over. -/
def references : Piece → List String
  | own stmt => stmt.references
  | temp .. => []
  | attempt body _ handler _ => referencesOf body ++ referencesOf handler
  | copy c _ => c.taken

/-- The variables that several pieces refer to. -/
def referencesOf : List Piece → List String
  | [] => []
  | piece :: rest => piece.references ++ referencesOf rest

end

mutual

/-- All new names in the order in which they are handed out. -/
def drawn (copied : Bool) : Piece → List String
  | own stmt => if copied then stmt.declared else []
  | temp number _ => [fresh "temp" number]
  | attempt body name handler _ =>
    drawnOf copied body ++ (if copied then name.toList else []) ++ drawnOf copied handler
  | copy c body => c.opened ++ drawnOf true body

/-- The new names in several pieces. -/
def drawnOf (copied : Bool) : List Piece → List String
  | [] => []
  | piece :: rest => piece.drawn copied ++ drawnOf copied rest

end

mutual

/-- The copies with their bodies, at any depth. -/
def copies : Piece → List (Copy × List Piece)
  | own _ | temp .. => []
  | attempt body _ handler _ => copiesOf body ++ copiesOf handler
  | copy c body => (c, body) :: copiesOf body

/-- The copies in several pieces. -/
def copiesOf : List Piece → List (Copy × List Piece)
  | [] => []
  | piece :: rest => piece.copies ++ copiesOf rest

end

section Append

variable (a b : List Piece)

/-- What is collected piece by piece may be collected from some pieces and then from others. -/
theorem collect_append {α : Type} {f : Piece → List α} {fOf : List Piece → List α}
    (nil : fOf [] = []) (cons : ∀ piece rest, fOf (piece :: rest) = f piece ++ fOf rest) :
    fOf (a ++ b) = fOf a ++ fOf b := by
  induction a with
  | nil => rw [nil, List.nil_append, List.nil_append]
  | cons piece rest ih => rw [List.cons_append, cons, cons, ih, List.append_assoc]

@[simp] theorem codeOf_append : codeOf (a ++ b) = codeOf a ++ codeOf b :=
  collect_append a b (by rw [codeOf]) fun _ _ => by rw [codeOf]

@[simp] theorem declaredOf_append : declaredOf (a ++ b) = declaredOf a ++ declaredOf b :=
  collect_append a b (by rw [declaredOf]) fun _ _ => by rw [declaredOf]

@[simp] theorem introducedOf_append (copied : Bool) :
    introducedOf copied (a ++ b) = introducedOf copied a ++ introducedOf copied b :=
  collect_append a b (by rw [introducedOf]) fun _ _ => by rw [introducedOf]

@[simp] theorem referencesOf_append : referencesOf (a ++ b) = referencesOf a ++ referencesOf b :=
  collect_append a b (by rw [referencesOf]) fun _ _ => by rw [referencesOf]

@[simp] theorem drawnOf_append (copied : Bool) :
    drawnOf copied (a ++ b) = drawnOf copied a ++ drawnOf copied b :=
  collect_append a b (by rw [drawnOf]) fun _ _ => by rw [drawnOf]

@[simp] theorem copiesOf_append : copiesOf (a ++ b) = copiesOf a ++ copiesOf b :=
  collect_append a b (by rw [copiesOf]) fun _ _ => by rw [copiesOf]

end Append

end Piece

/-- Parameters are declared under new names, in order. -/
theorem numbered_declarations (span : Span) (n : Nat) {params : List Param} {args : List Expr}
    (hlength : params.length = args.length) :
    Numbered n (Stmt.declaredIn (declarations span n params args)) (n + params.length) := by
  induction params generalizing n args with
  | nil => simpa [declarations] using Numbered.nil
  | cons param params ih =>
    cases args with
    | nil => cases hlength
    | cons arg args =>
      have hrest := ih (n + 1) (Nat.succ.inj hlength)
      rw [declarations, Stmt.declaredIn_cons, Stmt.declared_declare, List.length_cons,
        show n + (params.length + 1) = n + 1 + params.length by omega]
      exact .cons param.name hrest

/-- Declarations of parameters refer to the variables of the arguments. -/
theorem references_declarations (span : Span) (n : Nat) (params : List Param) (args : List Expr) :
    ∀ y ∈ Block.references (declarations span n params args), y ∈ Expr.listLocals args := by
  induction params generalizing n args with
  | nil => simp [declarations]
  | cons param params ih =>
    cases args with
    | nil => simp [declarations]
    | cons arg args =>
      rw [declarations, Block.references_cons, Stmt.references_leaf rfl, Expr.listLocals]
      intro y hy
      rcases List.mem_append.mp hy with hy | hy
      · exact List.mem_append_left _ (by simpa [Stmt.exprs] using hy)
      · exact List.mem_append_right _ (ih (n + 1) args y hy)

namespace Copy

variable {c : Copy} {body : List Piece}

/-- All names that a copy introduces by itself. -/
def introduced (c : Copy) (body : List Piece) : List String :=
  c.opened ++ Piece.introducedOf true body

/-- The receiver is named first, and then the parameters. -/
theorem numbered_opened (hgiven : c.callee.params.length = c.args.length) :
    Numbered c.names c.opened (c.names + 1 + c.callee.params.length) :=
  .cons _ (numbered_declarations c.span (c.names + 1) hgiven)

/-- The opening declares the receiver and the parameters. -/
theorem declaredIn_opening : (Stmt.declaredIn c.opening).Perm c.opened := by
  have hopening : Stmt.declaredIn c.opening = Stmt.declaredIn c.parameters ++ [c.receiver] := by
    rw [opening, Stmt.declaredIn_append, Stmt.declaredIn_cons, Stmt.declared_declare, mark,
      Stmt.declaredIn_cons, Stmt.declared_leaf rfl]
    rfl
  rw [hopening, opened]
  exact List.perm_append_comm

/-- The closing declares nothing. -/
theorem declaredIn_closing : Stmt.declaredIn c.closing = [] := by
  rw [closing, mark, Stmt.declaredIn_cons, Stmt.declared_leaf rfl]
  unfold passResult
  split
  · rw [Stmt.declaredIn_cons, Stmt.declared_leaf rfl]
    rfl
  · rfl

/-- The opening refers to what the copy takes over. -/
theorem references_opening : ∀ y ∈ Block.references c.opening, y ∈ c.taken := by
  have hopening : Block.references c.opening = Block.references c.parameters := by
    rw [opening, Block.references_append, Block.references_cons, Stmt.references_leaf rfl, mark,
      Block.references_cons, Stmt.references_leaf rfl]
    simp [Stmt.exprs]
  rw [hopening]
  exact fun y hy => List.mem_append_left _ (references_declarations _ _ _ _ y hy)

/-- The closing refers to what the copy takes over and to the receiver. -/
theorem references_closing : ∀ y ∈ Block.references c.closing, y ∈ c.taken ∨ y = c.receiver := by
  rw [closing, mark, Block.references_cons, Stmt.references_leaf rfl, taken]
  cases c.dest with
  | none => simp [passResult, Stmt.exprs]
  | some target =>
    rw [passResult, Block.references_cons, Stmt.references_leaf rfl]
    intro y hy
    have hy : y ∈ target.locals ∨ y = c.receiver := by
      simpa [Stmt.exprs, localVar, Expr.locals] using hy
    exact hy.imp_left fun hy => by simp [hy]

/-- The body of a copy, and what copies in it take over from there, refers to
variables that the copy introduces by itself, but for names of some kind. -/
def Closed (kept : String → Prop) (c : Copy) (body : List Piece) : Prop :=
  ∀ y ∈ Piece.referencesOf body, y ∈ c.introduced body ∨ kept y

end Copy

namespace Piece

mutual

/-- The names that the code declares stand for names of the source or are new. -/
theorem declaredIn_code (copied : Bool) : ∀ piece : Piece,
    (Stmt.declaredIn piece.code).Perm
      ((if copied then [] else piece.declared) ++ piece.drawn copied)
  | own stmt => by cases copied <;> simp [code, declared, drawn]
  | temp number span => by simp [code, declared, drawn]
  | attempt body name handler span => by
    have hbody := List.perm_iff_count.mp (declaredIn_codeOf copied body)
    have hhandler := List.perm_iff_count.mp (declaredIn_codeOf copied handler)
    rw [code, declared, drawn, List.perm_iff_count]
    intro y
    have hb := hbody y
    have hh := hhandler y
    cases copied <;> simp at hb hh ⊢ <;> omega
  | copy c body => by
    have hbody := declaredIn_codeOf true body
    simp only [if_true, List.nil_append] at hbody
    rw [code, declared, drawn, Stmt.declaredIn_append, Stmt.declaredIn_append,
      c.declaredIn_closing, List.append_nil, ite_self, List.nil_append]
    exact c.declaredIn_opening.append hbody

/-- The names that the code of several pieces declares stand for names of the
source or are new. -/
theorem declaredIn_codeOf (copied : Bool) : ∀ pieces : List Piece,
    (Stmt.declaredIn (codeOf pieces)).Perm
      ((if copied then [] else declaredOf pieces) ++ drawnOf copied pieces)
  | [] => by simp [codeOf, declaredOf, drawnOf]
  | piece :: rest => by
    have hpiece := List.perm_iff_count.mp (declaredIn_code copied piece)
    have hrest := List.perm_iff_count.mp (declaredIn_codeOf copied rest)
    rw [codeOf, declaredOf, drawnOf, List.perm_iff_count]
    intro y
    have hp := hpiece y
    have hr := hrest y
    cases copied <;> simp at hp hr ⊢ <;> omega

end

mutual

/-- The copies in a copy are among all copies. -/
theorem copies_inside {c : Copy × List Piece} : ∀ piece : Piece, c ∈ piece.copies →
    ∀ d ∈ copiesOf c.2, d ∈ piece.copies
  | own _, h, _, _ | temp .., h, _, _ => by simp [copies] at h
  | attempt body _ handler _, h, d, hd => by
    rw [copies, List.mem_append] at h ⊢
    exact h.imp (copiesOf_inside body · d hd) (copiesOf_inside handler · d hd)
  | copy c' body, h, d, hd => by
    rw [copies, List.mem_cons] at h ⊢
    rcases h with rfl | h
    · exact .inr hd
    · exact .inr (copiesOf_inside body h d hd)

/-- The copies in a copy in pieces are among all copies. -/
theorem copiesOf_inside {c : Copy × List Piece} : ∀ pieces : List Piece, c ∈ copiesOf pieces →
    ∀ d ∈ copiesOf c.2, d ∈ copiesOf pieces
  | [], h, _, _ => by simp [copiesOf] at h
  | piece :: rest, h, d, hd => by
    rw [copiesOf, List.mem_append] at h ⊢
    exact h.imp (copies_inside piece · d hd) (copiesOf_inside rest · d hd)

end

mutual

/-- Every new name is introduced once, by one copy or outside of copies. -/
theorem drawn_perm (copied : Bool) : ∀ piece : Piece, (piece.drawn copied).Perm
    (piece.introduced copied ++ piece.copies.flatMap fun c => c.1.introduced c.2)
  | own stmt => by simp [drawn, introduced, copies]
  | temp number span => by simp [drawn, introduced, copies]
  | attempt body name handler span => by
    have hbody := List.perm_iff_count.mp (drawnOf_perm copied body)
    have hhandler := List.perm_iff_count.mp (drawnOf_perm copied handler)
    rw [drawn, introduced, copies, List.perm_iff_count]
    intro y
    have hb := hbody y
    have hh := hhandler y
    simp only [List.count_append, List.flatMap_append] at hb hh ⊢
    omega
  | copy c body => by
    have hbody := List.perm_iff_count.mp (drawnOf_perm true body)
    rw [drawn, introduced, copies, List.perm_iff_count]
    intro y
    have hb := hbody y
    simp only [List.count_append, List.flatMap_cons, Copy.introduced, List.count_nil] at hb ⊢
    omega

/-- Every new name of several pieces is introduced once, by one copy or outside of copies. -/
theorem drawnOf_perm (copied : Bool) : ∀ pieces : List Piece, (drawnOf copied pieces).Perm
    (introducedOf copied pieces ++ (copiesOf pieces).flatMap fun c => c.1.introduced c.2)
  | [] => by simp [drawnOf, introducedOf, copiesOf]
  | piece :: rest => by
    have hpiece := List.perm_iff_count.mp (drawn_perm copied piece)
    have hrest := List.perm_iff_count.mp (drawnOf_perm copied rest)
    rw [drawnOf, introducedOf, copiesOf, List.perm_iff_count]
    intro y
    have hp := hpiece y
    have hr := hrest y
    simp only [List.count_append, List.flatMap_append] at hp hr ⊢
    omega

end

/-- What a copy introduces by itself is among the new names of the copy. -/
theorem mem_drawn_copy {c : Copy} {body : List Piece} {copied : Bool} {y : String}
    (h : y ∈ c.introduced body) : y ∈ (copy c body).drawn copied := by
  refine (drawn_perm copied (copy c body)).mem_iff.mpr (List.mem_append_right _ ?_)
  exact List.mem_flatMap.mpr ⟨(c, body), by simp [copies], h⟩

mutual

/-- If all copies in it are closed, a piece has no references but those that
count as its own and those to new names in it. -/
theorem references_code {kept : String → Prop} {y : String} : ∀ piece : Piece,
    (∀ c ∈ piece.copies, c.1.Closed kept c.2) → y ∈ Block.references piece.code →
    y ∈ piece.references ∨ y ∈ piece.drawn true ∨ kept y
  | own stmt, _, h => .inl (by simpa [code, references] using h)
  | temp number span, _, h => by
    rw [code, Block.references_cons, Stmt.references_leaf rfl] at h
    exact absurd h List.not_mem_nil
  | attempt body name handler span, hclosed, h => by
    rw [copies, List.forall_mem_append] at hclosed
    rw [code, Block.references_cons, Block.references_nil, List.append_nil,
      Stmt.references_attempt, List.mem_append] at h
    rw [references, drawn, List.mem_append, List.mem_append, List.mem_append]
    rcases h with h | h
    · exact (references_codeOf body hclosed.1 h).imp .inl (.imp_left fun h => .inl (.inl h))
    · exact (references_codeOf handler hclosed.2 h).imp .inr (.imp_left .inr)
  | copy c body, hclosed, h => by
    rw [copies, List.forall_mem_cons] at hclosed
    rw [code, Block.references_append, Block.references_append, List.mem_append,
      List.mem_append] at h
    rcases h with (h | h) | h
    · exact .inl (c.references_opening y h)
    · refine .inr ?_
      rcases references_codeOf body hclosed.2 h with h | h | h
      · exact (hclosed.1 y h).imp_left mem_drawn_copy
      · exact .inl (List.mem_append_right _ h)
      · exact .inr h
    · refine (c.references_closing y h).imp_right fun h => .inl ?_
      exact mem_drawn_copy (h ▸ List.mem_cons_self)

/-- If all copies in them are closed, pieces have no references but those that
count as their own and those to new names in them. -/
theorem references_codeOf {kept : String → Prop} {y : String} : ∀ pieces : List Piece,
    (∀ c ∈ copiesOf pieces, c.1.Closed kept c.2) → y ∈ Block.references (codeOf pieces) →
    y ∈ referencesOf pieces ∨ y ∈ drawnOf true pieces ∨ kept y
  | [], _, h => by simp [codeOf] at h
  | piece :: rest, hclosed, h => by
    rw [copiesOf, List.forall_mem_append] at hclosed
    rw [codeOf, Block.references_append, List.mem_append] at h
    rw [referencesOf, drawnOf, List.mem_append, List.mem_append]
    rcases h with h | h
    · exact (references_code piece hclosed.1 h).imp .inl (.imp_left .inl)
    · exact (references_codeOf rest hclosed.2 h).imp .inr (.imp_left .inr)

end

mutual

/-- Outside of copies, a piece introduces names for calls only. -/
theorem introduced_temp {y : String} : ∀ piece : Piece, y ∈ piece.introduced false →
    ∃ n, y = fresh "temp" n
  | own _, h | copy .., h => by simp [introduced] at h
  | temp number _, h => ⟨number, by simpa [introduced] using h⟩
  | attempt body _ handler _, h => by
    rw [introduced, if_neg Bool.false_ne_true, List.nil_append, List.mem_append] at h
    exact h.elim (introducedOf_temp body) (introducedOf_temp handler)

/-- Outside of copies, pieces introduce names for calls only. -/
theorem introducedOf_temp {y : String} : ∀ pieces : List Piece, y ∈ introducedOf false pieces →
    ∃ n, y = fresh "temp" n
  | [], h => by simp [introducedOf] at h
  | piece :: rest, h => by
    rw [introducedOf, List.mem_append] at h
    exact h.elim (introduced_temp piece) (introducedOf_temp rest)

end

end Piece

end Lowering

end Stepwise
