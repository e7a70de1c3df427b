import Stepwise.Program.Block
import Stepwise.Program.Construct
import Stepwise.Proofs.Program.Written

/-!
# The interchange form loses nothing

Everything that can be read fits its words. Writing a program that was read
and reading it again therefore gives the same program: what is written is the
canonical form of all trees that mean the same, with or without unknown parts
and with defaults left out or given.
-/

namespace Stepwise

/-- Whatever is read has a property. -/
def Gives {α : Type} (P : α → Prop) (x : Option α) : Prop := ∀ a, x = some a → P a

section Reading

variable {α β : Type} {P : α → Prop} {Q : β → Prop}

theorem gives_any (x : Option α) : Gives (fun _ => True) x := fun _ _ => trivial

theorem gives_none : Gives P none := nofun

theorem gives_some {a : α} (h : P a) : Gives P (some a) := by
  rintro _ ⟨rfl⟩
  exact h

theorem Gives.bind {x : Option α} {f : α → Option β} (hx : Gives P x)
    (hf : ∀ a, P a → Gives Q (f a)) : Gives Q (x >>= f) := by
  intro b hb
  obtain ⟨a, ha, hb⟩ := Option.bind_eq_some_iff.mp hb
  exact hf a (hx a ha) b hb

/-- What is read does not depend on the value of a step. -/
theorem Gives.after {f : α → Option β} (x : Option α) (hf : ∀ a, Gives Q (f a)) :
    Gives Q (x >>= f) :=
  (gives_any x).bind fun a _ => hf a

theorem Gives.map {x : Option α} {f : α → β} (hx : Gives P x) (hf : ∀ a, P a → Q (f a)) :
    Gives Q (f <$> x) := by
  intro b hb
  obtain ⟨a, ha, rfl⟩ := Option.map_eq_some_iff.mp hb
  exact hf a (hx a ha)

/-- Items that all have a property. -/
theorem Gives.mapM {read : β → Option α} (h : ∀ j, Gives P (read j)) (items : List β) :
    Gives (fun as => ∀ a ∈ as, P a) (items.mapM read) := by
  induction items with
  | nil => exact gives_some nofun
  | cons j rest ih =>
    rw [List.mapM_cons]
    exact (h j).bind fun a ha => ih.bind fun as has =>
      gives_some (List.forall_mem_cons.mpr ⟨ha, has⟩)

/-- A list whose items all have a property. -/
theorem gives_listOf {read : Json → Option α} (h : ∀ j, Gives P (read j)) (j : Json) :
    Gives (fun as => ∀ a ∈ as, P a) (listOf? read j) :=
  .after _ fun items => .mapM h items

/-- A member that may be left out. -/
theorem gives_orDefault {members : List (String × Json)} {name : String} {read : Json → Option α}
    {fallback : α} (h : ∀ j, Gives P (read j)) (hfallback : P fallback) :
    Gives P (Json.orDefault? members name read fallback) := by
  unfold Json.orDefault?
  split
  · exact gives_some hfallback
  · exact h _
  · exact gives_none

/-- A number below a bound. -/
theorem gives_asNatBelow (bound : Nat) (j : Json) : Gives (· < bound) (j.asNatBelow? bound) := by
  unfold Json.asNatBelow?
  split
  · split
    · next n h =>
      rw [Bool.and_eq_true, decide_eq_true_iff, decide_eq_true_iff] at h
      exact gives_some (by omega)
    · exact gives_none
  · exact gives_none

end Reading

namespace Span

theorem fits_blank : blank.Fits :=
  ⟨by decide, by decide, by decide, by decide, by decide, by decide⟩

theorem gives_ofJson (j : Json) : Gives Fits (Span.ofJson? j) := by
  have hpart (members : List (String × Json)) (name : String) :
      Gives (· < Word.count) (do (← Json.required? members name).asNatBelow? Word.count) :=
    .after _ fun j => gives_asNatBelow Word.count j
  refine .after _ fun members => ?_
  exact (hpart members _).bind fun _ h₁ => (hpart members _).bind fun _ h₂ =>
    (hpart members _).bind fun _ h₃ => (hpart members _).bind fun _ h₄ =>
      (hpart members _).bind fun _ h₅ => (hpart members _).bind fun _ h₆ =>
        gives_some ⟨h₁, h₂, h₃, h₄, h₅, h₆⟩

/-- The span of a node fits. -/
theorem gives_ofMembers (members : List (String × Json)) : Gives Fits (Span.ofMembers? members) :=
  gives_orDefault gives_ofJson fits_blank

end Span

namespace Expr

theorem listFits_of_forall {es : List Expr} (h : ∀ e ∈ es, e.Fits) : ListFits es := by
  induction es with
  | nil => exact fun s hs => by simp [listSpans] at hs
  | cons e rest ih =>
    intro s hs
    rw [listSpans, List.mem_append] at hs
    rcases hs with hs | hs
    · exact h e List.mem_cons_self s hs
    · exact ih (fun e he => h e (List.mem_cons_of_mem _ he)) s hs

/-- An expression fits if its own span and the spans inside it do. -/
theorem fits_of_spans {e : Expr} {span : Span} {inner : List Span} (he : e.spans = span :: inner)
    (hs : span.Fits) (hinner : ∀ s ∈ inner, s.Fits) : e.Fits := by
  intro s hmem
  rw [he] at hmem
  rcases List.mem_cons.mp hmem with rfl | hmem
  · exact hs
  · exact hinner s hmem

/-- Every expression that is read fits. -/
theorem gives_ofJson (depth : Nat) (nesting : Nesting) (j : Json) :
    Gives Fits (Expr.ofJson? depth nesting j) := by
  induction depth generalizing nesting j with
  | zero => exact gives_none
  | succ depth ih =>
    rw [ofJson?]
    refine .after _ ?_
    rintro ⟨form, parts⟩
    have hspan := Span.gives_ofMembers parts
    have hchild (name : String) :
        Gives Fits (do Expr.ofJson? depth .inner (← Json.required? parts name)) :=
      .after _ fun j => ih .inner j
    have hchildren (name : String) : Gives ListFits (do
        (← (← Json.required? parts name).asItems?).mapM (Expr.ofJson? depth .inner)) := by
      refine .after _ fun j => .after _ fun items => ?_
      exact fun es hes => listFits_of_forall (Gives.mapM (fun j => ih .inner j) items es hes)
    dsimp only
    split
    case h_1 =>
      exact .after _ fun _ => .after _ fun _ => hspan.bind fun _ hs =>
        gives_some (fits_of_spans rfl hs (List.forall_mem_nil _))
    case h_2 =>
      exact .after _ fun _ => .after _ fun _ => hspan.bind fun _ hs =>
        gives_some (fits_of_spans rfl hs (List.forall_mem_nil _))
    case h_3 =>
      refine .after _ fun _ => .after _ fun owner => ?_
      cases owner with
      | type owner =>
        exact .after _ fun _ => hspan.bind fun _ hs =>
          gives_some (fits_of_spans rfl hs (List.forall_mem_nil _))
      | object tree =>
        exact (ih .inner tree).bind fun _ ho => .after _ fun _ =>
          hspan.bind fun _ hs => gives_some (fits_of_spans rfl hs ho)
    case h_4 =>
      exact (hchild _).bind fun _ ht => (hchild _).bind fun _ hp => hspan.bind fun _ hs =>
        gives_some (fits_of_spans rfl hs (List.forall_mem_append.mpr ⟨ht, hp⟩))
    case h_5 =>
      exact .after _ fun _ => .after _ fun _ => (hchild _).bind fun _ hl =>
        (hchild _).bind fun _ hr => hspan.bind fun _ hs =>
          gives_some (fits_of_spans rfl hs (List.forall_mem_append.mpr ⟨hl, hr⟩))
    case h_6 =>
      exact .after _ fun _ => .after _ fun _ => (hchild _).bind fun _ ho =>
        hspan.bind fun _ hs => gives_some (fits_of_spans rfl hs ho)
    case h_7 =>
      refine .after _ fun receiver => ?_
      cases receiver with
      | none =>
        exact .after _ fun _ => (hchildren _).bind fun _ ha =>
          hspan.bind fun _ hs => gives_some (fits_of_spans rfl hs ha)
      | some receiver =>
        refine .after _ fun owner => ?_
        cases owner with
        | type owner =>
          exact .after _ fun _ => (hchildren _).bind fun _ ha =>
            hspan.bind fun _ hs => gives_some (fits_of_spans rfl hs ha)
        | object tree =>
          exact (ih .inner tree).bind fun _ ho => .after _ fun _ =>
            (hchildren _).bind fun _ ha => hspan.bind fun _ hs =>
              gives_some (fits_of_spans rfl hs (List.forall_mem_append.mpr ⟨ho, ha⟩))
    case h_8 =>
      exact .after _ fun _ => (hchildren _).bind fun _ ha =>
        hspan.bind fun _ hs => gives_some (fits_of_spans rfl hs ha)
    case h_9 =>
      exact (hchildren _).bind fun _ hi => hspan.bind fun _ hs =>
        gives_some (fits_of_spans rfl hs hi)
    case h_10 => exact gives_none

theorem gives_readAt (nesting : Nesting) (j : Json) : Gives Fits (Expr.readAt? nesting j) :=
  gives_ofJson _ nesting j

theorem gives_read (j : Json) : Gives Fits (Expr.read? j) := by
  unfold read?
  split
  · exact gives_readAt .outer j
  · exact gives_none

/-- An expression that may be absent fits if it is there. -/
theorem gives_readOptional {read : Json → Option Expr} (h : ∀ j, Gives Fits (read j))
    (parts : List (String × Json)) (name : String) :
    Gives (fun e => ∀ e' ∈ e, e'.Fits) (Expr.readOptional? read parts name) := by
  refine .after _ fun j => ?_
  cases j with
  | none => exact gives_some nofun
  | some j =>
    refine (h j).bind fun e he => gives_some ?_
    rintro _ ⟨rfl⟩
    exact he

end Expr

namespace Stmt

/-- A statement fits if it fits by itself and the statements inside it do. -/
theorem every_of_parts {P : Stmt → Prop} {stmt : Stmt} {inner : List Stmt}
    (hparts : stmt.parts = stmt :: inner) (h : P stmt) (hinner : ∀ part ∈ inner, P part) :
    stmt.every P := by
  intro part hpart
  rw [hparts] at hpart
  rcases List.mem_cons.mp hpart with rfl | hpart
  · exact h
  · exact hinner part hpart

/-- A statement with no statement inside it fits if it fits by itself. -/
theorem every_of_simple {P : Stmt → Prop} {stmt : Stmt} (hparts : stmt.parts = [stmt])
    (h : P stmt) : stmt.every P :=
  every_of_parts hparts h (List.forall_mem_nil _)

/-- Statements that all fit make a block that fits. -/
theorem everyAll_of_forall {P : Stmt → Prop} {block : List Stmt}
    (h : ∀ stmt ∈ block, stmt.every P) : everyAll P block := by
  induction block with
  | nil => exact fun part hpart => by simp [partsOf] at hpart
  | cons stmt rest ih =>
    exact everyAll_cons.mpr ⟨h stmt List.mem_cons_self,
      ih fun stmt hs => h stmt (List.mem_cons_of_mem _ hs)⟩

/-- Every statement that is read fits. -/
theorem gives_ofJson (depth : Nat) (nesting : Nesting) (j : Json) :
    Gives (every OwnFits) (Stmt.ofJson? depth nesting j) := by
  induction depth generalizing nesting j with
  | zero => exact gives_none
  | succ depth ih =>
    rw [ofJson?]
    refine .after _ ?_
    rintro ⟨form, parts⟩
    have hspan := Span.gives_ofMembers parts
    have hchild (name : String) :
        Gives Expr.Fits (do Expr.readAt? .inner (← Json.required? parts name)) :=
      .after _ fun j => Expr.gives_readAt .inner j
    have hoptional := Expr.gives_readOptional (Expr.gives_readAt .inner) parts
    have hstatements (j : Json) : Gives (everyAll OwnFits) (do
        (← j.asItems?).mapM (Stmt.ofJson? depth .inner)) := by
      refine .after _ fun items => ?_
      exact fun block hblock =>
        everyAll_of_forall (Gives.mapM (fun j => ih .inner j) items block hblock)
    have hblock (name : String) : Gives (everyAll OwnFits) (do
        (← (← Json.required? parts name).asItems?).mapM (Stmt.ofJson? depth .inner)) :=
      .after _ fun j => hstatements j
    dsimp only
    split
    case h_1 =>
      exact .after _ fun _ => .after _ fun _ => (hoptional _).bind fun init hi =>
        hspan.bind fun _ hs => gives_some
          (every_of_simple rfl ⟨hs, fun e he => hi e (Option.mem_toList.mp he)⟩)
    case h_2 =>
      exact (hchild _).bind fun _ ht => (hchild _).bind fun _ hv => hspan.bind fun _ hs =>
        gives_some (every_of_simple rfl ⟨hs, by simp [exprs, ht, hv]⟩)
    case h_3 =>
      refine .after _ fun otherwise => ?_
      cases otherwise with
      | none =>
        refine (gives_some rfl : Gives (· = none) _).bind fun no hno => ?_
        subst hno
        exact (hchild _).bind fun _ ht => (hblock _).bind fun _ hy => hspan.bind fun _ hs =>
          gives_some (every_of_parts rfl ⟨hs, by simp [exprs, ht]⟩ hy)
      | some j =>
        refine ((hstatements j).map fun block hb => ⟨block, rfl, hb⟩ : Gives (fun no =>
          ∃ block, no = some block ∧ everyAll OwnFits block) _).bind fun no hno => ?_
        obtain ⟨block, rfl, hb⟩ := hno
        exact (hchild _).bind fun _ ht => (hblock _).bind fun _ hy => hspan.bind fun _ hs =>
          gives_some (every_of_parts rfl ⟨hs, by simp [exprs, ht]⟩
            (List.forall_mem_append.mpr ⟨hy, hb⟩))
    case h_4 =>
      exact (hchild _).bind fun _ ht => .after _ fun _ => hspan.bind fun _ hs =>
        gives_some (every_of_simple rfl ⟨hs, by simp [exprs, ht]⟩)
    case h_5 =>
      exact .after _ fun _ => .after _ fun _ => .after _ fun _ => (hchild _).bind fun _ ht =>
        (hblock _).bind fun _ hb => hspan.bind fun _ hs =>
          gives_some (every_of_parts rfl ⟨hs, by simp [exprs, ht]⟩ hb)
    case h_6 =>
      exact (hoptional _).bind fun value hv => hspan.bind fun _ hs => gives_some
        (every_of_simple rfl ⟨hs, fun e he => hv e (Option.mem_toList.mp he)⟩)
    case h_7 =>
      exact hspan.bind fun _ hs => gives_some (every_of_simple rfl ⟨hs, List.forall_mem_nil _⟩)
    case h_8 =>
      exact (hchild _).bind fun _ hv => hspan.bind fun _ hs =>
        gives_some (every_of_simple rfl ⟨hs, by simp [exprs, hv]⟩)
    case h_9 =>
      refine .after _ fun name => ?_
      cases name <;>
        exact .after _ fun _ => (hblock _).bind fun _ hb => (hblock _).bind fun _ hh =>
          hspan.bind fun _ hs => gives_some
            (every_of_parts rfl ⟨hs, List.forall_mem_nil _⟩ (List.forall_mem_append.mpr ⟨hb, hh⟩))
    case h_10 =>
      exact (hchild _).bind fun _ he => hspan.bind fun _ hs =>
        gives_some (every_of_simple rfl ⟨hs, by simp [exprs, he]⟩)
    case h_11 =>
      exact .after _ fun _ => hspan.bind fun _ hs =>
        gives_some (every_of_simple rfl ⟨hs, List.forall_mem_nil _⟩)
    case h_12 =>
      exact .after _ fun _ => hspan.bind fun _ hs =>
        gives_some (every_of_simple rfl ⟨hs, List.forall_mem_nil _⟩)
    case h_13 => exact gives_none

theorem gives_read (j : Json) : Gives (every OwnFits) (Stmt.read? j) := by
  unfold read?
  split
  · exact gives_ofJson _ .outer j
  · exact gives_none

end Stmt

/-- Every block that is read fits. -/
theorem Block.gives_read (j : Json) : Gives (Stmt.everyAll Stmt.OwnFits) (Block.read? j) :=
  fun block hblock => Stmt.everyAll_of_forall (gives_listOf Stmt.gives_read j block hblock)

/-- Every method that is read fits. -/
theorem Method.gives_read (j : Json) : Gives Fits (Method.read? j) := by
  refine .after _ fun parts => .after _ fun _ => ?_
  refine (gives_asNatBelow Word.count32 _).bind fun _ hid => ?_
  exact .after _ fun _ => .after _ fun _ => .after _ fun _ => .after _ fun _ => .after _ fun _ =>
    .after _ fun _ => (Block.gives_read _).bind fun _ hb =>
      (Span.gives_ofMembers parts).bind fun _ hs => gives_some ⟨hid, hs, hb⟩

/-- Every global variable that is read fits. -/
theorem Global.gives_read (j : Json) : Gives Fits (Global.read? j) :=
  .after _ fun parts => .after _ fun _ => .after _ fun _ => .after _ fun _ =>
    (Expr.gives_readOptional Expr.gives_read parts "init").bind fun _ hi =>
      (Span.gives_ofMembers parts).bind fun _ hs => gives_some ⟨hs, hi⟩

/-- Every program that is read fits. -/
theorem Program.gives_read (j : Json) : Gives Fits (Program.read? j) := by
  refine .after _ fun parts => .after _ fun _ => ?_
  refine (gives_listOf Method.gives_read _).bind fun _ hm => ?_
  refine (gives_orDefault (gives_listOf Global.gives_read) (by simp)).bind fun _ hg => ?_
  exact .after _ fun _ => .after _ fun _ => gives_some ⟨hm, hg⟩

/-- All blocks of a program: the bodies of its methods and the blocks inside them. -/
def Program.blocks (p : Program) : List (List Stmt) :=
  p.methods.flatMap fun m => m.body :: (Stmt.partsOf m.body).flatMap Stmt.blocks

/-- Where the labels of each block stand. -/
def Program.labelPositions (p : Program) : List (String → Option Nat) :=
  p.blocks.map Block.position?

/-- Reading what was written for a program gives the program, with its labels
where they were, and a program that was read from any tree is read again from
what is written for it. -/
theorem Program.interchange_lossless :
    (∀ p : Program, p.Fits → ∃ q, Program.read? p.toJson = some q ∧ q = p ∧
      q.labelPositions = p.labelPositions) ∧
    ∀ (j : Json) (p : Program), Program.read? j = some p → Program.read? p.toJson = some p := by
  refine ⟨fun p h => ⟨p, Program.read?_toJson h, rfl, rfl⟩, fun j p hread => ?_⟩
  exact Program.read?_toJson (Program.gives_read j p hread)

/-- A loop that is left by a jump over a handler, behind a global variable. -/
def Program.labelled : Program :=
  (Program.empty.addGlobal "total" .scalar (some (.ofLiteral (.int (-5))))).addMethod
    ((Method.start "Main").asEntryPoint.withParam "n" .array |>.withBody
      [.doWhile
        [.atLine 3 (.tryCatch [.goto "out" .blank] none [.raise (.minus (.named "n"))]),
          .label "out" .blank]
        (.invokeOn (.named "n") "Any" [.ofLiteral .null])])

/-- The same program with defaults left out, parts that nobody knows and
lists in place of objects. -/
def Json.looselyLabelled : Json :=
  .obj [("comment", .broken),
    ("globals", .arr [.arr [.str "total", .str "scalar",
      .obj [("t", .str "Literal"), ("value", .arr [.str "Int", .int (-5)])]]]),
    ("methods", .arr [.obj [("id", .int 0), ("name", .str "Main"),
      ("is_entry_point", .bool true), ("is_async", .bool false),
      ("params", .arr [.arr [.str "n", .str "array"]]),
      ("body", .arr [.obj [("t", .str "Iteration"), ("kind", .str "PostCondition"),
        ("note", .null),
        ("test", .obj [("t", .str "Invoke"), ("method", .str "Any"),
          ("receiver", .obj [("t", .str "Instance"),
            ("object", .obj [("t", .str "Variable"), ("name", .str "n")])]),
          ("args", .arr [.arr [.str "Literal", .obj [("t", .str "Null")]]])]),
        ("body", .arr [
          .obj [("t", .str "TryCatch"), ("span", (Span.line 3).toJson),
            ("body", .arr [.arr [.str "Goto", .str "out"]]), ("catch_var", .null),
            ("catch_body", .arr [.obj [("t", .str "Throw"),
              ("value", .obj [("t", .str "Unary"), ("op", .str "Neg"),
                ("operand", .arr [.str "Variable", .str "n"])])]])],
          .arr [.str "Label", .str "out"]])]])]])]

theorem Program.labelled_interchange_lossless :
    Program.labelled.Fits ∧
    Program.labelled.blocks.map (Block.position? · "out") = [none, some 1, none, none] ∧
    (∃ q, Program.read? Program.labelled.toJson = some q ∧
      q = Program.labelled ∧ q.labelPositions = Program.labelled.labelPositions) ∧
    Program.read? Json.looselyLabelled = some Program.labelled ∧
    Program.read? Program.labelled.toJson = some Program.labelled := by
  have hread : Program.read? Json.looselyLabelled = some Program.labelled := rfl
  have hfits := Program.gives_read _ _ hread
  exact ⟨hfits, by decide, Program.interchange_lossless.1 _ hfits, hread,
    Program.interchange_lossless.2 _ _ hread⟩

end Stepwise
