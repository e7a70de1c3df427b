import Stepwise.Program.Reader
import Stepwise.Program.Writer
import Stepwise.Proofs.Program.Scoping

/-!
# Reading what was written

Reading what was written for a program gives the program back, whatever
methods, statements and expressions it has, as long as its numbers fit their
words. The proof follows the nodes of the tree: a node is opened by its tag,
its span and its other parts are found under their names, and the parts are
less high than the node. Doubles are kept as they are.
-/

namespace Stepwise

/-- Each part of a span is an unsigned word. -/
structure Span.Fits (s : Span) : Prop where
  /-- The first byte. -/
  start : s.start < Word.count
  /-- The byte behind. -/
  stop : s.stop < Word.count
  /-- The first line. -/
  startLine : s.startLine < Word.count
  /-- The first column. -/
  startCol : s.startCol < Word.count
  /-- The last line. -/
  endLine : s.endLine < Word.count
  /-- The last column. -/
  endCol : s.endCol < Word.count

mutual

/-- The spans of an expression and of all expressions in it. -/
def Expr.spans : Expr → List Span
  | .literal _ span | .var _ _ span | .staticProperty _ _ span => [span]
  | .property object _ span => span :: object.spans
  | .index target position span => span :: (target.spans ++ position.spans)
  | .binary _ left right span => span :: (left.spans ++ right.spans)
  | .unary _ operand span => span :: operand.spans
  | .call _ args span | .callStatic _ _ args span | .create _ args span =>
    span :: Expr.listSpans args
  | .callOn object _ args span => span :: (object.spans ++ Expr.listSpans args)
  | .array items span => span :: Expr.listSpans items

/-- The spans of expressions. -/
def Expr.listSpans : List Expr → List Span
  | [] => []
  | e :: rest => e.spans ++ Expr.listSpans rest

end

/-- All spans of an expression fit. -/
def Expr.Fits (e : Expr) : Prop := ∀ s ∈ e.spans, s.Fits

/-- All spans of expressions fit. -/
def Expr.ListFits (es : List Expr) : Prop := ∀ s ∈ Expr.listSpans es, s.Fits

/-- The span of the statement itself fits, and so do those of its expressions. -/
structure Stmt.OwnFits (stmt : Stmt) : Prop where
  /-- The statement. -/
  span : stmt.span.Fits
  /-- Its expressions. -/
  exprs : ∀ e ∈ stmt.exprs, e.Fits

/-- The numbers of a method fit their words. -/
structure Method.Fits (m : Method) : Prop where
  /-- The number of the method has 32 bits. -/
  id : m.id < Word.count32
  /-- The span of the method. -/
  span : m.span.Fits
  /-- The spans of its statements. -/
  body : Stmt.everyAll Stmt.OwnFits m.body

/-- The spans of a global variable fit. -/
structure Global.Fits (g : Global) : Prop where
  /-- The span of the declaration. -/
  span : g.span.Fits
  /-- The spans of the first value. -/
  init : ∀ e ∈ g.init, e.Fits

/-- The numbers of a program fit their words. -/
structure Program.Fits (p : Program) : Prop where
  /-- Those of the methods. -/
  methods : ∀ m ∈ p.methods, m.Fits
  /-- Those of the globals. -/
  globals : ∀ g ∈ p.globals, g.Fits

namespace Json

/-- Members of a name in two lists. -/
theorem named_append (name : String) (a b : List (String × Json)) :
    named name (a ++ b) = named name a ++ named name b := by
  induction a with
  | nil => rfl
  | cons member rest ih =>
    obtain ⟨key, value⟩ := member
    simp only [List.cons_append, named, ih]
    split <;> rfl

/-- A number below a bound is read as such. -/
theorem asNatBelow?_int {n bound : Nat} (h : n < bound) :
    (Json.int n).asNatBelow? bound = some n := by
  simp [asNatBelow?, h]

/-- A member that is a number below a bound. -/
theorem required?_bind_int {members : List (String × Json)} {name : String} {n bound : Nat}
    (h : required? members name = some (.int n)) (hn : n < bound) :
    (required? members name).bind (fun j => j.asNatBelow? bound) = some n :=
  Option.bind_eq_some_iff.mpr ⟨_, h, asNatBelow?_int hn⟩

/-- A member that may be absent and is there. -/
theorem optional?_of_named {members : List (String × Json)} {name : String} {value : Json}
    (h : named name members = [value]) (hvalue : value ≠ .null) :
    optional? members name = some (some value) := by
  unfold optional?
  rw [h]
  cases value <;> first | rfl | exact absurd rfl hvalue

/-- A member of an object is not higher than the highest. -/
theorem height_le_of_mem_members {name : String} {j : Json} {members : List (String × Json)}
    (h : (name, j) ∈ members) : j.height ≤ heightMembers members := by
  induction members with
  | nil => cases h
  | cons member rest ih =>
    obtain ⟨key, value⟩ := member
    rw [heightMembers]
    rcases List.mem_cons.mp h with he | h
    · cases he
      exact Nat.le_max_left _ _
    · exact Nat.le_trans (ih h) (Nat.le_max_right _ _)

/-- Members are whole if those of both lists are. -/
theorem isWholeMembers_append (a b : List (String × Json)) :
    isWholeMembers (a ++ b) = (isWholeMembers a && isWholeMembers b) := by
  induction a with
  | nil => rfl
  | cons member rest ih =>
    obtain ⟨key, value⟩ := member
    rw [List.cons_append, isWholeMembers, isWholeMembers, ih, Bool.and_assoc]

end Json

namespace Span

/-- An object with the six parts of a span is read as that span. -/
theorem ofJson?_obj {members : List (String × Json)} {s : Span} (h : s.Fits)
    (start : Json.required? members "start" = some (.int s.start))
    (stop : Json.required? members "end" = some (.int s.stop))
    (startLine : Json.required? members "start_line" = some (.int s.startLine))
    (startCol : Json.required? members "start_col" = some (.int s.startCol))
    (endLine : Json.required? members "end_line" = some (.int s.endLine))
    (endCol : Json.required? members "end_col" = some (.int s.endCol)) :
    Span.ofJson? (.obj members) = some s := by
  unfold Span.ofJson? Json.parts?
  simp only [Option.bind_eq_bind, Option.bind_some]
  rw [Json.required?_bind_int start h.start, Option.bind_some,
    Json.required?_bind_int stop h.stop, Option.bind_some,
    Json.required?_bind_int startLine h.startLine, Option.bind_some,
    Json.required?_bind_int startCol h.startCol, Option.bind_some,
    Json.required?_bind_int endLine h.endLine, Option.bind_some,
    Json.required?_bind_int endCol h.endCol, Option.bind_some]

/-- A span is read as it was written. -/
theorem ofJson?_toJson {s : Span} (h : s.Fits) : Span.ofJson? s.toJson = some s :=
  ofJson?_obj h rfl rfl rfl rfl rfl rfl

/-- The member for the span has no other name. -/
theorem named_member (s : Span) {name : String} (h : name ≠ "span") :
    Json.named name s.member = [] := by
  unfold member
  split
  · rfl
  · simp [Json.named, Ne.symm h]

/-- The span is read from behind members that are none. -/
theorem ofMembers?_append {members : List (String × Json)} {s : Span} (h : s.Fits)
    (hnone : Json.named "span" members = []) :
    Span.ofMembers? (members ++ s.member) = some s := by
  unfold Span.ofMembers? Json.orDefault? member
  rw [Json.named_append, hnone]
  cases hb : s.isBlank with
  | true => simp [Json.named, (s.isBlank_iff).mp hb]
  | false => simp [Json.named, ofJson?_toJson h]

theorem isWholeMembers_member (s : Span) : Json.isWholeMembers s.member = true := by
  unfold member
  split <;> simp [Json.isWholeMembers, Span.toJson, Json.isWhole]

end Span

/-- The parts of a node as they are written. -/
def nodeParts (tag : String) (members : List (String × Json)) (span : Span) :
    List (String × Json) :=
  ("t", .str tag) :: members ++ span.member

section Nodes

variable {tag name : String} {members : List (String × Json)} {span : Span}

/-- Apart from tag and span, a node has the members that were given. -/
theorem named_nodeParts (ht : name ≠ "t") (hs : name ≠ "span") :
    Json.named name (nodeParts tag members span) = Json.named name members := by
  simp [nodeParts, Json.named, Json.named_append, span.named_member hs, Ne.symm ht]

/-- A part of a node that may be absent and is there. -/
theorem optional?_nodeParts (ht : name ≠ "t") (hs : name ≠ "span") {value : Json}
    (h : Json.named name members = [value]) (hvalue : value ≠ .null) :
    Json.optional? (nodeParts tag members span) name = some (some value) :=
  Json.optional?_of_named ((named_nodeParts ht hs).trans h) hvalue

/-- The span of a node is read as it was written. -/
theorem ofMembers?_nodeParts (h : span.Fits) (hnone : Json.named "span" members = []) :
    Span.ofMembers? (nodeParts tag members span) = some span :=
  Span.ofMembers?_append h (by simp [Json.named, hnone])

/-- A node is opened by its tag. -/
theorem open?_node {forms : List Form} {form : Form} (nesting : Nesting)
    (hform : forms.find? (fun form => form.kind == tag) = some form)
    (hnone : Json.named "t" members = []) :
    Form.open? forms nesting (node tag members span) =
      some (form, nodeParts tag members span) := by
  have htag : Json.required? (nodeParts tag members span) "t" = some (.str tag) := by
    simp [Json.required?, nodeParts, Json.named, Json.named_append, hnone, span.named_member]
  show (do
    let form ← Form.find? forms nesting (← Json.required? (nodeParts tag members span) "t")
    some (form, nodeParts tag members span)) = _
  rw [htag]
  simp [Form.find?, hform]

/-- A part of a node is less high than the node. -/
theorem height_lt_node {j : Json} (h : (name, j) ∈ members) :
    j.height < (node tag members span).height := by
  have hmem : (name, j) ∈ ("t", .str tag) :: members ++ span.member :=
    List.mem_append_left _ (List.mem_cons_of_mem _ h)
  exact Nat.lt_succ_of_le (Json.height_le_of_mem_members hmem)

/-- A node is whole if its parts are. -/
theorem isWhole_node : (node tag members span).isWhole = Json.isWholeMembers members := by
  simp [node, Json.isWhole, Json.isWholeMembers, Json.isWholeMembers_append,
    span.isWholeMembers_member]

end Nodes

/-- A signed word is read as it was written. -/
theorem int64OfJson?_toInt (n : Int64) : int64OfJson? (.int n.toInt) = some n := by
  have hlow := n.le_toInt
  have hhigh := n.toInt_lt
  have hfits : (decide (-(Word.half : Int) ≤ n.toInt) && decide (n.toInt < Word.half)) = true := by
    rw [Bool.and_eq_true, decide_eq_true_iff, decide_eq_true_iff]
    unfold Word.half
    omega
  show (if _ then _ else _) = _
  rw [if_pos hfits, Int64.ofInt_toInt]

/-- A constant is read as it was written. -/
theorem Literal.ofJson?_toJson (l : Literal) : Literal.ofJson? l.toJson = some l := by
  cases l with
  | int n =>
    simp [toJson, ofJson?, Literal.open?, Json.required?, Json.named, Json.word?,
      int64OfJson?_toInt]
  | _ =>
    simp [toJson, ofJson?, Literal.open?, Json.required?, Json.optional?, Json.named, Json.word?,
      Json.asBool?, Json.asString?, floatOfJson?]

theorem BinaryOp.ofWord?_word (op : BinaryOp) : BinaryOp.ofWord? op.word = some op := by
  cases op <;> rfl

theorem UnaryOp.ofWord?_word (op : UnaryOp) : UnaryOp.ofWord? op.word = some op := by
  cases op <;> rfl

theorem LoopKind.ofWord?_word (kind : LoopKind) : LoopKind.ofWord? kind.word = some kind := by
  cases kind <;> rfl

theorem Shape.ofWord?_word (shape : Shape) : Shape.ofWord? shape.word = some shape := by
  cases shape <;> rfl

/-- A shape is read as it was written. -/
theorem Shape.ofJson?_toJson (nesting : Nesting) (shape : Shape) :
    Shape.ofJson? nesting shape.toJson = some shape := by
  simp [Shape.ofJson?, Shape.toJson, Json.word?, shape.ofWord?_word]

theorem Owner.ofJson?_typeOwner (name : String) :
    Owner.ofJson? (typeOwner name) = some (.type name) := by
  simp [Owner.ofJson?, typeOwner, Form.open?, Form.find?, Owner.forms, Json.required?, Json.named,
    Json.asString?]

theorem Owner.ofJson?_objectOwner (object : Json) :
    Owner.ofJson? (objectOwner object) = some (.object object) := by
  simp [Owner.ofJson?, objectOwner, Form.open?, Form.find?, Owner.forms, Json.required?,
    Json.named]

/-- The object of an owner is less high than the owner. -/
theorem height_lt_objectOwner (object : Json) :
    object.height < (objectOwner object).height := by
  have hmem : ("object", object) ∈ [("t", .str "Instance"), ("object", object)] := by simp
  exact Nat.lt_succ_of_le (Json.height_le_of_mem_members hmem)

/-- A node is read with a level more than its parts need. -/
theorem exists_level {depth : Nat} {tag : String} {members : List (String × Json)} {span : Span}
    (h : (node tag members span).height ≤ depth) :
    ∃ rest, depth = rest + 1 ∧ ∀ name j, (name, j) ∈ members → j.height ≤ rest := by
  cases depth with
  | zero => exact absurd h (Nat.not_succ_le_zero _)
  | succ rest =>
    refine ⟨rest, rfl, fun name j hj => ?_⟩
    have hlt : j.height < (node tag members span).height := height_lt_node hj
    omega

section Expressions

namespace Expr

mutual

/-- An expression is read as it was written. -/
theorem ofJson?_toJson : ∀ (e : Expr), e.Fits → ∀ (depth : Nat) (nesting : Nesting),
    e.toJson.height ≤ depth → Expr.ofJson? depth nesting e.toJson = some e
  | .literal value span, h, depth, nesting, hd => by
    rw [toJson] at hd ⊢
    obtain ⟨rest, rfl, -⟩ := exists_level hd
    have hspan : span.Fits := h span (by simp [spans])
    rw [ofJson?, open?_node nesting (by rfl) (by rfl)]
    simp [Json.required?, named_nodeParts, ofMembers?_nodeParts hspan, Json.named,
      value.ofJson?_toJson]
  | .var name isGlobal span, h, depth, nesting, hd => by
    rw [toJson] at hd ⊢
    obtain ⟨rest, rfl, -⟩ := exists_level hd
    have hspan : span.Fits := h span (by simp [spans])
    -- The flag is written only if it is set.
    cases isGlobal <;>
    · rw [ofJson?, open?_node nesting (by rfl) (by rfl)]
      simp [Json.required?, Json.orDefault?, named_nodeParts, ofMembers?_nodeParts hspan,
        Json.named, Json.asString?, Json.asBool?]
  | .staticProperty typeName name span, h, depth, nesting, hd => by
    rw [toJson] at hd ⊢
    obtain ⟨rest, rfl, -⟩ := exists_level hd
    have hspan : span.Fits := h span (by simp [spans])
    rw [ofJson?, open?_node nesting (by rfl) (by rfl)]
    simp [Json.required?, named_nodeParts, ofMembers?_nodeParts hspan, Json.named,
      Json.asString?, Owner.ofJson?_typeOwner]
  | .property object name span, h, depth, nesting, hd => by
    rw [toJson] at hd ⊢
    obtain ⟨rest, rfl, hrest⟩ := exists_level hd
    have hspan : span.Fits := h span (by simp [spans])
    have hobject := ofJson?_toJson object (fun s hs => h s (by simp [spans, hs])) rest .inner
      (Nat.le_of_lt (Nat.lt_of_lt_of_le (height_lt_objectOwner _) (hrest "receiver" _ (by simp))))
    rw [ofJson?, open?_node nesting (by rfl) (by rfl)]
    simp [Json.required?, named_nodeParts, ofMembers?_nodeParts hspan, Json.named,
      Json.asString?, Owner.ofJson?_objectOwner, hobject]
  | .index target position span, h, depth, nesting, hd => by
    rw [toJson] at hd ⊢
    obtain ⟨rest, rfl, hrest⟩ := exists_level hd
    have hspan : span.Fits := h span (by simp [spans])
    have htarget := ofJson?_toJson target (fun s hs => h s (by simp [spans, hs])) rest .inner
      (hrest "target" _ (by simp))
    have hposition := ofJson?_toJson position (fun s hs => h s (by simp [spans, hs])) rest .inner
      (hrest "index" _ (by simp))
    rw [ofJson?, open?_node nesting (by rfl) (by rfl)]
    simp [Json.required?, named_nodeParts, ofMembers?_nodeParts hspan, Json.named, htarget,
      hposition]
  | .binary op left right span, h, depth, nesting, hd => by
    rw [toJson] at hd ⊢
    obtain ⟨rest, rfl, hrest⟩ := exists_level hd
    have hspan : span.Fits := h span (by simp [spans])
    have hleft := ofJson?_toJson left (fun s hs => h s (by simp [spans, hs])) rest .inner
      (hrest "left" _ (by simp))
    have hright := ofJson?_toJson right (fun s hs => h s (by simp [spans, hs])) rest .inner
      (hrest "right" _ (by simp))
    rw [ofJson?, open?_node nesting (by rfl) (by rfl)]
    simp [Json.required?, named_nodeParts, ofMembers?_nodeParts hspan, Json.named, Json.word?,
      op.ofWord?_word, hleft, hright]
  | .unary op operand span, h, depth, nesting, hd => by
    rw [toJson] at hd ⊢
    obtain ⟨rest, rfl, hrest⟩ := exists_level hd
    have hspan : span.Fits := h span (by simp [spans])
    have hoperand := ofJson?_toJson operand (fun s hs => h s (by simp [spans, hs])) rest .inner
      (hrest "operand" _ (by simp))
    rw [ofJson?, open?_node nesting (by rfl) (by rfl)]
    simp [Json.required?, named_nodeParts, ofMembers?_nodeParts hspan, Json.named, Json.word?,
      op.ofWord?_word, hoperand]
  | .call method args span, h, depth, nesting, hd => by
    rw [toJson] at hd ⊢
    obtain ⟨rest, rfl, hrest⟩ := exists_level hd
    have hspan : span.Fits := h span (by simp [spans])
    have hargs := mapM_listToJson args (fun s hs => h s (by simp [spans, hs])) rest
      (hrest "args" _ (by simp))
    rw [ofJson?, open?_node nesting (by rfl) (by rfl)]
    simp [Json.required?, Json.optional?, named_nodeParts, ofMembers?_nodeParts hspan, Json.named,
      Json.asString?, Json.asItems?, hargs]
  | .callStatic typeName method args span, h, depth, nesting, hd => by
    rw [toJson] at hd ⊢
    obtain ⟨rest, rfl, hrest⟩ := exists_level hd
    have hspan : span.Fits := h span (by simp [spans])
    have hargs := mapM_listToJson args (fun s hs => h s (by simp [spans, hs])) rest
      (hrest "args" _ (by simp))
    have hreceiver : Json.optional? (nodeParts "Invoke" [("receiver", typeOwner typeName),
        ("method", .str method), ("args", .arr (listToJson args))] span) "receiver" =
          some (some (typeOwner typeName)) :=
      optional?_nodeParts (by simp) (by simp) rfl (by simp [typeOwner])
    rw [ofJson?, open?_node nesting (by rfl) (by rfl)]
    simp [Json.required?, hreceiver, named_nodeParts, ofMembers?_nodeParts hspan, Json.named,
      Json.asString?, Json.asItems?, hargs, Owner.ofJson?_typeOwner]
  | .callOn object method args span, h, depth, nesting, hd => by
    rw [toJson] at hd ⊢
    obtain ⟨rest, rfl, hrest⟩ := exists_level hd
    have hspan : span.Fits := h span (by simp [spans])
    have hobject := ofJson?_toJson object (fun s hs => h s (by simp [spans, hs])) rest .inner
      (Nat.le_of_lt (Nat.lt_of_lt_of_le (height_lt_objectOwner _) (hrest "receiver" _ (by simp))))
    have hargs := mapM_listToJson args (fun s hs => h s (by simp [spans, hs])) rest
      (hrest "args" _ (by simp))
    have hreceiver : Json.optional? (nodeParts "Invoke" [("receiver", objectOwner object.toJson),
        ("method", .str method), ("args", .arr (listToJson args))] span) "receiver" =
          some (some (objectOwner object.toJson)) :=
      optional?_nodeParts (by simp) (by simp) rfl (by simp [objectOwner])
    rw [ofJson?, open?_node nesting (by rfl) (by rfl)]
    simp [Json.required?, hreceiver, named_nodeParts, ofMembers?_nodeParts hspan, Json.named,
      Json.asString?, Json.asItems?, hargs, Owner.ofJson?_objectOwner, hobject]
  | .create typeName args span, h, depth, nesting, hd => by
    rw [toJson] at hd ⊢
    obtain ⟨rest, rfl, hrest⟩ := exists_level hd
    have hspan : span.Fits := h span (by simp [spans])
    have hargs := mapM_listToJson args (fun s hs => h s (by simp [spans, hs])) rest
      (hrest "args" _ (by simp))
    rw [ofJson?, open?_node nesting (by rfl) (by rfl)]
    simp [Json.required?, named_nodeParts, ofMembers?_nodeParts hspan, Json.named, Json.asString?,
      Json.asItems?, hargs]
  | .array items span, h, depth, nesting, hd => by
    rw [toJson] at hd ⊢
    obtain ⟨rest, rfl, hrest⟩ := exists_level hd
    have hspan : span.Fits := h span (by simp [spans])
    have hitems := mapM_listToJson items (fun s hs => h s (by simp [spans, hs])) rest
      (hrest "items" _ (by simp))
    rw [ofJson?, open?_node nesting (by rfl) (by rfl)]
    simp [Json.required?, named_nodeParts, ofMembers?_nodeParts hspan, Json.named, Json.asItems?,
      hitems]

/-- Expressions are read as they were written. -/
theorem mapM_listToJson : ∀ (es : List Expr), ListFits es → ∀ (depth : Nat),
    (Json.arr (listToJson es)).height ≤ depth →
      (listToJson es).mapM (Expr.ofJson? depth .inner) = some es
  | [], _, _, _ => by
    rw [listToJson]
    rfl
  | e :: rest, h, depth, hd => by
    rw [listToJson, Json.height, Json.heightItems] at hd
    have hfirst := ofJson?_toJson e (fun s hs => h s (by simp [listSpans, hs])) depth .inner
      (by omega)
    have hrest := mapM_listToJson rest (fun s hs => h s (by simp [listSpans, hs])) depth
      (by rw [Json.height]; omega)
    rw [listToJson, List.mapM_cons, hfirst, hrest]
    rfl

end

mutual

/-- What is written for an expression stands for something. -/
theorem isWhole_toJson : ∀ e : Expr, e.toJson.isWhole = true
  | .literal value _ => by
    rw [toJson, isWhole_node]
    cases value <;> rfl
  | .var _ isGlobal _ => by
    rw [toJson, isWhole_node]
    cases isGlobal <;> rfl
  | .staticProperty .. => by
    rw [toJson, isWhole_node]
    rfl
  | .property object _ _ => by
    rw [toJson, isWhole_node]
    simp [Json.isWholeMembers, objectOwner, Json.isWhole, isWhole_toJson object]
  | .index target position _ => by
    rw [toJson, isWhole_node]
    simp [Json.isWholeMembers, isWhole_toJson target, isWhole_toJson position]
  | .binary _ left right _ => by
    rw [toJson, isWhole_node]
    simp [Json.isWholeMembers, Json.isWhole, isWhole_toJson left, isWhole_toJson right]
  | .unary _ operand _ => by
    rw [toJson, isWhole_node]
    simp [Json.isWholeMembers, Json.isWhole, isWhole_toJson operand]
  | .call _ args _ => by
    rw [toJson, isWhole_node]
    simp [Json.isWholeMembers, Json.isWhole, isWholeItems_listToJson args]
  | .callStatic _ _ args _ => by
    rw [toJson, isWhole_node]
    simp [Json.isWholeMembers, typeOwner, Json.isWhole, isWholeItems_listToJson args]
  | .callOn object _ args _ => by
    rw [toJson, isWhole_node]
    simp [Json.isWholeMembers, objectOwner, Json.isWhole, isWhole_toJson object,
      isWholeItems_listToJson args]
  | .create _ args _ => by
    rw [toJson, isWhole_node]
    simp [Json.isWholeMembers, Json.isWhole, isWholeItems_listToJson args]
  | .array items _ => by
    rw [toJson, isWhole_node]
    simp [Json.isWholeMembers, Json.isWhole, isWholeItems_listToJson items]

/-- What is written for expressions stands for something. -/
theorem isWholeItems_listToJson : ∀ es : List Expr, Json.isWholeItems (listToJson es) = true
  | [] => by
    rw [listToJson]
    rfl
  | e :: rest => by
    rw [listToJson, Json.isWholeItems, isWhole_toJson e, isWholeItems_listToJson rest]
    rfl

end

/-- What is written for an expression is no `null`. -/
theorem toJson_ne_null (e : Expr) : e.toJson ≠ .null := by
  cases e <;> simp [toJson, node]

/-- An expression within a node is read as it was written. -/
theorem readAt?_toJson {e : Expr} (h : e.Fits) (nesting : Nesting) :
    Expr.readAt? nesting e.toJson = some e :=
  ofJson?_toJson e h _ nesting (Nat.le_refl _)

/-- An expression that stands alone is read as it was written. -/
theorem read?_toJson {e : Expr} (h : e.Fits) : Expr.read? e.toJson = some e := by
  rw [read?, isWhole_toJson, if_pos rfl, readAt?_toJson h]

theorem isWhole_optionToJson (e : Option Expr) : (optionToJson e).isWhole = true := by
  cases e with
  | none => rfl
  | some e => exact isWhole_toJson e

/-- An expression that may be absent is read as it was written. -/
theorem readOptional?_optionToJson (read : Json → Option Expr) (parts : List (String × Json))
    (name : String) (e : Option Expr) (hread : ∀ e' ∈ e, read e'.toJson = some e')
    (h : Json.named name parts = [optionToJson e]) :
    Expr.readOptional? read parts name = some e := by
  unfold readOptional?
  cases e with
  | none =>
    have hnone : Json.optional? parts name = some none := by
      rw [Json.optional?, h]
      rfl
    rw [hnone]
    rfl
  | some e =>
    have hsome : Json.optional? parts name = some (some e.toJson) :=
      Json.optional?_of_named h (toJson_ne_null e)
    rw [hsome]
    simp [hread e rfl]

end Expr

end Expressions

namespace Stmt

mutual

/-- A statement is read as it was written. -/
theorem ofJson?_toJson : ∀ (stmt : Stmt), stmt.every OwnFits → ∀ (depth : Nat) (nesting : Nesting),
    stmt.toJson.height ≤ depth → Stmt.ofJson? depth nesting stmt.toJson = some stmt
  | .declare name shape init span, h, depth, nesting, hd => by
    rw [toJson] at hd ⊢
    obtain ⟨rest, rfl, -⟩ := exists_level hd
    have hspan : span.Fits := (every_self h).span
    have hinit := Expr.readOptional?_optionToJson (Expr.readAt? .inner)
      (nodeParts "Declare" [("name", .str name), ("shape", shape.toJson),
        ("init", Expr.optionToJson init)] span) "init" init
      (fun e he => Expr.readAt?_toJson ((every_self h).exprs e (by simpa [exprs] using he)) .inner)
      (named_nodeParts (by simp) (by simp))
    rw [ofJson?, open?_node nesting (by rfl) (by rfl)]
    simp [Json.required?, Json.orDefault?, named_nodeParts, ofMembers?_nodeParts hspan, Json.named,
      Json.asString?, Shape.ofMembers?, shape.ofJson?_toJson, hinit]
  | .assign target value span, h, depth, nesting, hd => by
    rw [toJson] at hd ⊢
    obtain ⟨rest, rfl, -⟩ := exists_level hd
    have hspan : span.Fits := (every_self h).span
    have htarget := Expr.readAt?_toJson ((every_self h).exprs target (by simp [exprs])) .inner
    have hvalue := Expr.readAt?_toJson ((every_self h).exprs value (by simp [exprs])) .inner
    rw [ofJson?, open?_node nesting (by rfl) (by rfl)]
    simp [Json.required?, named_nodeParts, ofMembers?_nodeParts hspan, Json.named, htarget,
      hvalue]
  | .cond test yes none span, h, depth, nesting, hd => by
    rw [toJson] at hd ⊢
    obtain ⟨rest, rfl, hrest⟩ := exists_level hd
    have hspan : span.Fits := (every_self h).span
    have htest := Expr.readAt?_toJson ((every_self h).exprs test (by simp [exprs])) .inner
    have hyes := mapM_listToJson yes (every_cond_none h) rest (hrest "then_block" _ (by simp))
    rw [ofJson?, open?_node nesting (by rfl) (by rfl)]
    simp [Json.required?, Json.optional?, named_nodeParts, ofMembers?_nodeParts hspan, Json.named,
      Json.asItems?, htest, hyes]
  | .cond test yes (some no) span, h, depth, nesting, hd => by
    rw [toJson] at hd ⊢
    obtain ⟨rest, rfl, hrest⟩ := exists_level hd
    have hspan : span.Fits := (every_self h).span
    have htest := Expr.readAt?_toJson ((every_self h).exprs test (by simp [exprs])) .inner
    have hyes := mapM_listToJson yes (every_cond_some h).1 rest (hrest "then_block" _ (by simp))
    have hno := mapM_listToJson no (every_cond_some h).2 rest (hrest "else_block" _ (by simp))
    rw [ofJson?, open?_node nesting (by rfl) (by rfl)]
    simp [Json.required?, Json.optional?, named_nodeParts, ofMembers?_nodeParts hspan, Json.named,
      Json.asItems?, htest, hyes, hno]
  | .branch test mark span, h, depth, nesting, hd => by
    rw [toJson] at hd ⊢
    obtain ⟨rest, rfl, -⟩ := exists_level hd
    have hspan : span.Fits := (every_self h).span
    have htest := Expr.readAt?_toJson ((every_self h).exprs test (by simp [exprs])) .inner
    rw [ofJson?, open?_node nesting (by rfl) (by rfl)]
    simp [Json.required?, named_nodeParts, ofMembers?_nodeParts hspan, Json.named,
      Json.asString?, htest]
  | .loop kind test body span, h, depth, nesting, hd => by
    rw [toJson] at hd ⊢
    obtain ⟨rest, rfl, hrest⟩ := exists_level hd
    have hspan : span.Fits := (every_self h).span
    have htest := Expr.readAt?_toJson ((every_self h).exprs test (by simp [exprs])) .inner
    have hbody := mapM_listToJson body (every_loop h) rest (hrest "body" _ (by simp))
    rw [ofJson?, open?_node nesting (by rfl) (by rfl)]
    simp [Json.required?, named_nodeParts, ofMembers?_nodeParts hspan, Json.named, Json.word?,
      Json.asItems?, kind.ofWord?_word, htest, hbody]
  | .ret value span, h, depth, nesting, hd => by
    rw [toJson] at hd ⊢
    obtain ⟨rest, rfl, -⟩ := exists_level hd
    have hspan : span.Fits := (every_self h).span
    have hvalue := Expr.readOptional?_optionToJson (Expr.readAt? .inner)
      (nodeParts "Return" [("value", Expr.optionToJson value)] span) "value" value
      (fun e he => Expr.readAt?_toJson ((every_self h).exprs e (by simpa [exprs] using he)) .inner)
      (named_nodeParts (by simp) (by simp))
    rw [ofJson?, open?_node nesting (by rfl) (by rfl)]
    simp [ofMembers?_nodeParts hspan, Json.named, hvalue]
  | .brk span, h, depth, nesting, hd => by
    rw [toJson] at hd ⊢
    obtain ⟨rest, rfl, -⟩ := exists_level hd
    have hspan : Span.ofMembers? (nodeParts "Break" [] span) = some span :=
      ofMembers?_nodeParts (every_self h).span rfl
    rw [ofJson?, open?_node nesting (by rfl) (by rfl)]
    simp [hspan]
  | .throw value span, h, depth, nesting, hd => by
    rw [toJson] at hd ⊢
    obtain ⟨rest, rfl, -⟩ := exists_level hd
    have hspan : span.Fits := (every_self h).span
    have hvalue := Expr.readAt?_toJson ((every_self h).exprs value (by simp [exprs])) .inner
    rw [ofJson?, open?_node nesting (by rfl) (by rfl)]
    simp [Json.required?, named_nodeParts, ofMembers?_nodeParts hspan, Json.named, hvalue]
  | .attempt body catchVar handler span, h, depth, nesting, hd => by
    rw [toJson] at hd ⊢
    obtain ⟨rest, rfl, hrest⟩ := exists_level hd
    have hspan : span.Fits := (every_self h).span
    have hbody := mapM_listToJson body (every_attempt h).1 rest (hrest "body" _ (by simp))
    have hhandler := mapM_listToJson handler (every_attempt h).2 rest
      (hrest "catch_body" _ (by simp))
    cases catchVar <;>
    · rw [ofJson?, open?_node nesting (by rfl) (by rfl)]
      simp [Json.required?, Json.optional?, named_nodeParts, ofMembers?_nodeParts hspan,
        Json.named, Json.asItems?, Json.asString?, hbody, hhandler]
  | .eval expr span, h, depth, nesting, hd => by
    rw [toJson] at hd ⊢
    obtain ⟨rest, rfl, -⟩ := exists_level hd
    have hspan : span.Fits := (every_self h).span
    have hexpr := Expr.readAt?_toJson ((every_self h).exprs expr (by simp [exprs])) .inner
    rw [ofJson?, open?_node nesting (by rfl) (by rfl)]
    simp [Json.required?, named_nodeParts, ofMembers?_nodeParts hspan, Json.named, hexpr]
  | .label name span, h, depth, nesting, hd => by
    rw [toJson] at hd ⊢
    obtain ⟨rest, rfl, -⟩ := exists_level hd
    have hspan : span.Fits := (every_self h).span
    rw [ofJson?, open?_node nesting (by rfl) (by rfl)]
    simp [Json.required?, named_nodeParts, ofMembers?_nodeParts hspan, Json.named,
      Json.asString?]
  | .goto mark span, h, depth, nesting, hd => by
    rw [toJson] at hd ⊢
    obtain ⟨rest, rfl, -⟩ := exists_level hd
    have hspan : span.Fits := (every_self h).span
    rw [ofJson?, open?_node nesting (by rfl) (by rfl)]
    simp [Json.required?, named_nodeParts, ofMembers?_nodeParts hspan, Json.named,
      Json.asString?]

/-- Statements are read as they were written. -/
theorem mapM_listToJson : ∀ (block : List Stmt), everyAll OwnFits block → ∀ (depth : Nat),
    (Json.arr (listToJson block)).height ≤ depth →
      (listToJson block).mapM (Stmt.ofJson? depth .inner) = some block
  | [], _, _, _ => by
    rw [listToJson]
    rfl
  | stmt :: rest, h, depth, hd => by
    rw [listToJson, Json.height, Json.heightItems] at hd
    have hfirst := ofJson?_toJson stmt (everyAll_cons.mp h).1 depth .inner (by omega)
    have hrest := mapM_listToJson rest (everyAll_cons.mp h).2 depth (by rw [Json.height]; omega)
    rw [listToJson, List.mapM_cons, hfirst, hrest]
    rfl

end

mutual

/-- What is written for a statement stands for something. -/
theorem isWhole_toJson : ∀ stmt : Stmt, stmt.toJson.isWhole = true
  | .declare _ shape init _ => by
    rw [toJson, isWhole_node]
    simp [Json.isWholeMembers, Json.isWhole, Shape.toJson, Expr.isWhole_optionToJson]
  | .assign target value _ => by
    rw [toJson, isWhole_node]
    simp [Json.isWholeMembers, Expr.isWhole_toJson]
  | .cond test yes none _ => by
    rw [toJson, isWhole_node]
    simp [Json.isWholeMembers, Json.isWhole, Expr.isWhole_toJson, isWholeItems_listToJson yes]
  | .cond test yes (some no) _ => by
    rw [toJson, isWhole_node]
    simp [Json.isWholeMembers, Json.isWhole, Expr.isWhole_toJson, isWholeItems_listToJson yes,
      isWholeItems_listToJson no]
  | .branch test _ _ => by
    rw [toJson, isWhole_node]
    simp [Json.isWholeMembers, Json.isWhole, Expr.isWhole_toJson]
  | .loop _ test body _ => by
    rw [toJson, isWhole_node]
    simp [Json.isWholeMembers, Json.isWhole, Expr.isWhole_toJson, isWholeItems_listToJson body]
  | .ret value _ => by
    rw [toJson, isWhole_node]
    simp [Json.isWholeMembers, Expr.isWhole_optionToJson]
  | .brk _ => by
    rw [toJson, isWhole_node]
    rfl
  | .throw value _ => by
    rw [toJson, isWhole_node]
    simp [Json.isWholeMembers, Expr.isWhole_toJson]
  | .attempt body catchVar handler _ => by
    rw [toJson, isWhole_node]
    cases catchVar <;>
      simp [Json.isWholeMembers, Json.isWhole, isWholeItems_listToJson body,
        isWholeItems_listToJson handler]
  | .eval expr _ => by
    rw [toJson, isWhole_node]
    simp [Json.isWholeMembers, Expr.isWhole_toJson]
  | .label .. => by
    rw [toJson, isWhole_node]
    rfl
  | .goto .. => by
    rw [toJson, isWhole_node]
    rfl

/-- What is written for statements stands for something. -/
theorem isWholeItems_listToJson (block : List Stmt) :
    Json.isWholeItems (listToJson block) = true := by
  cases block with
  | nil =>
    rw [listToJson]
    rfl
  | cons stmt rest =>
    rw [listToJson, Json.isWholeItems, isWhole_toJson stmt, isWholeItems_listToJson rest]
    rfl

end

/-- A statement that stands alone is read as it was written. -/
theorem read?_toJson {stmt : Stmt} (h : stmt.every OwnFits) :
    Stmt.read? stmt.toJson = some stmt := by
  rw [read?, isWhole_toJson, if_pos rfl]
  exact ofJson?_toJson stmt h _ .outer (Nat.le_refl _)

end Stmt

/-- What is read item by item as it was written is read as a list. -/
theorem mapM_map_eq_some {α : Type} {read : Json → Option α} {write : α → Json} {items : List α}
    (h : ∀ a ∈ items, read (write a) = some a) : (items.map write).mapM read = some items := by
  induction items with
  | nil => rfl
  | cons a rest ih =>
    rw [List.map_cons, List.mapM_cons, h a List.mem_cons_self,
      ih fun b hb => h b (List.mem_cons_of_mem a hb)]
    rfl

/-- A list is read as it was written. -/
theorem listOf?_map {α : Type} {read : Json → Option α} {write : α → Json} {items : List α}
    (h : ∀ a ∈ items, read (write a) = some a) :
    listOf? read (.arr (items.map write)) = some items := by
  simp [listOf?, Json.asItems?, mapM_map_eq_some h]

theorem Stmt.listToJson_eq_map (block : List Stmt) :
    Stmt.listToJson block = block.map Stmt.toJson := by
  induction block with
  | nil => rw [listToJson]; rfl
  | cons stmt rest ih => rw [listToJson, List.map_cons, ih]

/-- A block is read as it was written. -/
theorem Block.read?_toJson {block : Block} (h : Stmt.everyAll Stmt.OwnFits block) :
    Block.read? (Block.toJson block) = some block := by
  have hmem : ∀ stmt ∈ block, Stmt.read? stmt.toJson = some stmt := by
    intro stmt hstmt
    refine Stmt.read?_toJson fun part hpart => h part ?_
    induction block with
    | nil => cases hstmt
    | cons first rest ih =>
      rw [Stmt.partsOf, List.mem_append]
      rcases List.mem_cons.mp hstmt with rfl | hstmt
      · exact .inl hpart
      · exact .inr (ih (Stmt.everyAll_cons.mp h).2 hstmt)
  rw [Block.toJson, Stmt.listToJson_eq_map]
  simp [Block.read?, Json.asItems?, mapM_map_eq_some hmem]

theorem Param.read?_toJson (param : Param) : Param.read? param.toJson = some param := by
  simp [Param.read?, Param.toJson, Json.parts?, Json.required?, Json.orDefault?, Json.named,
    Json.asString?, Shape.ofMembers?, Shape.ofJson?_toJson]

/-- A global variable is read as it was written. -/
theorem Global.read?_toJson {g : Global} (h : g.Fits) : Global.read? g.toJson = some g := by
  have hinit := Expr.readOptional?_optionToJson Expr.read?
    ([("name", .str g.name), ("shape", g.shape.toJson),
      ("init", Expr.optionToJson g.init)] ++ g.span.member) "init" g.init
    (fun e he => Expr.read?_toJson (h.init e he))
    (by rw [Json.named_append, g.span.named_member (by simp)]; rfl)
  have hspan : Span.ofMembers? ([("name", .str g.name), ("shape", g.shape.toJson),
      ("init", Expr.optionToJson g.init)] ++ g.span.member) = some g.span :=
    Span.ofMembers?_append h.span rfl
  simp only [Global.read?, Global.toJson, Json.parts?, Option.bind_eq_bind, Option.bind_some,
    hinit, hspan]
  simp [Json.required?, Json.orDefault?, Json.named, g.span.named_member, Json.asString?,
    Shape.ofMembers?, Shape.ofJson?_toJson]

/-- An object with the parts of a method is read as that method. -/
theorem Method.read?_obj {members : List (String × Json)} {m : Method} (hid : m.id < Word.count32)
    (id : Json.required? members "id" = some (.int m.id))
    (name : Json.required? members "name" = some (.str m.name))
    (isEntryPoint : Json.orDefault? members "is_entry_point" Json.asBool? false =
      some m.isEntryPoint)
    (isAsync : Json.orDefault? members "is_async" Json.asBool? false = some m.isAsync)
    (params : Json.orDefault? members "params" (listOf? Param.read?) [] = some m.params)
    (body : Json.required? members "body" = some (Block.toJson m.body))
    (hbody : Block.read? (Block.toJson m.body) = some m.body)
    (span : Span.ofMembers? members = some m.span) :
    Method.read? (.obj members) = some m := by
  unfold Method.read? Json.parts?
  simp only [Option.bind_eq_bind, Option.bind_some]
  rw [id, Option.bind_some, Json.asNatBelow?_int hid, Option.bind_some, name, Option.bind_some,
    Json.asString?, Option.bind_some, isEntryPoint, Option.bind_some, isAsync, Option.bind_some,
    params, Option.bind_some, body, Option.bind_some, hbody, Option.bind_some, span,
    Option.bind_some]

/-- A method is read as it was written. -/
theorem Method.read?_toJson {m : Method} (h : m.Fits) : Method.read? m.toJson = some m := by
  have hnamed {name : String} (hname : name ≠ "span") (members : List (String × Json)) :
      Json.named name (members ++ m.span.member) = Json.named name members := by
    rw [Json.named_append, m.span.named_member hname, List.append_nil]
  have hparams := listOf?_map fun param (_ : param ∈ m.params) => Param.read?_toJson param
  refine Method.read?_obj h.id ?_ ?_ ?_ ?_ ?_ ?_ (Block.read?_toJson h.body)
    (Span.ofMembers?_append h.span rfl)
  · rw [Json.required?, hnamed (by simp)]; rfl
  · rw [Json.required?, hnamed (by simp)]; rfl
  · rw [Json.orDefault?, hnamed (by simp)]; rfl
  · rw [Json.orDefault?, hnamed (by simp)]; rfl
  · rw [Json.orDefault?, hnamed (by simp)]; exact hparams
  · rw [Json.required?, hnamed (by simp)]; rfl

/-- A program is read as it was written. -/
theorem Program.read?_toJson {p : Program} (h : p.Fits) : Program.read? p.toJson = some p := by
  have hmethods := listOf?_map fun m hm => Method.read?_toJson (h.methods m hm)
  have hglobals := listOf?_map fun g hg => Global.read?_toJson (h.globals g hg)
  have hassemblies : listOf? Json.asString? (.arr (p.assemblies.map .str)) = some p.assemblies :=
    listOf?_map fun _ _ => rfl
  simp [Program.read?, Program.toJson, Json.parts?, Json.required?, Json.orDefault?, Json.named,
    Json.asBool?, hmethods, hglobals, hassemblies]

end Stepwise
