import Stepwise.Proofs.Simulation.Copy

/-!
# Returned expressions

The target moves the synchronous calls of a returned expression in front of
it and keeps their values in variables of its own. The source makes the same
calls first, in the same order, and goes on with what is left of the
expression, in which the values of the calls stand in their places. Both then
evaluate the same.
-/

namespace Stepwise.Simulation

open Engine
open Lowering hiding Target

variable {T : Tie} {π π' : Pose} {w v w' v' : World} {site : Site} {c c' : Supply}
  {unsure : List String} {depth nesting : Nat}

/-- Both sides stand at a site of the lowering, in the same pose. -/
structure Standing (T : Tie) (site : Site) (c : Supply) (unsure : List String) (depth : Nat)
    (π : Pose) (w v : World) : Prop where
  /-- The site is known. -/
  known : T.Known site c
  /-- The pose is that of the site. -/
  fits : π.Fits T site c unsure
  /-- So many frames of the source are below. -/
  depth : π.below.length = depth
  /-- The worlds stand as the pose says. -/
  holds : π.Holds T w v

namespace Standing

/-- Code that declares nothing leads to the same site. -/
theorem later (h : Standing T site c unsure depth π w v) (hl : Later T c.names c'.names π π')
    {code : Block} (hd : Draws c code c') (hw : π'.Holds T w' v') :
    Standing T site c' unsure depth π' w' v' where
  known := h.known.later (hd.yields site []).toSupplies
  fits := by
    have hf := hl.fits h.known h.fits
    exact ⟨hf.result, by rw [hd.scopes]; exact hf.sees, hf.receives⟩
  depth := by rw [hl.below]; exact h.depth
  holds := hw

/-- Expressions with safe names are stable. -/
theorem stable (h : Standing T site c unsure depth π w v) (hcalls : CallsAt T depth) {e : Expr}
    (he : ∀ x ∈ e.locals, T.Usable unsure x) :
    Stable T c.names π (eval T.source.code.program T.source.call e) (render site c.scopes e) :=
  h.fits.stable h.known (by rw [h.depth]; exact hcalls) he

end Standing

/-- A variable of the target whose contents are known can be stored in. -/
theorem storeVariable_pinned {y : String} {j : Nat} {cell stored : Cell} {value : Val}
    {before after : List (Nat × Cell)} (h : π.Holds T w v)
    (hpins : π.pins = before ++ (j, cell) :: after) (hfind : π.find' y = some j)
    (hstore : cell.store value = .ok stored) :
    storeVariable y false value v =
        .done { v with memory := v.memory.setCell j stored } (.ok ()) ∧
      Pose.Holds T { π with pins := before ++ (j, stored) :: after } w
        { v with memory := v.memory.setCell j stored } := by
  have hmem : (j, cell) ∈ π.pins := by rw [hpins]; simp
  obtain ⟨hlookup, hcell⟩ := h.pinnedCell hfind hmem
  refine ⟨?_, h.storePinned hpins stored⟩
  unfold storeVariable
  simp only [hlookup, hcell, hstore]

/-- The way on with the value of a call that was kept in a new variable. -/
theorem temp_leads {low high : Nat} {temp : String} {span : Span} {β : Type} {π₁ π₂ π₃ : Pose}
    {x : Run β} {R : World → Except Unwind β → (Nat → Run Flow) → Prop}
    {block after : List Stmt} {stmt : Stmt} {j : Nat} {value : Val}
    (hpinned : Later T low (low + 1) π₁ π₂)
    (hpins : π₂.pins = (j, ⟨temp, .dynamic, .null⟩) :: π₁.pins) (hfind : π₂.find' temp = some j)
    (htemp : UpTo (low + 1) temp) (hlater : Later T (low + 1) high π₂ π₃) (h : π₃.Holds T w v)
    (hk : ∀ v π', Later T low high π₁ π' → π'.Holds T w v →
      Stable T high π' (pure value) (localVar temp span) →
      Leads T.terms x (route T.target block after v) R) :
    Leads T.terms x (concluding T.target block after stmt
      (storing T (some (localVar temp span)) value) v) R := by
  obtain ⟨more, hmore⟩ := hlater.pins
  rw [hpins] at hmore
  have hfind₃ : π₃.find' temp = some j :=
    (hlater.find'_eq (Tie.not_fresh_of_upTo htemp)).trans hfind
  have hkeeps : (⟨temp, .dynamic, .null⟩ : Cell).store value = .ok ⟨temp, .dynamic, value⟩ := rfl
  obtain ⟨hstore, hholds⟩ := storeVariable_pinned h hmore hfind₃ hkeeps
  have hstoring : storing T (some (localVar temp span)) value v =
      .done { v with memory := v.memory.setCell j ⟨temp, .dynamic, value⟩ } (.ok .next) :=
    Exec.bind_of_ok hstore
  rw [concluding_ok hstoring]
  have hrepin := (hpinned.trans hlater).repin (more ++ [(j, ⟨temp, .dynamic, value⟩)])
  rw [List.append_assoc, List.singleton_append] at hrepin
  have hknown : Pose.Pinned { π₃ with pins := more ++ (j, ⟨temp, .dynamic, value⟩) :: π₁.pins } temp
      value :=
    ⟨j, ⟨temp, .dynamic, value⟩, hfind₃, List.mem_append_right _ List.mem_cons_self, rfl⟩
  exact hk _ _ hrepin (hholds.observeTarget false stmt)
    (hknown.stable (htemp.mono hlater.bounds) span)

/-- Early ends while new names are taken lead to where they should. -/
def Fails (T : Tie) (low high : Nat) (π : Pose) (span : Span) {β : Type}
    (R : World → Except Unwind β → (Nat → Run Flow) → Prop) : Prop :=
  ∀ w u v u', Halts T (Closes T span) (T.Fresh low high) π w u v u' → R w (.error u) (halted v u')

namespace Fails

variable {low mid high : Nat} {span : Span} {β : Type}
  {R : World → Except Unwind β → (Nat → Run Flow) → Prop}

/-- Early ends in the first part. -/
theorem first (h : Fails T low high π span R) (hm : mid ≤ high) : Fails T low mid π span R :=
  fun w u v u' hh => h w u v u' (hh.mono (.refl π) (fun _ hy => hy.mono (Nat.le_refl _) hm) id)

/-- Early ends in the second part. -/
theorem second (h : Fails T low high π span R) (hl : Later T low mid π π') (hm : mid ≤ high) :
    Fails T mid high π' span R :=
  fun w u v u' hh => h w u v u' (hh.mono (hl.mono (Nat.le_refl _) hm).toGrows
    (fun _ hy => hy.mono hl.bounds (Nat.le_refl _)) id)

end Fails

section Parts

variable {low : Nat} {a b : Exec Val} {e e' : Expr} {xs : Exec (List Val)} {es : List Expr}
  (span : Span)

theorem Stable.property (h : Stable T low π a e) (name : String) :
    Stable T low π (do readProperty (.value (← a)) name) (.property e name span) := by
  intro high π' hl
  simp only [eval]
  exact (h high π' hl).bind fun _ => .readProperty _ _

theorem Stable.index (h : Stable T low π a e) (h' : Stable T low π b e') :
    Stable T low π (elementOf a b) (.index e e' span) := by
  intro high π' hl
  simp only [eval]
  exact (h high π' hl).bind fun _ => (h' high π' hl).bind fun _ =>
    .apply fun _ => tame_element _ _ _

theorem Stable.binary (op : BinaryOp) (h : Stable T low π a e) (h' : Stable T low π b e') :
    Stable T low π (operate op a b) (.binary op e e' span) := by
  intro high π' hl
  rw [eval_binary]
  exact (h high π' hl).operate op (h' high π' hl)

theorem Stable.unary (op : UnaryOp) (h : Stable T low π a e) :
    Stable T low π (do Exec.lift (Operators.unary op (← a))) (.unary op e span) := by
  intro high π' hl
  simp only [eval]
  exact (h high π' hl).bind fun _ => .lift (tame_unary _ _)

theorem Fed.callStatic (h : Fed T low π [] xs es) (typeName method : String) :
    Stable T low π (do onHost (.invoke (.type typeName) method (← xs)))
      (.callStatic typeName method es span) := by
  intro high π' hl
  simp only [eval]
  exact (h.later hl).steadyList.bind fun _ => .onHost (careful_invoke _ _ _)

theorem Stable.callOn (h : Stable T low π a e) (method : String) (h' : Fed T low π [] xs es) :
    Stable T low π (callOnOf a method xs) (.callOn e method es span) := by
  intro high π' hl
  simp only [eval]
  exact (h high π' hl).bind fun _ => (h'.later hl).steadyList.bind fun _ =>
    .onHost (careful_invoke _ _ _)

theorem Fed.create (h : Fed T low π [] xs es) (typeName : String) :
    Stable T low π (do
      let args ← xs
      onHost (.construct typeName args)) (.create typeName es span) := by
  intro high π' hl
  simp only [eval]
  exact (h.later hl).steadyList.bind fun _ => .onHost (careful_construct _ _)

theorem Fed.array (h : Fed T low π [] xs es) :
    Stable T low π (do newArray (← xs)) (.array es span) := by
  intro high π' hl
  simp only [eval]
  exact (h.later hl).steadyList.bind fun _ => .newArray _

/-- A call that is not moved is stable. -/
theorem Fed.call (h : Fed T low π [] xs es) (hcalls : CallsAt T π.below.length) (name : String) :
    Stable T low π (calling T.source.code.program T.source.call name xs) (.call name es span) := by
  intro high π' hl
  rw [eval_call]
  exact calling_steady (hcalls π' (by rw [hl.below])) (h.later hl).steadyList name

end Parts

/-- A method that is called synchronously is not called in an expression without calls. -/
theorem isSynchronous_false_of_callFree {setting : Setting} {method : String} {args : List Expr}
    {span : Span} (h : (Expr.call method args span).callFree setting.program = true) :
    isSynchronous setting method = false := by
  rw [Expr.callFree, Bool.and_eq_true] at h
  unfold isSynchronous
  cases hm : setting.program.method? method with
  | none => rfl
  | some callee =>
    have := h.1
    rw [hm] at this
    simpa using this

section Moving

variable {β : Type} {R : World → Except Unwind β → (Nat → Run Flow) → Prop} {span : Span}
  {block before after : List Stmt}

/-- A call that was moved: its value is kept in a new variable. -/
theorem movedCall_leads (hscene : Scene T depth nesting site) (hsharp : ¬ T.sharp)
    {method : String} {xs : Exec (List Val)} {es : List Expr} {callSpan : Span} {s s' : Progress}
    {call : Block} {k : Exec Val → Exec β}
    (hemits : Emits (emitCall T.setting (lowerBlock T.setting nesting) site method es
      (some (localVar (Lowering.fresh "temp" (s.names + 1)) callSpan)) callSpan callSpan)
      { s with names := s.names + 1 } call s')
    (hblock : block = before ++
      (.declare (Lowering.fresh "temp" (s.names + 1)) .dynamic none callSpan :: call ++ after))
    (hnodup : (Block.labels block).Nodup) (hstand : Standing T site s.supply unsure depth π w v)
    (hfed : Fed T s.names π (T.source.code.program.heeded T.source.wary method) xs es)
    (hk : ∀ a w v π', Later T s.names s'.names π π' →
      Standing T site s'.supply unsure depth π' w v →
      Stable T s'.names π' a (localVar (Lowering.fresh "temp" (s.names + 1)) callSpan) →
      Leads T.terms (k a w) (route T.target block after v) R)
    (herr : Fails T s.names s'.names π span R) :
    Leads T.terms
      ((calling T.source.code.program T.source.call method xs >>= fun value => k (pure value)) w)
      (route T.target block
        (.declare (Lowering.fresh "temp" (s.names + 1)) .dynamic none callSpan ::
          call ++ after) v) R := by
  have hdraws := emitCall_draws hscene.fits.structured
    (lowerBlock_yields hscene.fits.structured nesting) hemits
  have hnames : s.names + 1 ≤ s'.names := hdraws.names
  obtain ⟨v₁, hreach, hw₁⟩ := route_declare hstand.holds block
    (Lowering.fresh "temp" (s.names + 1)) .dynamic callSpan (call ++ after)
  have hpinned := hstand.holds.later_declarePinned hsharp "temp" s.names .dynamic .null
  refine Leads.after hreach ?_
  have hblock₁ : block =
      (before ++ [.declare (Lowering.fresh "temp" (s.names + 1)) .dynamic none callSpan]) ++
        (call ++ after) := by
    rw [hblock, List.append_assoc, List.singleton_append, List.cons_append]
  have hcall := emitCall_leads hscene hemits hblock₁ hnodup (by exact hstand.depth)
    (hfed.later hpinned) hw₁ hstand.fits.result
  refine Leads.bind hcall ?_ ?_
  · rintro w value Z ⟨v, π₃, stmt, hlater, hw, -, rfl⟩
    refine temp_leads hpinned rfl (search_bind_self _ _ _ _) ⟨_, _, Nat.le_refl _, rfl⟩ hlater hw ?_
    intro v π' hl hw' hs
    exact hk _ w v π' hl
      (hstand.later hl (hdraws.afterName (c := s.supply) (Nat.le_succ _)) hw') hs
  · rintro w u Z ⟨v, u', hh, rfl⟩
    refine herr.second hpinned hnames w u v u' (hh.mono (.refl _) (fun _ hy => hy) ?_)
    exact fun hc => hc.respan fun hs => absurd hs hsharp

/-- Making a call and going on with its value. -/
theorem calling_bind {p : Program} {caller : Caller} {name : String} {callee : Method}
    {xs : Exec (List Val)} {k : Val → Exec β} (hm : p.method? name = some callee)
    (hasync : callee.isAsync = false) :
    (calling p caller name xs >>= k) =
      (xs >>= fun values => caller callee values >>= fun value => k value) := by
  unfold calling
  simp only [hm, callOrSpawn, hasync, Bool.false_eq_true, if_false]
  exact Exec.bind_assoc xs _ k

/-- The calls of a part of an expression are made on both sides, before anything else is.
What is left of the part, `a` in the source and `e'` in the target, then is as `Left` says.
`settled` is the source up to there, `code` is the target. -/
def Moves (T : Tie) (site : Site) (unsure : List String) (depth : Nat) (block : List Stmt)
    (span : Span) {α β γ : Type} (R : World → Except Unwind β → (Nat → Run Flow) → Prop)
    (Left : Nat → Pose → Exec α → γ → Prop) (settled : (Exec α → Exec β) → Exec β)
    (s s' : Progress) (code : Block) (e' : γ) : Prop :=
  ∀ ⦃before after : List Stmt⦄ ⦃π : Pose⦄ ⦃w v : World⦄ ⦃k : Exec α → Exec β⦄,
    block = before ++ (code ++ after) → Standing T site s.supply unsure depth π w v →
    (∀ a w v π', Later T s.names s'.names π π' →
      Standing T site s'.supply unsure depth π' w v → Left s'.names π' a e' →
      Leads T.terms (k a w) (route T.target block after v) R) →
    Fails T s.names s'.names π span R →
    Leads T.terms (settled k w) (route T.target block (code ++ after) v) R

namespace Moves

variable {α α₁ α₂ γ γ₁ γ₂ : Type} {Left : Nat → Pose → Exec α → γ → Prop}
  {Left₁ : Nat → Pose → Exec α₁ → γ₁ → Prop} {Left₂ : Nat → Pose → Exec α₂ → γ₂ → Prop}
  {settled : (Exec α → Exec β) → Exec β} {settled₁ : (Exec α₁ → Exec β) → Exec β}
  {settled₂ : (Exec α₂ → Exec β) → Exec β} {s s₁ s' : Progress} {code code₁ code₂ : Block}
  {e' : γ} {e₁ : γ₁} {e₂ : γ₂}

/-- The calls of something made of one part are those of the part. -/
theorem one {build : Exec α₁ → Exec α}
    (h : Moves T site unsure depth block span R Left₁ settled₁ s s' code e₁)
    (hsettled : ∀ k, settled k = settled₁ fun a => k (build a))
    (hbuild : ∀ {low π a}, Left₁ low π a e₁ → Left low π (build a) e') :
    Moves T site unsure depth block span R Left settled s s' code e' := by
  intro before after π w v k hb hst hk herr
  rw [hsettled]
  refine h hb hst ?_ herr
  exact fun a w v π' hl hst' ha => hk _ w v π' hl hst' (hbuild ha)

/-- The calls of something made of two parts are those of the first part and then those of
the second one. What is left of the first part stays as it is meanwhile. -/
theorem two {build : Exec α₁ → Exec α₂ → Exec α}
    (h₁ : Moves T site unsure depth block span R Left₁ settled₁ s s₁ code₁ e₁)
    (h₂ : Moves T site unsure depth block span R Left₂ settled₂ s₁ s' code₂ e₂)
    (hnames : s₁.names ≤ s'.names)
    (hsettled : ∀ k, settled k = settled₁ fun a => settled₂ fun b => k (build a b))
    (hbuild : ∀ {mid low π π' a b}, Left₁ mid π a e₁ → Later T mid low π π' →
      Left₂ low π' b e₂ → Left low π' (build a b) e') :
    Moves T site unsure depth block span R Left settled s s' (code₁ ++ code₂) e' := by
  intro before after π w v k hb hst hk herr
  rw [List.append_assoc] at hb ⊢
  rw [hsettled]
  refine h₁ hb hst ?_ (herr.first hnames)
  intro a w v π₁ hl₁ hst₁ ha
  have hb₂ : block = (before ++ code₁) ++ (code₂ ++ after) := by rw [hb, List.append_assoc]
  refine h₂ hb₂ hst₁ ?_ (herr.second hl₁ hnames)
  exact fun b w v π₂ hl₂ hst₂ hs => hk _ w v π₂ (hl₁.trans hl₂) hst₂ (hbuild ha hl₂ hs)

/-- The calls of something are those of its first part, if what comes with it has none. -/
theorem first {build : Exec α₁ → Exec α}
    (h : Moves T site unsure depth block span R Left₁ settled₁ s s₁ code e₁)
    (hs : s'.supply = s₁.supply) (hsettled : ∀ k, settled k = settled₁ fun a => k (build a))
    (hbuild : ∀ {π w v a}, Standing T site s₁.supply unsure depth π w v →
      Left₁ s₁.names π a e₁ → Left s₁.names π (build a) e') :
    Moves T site unsure depth block span R Left settled s s' code e' := by
  intro before after π w v k hb hst hk herr
  have hnames : s'.names = s₁.names := congrArg Supply.names hs
  rw [hnames, hs] at hk
  rw [hnames] at herr
  rw [hsettled]
  refine h hb hst ?_ herr
  exact fun a w v π₁ hl₁ hst₁ ha => hk _ w v π₁ hl₁ hst₁ (hbuild hst₁ ha)

/-- An expression without operands stays where it is. -/
theorem leaf (hscene : Scene T depth nesting site) {e e' : Expr}
    {settled : (Exec Val → Exec β) → Exec β} (he : e' = render site s.scopes e)
    (hs : s'.supply = s.supply) (hlocals : ∀ x ∈ e.locals, T.Usable unsure x)
    (hsettled : ∀ k, settled k = k (eval T.setting.program T.source.call e)) :
    Moves T site unsure depth block span R (Stable T) settled s s' [] e' := by
  intro before after π w v k hb hst hk herr
  have hnames : s'.names = s.names := congrArg Supply.names hs
  have hstable := hst.stable hscene.calls hlocals
  rw [T.source_program] at hstable
  rw [hnames, hs, he] at hk
  rw [hsettled]
  exact hk _ w v π (.refl _ π) hst hstable

end Moves

section Calls

variable {s s₁ s' : Progress} {code : Block} {method : String} {args as : List Expr}
  {callSpan : Span}

/-- The callee of a call that is moved is called synchronously. -/
theorem exists_of_isSynchronous (h : isSynchronous T.setting method = true) :
    ∃ callee, T.setting.program.method? method = some callee ∧ callee.isAsync = false := by
  unfold isSynchronous at h
  cases hm : T.setting.program.method? method with
  | none => simp [hm] at h
  | some callee => exact ⟨callee, rfl, by simpa [hm] using h⟩

/-- A call that was moved comes behind those of its arguments. -/
theorem Moves.movedCall (hscene : Scene T depth nesting site)
    (hnodup : (Block.labels block).Nodup)
    (hsharp : T.sharp → (Expr.call method args callSpan).callFree T.setting.program = true)
    (hsync : isSynchronous T.setting method = true) {call : Block}
    (hemits : Emits (emitCall T.setting (lowerBlock T.setting nesting) site method as
      (some (localVar (Lowering.fresh "temp" (s₁.names + 1)) callSpan)) callSpan callSpan)
      { s₁ with names := s₁.names + 1 } call s')
    (hargs : Moves T site unsure depth block span R
      (fun low π => Fed T low π (T.setting.program.heeded T.source.wary method))
      (settleList T.setting.program T.source.wary T.source.call
        (T.setting.program.heeded T.source.wary method) args) s s₁ code as) :
    Moves T site unsure depth block span R (Stable T)
      (settle T.setting.program T.source.wary T.source.call (.call method args callSpan)) s s'
      (code ++ .declare (Lowering.fresh "temp" (s₁.names + 1)) .dynamic none callSpan :: call)
      (localVar (Lowering.fresh "temp" (s₁.names + 1)) callSpan) := by
  have hnot : ¬ T.sharp := by
    intro hs
    rw [isSynchronous_false_of_callFree (hsharp hs)] at hsync
    cases hsync
  obtain ⟨callee, hfound, hasync⟩ := exists_of_isSynchronous hsync
  have hd : s₁.names + 1 ≤ s'.names := (emitCall_draws hscene.fits.structured
    (lowerBlock_yields hscene.fits.structured nesting) hemits).names
  intro before after π w v k hb hst hk herr
  rw [List.append_assoc] at hb ⊢
  rw [settle]
  refine hargs hb hst ?_ (herr.first (Nat.le_of_succ_le hd))
  intro xs w v π₁ hl₁ hst₁ hs₁
  rw [← List.append_assoc] at hb
  rw [← T.source_program] at hs₁
  have hmoved := movedCall_leads (k := k) hscene hnot hemits hb hnodup hst₁ hs₁
    (fun a w v π₂ hl₂ hst₂ hs₂ => hk a w v π₂ (hl₁.trans hl₂) hst₂ hs₂)
    (herr.second hl₁ (Nat.le_of_succ_le hd))
  rw [T.source_program, calling_bind hfound hasync] at hmoved
  simp only [hfound, hasync, Bool.false_eq_true, if_false]
  exact hmoved

/-- What is left of a call that is not moved: the call, which is missing or asynchronous. -/
theorem settle_call_kept {p : Program} {wary : Bool} {caller : Caller}
    (hkept : ∀ callee, p.method? method = some callee → callee.isAsync = true)
    (k : Exec Val → Exec β) :
    settle p wary caller (.call method args callSpan) k =
      settleList p wary caller [] args fun xs => k (calling p caller method xs) := by
  have hheeded : p.heeded wary method = [] := by
    unfold Program.heeded
    cases hm : p.method? method with
    | none => rfl
    | some callee => simp [hkept callee hm]
  rw [settle, hheeded]
  refine congrArg (settleList p wary caller [] args) (funext fun xs => ?_)
  unfold calling
  cases hm : p.method? method with
  | none => rfl
  | some callee => simp only [hkept callee hm, if_true]

/-- A call that is not moved stays behind the calls of its arguments. -/
theorem Moves.keptCall (hscene : Scene T depth nesting site)
    (hsync : isSynchronous T.setting method = false) (hs : s'.supply = s₁.supply)
    (hargs : Moves T site unsure depth block span R (fun low π => Fed T low π [])
      (settleList T.setting.program T.source.wary T.source.call [] args) s s₁ code as) :
    Moves T site unsure depth block span R (Stable T)
      (settle T.setting.program T.source.wary T.source.call (.call method args callSpan)) s s' code
      (.call method as callSpan) := by
  have hkept : ∀ callee, T.setting.program.method? method = some callee →
      callee.isAsync = true := by
    intro callee hm
    unfold isSynchronous at hsync
    simpa [hm] using hsync
  refine hargs.first hs (settle_call_kept hkept) ?_
  intro π w v xs hst hfed
  have hstable := hfed.call callSpan (by rw [hst.depth]; exact hscene.calls) method
  rwa [T.source_program] at hstable

end Calls

/-- Moving the calls of an expression uses up names. -/
theorem hoist_names (hscene : Scene T depth nesting site) {e e' : Expr} {s s' : Progress}
    {code : Block}
    (h : Emits (hoist T.setting (lowerBlock T.setting nesting) site e) s (code, e') s') :
    s.names ≤ s'.names :=
  (hoist_draws hscene.fits.structured (lowerBlock_yields hscene.fits.structured nesting) e h).names

mutual

/-- The calls of an expression are made on both sides, and what is left is stable. -/
theorem hoist_moves (hscene : Scene T depth nesting site) (hnodup : (Block.labels block).Nodup) :
    ∀ (e : Expr) {s s' : Progress} {code : Block} {e' : Expr},
      Emits (hoist T.setting (lowerBlock T.setting nesting) site e) s (code, e') s' →
      (∀ x ∈ e.locals, T.Usable unsure x) →
      (T.sharp → e.callFree T.setting.program = true) →
      Moves T site unsure depth block span R (Stable T)
        (settle T.setting.program T.source.wary T.source.call e) s s' code e'
  | .literal .., _, _, _, _, h, hlocals, _ => by
    unfold hoist at h
    obtain ⟨rfl, he, hs⟩ := emits_hoist_leaf h
    exact .leaf hscene he hs hlocals fun k => by rw [settle]
  | .var .., _, _, _, _, h, hlocals, _ => by
    unfold hoist at h
    obtain ⟨rfl, he, hs⟩ := emits_hoist_leaf h
    exact .leaf hscene he hs hlocals fun k => by rw [settle]
  | .staticProperty .., _, _, _, _, h, hlocals, _ => by
    unfold hoist at h
    obtain ⟨hpair, rfl⟩ := emits_pure.mp h
    cases hpair
    exact .leaf hscene (render_staticProperty _ _ _ _ _).symm rfl hlocals fun k => by rw [settle]
  | .property object name sp, _, _, _, _, h, hlocals, hsharp => by
    unfold hoist at h
    obtain ⟨a, h₁, rfl⟩ := emits_hoist_one (.property · name sp) h
    rw [Expr.locals] at hlocals
    rw [Expr.callFree] at hsharp
    have hobject := hoist_moves hscene hnodup object h₁ hlocals hsharp
    exact hobject.one (fun k => by rw [settle]) (·.property sp name)
  | .unary op operand sp, _, _, _, _, h, hlocals, hsharp => by
    unfold hoist at h
    obtain ⟨a, h₁, rfl⟩ := emits_hoist_one (.unary op · sp) h
    rw [Expr.locals] at hlocals
    rw [Expr.callFree] at hsharp
    have hoperand := hoist_moves hscene hnodup operand h₁ hlocals hsharp
    exact hoperand.one (fun k => by rw [settle]) (·.unary sp op)
  | .callStatic typeName method args sp, _, _, _, _, h, hlocals, hsharp => by
    unfold hoist at h
    obtain ⟨as, h₁, rfl⟩ := emits_hoist_list (.callStatic typeName method · sp) h
    rw [Expr.locals] at hlocals
    rw [Expr.callFree] at hsharp
    have hargs := hoistList_moves hscene hnodup [] args h₁ hlocals hsharp
    exact hargs.one (fun k => by rw [settle]) (·.callStatic sp typeName method)
  | .create typeName args sp, _, _, _, _, h, hlocals, hsharp => by
    unfold hoist at h
    obtain ⟨as, h₁, rfl⟩ := emits_hoist_list (.create typeName · sp) h
    rw [Expr.locals] at hlocals
    rw [Expr.callFree] at hsharp
    have hargs := hoistList_moves hscene hnodup [] args h₁ hlocals hsharp
    exact hargs.one (fun k => by rw [settle]) (·.create sp typeName)
  | .array items sp, _, _, _, _, h, hlocals, hsharp => by
    unfold hoist at h
    obtain ⟨as, h₁, rfl⟩ := emits_hoist_list (.array · sp) h
    rw [Expr.locals] at hlocals
    rw [Expr.callFree] at hsharp
    have hitems := hoistList_moves hscene hnodup [] items h₁ hlocals hsharp
    exact hitems.one (fun k => by rw [settle]) (·.array sp)
  | .index target position sp, _, _, _, _, h, hlocals, hsharp => by
    unfold hoist at h
    obtain ⟨b₁, a₁, s₁, b₂, a₂, h₁, h₂, rfl, rfl⟩ := emits_hoist_two (.index · · sp) h
    rw [Expr.locals, List.forall_mem_append] at hlocals
    simp only [Expr.callFree, Bool.and_eq_true] at hsharp
    have htarget := hoist_moves hscene hnodup target h₁ hlocals.1 fun hs => (hsharp hs).1
    have hposition := hoist_moves hscene hnodup position h₂ hlocals.2 fun hs => (hsharp hs).2
    exact htarget.two hposition (hoist_names hscene h₂) (fun k => by rw [settle])
      fun hs₁ hl hs₂ => (hs₁.later hl).index sp hs₂
  | .callOn object method args sp, _, _, _, _, h, hlocals, hsharp => by
    obtain ⟨b₁, as, s₁, b₂, o, h₁, h₂, rfl, rfl⟩ := emits_hoist_callOn h
    rw [Expr.locals, List.forall_mem_append] at hlocals
    simp only [Expr.callFree, Bool.and_eq_true] at hsharp
    have hargs := hoistList_moves hscene hnodup [] args h₁ hlocals.2 fun hs => (hsharp hs).2
    have hobject := hoist_moves hscene hnodup object h₂ hlocals.1 fun hs => (hsharp hs).1
    exact hargs.two hobject (hoist_names hscene h₂) (fun k => by rw [settle])
      fun hs₁ hl hs₂ => hs₂.callOn sp method (hs₁.later hl)
  | .binary op left right sp, _, _, _, _, h, hlocals, hsharp => by
    obtain ⟨b₁, a₁, s₁, h₁, hright⟩ := emits_hoist_binary h
    rw [Expr.locals, List.forall_mem_append] at hlocals
    simp only [Expr.callFree, Bool.and_eq_true] at hsharp
    have hleft := hoist_moves hscene hnodup left h₁ hlocals.1 fun hs => (hsharp hs).1
    obtain ⟨hop, hs, rfl, rfl⟩ | ⟨hop, b₂, a₂, h₂, rfl, rfl⟩ := hright
    -- An operand that may be left out keeps its calls.
    · have hbuild : ∀ {π w v a}, Standing T site s₁.supply unsure depth π w v →
          Stable T s₁.names π a a₁ →
          Stable T s₁.names π (operate op a (eval T.setting.program T.source.call right))
            (.binary op a₁ (render site s₁.scopes right) sp) := by
        intro π w v a hst hs₁
        have hstable := hst.stable hscene.calls hlocals.2
        rw [T.source_program] at hstable
        exact hs₁.binary sp op hstable
      exact hleft.first hs (fun k => by simp only [settle, hop, if_true]) hbuild
    · have hmoves := hoist_moves hscene hnodup right h₂ hlocals.2 fun hs => (hsharp hs).2
      exact hleft.two hmoves (hoist_names hscene h₂)
        (fun k => by simp only [settle, hop, Bool.false_eq_true, if_false])
        fun hs₁ hl hs₂ => (hs₁.later hl).binary sp op hs₂
  | .call method args sp, _, _, _, _, h, hlocals, hsharp => by
    obtain ⟨b, as, s₁, h₁, hcall⟩ := emits_hoist_call h
    rw [Expr.locals] at hlocals
    have hfree : T.sharp → Expr.listCallFree T.setting.program args = true := by
      intro hs
      have hcallFree := hsharp hs
      rw [Expr.callFree, Bool.and_eq_true] at hcallFree
      exact hcallFree.2
    obtain ⟨hsync, call, hemits, rfl, rfl⟩ | ⟨hsync, hs, rfl, rfl⟩ := hcall
    · have hargs := hoistList_moves hscene hnodup
        (T.setting.program.heeded T.source.wary method) args h₁ hlocals hfree
      exact hargs.movedCall hscene hnodup hsharp hsync hemits
    · have hargs := hoistList_moves hscene hnodup [] args h₁ hlocals hfree
      exact hargs.keptCall hscene hsync hs

/-- The calls of expressions are made on both sides, and what is left is stable. -/
theorem hoistList_moves (hscene : Scene T depth nesting site)
    (hnodup : (Block.labels block).Nodup) :
    ∀ (params : List Param) (es : List Expr) {s s' : Progress} {code : Block} {es' : List Expr},
      Emits (hoistList T.setting (lowerBlock T.setting nesting) site es) s (code, es') s' →
      (∀ x ∈ Expr.listLocals es, T.Usable unsure x) →
      (T.sharp → Expr.listCallFree T.setting.program es = true) →
      Moves T site unsure depth block span R (fun low π => Fed T low π params)
        (settleList T.setting.program T.source.wary T.source.call params es) s s' code es'
  | _, [], _, _, _, _, h, _, _ => by
    unfold hoistList at h
    obtain ⟨hpair, rfl⟩ := emits_pure.mp h
    cases hpair
    intro before after π w v k hb hst hk herr
    rw [settleList]
    exact hk _ w v π (.refl _ π) hst .nil
  | params, e :: rest, _, _, _, _, h, hlocals, hsharp => by
    obtain ⟨b₁, a₁, s₁, b₂, as, h₁, h₂, rfl, rfl⟩ := emits_hoistList_cons h
    rw [Expr.listLocals, List.forall_mem_append] at hlocals
    simp only [Expr.listCallFree, Bool.and_eq_true] at hsharp
    have hfirst := hoist_moves hscene hnodup e h₁ hlocals.1 fun hs => (hsharp hs).1
    have hrest :=
      hoistList_moves hscene hnodup params.tail rest h₂ hlocals.2 fun hs => (hsharp hs).2
    have hnames := (hoistList_draws hscene.fits.structured
      (lowerBlock_yields hscene.fits.structured nesting) rest h₂).names
    exact hfirst.two hrest hnames (fun k => by rw [settleList])
      fun hs₁ hl hs₂ => .cons (hs₁.later hl) hs₂

end

end Moving

end Stepwise.Simulation
